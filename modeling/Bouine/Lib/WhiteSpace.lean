import Mathlib.Data.List.DropRight
import Bouine.Lib.Path
import Bouine.Lib.Text

/-! # White space

What `trimSpace` takes off and leaves. The spellings of spaces are a code in which no word begins
inside another, so trimming goes word by word from either end, and does not pass a separator that is
part of no space.
-/

namespace Bouine.Lib

open List Nat

variable {ws : List Bytes} {s : Bytes}

def trimEnd (s : Bytes) : Bytes :=
  (stripFront (spaces.map List.reverse) s.length s.reverse).reverse

theorem trimSpace_eq (s : Bytes) : trimSpace s = trimEnd (stripFront spaces s.length s) := rfl

theorem trimSpace_nil : trimSpace [] = [] := rfl

/-- A word that does not reach from `s` into `u` begins the two only if it begins `s`. -/
theorem initial_append_iff {w s u : Bytes} (hcross : ∀ t, t ≠ [] → w = s ++ t → ¬ t <+: u) :
    w <+: s ++ u ↔ w <+: s := by
  refine ⟨fun h => ?_, fun h => h.trans (prefix_append s u)⟩
  rcases prefix_or_prefix_of_prefix h (prefix_append s u) with h' | ⟨t, rfl⟩
  · exact h'
  · by_cases ht : t = []
    · rw [ht, append_nil]
    · exact absurd ((prefix_append_right_inj s).1 h) (hcross t ht rfl)

/-! ## Word by word -/

/-- Where no word begins another, a string that begins with a word is read as that word. -/
theorem find_word (hfree : ∀ v ∈ ws, ∀ v' ∈ ws, v <+: v' → v = v') {w : Bytes} (hw : w ∈ ws)
    (t : Bytes) : ws.find? (·.isPrefixOf (w ++ t)) = some w := by
  cases hfind : ws.find? (·.isPrefixOf (w ++ t)) with
  | none => exact absurd (by simp) (find?_eq_none.1 hfind w hw)
  | some v =>
    have hv := mem_of_find?_eq_some hfind
    have hinit := find?_some hfind
    have hlead := isPrefixOf_iff_prefix.1 hinit
    rcases prefix_or_prefix_of_prefix hlead (prefix_append w t) with h | h
    · rw [hfree v hv w hw h]
    · rw [hfree w hw v hv h]

theorem space_unique : ∀ w ∈ spaces, ∀ w' ∈ spaces, w <+: w' ∨ w <:+ w' → w = w' := by decide

theorem space_inside : ∀ w ∈ spaces, ∀ w' ∈ spaces, ∀ t ∈ w'.tails.drop 1, t ≠ [] →
    ¬ (t <+: w ∨ w <+: t) := by
  decide

section

variable {w : Bytes} (hw : w ∈ spaces)

include hw

theorem find_space (t : Bytes) : spaces.find? (·.isPrefixOf (w ++ t)) = some w :=
  find_word (fun v hv v' hv' h => space_unique v hv v' hv' (.inl h)) hw t

theorem find_reversed_space (t : Bytes) :
    (spaces.map List.reverse).find? (·.isPrefixOf (w.reverse ++ t)) = some w.reverse := by
  refine find_word ?_ (mem_map_of_mem hw) t
  intro r hr r' hr' h
  obtain ⟨v, hv, rfl⟩ := mem_map.1 hr
  obtain ⟨v', hv', rfl⟩ := mem_map.1 hr'
  rw [space_unique v hv v' hv' (.inr ( reverse_prefix.1 h))]

theorem trimEnd_append_space (s : Bytes) : trimEnd (s ++ w) = trimEnd s := by
  rw [trimEnd, trimEnd, reverse_append, stripFront_word (m := s.length) reversed_spaces_ne_nil
    (find_reversed_space hw _) (by simp [Nat.add_comm]) (by simp)]

theorem space_initial_append_space {w' s : Bytes} (hw' : w' ∈ spaces) (hs : s ≠ []) :
    w' <+: s ++ w ↔ w' <+: s := by
  refine initial_append_iff fun t ht heq hinit => ?_
  subst heq
  have htail : t ∈ (s ++ t).tails.drop 1 := by
    obtain ⟨x, s, rfl⟩ := exists_cons_of_ne_nil hs
    rw [cons_append, tails_cons, drop_succ_cons, drop_zero, mem_tails]
    exact suffix_append s t
  exact space_inside w hw (s ++ t) hw' t htail ht (.inl hinit)

/-- White space at the end does not change what is taken off the front, unless nothing else is
there. -/
theorem stripFront_append_space {n m : Nat} {s : Bytes} (hn : s.length ≤ n)
    (hm : (s ++ w).length ≤ m) :
    stripFront spaces m (s ++ w) = stripFront spaces n s ++ w ∨
      stripFront spaces m (s ++ w) = [] ∧ stripFront spaces n s = [] := by
  refine stripFront_induction (P := fun s r => ∀ m, (s ++ w).length ≤ m →
    stripFront spaces m (s ++ w) = r ++ w ∨ stripFront spaces m (s ++ w) = [] ∧ r = [])
    spaces_ne_nil (fun s hstop m hm => ?_) (fun w' t r hw' ih m hm => ?_) hn m hm
  · by_cases hs : s = []
    · subst hs
      have hword := stripFront_word (m := 0) spaces_ne_nil (find_space hw []) (n := m) (by simpa using hm) le_rfl
      rw [append_nil] at hword
      exact .inr ⟨hword, rfl⟩
    · refine .inl (stripFront_of_find (Eq.trans (find?_congr fun w' hw' => ?_) hstop) m)
      rw [Bool.eq_iff_iff, isPrefixOf_iff_prefix, isPrefixOf_iff_prefix]
      exact space_initial_append_space hw hw' hs
  · rw [append_assoc] at hm ⊢
    rw [stripFront_word spaces_ne_nil (find_space (mem_of_find?_eq_some hw') _) hm le_rfl]
    exact ih _ le_rfl

theorem trimSpace_append_space (s : Bytes) : trimSpace (s ++ w) = trimSpace s := by
  rw [trimSpace_eq, trimSpace_eq]
  rcases stripFront_append_space hw (le_refl s.length) (le_rfl) with h | ⟨h, h'⟩
  · rw [h, trimEnd_append_space hw]
  · rw [h, h']

theorem trimSpace_space_append (s : Bytes) : trimSpace (w ++ s) = trimSpace s := by
  rw [trimSpace_eq, trimSpace_eq, stripFront_word spaces_ne_nil (find_space hw s) le_rfl le_rfl]

end

theorem ows_mem_spaces {c : UInt8} (hc : isOWS c) : [c] ∈ spaces :=
  forall_byte (P := fun c => isOWS c = true → [c] ∈ spaces) (by decide +kernel) c hc

theorem trimSpace_rdropWhile_ows (s : Bytes) : trimSpace (s.rdropWhile isOWS) = trimSpace s := by
  induction s using reverseRecOn with
  | nil => rfl
  | append_singleton s c ih =>
    by_cases hc : isOWS c = true
    · rw [rdropWhile_concat_pos _ _ _ hc, ih, trimSpace_append_space (ows_mem_spaces hc)]
    · rw [rdropWhile_concat_neg _ _ _ hc]

theorem trimSpace_ows_append {b : Bytes} (hb : ∀ c ∈ b, isOWS c) (s : Bytes) :
    trimSpace (b ++ s) = trimSpace s := by
  induction b with
  | nil => rfl
  | cons c b ih =>
    rw [forall_mem_cons] at hb
    exact (trimSpace_space_append (ows_mem_spaces hb.1) (b ++ s)).trans (ih hb.2)

theorem trimSpace_append_ows {b : Bytes} (hb : ∀ c ∈ b, isOWS c) (s : Bytes) :
    trimSpace (s ++ b) = trimSpace s := by
  induction b generalizing s with
  | nil => rw [append_nil]
  | cons c b ih =>
    rw [forall_mem_cons] at hb
    rw [append_cons, ih hb.2, trimSpace_append_space (ows_mem_spaces hb.1)]

theorem trimSpace_trimOWS (s : Bytes) : trimSpace (trimOWS s) = trimSpace s := by
  have hfront : trimSpace (s.dropWhile isOWS) = trimSpace s := by
    conv_rhs => rw [← takeWhile_append_dropWhile (p := isOWS) (l := s)]
    exact (trimSpace_ows_append (fun c hc => mem_takeWhile_imp hc) _).symm
  exact (trimSpace_rdropWhile_ows _).trans hfront

/-! ## Trimming twice -/

theorem trimEnd_induction {P : Bytes → Prop} (hs : P s)
    (hstep : ∀ t w, w ∈ spaces → P (t ++ w) → P t) : P (trimEnd s) := by
  refine stripFront_induction (P := fun r r' => P r.reverse → P r'.reverse) reversed_spaces_ne_nil
    (fun _ _ h => h) (fun v t r hv ih h => ih ?_) (by simp) (by rwa [reverse_reverse])
  obtain ⟨w, hw, rfl⟩ := mem_map.1 (mem_of_find?_eq_some hv)
  refine hstep _ w hw ?_
  rwa [reverse_append, reverse_reverse] at h

theorem trimSpace_trimEnd (s : Bytes) : trimSpace (trimEnd s) = trimSpace s :=
  trimEnd_induction (P := fun t => trimSpace t = trimSpace s) rfl fun t w hw h => by
    rwa [trimSpace_append_space hw] at h

theorem trimSpace_stripFront (s : Bytes) :
    trimSpace (stripFront spaces s.length s) = trimSpace s := by
  have hnone : spaces.find? (·.isPrefixOf (stripFront spaces s.length s)) = none :=
    stripFront_induction (P := fun _ r => spaces.find? (·.isPrefixOf r) = none) spaces_ne_nil
      (fun _ h => h) (fun _ _ _ _ h => h) le_rfl
  rw [trimSpace_eq, stripFront_of_find hnone, ← trimSpace_eq]

theorem trimSpace_trimSpace (s : Bytes) : trimSpace (trimSpace s) = trimSpace s :=
  calc trimSpace (trimSpace s) = trimSpace (stripFront spaces s.length s) := trimSpace_trimEnd _
    _ = trimSpace s := trimSpace_stripFront s

/-! ## Pieces -/

theorem stripFront_append_sep (hne : ∀ w ∈ ws, w ≠ []) {c : UInt8} (hws : ∀ w ∈ ws, c ∉ w)
    {s t : Bytes} {n m : Nat} (hm : (s ++ c :: t).length ≤ m) (hn : s.length ≤ n) :
    stripFront ws m (s ++ c :: t) = stripFront ws n s ++ c :: t := by
  refine stripFront_comm (g := (· ++ c :: t)) hne (fun w hw s => ?_) (fun w _ s => append_assoc ..) hm hn
  refine initial_append_iff fun r hr heq hinit => hws w hw ?_
  obtain ⟨x, r, rfl⟩ := exists_cons_of_ne_nil hr
  obtain ⟨rfl, -⟩ := cons_prefix_cons.1 hinit
  simp [heq]

section

variable {c : UInt8} (hc : ∀ w ∈ spaces, c ∉ w)

include hc

theorem trimEnd_append_sep (s t : Bytes) : trimEnd (s ++ c :: t) = s ++ c :: trimEnd t := by
  have hrev : ∀ w ∈ spaces.map reverse, c ∉ w := by
    intro w hw hmem
    obtain ⟨w', hw', rfl⟩ := mem_map.1 hw
    exact hc w' hw' (mem_reverse.1 hmem)
  have hsplit : (s ++ c :: t).reverse = t.reverse ++ c :: s.reverse := by simp
  rw [trimEnd, hsplit, stripFront_append_sep (n := t.length) reversed_spaces_ne_nil hrev (by simp; omega)
    (by simp), trimEnd]
  simp

theorem trimSpace_of_ends {d : UInt8} (hd : ∀ w ∈ spaces, d ∉ w) (s : Bytes) :
    trimSpace (c :: s ++ [d]) = c :: s ++ [d] := by
  have hfront := stripFront_append_sep (s := []) (t := s ++ [d]) (n := 0) spaces_ne_nil hc le_rfl le_rfl
  rw [trimSpace_eq, cons_append]
  exact (congrArg trimEnd hfront).trans (trimEnd_append_sep hd (c :: s) [])

theorem map_trimSpace_splitOn_stripFront (s : Bytes) :
    (splitOn c (stripFront spaces s.length s)).map trimSpace = (splitOn c s).map trimSpace := by
  have hone {g : Bytes} (hg : c ∉ g) : (splitOn c (stripFront spaces g.length g)).map trimSpace =
      (splitOn c g).map trimSpace := by
    have hrest : c ∉ stripFront spaces g.length g := fun h => hg (mem_of_mem_stripFront h)
    rw [splitOn_of_notMem hg, splitOn_of_notMem hrest, map_singleton,
      map_singleton, trimSpace_stripFront]
  by_cases hmem : c ∈ s
  · obtain ⟨g, t, rfl, hg⟩ := eq_append_cons_of_mem hmem
    rw [stripFront_append_sep spaces_ne_nil hc le_rfl (le_refl g.length), splitOn_append_sep,
      splitOn_append_sep, map_append, map_append, hone hg]
  · exact hone hmem

theorem map_trimSpace_splitOn_trimEnd (s : Bytes) :
    (splitOn c (trimEnd s)).map trimSpace = (splitOn c s).map trimSpace := by
  refine splitOn_induction
    (P := fun s gs => (splitOn c (trimEnd s)).map trimSpace = gs.map trimSpace)
    (fun g hg => ?_) (fun g s gs hg ih => ?_) s
  · have hrest : c ∉ trimEnd g := fun h =>
      hg (mem_reverse.1 (mem_of_mem_stripFront (mem_reverse.1 h)))
    rw [splitOn_of_notMem hrest, map_singleton, map_singleton, trimSpace_trimEnd]
  · rw [trimEnd_append_sep hc, splitOn_append_sep, splitOn_of_notMem hg, map_append, ih]
    rfl

/-- Trimming a list of pieces does what trimming the pieces does. -/
theorem map_trimSpace_splitOn (s : Bytes) :
    (splitOn c (trimSpace s)).map trimSpace = (splitOn c s).map trimSpace := by
  rw [trimSpace_eq, map_trimSpace_splitOn_trimEnd hc, map_trimSpace_splitOn_stripFront hc]

end

/-! ## ASCII -/

section

variable {ws : List Bytes} {p : UInt8 → Bool} (hp : ∀ c, p c = true ↔ [c] ∈ ws)
  (hws : ∀ w ∈ ws, w.length = 1 ∨ ∃ c t, w = c :: t ∧ 0x80 ≤ c)

include hp hws

omit hp in
/-- Of the words only those of one byte begin an ASCII string. -/
theorem initial_ascii {w t : Bytes} {c : UInt8} (hw : w ∈ ws) (hc : c < 0x80) (h : w <+: c :: t) :
    w = [c] := by
  rcases hws w hw with hone | ⟨d, u, rfl, hd⟩
  · obtain ⟨d, rfl⟩ := length_eq_one_iff.1 hone
    rw [(cons_prefix_cons.1 h).1]
  · rw [(cons_prefix_cons.1 h).1] at hd
    exact absurd hc (UInt8.not_lt.2 hd)

theorem stripFront_ascii {n : Nat} {s : Bytes} (hs : ∀ c ∈ s, c < 0x80) (hn : s.length ≤ n) :
    stripFront ws n s = s.dropWhile p := by
  have hne : ∀ w ∈ ws, w ≠ [] := by
    intro w hw
    rcases hws w hw with hone | ⟨d, u, rfl, -⟩
    · exact ne_nil_of_length_eq_add_one hone
    · exact cons_ne_nil d u
  induction s generalizing n with
  | nil => exact stripFront_eq hne (m := 0) hn (le_rfl)
  | cons c t ih =>
    obtain ⟨n, rfl⟩ := exists_eq_add_one.2 (lt_of_lt_of_le (succ_pos _) hn)
    have hc := hs c (.head _)
    have hfound : ∀ w, ws.find? (·.isPrefixOf (c :: t)) = some w → w = [c] := by
      intro w hw
      have hinit := find?_some hw
      have hlead := isPrefixOf_iff_prefix.1 hinit
      exact initial_ascii hws (mem_of_find?_eq_some hw) hc hlead
    rw [stripFront]
    cases hw : ws.find? (·.isPrefixOf (c :: t)) with
    | some w =>
      obtain rfl := hfound w hw
      rw [dropWhile_cons_of_pos ((hp c).2 (mem_of_find?_eq_some hw))]
      exact ih (fun d hd => hs d (mem_cons_of_mem c hd)) (le_of_succ_le_succ hn)
    | none =>
      have hspace : ¬ p c = true := fun h =>
        find?_eq_none.1 hw [c] ((hp c).1 h) (by simp)
      rw [dropWhile_cons_of_neg hspace]

end

/-- On ASCII text only the spaces of one byte are trimmed. -/
theorem trimSpace_ascii {p : UInt8 → Bool} (hp : ∀ c, p c ↔ [c] ∈ spaces)
    (hs : ∀ c ∈ s, c < 0x80) : trimSpace s = (s.dropWhile p).rdropWhile p := by
  have hrev (c : UInt8) : p c ↔ [c] ∈ spaces.map reverse := by
    rw [hp, mem_map]
    constructor
    · exact fun h => ⟨[c], h, rfl⟩
    · rintro ⟨w, hw, hrev⟩
      rwa [reverse_eq_iff.1 hrev] at hw
  have hspaces : ∀ w ∈ spaces, w.length = 1 ∨ ∃ c t, w = c :: t ∧ 0x80 ≤ c := by simp [spaces]
  have hreversed : ∀ w ∈ spaces.map reverse, w.length = 1 ∨ ∃ c t, w = c :: t ∧ 0x80 ≤ c := by
    simp [spaces]
  have hfront := stripFront_ascii hp hspaces hs (le_rfl)
  have hback : ∀ c ∈ (s.dropWhile p).reverse, c < 0x80 := fun c hc =>
    hs c ((dropWhile_suffix p).subset (mem_reverse.1 hc))
  rw [trimSpace_eq, trimEnd, hfront, stripFront_ascii hrev hreversed hback (by rw [length_reverse])]
  rfl

theorem trimSpace_of_no_spaces (h : ∀ c ∈ s, c < 0x80 ∧ [c] ∉ spaces) : trimSpace s = s := by
  let p (c : UInt8) : Bool := decide ([c] ∈ spaces)
  have hp (c : UInt8) : p c ↔ [c] ∈ spaces := decide_eq_true_iff
  have hnone : ∀ c ∈ s, ¬ p c = true := fun c hc => (hp c).not.2 (h c hc).2
  rw [trimSpace_ascii hp fun c hc => (h c hc).1]
  cases s with
  | nil => rfl
  | cons c t =>
    rw [dropWhile_cons_of_neg (p := p) (hnone c (.head _)), rdropWhile_eq_self_iff]
    exact fun hne => hnone _ (getLast_mem hne)

end Bouine.Lib
