import Bouine.Lib.UrlQuery

/-! # Paths

The path of a URI, percent-decoded once, with dot segments resolved and slashes collapsed, as the
list of its segments: a clean path is `render` of plain segments, cleaning does nothing to it, and
never makes a path longer.
-/

namespace Bouine.Lib.Path

open List Nat

open Lib.UrlQuery (unhex)

def slash : UInt8 := byte '/'

/-! ## Percent decoding -/

def percentDecode : Bytes → Bytes
  | [] => []
  | [a] => [a]
  | [a, b] => [a, b]
  | c :: h :: l :: s =>
    if c = byte '%' then
      match unhex h, unhex l with
      | some x, some y => (x * 16 + y) :: percentDecode s
      | _, _ => c :: percentDecode (h :: l :: s)
    else c :: percentDecode (h :: l :: s)

variable {gs : List Bytes} {st : List Bytes} {c : UInt8}

theorem percentDecode_cons_of_ne (hc : c ≠ byte '%') (s : Bytes) :
    percentDecode (c :: s) = c :: percentDecode s := by
  match s with
  | [] => rfl
  | [_] => rfl
  | h :: l :: s => rw [percentDecode, if_neg hc]

theorem percentDecode_escape {h l x y : UInt8} (hx : unhex h = some x) (hy : unhex l = some y)
    (s : Bytes) : percentDecode (byte '%' :: h :: l :: s) = (x * 16 + y) :: percentDecode s := by
  rw [percentDecode, if_pos rfl, hx, hy]

theorem percentDecode_no_escape {h l : UInt8} (hhl : unhex h = none ∨ unhex l = none) (s : Bytes) :
    percentDecode (byte '%' :: h :: l :: s) = byte '%' :: percentDecode (h :: l :: s) := by
  rw [percentDecode, if_pos rfl]
  rcases hhl with hh | hl
  · rw [hh]
  · rw [hl]
    cases unhex h <;> rfl

theorem percentDecode_eq_or_lt (s : Bytes) :
    percentDecode s = s ∨ (percentDecode s).length < s.length := by
  have hkeep (c : UInt8) {s : Bytes}
      (ih : percentDecode s = s ∨ (percentDecode s).length < s.length) :
      c :: percentDecode s = c :: s ∨ (c :: percentDecode s).length < (c :: s).length := by
    rcases ih with heq | hlt
    · exact .inl (by rw [heq])
    · exact .inr (by simpa using hlt)
  fun_induction percentDecode s with
  | case1 => exact .inl rfl
  | case2 => exact .inl rfl
  | case3 => exact .inl rfl
  | case4 h l s x y hy hx ih =>
    right
    have hle : (percentDecode s).length ≤ s.length := by
      rcases ih with heq | hlt
      · rw [heq]
      · omega
    simp only [length_cons]
    omega
  | case5 h l s _ ih => exact hkeep _ ih
  | case6 c h l s hc ih => exact hkeep _ ih

theorem length_percentDecode_le (s : Bytes) : (percentDecode s).length ≤ s.length := by
  rcases percentDecode_eq_or_lt s with heq | hlt
  · rw [heq]
  · omega

theorem unhex_slash : unhex slash = none := rfl

theorem percentDecode_cons_slash (c : UInt8) (w : Bytes) :
    percentDecode (c :: slash :: w) = c :: slash :: percentDecode w := by
  have hne : slash ≠ byte '%' := by decide
  by_cases hc : c = byte '%'
  · subst hc
    cases w with
    | nil => rfl
    | cons d w => rw [percentDecode_no_escape (.inl unhex_slash), percentDecode_cons_of_ne hne]
  · rw [percentDecode_cons_of_ne hc, percentDecode_cons_of_ne hne]

theorem percentDecode_append_slash (a w : Bytes) :
    percentDecode (a ++ slash :: w) = percentDecode a ++ slash :: percentDecode w := by
  fun_induction percentDecode a with
  | case1 => exact percentDecode_cons_of_ne (by decide) w
  | case2 c => exact percentDecode_cons_slash c w
  | case3 c d =>
    show percentDecode (c :: d :: slash :: w) = _
    by_cases hc : c = byte '%'
    · subst hc
      rw [percentDecode_no_escape (.inr unhex_slash), percentDecode_cons_slash]
      rfl
    · rw [percentDecode_cons_of_ne hc, percentDecode_cons_slash]
      rfl
  | case4 h l s x y hy hx ih =>
    show percentDecode (byte '%' :: h :: l :: (s ++ slash :: w)) = _
    rw [percentDecode_escape hx hy, ih]
    rfl
  | case5 h l s hhl ih =>
    have hnone : unhex h = none ∨ unhex l = none := by
      cases hx : unhex h with
      | none => exact .inl rfl
      | some x =>
        cases hy : unhex l with
        | none => exact .inr rfl
        | some y => exact absurd hy (hhl x y hx)
    show percentDecode (byte '%' :: h :: l :: (s ++ slash :: w)) = _
    rw [percentDecode_no_escape hnone]
    exact congrArg _ ih
  | case6 c h l s hc ih =>
    show percentDecode (c :: h :: l :: (s ++ slash :: w)) = _
    rw [percentDecode_cons_of_ne hc]
    exact congrArg _ ih

/-! ## Segments -/

variable {g : Bytes}

/-- Strings that a separator joins are split one by one. -/
theorem splitOn_intercalate_flatMap (c : UInt8) (hne : gs ≠ []) :
    splitOn c (List.intercalate [c] gs) = gs.flatMap (splitOn c) := by
  induction gs with
  | nil => cases hne rfl
  | cons g gs ih =>
    cases gs with
    | nil => rw [intercalate_singleton, flatMap_singleton]
    | cons g' gs =>
      rw [intercalate_cons_cons, append_assoc, singleton_append,
        splitOn_append_sep, ih (cons_ne_nil g' gs)]
      rfl

theorem splitOn_intercalate (hne : gs ≠ []) (h : ∀ g ∈ gs, c ∉ g) :
    splitOn c (List.intercalate [c] gs) = gs := by
  have hsingle : ∀ g ∈ gs, splitOn c g = [g] := fun g hg => splitOn_of_notMem (h g hg)
  rw [splitOn_intercalate_flatMap c hne, flatMap_congr hsingle, flatMap_singleton']

def joined (gs : List Bytes) : Bytes := gs.flatMap (slash :: ·)

@[simp] theorem joined_nil : joined [] = [] := rfl

@[simp] theorem joined_append (gs gs' : List Bytes) : joined (gs ++ gs') = joined gs ++ joined gs' :=
  flatMap_append

@[simp] theorem joined_cons (g : Bytes) (gs : List Bytes) :
    joined (g :: gs) = slash :: g ++ joined gs :=
  flatMap_cons

theorem joined_splitOn (s : Bytes) : joined (splitOn slash s) = slash :: s :=
  splitOn_induction (P := fun s gs => joined gs = slash :: s) (by simp)
    (fun g s gs _ ih => by rw [joined_cons, ih, cons_append]) s

theorem splitOn_joined (h : ∀ g ∈ gs, slash ∉ g) : splitOn slash (joined gs) = [] :: gs := by
  induction gs with
  | nil => rfl
  | cons g gs ih =>
    have hrest := ih fun x hx => h x (.tail _ hx)
    have hg := splitOn_of_notMem (h g (.head _))
    rw [joined_cons, cons_append, splitOn, if_pos rfl]
    cases gs with
    | nil => rw [joined_nil, append_nil, hg]
    | cons g' gs =>
      rw [joined_cons, cons_append, splitOn_append_sep, hg]
      rw [joined_cons, cons_append] at hrest
      rw [(cons.inj hrest).2]
      rfl

def dot : Bytes := [byte '.']

def dotdot : Bytes := [byte '.', byte '.']

/-- A segment after the others: a dot stands for the place itself, two for the one above. -/
def push (st : List Bytes) (g : Bytes) : List Bytes :=
  if g = [] ∨ g = dot then st
  else if g = dotdot then st.dropLast
  else st ++ [g]

def resolve (st gs : List Bytes) : List Bytes := gs.foldl push st

def endsOpen (gs : List Bytes) : Bool :=
  match gs.getLast? with
  | none => true
  | some g => g = [] ∨ g = dot ∨ g = dotdot

def render (st : List Bytes) (isOpen : Bool) : Bytes :=
  joined st ++ if isOpen || st.isEmpty then [slash] else []

def cleanPath (d : Bytes) : Bytes :=
  let gs := splitOn slash d
  render (resolve [] gs) (endsOpen gs)

def normalizePath (p : Bytes) : Bytes := cleanPath (percentDecode p)

example : normalizePath (ascii "/aaa%2Fbbb%2F%2E.%2Fxxx") = ascii "/aaa/xxx" := by decide

example : normalizePath (ascii "/a/b/../c/d/../e/..") = ascii "/a/c/" := by decide

structure Plain (g : Bytes) : Prop where
  nonempty : g ≠ []
  ne_dot : g ≠ dot
  ne_dotdot : g ≠ dotdot
  no_slash : slash ∉ g

theorem push_plain (hg : Plain g) (st : List Bytes) : push st g = st ++ [g] := by
  rw [push, if_neg (not_or.2 ⟨hg.nonempty, hg.ne_dot⟩), if_neg hg.ne_dotdot]

theorem resolve_append (st gs gs' : List Bytes) :
    resolve st (gs ++ gs') = resolve (resolve st gs) gs' :=
  foldl_append

theorem resolve_plain (h : ∀ g ∈ gs, Plain g) (st : List Bytes) : resolve st gs = st ++ gs := by
  induction gs generalizing st with
  | nil => exact (append_nil st).symm
  | cons g gs ih =>
    rw [resolve, foldl_cons, push_plain (h g (.head _))]
    have := ih (fun x hx => h x (.tail _ hx)) (st ++ [g])
    rwa [append_assoc] at this

/-- Without dot segments only the empty ones are dropped. -/
theorem resolve_undotted (h : ∀ g ∈ gs, g ≠ dot ∧ g ≠ dotdot) (st : List Bytes) :
    resolve st gs = st ++ gs.filter (· ≠ []) := by
  induction gs generalizing st with
  | nil => exact (append_nil st).symm
  | cons g gs ih =>
    obtain ⟨hdot, hdotdot⟩ := h g (.head _)
    have hrest := ih (fun x hx => h x (.tail _ hx)) (push st g)
    show resolve (push st g) gs = _
    rw [hrest, push]
    by_cases hempty : g = []
    · rw [if_pos (.inl hempty), filter_cons_of_neg (by simpa using hempty)]
    · rw [if_neg (not_or.2 ⟨hempty, hdot⟩), if_neg hdotdot,
        filter_cons_of_pos (by simpa using hempty), append_assoc]
      rfl

theorem plain_push (hst : ∀ x ∈ st, Plain x) (hg : slash ∉ g) :
    ∀ x ∈ push st g, Plain x := by
  rw [push]
  split_ifs with hempty hup
  · exact hst
  · exact fun x hx => hst x (mem_of_mem_dropLast hx)
  · exact forall_mem_concat.2
      ⟨hst, fun h => hempty (.inl h), fun h => hempty (.inr h), hup, hg⟩

theorem plain_resolve {st gs : List Bytes} (hst : ∀ x ∈ st, Plain x) (hgs : ∀ g ∈ gs, slash ∉ g) :
    ∀ x ∈ resolve st gs, Plain x := by
  induction gs generalizing st with
  | nil => exact hst
  | cons g gs ih =>
    exact ih (plain_push hst (hgs g (.head _))) fun x hx => hgs x (.tail _ hx)

theorem plain_resolve_splitOn (d : Bytes) : ∀ x ∈ resolve [] (splitOn slash d), Plain x :=
  plain_resolve (nofun) fun _ hg => notMem_of_mem_splitOn hg

/-! ## Clean paths -/

theorem render_eq_joined (st : List Bytes) (isOpen : Bool) :
    render st isOpen = joined (st ++ if isOpen || st.isEmpty then [[]] else []) := by
  rw [render, joined_append]
  split_ifs <;> rfl

theorem getLast?_plain (h : ∀ g ∈ st, Plain g) (hne : st ≠ []) : endsOpen ([] :: st) = false := by
  obtain ⟨st, g, rfl⟩ := eq_nil_or_concat' st |>.resolve_left hne
  have hg := h g (by simp)
  rw [endsOpen, ← cons_append, getLast?_append_cons]
  simp [hg.nonempty, hg.ne_dot, hg.ne_dotdot]

theorem cleanPath_render (h : ∀ g ∈ st, Plain g) (isOpen : Bool) :
    cleanPath (render st isOpen) = render st isOpen := by
  have hgs : ∀ g ∈ st ++ (if isOpen || st.isEmpty then [[]] else []), slash ∉ g := by
    intro g hg
    rcases mem_append.1 hg with hg | hg
    · exact (h g hg).no_slash
    · split_ifs at hg
      · rw [mem_singleton.1 hg]
        exact not_mem_nil
      · exact nomatch hg
  have hsplit : splitOn slash (render st isOpen) =
      [] :: (st ++ if isOpen || st.isEmpty then [[]] else []) := by
    rw [render_eq_joined, splitOn_joined hgs]
  rw [cleanPath, hsplit]
  show render (resolve [] (st ++ _)) _ = _
  rw [resolve_append, resolve_plain h]
  split_ifs with hopen
  · rw [← cons_append, endsOpen, getLast?_append_cons]
    rw [render, render, hopen]
    rfl
  · rw [append_nil]
    obtain ⟨hopen, hne⟩ : isOpen = false ∧ st ≠ [] := by simpa using hopen
    rw [getLast?_plain h hne, hopen]
    rfl

theorem cleanPath_cleanPath (d : Bytes) : cleanPath (cleanPath d) = cleanPath d :=
  cleanPath_render (plain_resolve_splitOn d) _

/-! ## Lengths -/

theorem length_joined_dropLast_le (st : List Bytes) :
    (joined st.dropLast).length ≤ (joined st).length := by
  rcases eq_nil_or_concat' st with rfl | ⟨st, x, rfl⟩
  · exact le_rfl
  · rw [dropLast_concat, joined_append, length_append]
    exact le_add_right _ _

theorem length_joined_resolve_le (st gs : List Bytes) :
    (joined (resolve st gs)).length ≤ (joined st).length + (joined gs).length := by
  induction gs generalizing st with
  | nil => exact le_add_right _ _
  | cons g gs ih =>
    have hpush : (joined (push st g)).length ≤ (joined st).length + (g.length + 1) := by
      have hup := length_joined_dropLast_le st
      rw [push]
      split_ifs
      · exact le_add_right _ _
      · omega
      · simp
    have hrest : (joined (resolve st (g :: gs))).length ≤ _ := ih (push st g)
    simp only [joined_cons, length_append, length_cons]
    omega

theorem endsOpen_append (gs : List Bytes) (g : Bytes) :
    endsOpen (gs ++ [g]) = decide (g = [] ∨ g = dot ∨ g = dotdot) := by
  rw [endsOpen, getLast?_append_cons]
  rfl

theorem length_render_resolve_le (hne : gs ≠ []) :
    (render (resolve [] gs) (endsOpen gs)).length ≤ (joined gs).length := by
  obtain ⟨init, last, rfl⟩ := (eq_nil_or_concat' gs).resolve_left hne
  have hinit := length_joined_resolve_le [] init
  have hlast : resolve [] (init ++ [last]) = push (resolve [] init) last := resolve_append _ _ _
  have htotal : (joined (init ++ [last])).length = (joined init).length + (last.length + 1) := by
    simp
  rw [joined_nil, length_nil, Nat.zero_add] at hinit
  rw [endsOpen_append, hlast]
  by_cases hopen : last = [] ∨ last = dot ∨ last = dotdot
  · -- the last segment adds nothing, and leaves room for the slash
    have hpush : (joined (push (resolve [] init) last)).length ≤ (joined init).length := by
      have hup := length_joined_dropLast_le (resolve [] init)
      rw [push]
      split_ifs with hhere habove
      · exact hinit
      · omega
      · exact absurd hopen (by tauto)
    rw [render, length_append]
    split_ifs <;> simp only [length_singleton, length_nil] <;> omega
  · obtain ⟨hempty, hdot, hdotdot⟩ : last ≠ [] ∧ last ≠ dot ∧ last ≠ dotdot := by tauto
    have hne : (resolve [] init ++ [last]).isEmpty = false := by simp
    rw [push, if_neg (not_or.2 ⟨hempty, hdot⟩), if_neg hdotdot, render, hne, decide_eq_false hopen]
    simp only [Bool.or_false, Bool.false_eq_true, if_false, append_nil, joined_append,
      length_append]
    omega

theorem length_cleanPath_le (d : Bytes) : (cleanPath (slash :: d)).length ≤ (slash :: d).length := by
  have hsplit : splitOn slash (slash :: d) = [] :: splitOn slash d := by rw [splitOn, if_pos rfl]
  have hopen : endsOpen ([] :: splitOn slash d) = endsOpen (splitOn slash d) := by
    rw [endsOpen, endsOpen, getLast?_cons_of_ne_nil (splitOn_ne_nil slash d)]
  rw [cleanPath, hsplit, hopen, ← joined_splitOn d]
  exact length_render_resolve_le (splitOn_ne_nil slash d)

/-! ## Segments in front -/

/-- Two dots take segments off the end, if there are any: what stands in front survives in part, and
what follows does not notice it. -/
theorem resolve_eq_take (st gs : List Bytes) :
    ∃ k, resolve st gs = st.take k ++ resolve [] gs := by
  induction gs using reverseRecOn with
  | nil => exact ⟨st.length, by simp [resolve]⟩
  | append_singleton gs g ih =>
    obtain ⟨k, hk⟩ := ih
    have hlast (st : List Bytes) : resolve st (gs ++ [g]) = push (resolve st gs) g :=
      resolve_append _ _ _
    rw [hlast, hlast, hk, push, push]
    split_ifs
    · exact ⟨k, rfl⟩
    · by_cases hempty : resolve [] gs = []
      · refine ⟨k ⊓ st.length - 1, ?_⟩
        rw [hempty, append_nil, dropLast_nil, append_nil, dropLast_eq_take, take_take, length_take]
        congr 1
        omega
      · exact ⟨k, by rw [dropLast_append_of_ne_nil hempty]⟩
    · exact ⟨k, by rw [append_assoc]⟩

theorem length_joined_plain (h : ∀ g ∈ st, Plain g) (hne : st ≠ []) : 2 ≤ (joined st).length := by
  cases st with
  | nil => cases hne rfl
  | cons g st =>
    have hg := length_pos_iff.2 (h g (.head _)).nonempty
    simp only [joined_cons, length_append, length_cons]
    omega

theorem length_render_le (st : List Bytes) (isOpen : Bool) :
    (render st isOpen).length ≤ (joined st).length + 1 := by
  rw [render]
  split_ifs <;> simp

theorem length_joined_le (st : List Bytes) (isOpen : Bool) :
    (joined st).length ≤ (render st isOpen).length := by
  rw [render, length_append]
  exact le_add_right _ _

/-- What stands in front of a path disappears from the clean path or makes it longer. -/
theorem cleanPath_front (a w : Bytes) :
    cleanPath (a ++ slash :: w) = cleanPath (slash :: w) ∨
      (cleanPath (slash :: w)).length < (cleanPath (a ++ slash :: w)).length := by
  have hopen : ∀ gs, endsOpen (gs ++ splitOn slash w) = endsOpen (splitOn slash w) := by
    intro gs
    rw [endsOpen, endsOpen, getLast?_append_of_ne_nil _ (splitOn_ne_nil slash w)]
  have hback : cleanPath (slash :: w) =
      render (resolve [] (splitOn slash w)) (endsOpen (splitOn slash w)) := by
    have hsplit : splitOn slash (slash :: w) = [[]] ++ splitOn slash w := by
      rfl
    rw [cleanPath, hsplit, hopen]
    rfl
  obtain ⟨k, hk⟩ := resolve_eq_take (resolve [] (splitOn slash a)) (splitOn slash w)
  rw [hback, cleanPath, splitOn_append_sep]
  rw [hopen, resolve_append, hk]
  have hplain : ∀ g ∈ (resolve [] (splitOn slash a)).take k, Plain g :=
    fun g hg => plain_resolve_splitOn a g (mem_of_mem_take hg)
  by_cases hgone : (resolve [] (splitOn slash a)).take k = []
  · left
    rw [hgone, nil_append]
  · right
    have hfront := length_joined_plain hplain hgone
    have hlow := length_joined_le ((resolve [] (splitOn slash a)).take k ++
      resolve [] (splitOn slash w)) (endsOpen (splitOn slash w))
    have hhigh := length_render_le (resolve [] (splitOn slash w)) (endsOpen (splitOn slash w))
    rw [joined_append, length_append] at hlow
    omega

theorem cleanPath_eq_cons (d : Bytes) :
    ∃ r : Bytes, cleanPath d = slash :: r ∧ r.head? ≠ some slash := by
  have hplain := plain_resolve_splitOn d
  rw [cleanPath]
  cases hst : resolve [] (splitOn slash d) with
  | nil => exact ⟨[], by simp [render], nofun⟩
  | cons g st =>
    rw [hst] at hplain
    have hg := hplain g (.head _)
    obtain ⟨c, g, rfl⟩ := exists_cons_of_ne_nil hg.nonempty
    refine ⟨c :: g ++ (joined st ++ _), by rw [render, joined_cons, append_assoc]; rfl, ?_⟩
    exact fun h => hg.no_slash (by rw [Option.some.inj h]; exact (.head _))

theorem cleanPath_eq_slash_or (a : Bytes) : cleanPath a = [slash] ∨ 1 < (cleanPath a).length := by
  by_cases hempty : resolve [] (splitOn slash a) = []
  · left
    rw [cleanPath, hempty]
    simp [render]
  · right
    have hlow := length_joined_le (resolve [] (splitOn slash a)) (endsOpen (splitOn slash a))
    exact lt_of_lt_of_le (length_joined_plain (plain_resolve_splitOn a) hempty) hlow

end Bouine.Lib.Path
