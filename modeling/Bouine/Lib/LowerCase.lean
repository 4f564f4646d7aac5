import Bouine.Lib.WhiteSpace
import Bouine.Lib.Utf8

/-! # Lower case, white space and separators

A string is put in lower case and trimmed character by character, and cut at a separator byte by
byte. Under the laws of `LowerTable` the order does not matter: characters are read the same way on
both sides of a byte that continues none (`runes_append`), so the text of a part is a part of the
text.
-/

namespace Bouine.Lib

open List Nat

/-! ## Where characters end -/

theorem isContinuation_of_secondOk {b₀ b₁ : UInt8} (h : secondOk b₀ b₁) :
    isContinuation b₁ = true := by
  rw [secondOk_iff] at h
  exact isContinuation_iff.2 h.1

namespace Decodes

variable {s : Bytes} {r w : Nat}

theorem append (h : Decodes s r w) (t : Bytes) : Decodes (s ++ t) r w := by
  cases h with
  | one s h₀ => exact .one (s ++ t) h₀
  | two s h₀ h₁ => exact .two (s ++ t) h₀ h₁
  | three s h₀ h₁ h₂ => exact .three (s ++ t) h₀ h₁ h₂
  | four s h₀ h₁ h₂ h₃ => exact .four (s ++ t) h₀ h₁ h₂ h₃

theorem of_take (h : Decodes s r w) : Decodes (s.take w) r w := by
  cases h with
  | one s h₀ => exact .one [] h₀
  | two s h₀ h₁ => exact .two [] h₀ h₁
  | three s h₀ h₁ h₂ => exact .three [] h₀ h₁ h₂
  | four s h₀ h₁ h₂ h₃ => exact .four [] h₀ h₁ h₂ h₃

theorem width_le (h : Decodes s r w) : w ≤ s.length := by
  cases h <;> simp only [length_cons] <;> omega

/-- A character starts with a byte that continues none; the others do. -/
theorem continuations {c : UInt8} (h : Decodes (c :: s) r w) :
    isContinuation c = false ∧ ∀ b ∈ s.take (w - 1), isContinuation b = true := by
  have hlead {c : UInt8} (hc : c.toNat < 0x80 ∨ 0xC2 ≤ c.toNat) : isContinuation c = false := by
    rw [Bool.eq_false_iff, ne_eq, isContinuation_iff]
    omega
  cases h with
  | one s h₀ => exact ⟨hlead (.inl h₀), by simp⟩
  | two s h₀ h₁ => exact ⟨hlead (.inr h₀.1), by simpa using h₁⟩
  | three s h₀ h₁ h₂ =>
    exact ⟨hlead (.inr (by omega)), by simpa using ⟨isContinuation_of_secondOk h₁, h₂⟩⟩
  | four s h₀ h₁ h₂ h₃ =>
    exact ⟨hlead (.inr (by omega)), by simpa using ⟨isContinuation_of_secondOk h₁, h₂, h₃⟩⟩

end Decodes

def StartsFresh (t : Bytes) : Prop := ∀ b ∈ t.head?, isContinuation b = false

/-- What follows a character does not change how it is read. -/
theorem decodeRune_append (c : UInt8) (s : Bytes) {t : Bytes} (ht : StartsFresh t) :
    decodeRune (c :: (s ++ t)) = decodeRune (c :: s) := by
  rcases decodeRune_cases c s with herr | hdec
  · rcases decodeRune_cases c (s ++ t) with herr' | hdec
    · rw [herr, herr']
    · have hspan := hdec.of_take
      generalize decodeRune (c :: (s ++ t)) = rw at hdec hspan
      obtain ⟨r, w⟩ := rw
      by_cases hw : w ≤ (c :: s).length
      · have htake : (c :: (s ++ t)).take w = (c :: s).take w := take_append_of_le_length hw
        rw [htake] at hspan
        have hwhole := hspan.append ((c :: s).drop w)
        rw [take_append_drop] at hwhole
        exact hwhole.decodeRune_eq.symm
      · -- the character would go on with the first byte of the rest
        rw [length_cons] at hw
        cases t with
        | nil =>
          have hle := hdec.width_le
          simp at hle
          omega
        | cons b t =>
          have hcont := hdec.continuations.2 b (by
            obtain ⟨k, hk⟩ : ∃ k, w - 1 = s.length + (k + 1) := ⟨w - 1 - s.length - 1, by omega⟩
            rw [hk, take_length_add_append]
            simp)
          rw [ht b rfl] at hcont
          exact absurd hcont (by decide)
  · exact (hdec.append t).decodeRune_eq

theorem decodeRune_width_le (c : UInt8) (s : Bytes) : (decodeRune (c :: s)).2 ≤ (c :: s).length := by
  rcases decodeRune_cases c s with herr | hdec
  · rw [herr, length_cons]
    omega
  · exact hdec.width_le

theorem runes_append (a : Bytes) {t : Bytes} (ht : StartsFresh t) : runes (a ++ t) = runes a ++ runes t := by
  induction hn : a.length using Nat.strong_induction_on generalizing a with
  | _ n ih =>
    cases a with
    | nil => rfl
    | cons c s =>
      have hlen := length_drop_rune c s
      have hle := decodeRune_width_le c s
      rw [length_cons] at hn
      rw [cons_append, runes_cons, runes_cons, decodeRune_append c s ht, ← cons_append,
        drop_append_of_le_length hle, ih _ (by omega) _ rfl]
      rfl

/-- A string ends in a character, or in a byte that is read as an error mark. -/
theorem exists_last_rune {s : Bytes} (hs : s ≠ []) :
    ∃ a u r, s = a ++ u ∧ runes s = runes a ++ [r] ∧ (r ≠ runeError → u = encodeRune r ∧ r.isValidChar) := by
  induction hn : s.length using Nat.strong_induction_on generalizing s with
  | _ n ih =>
    obtain ⟨c, s, rfl⟩ := exists_cons_of_ne_nil hs
    have hlen := length_drop_rune c s
    rw [length_cons] at hn
    by_cases hrest : (c :: s).drop (decodeRune (c :: s)).2 = []
    · refine ⟨[], c :: s, (decodeRune (c :: s)).1, rfl, ?_, fun hne => ?_⟩
      · rw [runes_cons, hrest]
        rfl
      · rcases decodeRune_cases c s with herr | hdec
        · exact absurd (congrArg Prod.fst herr) hne
        · obtain ⟨hspell, hvalid⟩ := hdec.encodeRune_append
          rw [hrest, append_nil] at hspell
          exact ⟨hspell, hvalid⟩
    · obtain ⟨a, u, r, hau, hrunes, hu⟩ := ih _ (by omega) hrest rfl
      refine ⟨(c :: s).take (decodeRune (c :: s)).2 ++ a, u, r, ?_, ?_, hu⟩
      · rw [append_assoc, ← hau, take_append_drop]
      · -- the first character is read alike without the last one
        have hfirst : runes ((c :: s).take (decodeRune (c :: s)).2 ++ a) =
            (decodeRune (c :: s)).1 :: runes a := by
          rcases decodeRune_cases c s with herr | hdec
          · rw [herr] at hau ⊢
            obtain rfl : s = a ++ u := hau
            have hfirst : decodeRune (c :: a) = (runeError, 1) := by
              rcases decodeRune_cases c a with herr' | hdec
              · exact herr'
              · rw [← herr]
                exact (hdec.append u).decodeRune_eq.symm
            show runes (c :: a) = _
            rw [runes_cons, hfirst]
            rfl
          · have htake : ((c :: s).take (decodeRune (c :: s)).2).length = (decodeRune (c :: s)).2 := by
              rw [length_take, min_eq_left hdec.width_le]
            rw [(hdec.of_take.append a).runes_eq, drop_left' htake]
        rw [runes_cons, hrunes, hfirst]
        rfl

/-! ## Spellings -/

variable {r : Nat}

theorem encodeRune_continuations (h : r.isValidChar) :
    ∃ c s, encodeRune r = c :: s ∧ isContinuation c = false ∧ ∀ b ∈ s, isContinuation b = true := by
  obtain ⟨c, s, hcs⟩ := exists_cons_of_ne_nil (encodeRune_ne_nil r)
  have hdec := decodes_encodeRune h []
  rw [append_nil, hcs, length_cons] at hdec
  obtain ⟨hc, hs⟩ := hdec.continuations
  rw [Nat.add_sub_cancel, take_length] at hs
  exact ⟨c, s, hcs, hc, hs⟩

theorem startsFresh_encodeRune (h : r.isValidChar) (t : Bytes) :
    StartsFresh (encodeRune r ++ t) := by
  obtain ⟨c, s, hcs, hc, -⟩ := encodeRune_continuations h
  rw [hcs]
  intro b hb
  cases hb
  exact hc

variable {q r : Nat}

theorem encodeRune_inj (hq : q.isValidChar) (hr : r.isValidChar) {x y : Bytes}
    (h : encodeRune q ++ x = encodeRune r ++ y) : q = r := by
  have hdec := (decodes_encodeRune hq x).decodeRune_eq
  rw [h, (decodes_encodeRune hr y).decodeRune_eq] at hdec
  exact (congrArg Prod.fst hdec).symm

theorem encodeRune_of_not_valid (h : ¬ r.isValidChar) : encodeRune r = encodeRune runeError := by
  rw [encodeRune, if_neg (by omega), if_neg (by omega), if_pos (by omega)]
  rfl

theorem exists_valid_spelling (r : Nat) :
    ∃ r', r'.isValidChar ∧ encodeRune r = encodeRune r' ∧ (r' = r ∨ r' = runeError) := by
  by_cases hr : r.isValidChar
  · exact ⟨r, hr, rfl, .inl rfl⟩
  · exact ⟨runeError, by decide, encodeRune_of_not_valid hr, .inr rfl⟩

/-- The spelling of a character is no proper end of another one. -/
theorem encodeRune_suffix (hq : q.isValidChar) (hr : r.isValidChar)
    (h : encodeRune q <:+ encodeRune r) : q = r := by
  obtain ⟨c, s, hcs, hc, -⟩ := encodeRune_continuations hq
  obtain ⟨d, t, hdt, -, ht⟩ := encodeRune_continuations hr
  obtain ⟨a, ha⟩ := h
  cases a with
  | nil => exact encodeRune_inj (x := []) (y := []) hq hr (by simpa using ha)
  | cons e a =>
    rw [hcs, hdt] at ha
    have hmem : c ∈ t := by
      rw [← (cons.inj ha).2]
      simp
    rw [ht c hmem] at hc
    exact absurd hc (by decide)

theorem eq_of_encodeRune_suffixes (hq : q.isValidChar) (hr : r.isValidChar) {s : Bytes}
    (h : encodeRune q <:+ s) (h' : encodeRune r <:+ s) : q = r := by
  rcases suffix_or_suffix_of_suffix h h' with hs | hs
  · exact encodeRune_suffix hq hr hs
  · exact (encodeRune_suffix hr hq hs).symm

/-! ## Tables of lower-case letters -/

/-- The characters that `unicode.IsSpace` accepts. -/
def spaceRunes : List Nat :=
  [0x09, 0x0A, 0x0B, 0x0C, 0x0D, 0x20, 0x85, 0xA0, 0x1680, 0x2000, 0x2001, 0x2002, 0x2003, 0x2004,
    0x2005, 0x2006, 0x2007, 0x2008, 0x2009, 0x200A, 0x2028, 0x2029, 0x202F, 0x205F, 0x3000]

theorem spaces_eq : spaces = spaceRunes.map encodeRune := by decide

theorem valid_of_mem_spaceRunes (h : r ∈ spaceRunes) : r.isValidChar ∧ r ≠ runeError := by
  have hall : ∀ r ∈ spaceRunes, (r < 0xD800) := by decide
  have := hall r h
  exact ⟨.inl this, by unfold runeError; omega⟩

/-- What is used of the table of lower-case letters: on ASCII it is the usual one, and spaces and
commas are lower case for themselves only. -/
structure LowerTable (lowerRune : Nat → Nat) : Prop where
  ascii : ∀ r < 0x80, lowerRune r = (toLowerByte r.toUInt8).toNat
  separator : ∀ r, lowerRune r = 0x2C ∨ lowerRune r ∈ spaceRunes → lowerRune r = r
  space : ∀ r ∈ spaceRunes, lowerRune r = r

def lowerRunes (lowerRune : Nat → Nat) (s : Bytes) : Bytes :=
  (runes s).flatMap fun r => encodeRune (lowerRune r)

section

variable {lowerRune : Nat → Nat}

theorem lowerRunes_append (a : Bytes) {t : Bytes} (ht : StartsFresh t) :
    lowerRunes lowerRune (a ++ t) = lowerRunes lowerRune a ++ lowerRunes lowerRune t := by
  rw [lowerRunes, runes_append a ht, flatMap_append]
  rfl

variable {s : Bytes}

theorem Decodes.lowerRunes_eq {r w : Nat} (h : Decodes s r w) :
    lowerRunes lowerRune s = encodeRune (lowerRune r) ++ lowerRunes lowerRune (s.drop w) := by
  rw [lowerRunes, h.runes_eq]
  rfl

theorem lowerRunes_encodeRune {r : Nat} (hr : r.isValidChar) (t : Bytes) :
    lowerRunes lowerRune (encodeRune r ++ t) = encodeRune (lowerRune r) ++ lowerRunes lowerRune t := by
  rw [(decodes_encodeRune hr t).lowerRunes_eq, drop_left]

variable (table : LowerTable lowerRune)

include table

theorem lowerRunes_cons_ascii {c : UInt8} (hc : c.toNat < 0x80) (s : Bytes) :
    lowerRunes lowerRune (c :: s) = toLowerByte c :: lowerRunes lowerRune s := by
  have hlower : (toLowerByte c).toNat < 0x80 := by
    have hbyte := forall_byte (P := fun c => c.toNat < 0x80 → (toLowerByte c).toNat < 0x80)
      (by decide +kernel) c
    exact hbyte hc
  rw [(Decodes.one s hc).lowerRunes_eq, table.ascii _ hc, ofNat_eq_of_toNat rfl, encodeRune_ascii hlower,
    ofNat_eq_of_toNat rfl]
  rfl

/-- The bytewise shortcut for ASCII strings makes no difference. -/
theorem toLowerText_eq_lowerRunes (s : Bytes) : toLowerText lowerRune s = lowerRunes lowerRune s := by
  rw [toLowerText]
  split_ifs with hascii
  · induction s with
    | nil => rfl
    | cons c s ih =>
      have hc : c.toNat < 0x80 := UInt8.lt_iff_toNat_lt.1 (hascii c (.head _))
      rw [lowerRunes_cons_ascii table hc, ← ih fun x hx => hascii x (.tail _ hx)]
      rfl
  · rfl

/-! ## Cutting -/

omit table in
theorem mem_of_mem_runes {r : Nat} (h : r ∈ runes s) (hr : r < 0x80) : r.toUInt8 ∈ s := by
  induction hn : s.length using Nat.strong_induction_on generalizing s with
  | _ n ih =>
    cases s with
    | nil => exact nomatch h
    | cons c s =>
      have hlen := length_drop_rune c s
      rw [length_cons] at hn
      rw [runes_cons] at h
      rcases mem_cons.1 h with rfl | h
      · rcases decodeRune_cases c s with herr | hdec
        · rw [herr] at hr
          exact absurd hr (by decide)
        · have hspell := hdec.encodeRune_append.1
          rw [encodeRune_ascii hr] at hspell
          have hmem : (decodeRune (c :: s)).1.toUInt8 ∈ [(decodeRune (c :: s)).1.toUInt8] ++
              (c :: s).drop (decodeRune (c :: s)).2 := (.head _)
          rwa [← hspell] at hmem
      · exact mem_of_mem_drop (ih _ (by omega) h rfl)

theorem comma_notMem_lowerRunes (h : byte ',' ∉ s) : byte ',' ∉ lowerRunes lowerRune s := by
  intro hmem
  obtain ⟨r, hr, hcomma⟩ := mem_flatMap.1 hmem
  have hsmall : lowerRune r < 0x80 := by
    by_contra hbig
    exact absurd (le_of_mem_encodeRune (not_lt.1 hbig) hcomma) (by decide)
  rw [encodeRune_ascii hsmall, mem_singleton] at hcomma
  have hlower : lowerRune r = 0x2C := by
    have := congrArg UInt8.toNat hcomma
    rw [toNat_toUInt8 (by omega)] at this
    exact this.symm
  have hcommaRune : r = 0x2C := by rw [← table.separator r (.inl hlower), hlower]
  rw [hcommaRune] at hr
  exact h (mem_of_mem_runes hr (by decide))

theorem splitOn_lowerRunes (s : Bytes) :
    splitOn (byte ',') (lowerRunes lowerRune s) =
      (splitOn (byte ',') s).map (lowerRunes lowerRune) := by
  refine splitOn_induction (P := fun s gs => splitOn (byte ',') (lowerRunes lowerRune s) =
    gs.map (lowerRunes lowerRune)) (fun g hg => ?_) (fun g s gs hg ih => ?_) s
  · rw [splitOn_of_notMem (comma_notMem_lowerRunes table hg), map_singleton]
  · have hfresh : StartsFresh (byte ',' :: s) := by
      intro x hx
      cases hx
      decide
    have hlower : lowerRunes lowerRune (g ++ byte ',' :: s) =
        lowerRunes lowerRune g ++ byte ',' :: lowerRunes lowerRune s := by
      rw [lowerRunes_append g hfresh, lowerRunes_cons_ascii table (by decide)]
      rfl
    rw [hlower, splitOn_append_sep, splitOn_of_notMem (comma_notMem_lowerRunes table hg), ih]
    rfl

/-! ## Trimming -/

theorem rune_eq_of_space {q r : Nat} (hq : q ∈ spaceRunes)
    (h : ∀ r', r'.isValidChar → encodeRune (lowerRune r) = encodeRune r' → q = r') : r = q := by
  obtain ⟨r', hvalid, hspell, hr' | hr'⟩ := exists_valid_spelling (lowerRune r)
  · have hlower : q = lowerRune r := (h r' hvalid hspell).trans hr'
    rw [hlower, table.separator r (.inr (hlower ▸ hq))]
  · exact absurd ((h r' hvalid hspell).trans hr') (valid_of_mem_spaceRunes hq).2

variable {w : Bytes}

theorem space_initial_lowerRunes (hw : w ∈ spaces) (s : Bytes) :
    w <+: lowerRunes lowerRune s ↔ w <+: s := by
  rw [spaces_eq] at hw
  obtain ⟨q, hq, rfl⟩ := mem_map.1 hw
  obtain ⟨hvalid, hne⟩ := valid_of_mem_spaceRunes hq
  constructor
  · rintro ⟨x, hx⟩
    cases s with
    | nil => exact absurd (append_eq_nil_iff.1 hx).1 (encodeRune_ne_nil q)
    | cons c s =>
      rw [lowerRunes, runes_cons, flatMap_cons] at hx
      have hfirst : (decodeRune (c :: s)).1 = q :=
        rune_eq_of_space table hq fun r' hr' hspell => encodeRune_inj hvalid hr' (hspell ▸ hx)
      rcases decodeRune_cases c s with herr | hdec
      · exact absurd (hfirst.symm.trans (congrArg Prod.fst herr)) hne
      · rw [hdec.encodeRune_append.1, hfirst]
        exact prefix_append _ _
  · rintro ⟨t, rfl⟩
    rw [lowerRunes_encodeRune hvalid, table.space q hq]
    exact prefix_append _ _

theorem lowerRunes_space_append (hw : w ∈ spaces) (t : Bytes) :
    lowerRunes lowerRune (w ++ t) = w ++ lowerRunes lowerRune t := by
  rw [spaces_eq] at hw
  obtain ⟨q, hq, rfl⟩ := mem_map.1 hw
  rw [lowerRunes_encodeRune (valid_of_mem_spaceRunes hq).1, table.space q hq]

theorem lowerRunes_append_space (hw : w ∈ spaces) (a : Bytes) :
    lowerRunes lowerRune (a ++ w) = lowerRunes lowerRune a ++ w := by
  have hfresh : StartsFresh w := by
    rw [spaces_eq] at hw
    obtain ⟨q, hq, rfl⟩ := mem_map.1 hw
    have := startsFresh_encodeRune (valid_of_mem_spaceRunes hq).1 []
    rwa [append_nil] at this
  have hlower := lowerRunes_space_append table hw []
  rw [append_nil] at hlower
  rw [lowerRunes_append a hfresh, hlower]
  exact congrArg _ (append_nil w)

theorem space_final_lowerRunes (hw : w ∈ spaces) (s : Bytes) :
    w <:+ lowerRunes lowerRune s ↔ w <:+ s := by
  constructor
  · intro hend
    rw [spaces_eq] at hw
    obtain ⟨q, hq, rfl⟩ := mem_map.1 hw
    obtain ⟨hvalid, hne⟩ := valid_of_mem_spaceRunes hq
    by_cases hs : s = []
    · subst hs
      exact hend
    · obtain ⟨a, u, r, rfl, hrunes, hu⟩ := exists_last_rune hs
      have hspell : encodeRune (lowerRune r) <:+ lowerRunes lowerRune (a ++ u) := by
        rw [lowerRunes, hrunes, flatMap_append, flatMap_singleton]
        exact suffix_append _ _
      have hlast : r = q := rune_eq_of_space table hq fun r' hr' heq =>
        eq_of_encodeRune_suffixes hvalid hr' hend (heq ▸ hspell)
      rw [(hu (hlast ▸ hne)).1, hlast]
      exact suffix_append _ _
  · rintro ⟨a, rfl⟩
    rw [lowerRunes_append_space table hw]
    exact suffix_append _ _

/-- Putting a string in lower case and trimming it do not interfere. -/
theorem trimSpace_lowerRunes (s : Bytes) :
    trimSpace (lowerRunes lowerRune s) = lowerRunes lowerRune (trimSpace s) :=
  trimSpace_comm (fun _ hw => space_initial_lowerRunes table hw)
    (fun _ hw => lowerRunes_space_append table hw) (fun _ hw => space_final_lowerRunes table hw)
    (fun _ hw => lowerRunes_append_space table hw) s

theorem trimSpace_toLowerText (s : Bytes) :
    trimSpace (toLowerText lowerRune s) = toLowerText lowerRune (trimSpace s) := by
  rw [toLowerText_eq_lowerRunes table, toLowerText_eq_lowerRunes table, trimSpace_lowerRunes table]

theorem splitOn_toLowerText (s : Bytes) :
    splitOn (byte ',') (toLowerText lowerRune s) =
      (splitOn (byte ',') s).map (toLowerText lowerRune) := by
  rw [toLowerText_eq_lowerRunes table, splitOn_lowerRunes table]
  exact map_congr_left fun f _ => (toLowerText_eq_lowerRunes table f).symm

end

end Bouine.Lib
