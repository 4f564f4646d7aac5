import Bouine.Lib.Text

/-! # Reading and writing characters

`Decodes s r w` lists the ways in which `decodeRune` finds a character `r` of `w` bytes at the front
of a string. Every other byte is read as an error mark, so the characters of a string determine it
where no error mark is among them.
-/

namespace Bouine.Lib

open List

variable {b : UInt8}

theorem ofNat_eq_of_toNat {n : Nat} (h : n = b.toNat) : n.toUInt8 = b := by
  rw [h]
  exact UInt8.ofNat_toNat

theorem toNat_toUInt8 {n : Nat} (h : n < 256) : n.toUInt8.toNat = n := by
  simpa using Nat.mod_eq_of_lt h

theorem isContinuation_iff {c : UInt8} :
    isContinuation c ↔ 128 ≤ c.toNat ∧ c.toNat ≤ 191 := by
  simp [isContinuation, UInt8.le_iff_toNat_le]

theorem secondOk_iff {b₀ b₁ : UInt8} : secondOk b₀ b₁ ↔
    (128 ≤ b₁.toNat ∧ b₁.toNat ≤ 191) ∧ (b₀.toNat = 0xE0 → 0xA0 ≤ b₁.toNat) ∧
      (b₀.toNat = 0xED → b₁.toNat ≤ 0x9F) ∧ (b₀.toNat = 0xF0 → 0x90 ≤ b₁.toNat) ∧
      (b₀.toNat = 0xF4 → b₁.toNat ≤ 0x8F) := by
  unfold secondOk
  simp only [← UInt8.toNat_inj, UInt8.reduceToNat]
  split_ifs <;>
    simp only [Bool.and_eq_true, decide_eq_true_eq, UInt8.le_iff_toNat_le, UInt8.reduceToNat,
      isContinuation_iff] <;> omega

inductive Decodes : Bytes → Nat → Nat → Prop
  | one {b₀ : UInt8} (s : Bytes) (h₀ : b₀.toNat < 0x80) : Decodes (b₀ :: s) b₀.toNat 1
  | two {b₀ b₁ : UInt8} (s : Bytes) (h₀ : 0xC2 ≤ b₀.toNat ∧ b₀.toNat ≤ 0xDF)
      (h₁ : isContinuation b₁) :
      Decodes (b₀ :: b₁ :: s) (b₀.toNat % 32 * 64 + continuation b₁) 2
  | three {b₀ b₁ b₂ : UInt8} (s : Bytes) (h₀ : 0xE0 ≤ b₀.toNat ∧ b₀.toNat ≤ 0xEF)
      (h₁ : secondOk b₀ b₁) (h₂ : isContinuation b₂) :
      Decodes (b₀ :: b₁ :: b₂ :: s)
        ((b₀.toNat % 16 * 64 + continuation b₁) * 64 + continuation b₂) 3
  | four {b₀ b₁ b₂ b₃ : UInt8} (s : Bytes) (h₀ : 0xF0 ≤ b₀.toNat ∧ b₀.toNat ≤ 0xF4)
      (h₁ : secondOk b₀ b₁) (h₂ : isContinuation b₂) (h₃ : isContinuation b₃) :
      Decodes (b₀ :: b₁ :: b₂ :: b₃ :: s)
        (((b₀.toNat % 8 * 64 + continuation b₁) * 64 + continuation b₂) * 64 +
          continuation b₃) 4

theorem decodeRune_cases (c : UInt8) (s : Bytes) :
    decodeRune (c :: s) = (runeError, 1) ∨
      Decodes (c :: s) (decodeRune (c :: s)).1 (decodeRune (c :: s)).2 := by
  unfold decodeRune
  dsimp only
  split_ifs with h1 h2 h3 h4
  · exact .inr (.one s h1)
  · split
    · split_ifs with hc
      · exact .inr (.two _ h2 hc)
      · exact .inl rfl
    · exact .inl rfl
  · split
    · split_ifs with hc
      · obtain ⟨hc₁, hc₂⟩ := Bool.and_eq_true_iff.1 hc
        exact .inr (.three _ h3 hc₁ hc₂)
      · exact .inl rfl
    · exact .inl rfl
  · split
    · split_ifs with hc
      · obtain ⟨hc₁₂, hc₃⟩ := Bool.and_eq_true_iff.1 hc
        obtain ⟨hc₁, hc₂⟩ := Bool.and_eq_true_iff.1 hc₁₂
        exact .inr (.four _ h4 hc₁ hc₂ hc₃)
      · exact .inl rfl
    · exact .inl rfl
  · exact .inl rfl

variable {r w : Nat}

theorem Decodes.decodeRune_eq {s : Bytes} (h : Decodes s r w) :
    decodeRune s = (r, w) := by
  cases h with
  | one s h₀ =>
    exact if_pos (by simpa [UInt8.lt_iff_toNat_lt] using h₀)
  | two s h₀ h₁ =>
    unfold decodeRune
    simp only [UInt8.lt_iff_toNat_lt, UInt8.le_iff_toNat_le, UInt8.reduceToNat]
    rw [if_neg (by omega), if_pos h₀]
    simp [h₁]
  | three s h₀ h₁ h₂ =>
    unfold decodeRune
    simp only [UInt8.lt_iff_toNat_lt, UInt8.le_iff_toNat_le, UInt8.reduceToNat]
    rw [if_neg (by omega), if_neg (by omega), if_pos h₀]
    simp [h₁, h₂]
  | four s h₀ h₁ h₂ h₃ =>
    unfold decodeRune
    simp only [UInt8.lt_iff_toNat_lt, UInt8.le_iff_toNat_le, UInt8.reduceToNat]
    rw [if_neg (by omega), if_neg (by omega), if_neg (by omega), if_pos h₀]
    simp [h₁, h₂, h₃]

theorem Decodes.encodeRune_append {s : Bytes} (h : Decodes s r w) :
    s = encodeRune r ++ s.drop w ∧ r.isValidChar := by
  cases h with
  | one s h₀ =>
    refine ⟨?_, .inl (by omega)⟩
    rw [encodeRune, if_pos h₀, ofNat_eq_of_toNat rfl]
    rfl
  | @two b₀ b₁ s h₀ h₁ =>
    rw [isContinuation_iff] at h₁
    simp only [continuation]
    refine ⟨?_, .inl (by omega)⟩
    rw [encodeRune, if_neg (by omega), if_pos (by omega),
      @ofNat_eq_of_toNat b₀ _ (by omega), @ofNat_eq_of_toNat b₁ _ (by omega)]
    rfl
  | @three b₀ b₁ b₂ s h₀ h₁ h₂ =>
    rw [isContinuation_iff] at h₂
    rw [secondOk_iff] at h₁
    simp only [continuation]
    refine ⟨?_, by unfold Nat.isValidChar; omega⟩
    rw [encodeRune, if_neg (by omega), if_neg (by omega), if_neg (by omega), if_pos (by omega),
      @ofNat_eq_of_toNat b₀ _ (by omega), @ofNat_eq_of_toNat b₁ _ (by omega),
      @ofNat_eq_of_toNat b₂ _ (by omega)]
    rfl
  | @four b₀ b₁ b₂ b₃ s h₀ h₁ h₂ h₃ =>
    rw [isContinuation_iff] at h₂ h₃
    rw [secondOk_iff] at h₁
    simp only [continuation]
    refine ⟨?_, by unfold Nat.isValidChar; omega⟩
    rw [encodeRune, if_neg (by omega), if_neg (by omega), if_neg (by omega), if_neg (by omega),
      @ofNat_eq_of_toNat b₀ _ (by omega), @ofNat_eq_of_toNat b₁ _ (by omega),
      @ofNat_eq_of_toNat b₂ _ (by omega), @ofNat_eq_of_toNat b₃ _ (by omega)]
    rfl

theorem decodes_encodeRune {r : Nat} (h : r.isValidChar) (s : Bytes) :
    Decodes (encodeRune r ++ s) r (encodeRune r).length := by
  unfold encodeRune
  split_ifs with h1 h2 h3 h4
  · have h₀ := toNat_toUInt8 (show r < 256 by omega)
    generalize r.toUInt8 = b₀ at h₀ ⊢
    exact h₀ ▸ .one s (by omega)
  · have h₀ := toNat_toUInt8 (show 0xC0 + r / 64 < 256 by omega)
    have h₁ := toNat_toUInt8 (show 0x80 + r % 64 < 256 by omega)
    generalize (0xC0 + r / 64).toUInt8 = b₀ at h₀ ⊢
    generalize (0x80 + r % 64).toUInt8 = b₁ at h₁ ⊢
    have hr : r = b₀.toNat % 32 * 64 + continuation b₁ := by rw [continuation]; omega
    exact hr ▸ .two s (by omega) (isContinuation_iff.2 (by omega))
  · omega
  · have h₀ := toNat_toUInt8 (show 0xE0 + r / 4096 < 256 by omega)
    have h₁ := toNat_toUInt8 (show 0x80 + r / 64 % 64 < 256 by omega)
    have h₂ := toNat_toUInt8 (show 0x80 + r % 64 < 256 by omega)
    generalize (0xE0 + r / 4096).toUInt8 = b₀ at h₀ ⊢
    generalize (0x80 + r / 64 % 64).toUInt8 = b₁ at h₁ ⊢
    generalize (0x80 + r % 64).toUInt8 = b₂ at h₂ ⊢
    have hr : r = (b₀.toNat % 16 * 64 + continuation b₁) * 64 + continuation b₂ := by
      simp only [continuation]
      omega
    exact hr ▸ .three s (by omega) (secondOk_iff.2 (by omega)) (isContinuation_iff.2 (by omega))
  · have h₀ := toNat_toUInt8 (show 0xF0 + r / 262144 < 256 by omega)
    have h₁ := toNat_toUInt8 (show 0x80 + r / 4096 % 64 < 256 by omega)
    have h₂ := toNat_toUInt8 (show 0x80 + r / 64 % 64 < 256 by omega)
    have h₃ := toNat_toUInt8 (show 0x80 + r % 64 < 256 by omega)
    generalize (0xF0 + r / 262144).toUInt8 = b₀ at h₀ ⊢
    generalize (0x80 + r / 4096 % 64).toUInt8 = b₁ at h₁ ⊢
    generalize (0x80 + r / 64 % 64).toUInt8 = b₂ at h₂ ⊢
    generalize (0x80 + r % 64).toUInt8 = b₃ at h₃ ⊢
    have hr : r = ((b₀.toNat % 8 * 64 + continuation b₁) * 64 + continuation b₂) * 64 +
        continuation b₃ := by
      simp only [continuation]
      omega
    exact hr ▸ .four s (by omega) (secondOk_iff.2 (by omega)) (isContinuation_iff.2 (by omega))
      (isContinuation_iff.2 (by omega))

/-! ## Characters -/

def chars (s : Bytes) : List Char := (runes s).map Char.ofNat

def errorMark : Char := Char.ofNat runeError

def utf8 (cs : List Char) : Bytes := cs.flatMap fun c => encodeRune c.toNat

@[simp] theorem utf8_nil : utf8 [] = [] := rfl

@[simp] theorem utf8_cons (c : Char) (cs : List Char) :
    utf8 (c :: cs) = encodeRune c.toNat ++ utf8 cs := rfl

theorem encodeRune_ascii {r : Nat} (h : r < 0x80) : encodeRune r = [r.toUInt8] := if_pos h

/-- The spelling of a character past ASCII has no ASCII byte. -/
theorem le_of_mem_encodeRune {r : Nat} (h : 0x80 ≤ r) (hb : b ∈ encodeRune r) :
    0x80 ≤ b.toNat := by
  unfold encodeRune at hb
  split_ifs at hb with h1 h2 h3 h4
  · omega
  all_goals simp only [mem_cons, not_mem_nil, or_false] at hb
  · rcases hb with rfl | rfl <;> rw [toNat_toUInt8 (by omega)] <;> omega
  · rcases hb with rfl | rfl | rfl <;> decide
  · rcases hb with rfl | rfl | rfl <;> rw [toNat_toUInt8 (by omega)] <;> omega
  · rcases hb with rfl | rfl | rfl | rfl <;> rw [toNat_toUInt8 (by omega)] <;> omega

theorem encodeRune_ne_nil (r : Nat) : encodeRune r ≠ [] := by
  unfold encodeRune
  split_ifs <;> exact cons_ne_nil _ _

theorem utf8_append (cs ds : List Char) : utf8 (cs ++ ds) = utf8 cs ++ utf8 ds :=
  flatMap_append

theorem byte_mem_utf8 {cs : List Char} {c : Char} (hc : c.toNat < 0x80) (h : c ∈ cs) :
    c.toNat.toUInt8 ∈ utf8 cs :=
  mem_flatMap.2 ⟨c, h, by rw [encodeRune_ascii hc]; exact mem_singleton_self _⟩

theorem mem_of_byte_mem_utf8 {cs : List Char} (hb : b.toNat < 0x80) (h : b ∈ utf8 cs) :
    Char.ofNat b.toNat ∈ cs := by
  obtain ⟨c, hc, hbc⟩ := mem_flatMap.1 h
  by_cases hascii : c.toNat < 0x80
  · rw [encodeRune_ascii hascii, mem_singleton] at hbc
    rwa [hbc, toNat_toUInt8 (by omega), Char.ofNat_toNat]
  · have := le_of_mem_encodeRune (not_lt.1 hascii) hbc
    omega

theorem utf8_eq_cons {cs : List Char} {s : Bytes} (h : utf8 cs = b :: s)
    (hb : b.toNat < 0x80) : ∃ ds, cs = Char.ofNat b.toNat :: ds ∧ utf8 ds = s := by
  cases cs with
  | nil => cases h
  | cons c ds =>
    rw [utf8_cons] at h
    by_cases hc : c.toNat < 0x80
    · rw [encodeRune_ascii hc] at h
      obtain ⟨hbyte, hs⟩ := cons.inj h
      refine ⟨ds, ?_, hs⟩
      rw [← hbyte, toNat_toUInt8 (by omega), Char.ofNat_toNat]
    · obtain ⟨b', w, hw⟩ := exists_cons_of_ne_nil (encodeRune_ne_nil c.toNat)
      have := le_of_mem_encodeRune (not_lt.1 hc) (hw ▸ mem_cons_self)
      rw [hw] at h
      obtain ⟨rfl, -⟩ := cons.inj h
      omega

theorem utf8_eq_concat {cs : List Char} {s : Bytes} (h : utf8 cs = s ++ [b])
    (hb : b.toNat < 0x80) : ∃ ds, cs = ds ++ [Char.ofNat b.toNat] ∧ utf8 ds = s := by
  rcases eq_nil_or_concat cs with rfl | ⟨ds, c, rfl⟩
  · cases s <;> cases h
  · rw [concat_eq_append, utf8_append, utf8_cons, utf8_nil, append_nil] at h
    by_cases hc : c.toNat < 0x80
    · rw [encodeRune_ascii hc] at h
      obtain ⟨hs, hbyte⟩ := append_inj' h rfl
      refine ⟨ds, ?_, hs⟩
      rw [← (cons.inj hbyte).1, toNat_toUInt8 (by omega), Char.ofNat_toNat]
      exact concat_eq_append
    · have hlast : b ∈ encodeRune c.toNat := by
        have hne := encodeRune_ne_nil c.toNat
        have := congrArg getLast? h
        rw [getLast?_append_of_ne_nil _ hne, getLast?_concat] at this
        exact mem_of_getLast? this
      have := le_of_mem_encodeRune (not_lt.1 hc) hlast
      omega

theorem Decodes.width_pos {s : Bytes} (h : Decodes s r w) : 0 < w := by
  cases h <;> decide

theorem decodeRune_width_pos (c : UInt8) (s : Bytes) : 0 < (decodeRune (c :: s)).2 := by
  rcases decodeRune_cases c s with herr | hdec
  · rw [herr]
    decide
  · exact hdec.width_pos

theorem length_drop_rune (c : UInt8) (s : Bytes) :
    ((c :: s).drop (decodeRune (c :: s)).2).length ≤ s.length := by
  have := decodeRune_width_pos c s
  rw [length_drop, length_cons]
  omega

theorem runesUpTo_cons (n : Nat) (c : UInt8) (s : Bytes) : runesUpTo (n + 1) (c :: s) =
    (decodeRune (c :: s)).1 :: runesUpTo n ((c :: s).drop (decodeRune (c :: s)).2) := rfl

theorem runesUpTo_eq {n m : Nat} {s : Bytes} (hn : s.length ≤ n) (hm : s.length ≤ m) :
    runesUpTo n s = runesUpTo m s := by
  induction n generalizing m s with
  | zero =>
    obtain rfl := eq_nil_of_length_eq_zero (Nat.le_zero.1 hn)
    cases m <;> rfl
  | succ n ih =>
    cases s with
    | nil => cases m <;> rfl
    | cons c s =>
      have hlen := length_drop_rune c s
      rw [length_cons] at hn hm
      obtain ⟨m, rfl⟩ : ∃ k, m = k + 1 := ⟨m - 1, by omega⟩
      rw [runesUpTo_cons, runesUpTo_cons, @ih m _ (by omega) (by omega)]

theorem runes_cons (c : UInt8) (s : Bytes) : runes (c :: s) =
    (decodeRune (c :: s)).1 :: runes ((c :: s).drop (decodeRune (c :: s)).2) := by
  rw [runes, length_cons, runesUpTo_cons, runes,
    runesUpTo_eq (length_drop_rune c s) (le_rfl)]

theorem Decodes.runes_eq {s : Bytes} (h : Decodes s r w) :
    runes s = r :: runes (s.drop w) := by
  cases s with
  | nil => cases h
  | cons c s => rw [runes_cons, h.decodeRune_eq]

@[simp] theorem chars_nil : chars [] = [] := rfl

theorem chars_utf8_append (cs : List Char) (s : Bytes) : chars (utf8 cs ++ s) = cs ++ chars s := by
  induction cs with
  | nil => rfl
  | cons c cs ih =>
    have hdec := decodes_encodeRune (show c.toNat.isValidChar from c.valid) (utf8 cs ++ s)
    rw [utf8_cons, append_assoc, chars, hdec.runes_eq, drop_left, map_cons,
      Char.ofNat_toNat, ← chars, ih]
    rfl

/-- Characters other than the error mark are spelled by the bytes they were read from. -/
theorem exists_utf8_append {s : Bytes} {cs ds : List Char} (h : chars s = cs ++ ds)
    (herr : errorMark ∉ cs) : ∃ rest, s = utf8 cs ++ rest ∧ chars rest = ds := by
  induction cs generalizing s with
  | nil => exact ⟨s, rfl, h⟩
  | cons c cs ih =>
    cases s with
    | nil => simp at h
    | cons b s =>
      rw [chars, runes_cons] at h
      obtain ⟨hc, htail⟩ := cons.inj h
      rcases decodeRune_cases b s with hbad | hdec
      · exact absurd (by rw [← hc, hbad]; exact (.head _)) herr
      · obtain ⟨hspell, hvalid⟩ := hdec.encodeRune_append
        obtain ⟨rest, hrest, hds⟩ := ih htail fun hm => herr (.tail _ hm)
        refine ⟨rest, ?_, hds⟩
        have hnat : (Char.ofNat (decodeRune (b :: s)).1).toNat = (decodeRune (b :: s)).1 := by
          rw [Char.ofNat, dif_pos hvalid]
          rfl
        rw [utf8_cons, ← hc, hnat, append_assoc, ← hrest]
        exact hspell

end Bouine.Lib
