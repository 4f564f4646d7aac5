import Mathlib.Data.List.Find
import Bouine.Lib.Bytes

/-! # Text in byte strings

Go strings are byte strings that are read as UTF-8. `decodeRune` and `encodeRune` are those of
`unicode/utf8`, `trimSpace` and `toLowerText` are `TrimSpace` and `ToLower` of `strings`; the table
of lower-case letters is a parameter.
-/

namespace Bouine.Lib

open List

/-! ## UTF-8 -/

def runeError : Nat := 0xFFFD

def isContinuation (c : UInt8) : Bool := 0x80 ≤ c && c ≤ 0xBF

def continuation (c : UInt8) : Nat := c.toNat % 64

/-- The range of the second byte of three or four: it rules out long spellings of short characters,
surrogates and what is past the last character. -/
def secondOk (b₀ b₁ : UInt8) : Bool :=
  if b₀ = 0xE0 then 0xA0 ≤ b₁ && b₁ ≤ 0xBF
  else if b₀ = 0xED then 0x80 ≤ b₁ && b₁ ≤ 0x9F
  else if b₀ = 0xF0 then 0x90 ≤ b₁ && b₁ ≤ 0xBF
  else if b₀ = 0xF4 then 0x80 ≤ b₁ && b₁ ≤ 0x8F
  else isContinuation b₁

/-- The first character and its width. A byte that starts no character has width one. -/
def decodeRune : Bytes → Nat × Nat
  | [] => (runeError, 0)
  | b₀ :: s =>
    if b₀ < 0x80 then (b₀.toNat, 1)
    else if 0xC2 ≤ b₀ ∧ b₀ ≤ 0xDF then
      match s with
      | b₁ :: _ =>
        if isContinuation b₁ then (b₀.toNat % 32 * 64 + continuation b₁, 2) else (runeError, 1)
      | _ => (runeError, 1)
    else if 0xE0 ≤ b₀ ∧ b₀ ≤ 0xEF then
      match s with
      | b₁ :: b₂ :: _ =>
        if secondOk b₀ b₁ && isContinuation b₂ then
          ((b₀.toNat % 16 * 64 + continuation b₁) * 64 + continuation b₂, 3)
        else (runeError, 1)
      | _ => (runeError, 1)
    else if 0xF0 ≤ b₀ ∧ b₀ ≤ 0xF4 then
      match s with
      | b₁ :: b₂ :: b₃ :: _ =>
        if secondOk b₀ b₁ && isContinuation b₂ && isContinuation b₃ then
          (((b₀.toNat % 8 * 64 + continuation b₁) * 64 + continuation b₂) * 64 +
            continuation b₃, 4)
        else (runeError, 1)
      | _ => (runeError, 1)
    else (runeError, 1)

def encodeRune (r : Nat) : Bytes :=
  if r < 0x80 then [r.toUInt8]
  else if r < 0x800 then [(0xC0 + r / 64).toUInt8, (0x80 + r % 64).toUInt8]
  else if 0xD800 ≤ r ∧ r < 0xE000 ∨ 0x10FFFF < r then [0xEF, 0xBF, 0xBD]
  else if r < 0x10000 then
    [(0xE0 + r / 4096).toUInt8, (0x80 + r / 64 % 64).toUInt8, (0x80 + r % 64).toUInt8]
  else
    [(0xF0 + r / 262144).toUInt8, (0x80 + r / 4096 % 64).toUInt8, (0x80 + r / 64 % 64).toUInt8,
      (0x80 + r % 64).toUInt8]

/-- The characters of a string; `n` bounds their number. -/
def runesUpTo : Nat → Bytes → List Nat
  | 0, _ => []
  | _ + 1, [] => []
  | n + 1, c :: s =>
    let (r, w) := decodeRune (c :: s)
    r :: runesUpTo n ((c :: s).drop w)

def runes (s : Bytes) : List Nat := runesUpTo s.length s

/-! ## White space -/

/-- The spellings of the characters that `unicode.IsSpace` accepts. -/
def spaces : List Bytes :=
  [[0x09], [0x0A], [0x0B], [0x0C], [0x0D], [0x20], [0xC2, 0x85], [0xC2, 0xA0], [0xE1, 0x9A, 0x80],
    [0xE2, 0x80, 0x80], [0xE2, 0x80, 0x81], [0xE2, 0x80, 0x82], [0xE2, 0x80, 0x83],
    [0xE2, 0x80, 0x84], [0xE2, 0x80, 0x85], [0xE2, 0x80, 0x86], [0xE2, 0x80, 0x87],
    [0xE2, 0x80, 0x88], [0xE2, 0x80, 0x89], [0xE2, 0x80, 0x8A], [0xE2, 0x80, 0xA8],
    [0xE2, 0x80, 0xA9], [0xE2, 0x80, 0xAF], [0xE2, 0x81, 0x9F], [0xE3, 0x80, 0x80]]

/-- Take the words off the front while there is one; `n` bounds their number. -/
def stripFront (ws : List Bytes) : Nat → Bytes → Bytes
  | 0, s => s
  | n + 1, s =>
    match ws.find? (·.isPrefixOf s) with
    | some w => stripFront ws n (s.drop w.length)
    | none => s

/-- No spelling of a space ends another character, so a space at the end of a string shows in its
last bytes. -/
def trimSpace (s : Bytes) : Bytes :=
  let front := stripFront spaces s.length s
  (stripFront (spaces.map List.reverse) front.length front.reverse).reverse

/-! ## Lower case -/

/-- `strings.ToLower`: bytewise for ASCII, else character by character, with invalid bytes replaced.
-/
def toLowerText (lowerRune : Nat → Nat) (s : Bytes) : Bytes :=
  if ∀ c ∈ s, c < 0x80 then toLower s
  else (runes s).flatMap fun r => encodeRune (lowerRune r)

theorem toLowerText_nil (lowerRune : Nat → Nat) : toLowerText lowerRune [] = [] :=
  if_pos (forall_mem_nil _)

theorem isPrefixOf_map {f : UInt8 → UInt8} {w : Bytes} (hw : ∀ x ∈ w, ∀ y, f y = x ↔ y = x)
    (s : Bytes) : w.isPrefixOf (s.map f) = w.isPrefixOf s := by
  induction w generalizing s with
  | nil => simp
  | cons x w ih =>
    cases s with
    | nil => rfl
    | cons y s =>
      have hhead : (x == f y) = (x == y) := by
        rw [Bool.eq_iff_iff, beq_iff_eq, beq_iff_eq, eq_comm, hw x (by simp) y, eq_comm]
      rw [map_cons, isPrefixOf, isPrefixOf, hhead,
        ih (fun x hx => hw x (.tail _ hx))]

/-! ## Trimming -/

section

variable {ws : List Bytes} {s : Bytes} {n m : Nat}

theorem stripFront_of_find (h : ws.find? (·.isPrefixOf s) = none) (n : Nat) :
    stripFront ws n s = s := by
  cases n with
  | zero => rfl
  | succ n => rw [stripFront, h]

variable (hws : ∀ w ∈ ws, w ≠ [])

include hws

/-- With enough rounds the words go off one by one, until none begins the rest. -/
theorem stripFront_induction {P : Bytes → Bytes → Prop}
    (hstop : ∀ s, ws.find? (·.isPrefixOf s) = none → P s s)
    (hword : ∀ w t r, ws.find? (·.isPrefixOf (w ++ t)) = some w → P t r → P (w ++ t) r)
    (hn : s.length ≤ n) : P s (stripFront ws n s) := by
  induction n generalizing s with
  | zero =>
    obtain rfl := eq_nil_of_length_eq_zero (Nat.le_zero.1 hn)
    refine hstop [] (find?_eq_none.2 fun w hw h => hws w hw ?_)
    have hinit := isPrefixOf_iff_prefix.1 h
    exact prefix_nil.1 hinit
  | succ n ih =>
    rw [stripFront]
    cases hw : ws.find? (·.isPrefixOf s) with
    | none => exact hstop s hw
    | some w =>
      have hpos := length_pos_iff.2 (hws w (mem_of_find?_eq_some hw))
      have hinit := find?_some hw
      obtain ⟨t, rfl⟩ := isPrefixOf_iff_prefix.1 hinit
      rw [length_append] at hn
      dsimp only
      rw [drop_left]
      exact hword w t _ hw (ih (by omega))

theorem stripFront_eq (hn : s.length ≤ n) (hm : s.length ≤ m) :
    stripFront ws n s = stripFront ws m s := by
  refine (stripFront_induction (P := fun s r => ∀ m, s.length ≤ m → stripFront ws m s = r) hws
    (fun s h m _ => stripFront_of_find h m) (fun w t r hw h m hm => ?_) hn m hm).symm
  have hpos := length_pos_iff.2 (hws w (mem_of_find?_eq_some hw))
  rw [length_append] at hm
  obtain ⟨m, rfl⟩ := Nat.exists_eq_add_one.2 (by omega : 0 < m)
  rw [stripFront, hw]
  dsimp only
  rw [drop_left]
  exact h m (by omega)

theorem stripFront_word {w t : Bytes} (hw : ws.find? (·.isPrefixOf (w ++ t)) = some w)
    (hn : (w ++ t).length ≤ n) (hm : t.length ≤ m) : stripFront ws n (w ++ t) = stripFront ws m t := by
  rw [stripFront_eq hws hn (Nat.le_succ_of_le le_rfl), stripFront, hw]
  dsimp only
  rw [drop_left]
  exact stripFront_eq hws (by simp) hm

/-- A function that changes no word at the front, and makes none, commutes with the stripping. -/
theorem stripFront_comm {g : Bytes → Bytes} (hinit : ∀ w ∈ ws, ∀ s, w <+: g s ↔ w <+: s)
    (hword : ∀ w ∈ ws, ∀ t, g (w ++ t) = w ++ g t) (hm : (g s).length ≤ m) (hn : s.length ≤ n) :
    stripFront ws m (g s) = g (stripFront ws n s) := by
  have hfind (s : Bytes) : ws.find? (·.isPrefixOf (g s)) = ws.find? (·.isPrefixOf s) := by
    refine find?_congr fun w hw => ?_
    rw [Bool.eq_iff_iff, isPrefixOf_iff_prefix, isPrefixOf_iff_prefix]
    exact hinit w hw s
  refine stripFront_induction (P := fun s r => ∀ m, (g s).length ≤ m → stripFront ws m (g s) = g r)
    hws (fun s h m _ => stripFront_of_find ((hfind s).trans h) m) (fun w t r hw h m hm => ?_) hn m hm
  have hg := hword w (mem_of_find?_eq_some hw) t
  have hfound := (hfind (w ++ t)).trans hw
  rw [hg] at hm hfound ⊢
  exact (stripFront_word hws hfound hm le_rfl).trans (h _ le_rfl)

end

theorem spaces_ne_nil : ∀ w ∈ spaces, w ≠ [] := by decide

theorem reversed_spaces_ne_nil : ∀ w ∈ spaces.map List.reverse, w ≠ [] := by decide

theorem trimSpace_comm {g : Bytes → Bytes} (hinit : ∀ w ∈ spaces, ∀ s, w <+: g s ↔ w <+: s)
    (hword : ∀ w ∈ spaces, ∀ t, g (w ++ t) = w ++ g t)
    (hfinal : ∀ w ∈ spaces, ∀ s, w <:+ g s ↔ w <:+ s)
    (hlast : ∀ w ∈ spaces, ∀ t, g (t ++ w) = g t ++ w) (s : Bytes) :
    trimSpace (g s) = g (trimSpace s) := by
  have hback (f : Bytes) : stripFront (spaces.map reverse) (g f).length (g f).reverse =
      (g (stripFront (spaces.map reverse) f.length f.reverse).reverse).reverse := by
    have hrev : (g f).reverse = (g f.reverse.reverse).reverse := by rw [reverse_reverse]
    rw [hrev]
    refine stripFront_comm (g := fun r => (g r.reverse).reverse) reversed_spaces_ne_nil ?_ ?_
      (by simp) (by simp)
    · intro v hv r
      obtain ⟨w, hw, rfl⟩ := mem_map.1 hv
      rw [ reverse_prefix, hfinal w hw, ← reverse_prefix, reverse_reverse]
    · intro v hv r
      obtain ⟨w, hw, rfl⟩ := mem_map.1 hv
      rw [reverse_append, reverse_reverse, hlast w hw, reverse_append]
  rw [trimSpace, stripFront_comm spaces_ne_nil hinit hword le_rfl le_rfl, hback, reverse_reverse]
  rfl

theorem isLower_of_isUpper : ∀ y : UInt8, byte 'A' ≤ y ∧ y ≤ byte 'Z' →
    byte 'a' ≤ y + (byte 'a' - byte 'A') ∧ y + (byte 'a' - byte 'A') ≤ byte 'z' :=
  forall_byte (by decide +kernel)

variable {x : UInt8}

theorem toLowerByte_eq_iff (hupper : ¬ (byte 'A' ≤ x ∧ x ≤ byte 'Z'))
    (hlower : ¬ (byte 'a' ≤ x ∧ x ≤ byte 'z')) (y : UInt8) : toLowerByte y = x ↔ y = x := by
  unfold toLowerByte
  split_ifs with hy
  · constructor
    · rintro rfl
      exact absurd (isLower_of_isUpper y hy) hlower
    · rintro rfl
      exact absurd hy hupper
  · rfl

/-- Lower-casing letters and trimming white space do not interfere. -/
theorem trimSpace_toLower (s : Bytes) : trimSpace (toLower s) = toLower (trimSpace s) := by
  have hletters : ∀ w ∈ spaces, ∀ x ∈ w,
      ¬ (byte 'A' ≤ x ∧ x ≤ byte 'Z') ∧ ¬ (byte 'a' ≤ x ∧ x ≤ byte 'z') := by decide
  have hspace : ∀ w ∈ spaces, ∀ x ∈ w, ∀ y, toLowerByte y = x ↔ y = x := by
    intro w hw x hx
    obtain ⟨hupper, hlower⟩ := hletters w hw x hx
    exact toLowerByte_eq_iff hupper hlower
  have hinit {w : Bytes} (hw : ∀ x ∈ w, ∀ y, toLowerByte y = x ↔ y = x) (s : Bytes) :
      w <+: toLower s ↔ w <+: s := by
    rw [← isPrefixOf_iff_prefix, ← isPrefixOf_iff_prefix, toLower, isPrefixOf_map hw]
  have hself : ∀ w ∈ spaces, toLower w = w := by decide
  refine trimSpace_comm (fun w hw => hinit (hspace w hw)) (fun w hw t => ?_) (fun w hw s => ?_)
    (fun w hw t => ?_) s
  · rw [toLower, map_append, ← toLower, hself w hw]
    rfl
  · rw [← reverse_prefix, ← reverse_prefix, toLower, ← map_reverse]
    exact hinit (fun x hx => hspace w hw x (mem_reverse.1 hx)) s.reverse
  · rw [toLower, map_append]
    exact congrArg _ (hself w hw)

variable {s : Bytes}

theorem toLowerText_ascii {lowerRune : Nat → Nat} (h : ∀ c ∈ s, c < 0x80) :
    toLowerText lowerRune s = toLower s :=
  if_pos h

theorem mem_of_mem_stripFront {ws : List Bytes} {n : Nat}
    (h : x ∈ stripFront ws n s) : x ∈ s := by
  induction n generalizing s with
  | zero => exact h
  | succ n ih =>
    rw [stripFront] at h
    split at h
    · exact (drop_sublist _ _).subset (ih h)
    · exact h

theorem mem_of_mem_trimSpace (h : x ∈ trimSpace s) : x ∈ s := by
  have := mem_of_mem_stripFront (mem_reverse.1 h)
  exact mem_of_mem_stripFront (mem_reverse.1 this)

end Bouine.Lib
