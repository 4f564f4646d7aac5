import Bouine.Lib.Bytes

/-! # Fixed-width binary fields

Naturals of a fixed number of bytes, least significant first, slices of a buffer, and the reflected
CRC-32. A record of such fields is read back field by field: `slice_append` finds the field,
`getLE_putLE` decodes it. Nothing depends on the polynomial of the checksum.
-/

namespace Bouine.Lib

open List Nat

def putLE : Nat → Nat → Bytes
  | 0, _ => []
  | w + 1, n => UInt8.ofNat n :: putLE w (n / 256)

def getLE : Bytes → Nat
  | [] => 0
  | b :: s => b.toNat + 256 * getLE s

@[simp] theorem length_putLE (w n : Nat) : (putLE w n).length = w := by
  induction w generalizing n with
  | zero => rfl
  | succ w ih => simp [putLE, ih]

theorem getLE_putLE_mod (w n : Nat) : getLE (putLE w n) = n % 256 ^ w := by
  induction w generalizing n with
  | zero => simp [putLE, getLE, mod_one]
  | succ w ih =>
    have hbyte : (UInt8.ofNat n).toNat = n % 256 := UInt8.toNat_ofNat'
    rw [putLE, getLE, ih, hbyte, pow_succ', mod_mul]

theorem getLE_putLE {w n : Nat} (h : n < 256 ^ w) : getLE (putLE w n) = n := by
  rw [getLE_putLE_mod, mod_eq_of_lt h]

def slice (a b : Nat) (s : Bytes) : Bytes := (s.drop a).take (b - a)

theorem slice_append {a b : Nat} {p m r : Bytes} (hp : p.length = a) (hm : a + m.length = b) :
    slice a b (p ++ (m ++ r)) = m := by
  subst hp hm
  simp [slice]

theorem slice_shift (p s : Bytes) (a b : Nat) :
    slice (p.length + a) (p.length + b) (p ++ s) = slice a b s := by
  rw [slice, slice, drop_length_add_append, Nat.add_sub_add_left]

theorem slice_take {a b n : Nat} (s : Bytes) (h : b ≤ n) :
    slice a b (s.take n) = slice a b s := by
  simp only [slice, drop_take, take_take]
  congr 1
  omega

theorem slice_append_left {a b : Nat} {s : Bytes} (h : b ≤ s.length) (t : Bytes) :
    slice a b (s ++ t) = slice a b s := by
  rw [← slice_take (s ++ t) h, take_left]

/-! ## Rows of one width -/

section

variable {α : Type} {encode : α → Bytes} {w : Nat}

theorem length_flatMap_rows (hw : ∀ a, (encode a).length = w) (xs : List α) :
    (xs.flatMap encode).length = xs.length * w := by
  simp [length_flatMap, hw]

theorem slice_row (hw : ∀ a, (encode a).length = w) (xs : List α) {i : Nat} (hi : i < xs.length) :
    slice (i * w) ((i + 1) * w) (xs.flatMap encode) = encode xs[i] := by
  induction xs generalizing i with
  | nil => exact absurd hi (not_lt_zero i)
  | cons a xs ih =>
    rw [flatMap_cons]
    cases i with
    | zero => rw [slice, Nat.zero_mul, drop_zero, Nat.sub_zero, take_left' (by simp [hw])]; rfl
    | succ i =>
      have hshift := slice_shift (encode a) (xs.flatMap encode) (i * w) ((i + 1) * w)
      rw [hw, Nat.add_comm w, Nat.add_comm w, ← succ_mul, ← succ_mul] at hshift
      rw [hshift, ih (lt_of_succ_lt_succ hi)]
      rfl

end

/-- The number that a word of `w` bits is in two's complement. -/
def signed (w n : Nat) : Int := Int.bmod n (2 ^ w)

theorem signed_of_lt {w n : Nat} (h : 2 * n < 2 ^ w) : signed w n = n := by
  apply Int.bmod_eq_of_le <;> omega

/-- Byte strings of one length, as `[n]byte` is. -/
abbrev FixedBytes (n : Nat) := { s : Bytes // s.length = n }

/-- `copy` into a zeroed `[n]byte`. -/
def copyFixed (n : Nat) (s : Bytes) : FixedBytes n :=
  ⟨(s ++ List.replicate n 0).take n, by simp⟩

@[simp] theorem copyFixed_val {n : Nat} (k : FixedBytes n) : copyFixed n k.val = k := by
  apply Subtype.ext
  simp [copyFixed, k.property]

def crcShift (poly c : UInt32) : UInt32 :=
  if c &&& 1 = 1 then (c >>> 1) ^^^ poly else c >>> 1

def crcByte (poly c : UInt32) (b : UInt8) : UInt32 :=
  (crcShift poly)^[8] (c ^^^ b.toUInt32)

/-- `crc32.Checksum` for the table of a reflected polynomial. -/
@[irreducible] def crc32 (poly : UInt32) (s : Bytes) : UInt32 :=
  s.foldl (crcByte poly) 0xFFFFFFFF ^^^ 0xFFFFFFFF

def castagnoli : UInt32 := 0x82F63B78

example : crc32 castagnoli (ascii "123456789") = 0xE3069283 := by decide +kernel

def putUint32 (x : UInt32) : Bytes := putLE 4 x.toNat

def putUint64 (x : UInt64) : Bytes := putLE 8 x.toNat

def getUint32 (s : Bytes) : UInt32 := UInt32.ofNat (getLE s)

def getUint64 (s : Bytes) : UInt64 := UInt64.ofNat (getLE s)

@[simp] theorem length_putUint32 (x : UInt32) : (putUint32 x).length = 4 := length_putLE 4 _

@[simp] theorem length_putUint64 (x : UInt64) : (putUint64 x).length = 8 := length_putLE 8 _

@[simp] theorem getUint32_putUint32 (x : UInt32) : getUint32 (putUint32 x) = x := by
  rw [getUint32, putUint32, getLE_putLE x.toNat_lt, UInt32.ofNat_toNat]

@[simp] theorem getUint64_putUint64 (x : UInt64) : getUint64 (putUint64 x) = x := by
  rw [getUint64, putUint64, getLE_putLE x.toNat_lt, UInt64.ofNat_toNat]

def withCrc (poly : UInt32) (buf : Bytes) : Bytes := buf ++ putUint32 (crc32 poly buf)

@[simp] theorem length_withCrc (poly : UInt32) (buf : Bytes) :
    (withCrc poly buf).length = buf.length + 4 := by
  simp [withCrc]

theorem take_withCrc (poly : UInt32) {buf : Bytes} {n : Nat} (h : buf.length = n) :
    (withCrc poly buf).take n = buf :=
  take_left' h

theorem slice_withCrc (poly : UInt32) {buf : Bytes} {a : Nat} (h : buf.length = a) :
    slice a (a + 4) (withCrc poly buf) = putUint32 (crc32 poly buf) := by
  rw [withCrc, ← append_nil (putUint32 _)]
  exact slice_append h (by simp)

/-! ## A position in a buffer -/

structure At (buf : Bytes) (off : Nat) (rest : Bytes) : Prop where
  drop_eq : buf.drop off = rest
  length_eq : buf.length = off + rest.length

section

variable {buf m r : Bytes} {off n : Nat}

theorem at_append (p r : Bytes) : At (p ++ r) p.length r := ⟨drop_left, by simp⟩

theorem at_start (buf : Bytes) : At buf 0 buf := ⟨drop_zero, (Nat.zero_add _).symm⟩

theorem At.slice_eq (h : At buf off (m ++ r)) (hn : m.length = n) : slice off (off + n) buf = m := by
  rw [slice, h.drop_eq, Nat.add_sub_cancel_left, take_left' hn]

theorem At.advance (h : At buf off (m ++ r)) (hn : m.length = n) : At buf (off + n) r where
  drop_eq := by rw [← drop_drop, h.drop_eq, drop_left' hn]
  length_eq := by
    rw [h.length_eq, length_append]
    omega

theorem At.not_short (h : At buf off (m ++ r)) (hn : m.length = n) : ¬ buf.length < off + n := by
  rw [h.length_eq, length_append]
  omega

end

/-! ## Instants as 64-bit words

An instant is a number of nanoseconds from the start of the year 1, Go's zero time.
-/

def unixEpoch : Int := 62135596800 * 1000000000

def unixNano (t : Int) : Int64 := Int64.ofInt (t - unixEpoch)

def ofUnixNano (n : Int64) : Int := unixEpoch + n.toInt

def HasUnixNano (t : Int) : Prop := -2 ^ 63 ≤ t - unixEpoch ∧ t - unixEpoch < 2 ^ 63

theorem hasUnixNano_ofUnixNano (n : Int64) : HasUnixNano (ofUnixNano n) := by
  have hlow := n.le_toInt
  have hhigh := n.toInt_lt
  unfold HasUnixNano ofUnixNano
  omega

theorem toInt_unixNano {t : Int} (h : HasUnixNano t) : (unixNano t).toInt = t - unixEpoch :=
  Int64.toInt_ofInt_of_le h.1 h.2

theorem ofUnixNano_unixNano_iff {t : Int} : ofUnixNano (unixNano t) = t ↔ HasUnixNano t := by
  constructor
  · intro h
    rw [← h]
    exact hasUnixNano_ofUnixNano _
  · intro h
    rw [ofUnixNano, toInt_unixNano h]
    omega

end Bouine.Lib
