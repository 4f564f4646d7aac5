import Bouine.Lib.Bytes

/-! # Writing into a buffer of fixed size

A buffer is a block of memory and a write position that may run past its end: bytes that do not fit
are counted and dropped. `Represents b size out` says that `out` has been written, whether or not it
still fits; what a reader of the block sees is then known exactly.
-/

namespace Bouine.Lib

open List

structure Buf where
  mem : Bytes
  n : Nat

namespace Buf

def make (size : Nat) : Buf := ⟨List.replicate size 0, 0⟩

def appendByte (b : Buf) (c : UInt8) : Buf :=
  ⟨if b.n < b.mem.length then b.mem.set b.n c else b.mem, b.n + 1⟩

def append (b : Buf) (s : Bytes) : Buf := s.foldl appendByte b

/-- Whether the written bytes end in `s`; never once the position is past the end. -/
def hasSuffix (b : Buf) (s : Bytes) : Bool :=
  s.length ≤ b.n && b.n ≤ b.mem.length && (b.mem.take b.n).drop (b.n - s.length) == s

/-- Take back the last `k` bytes. -/
def shrink (b : Buf) (k : Nat) : Buf := { b with n := b.n - k }

def contents (b : Buf) : Bytes := b.mem.take b.n

/-- `out` has been written to a block of `size` bytes, its overflow dropped. -/
structure Represents (b : Buf) (size : Nat) (out : Bytes) : Prop where
  length_mem : b.mem.length = size
  n_eq : b.n = out.length
  take_mem : b.mem.take b.n = out.take size

theorem represents_make (size : Nat) : (make size).Represents size [] := by
  constructor <;> simp [make]

variable {b : Buf} {size : Nat} {out : Bytes}

section

variable (h : b.Represents size out)
include h

theorem Represents.appendByte (c : UInt8) : (b.appendByte c).Represents size (out ++ [c]) := by
  obtain ⟨rfl, hn, hmem⟩ := h
  refine ⟨?_, by simp [Buf.appendByte, hn], ?_⟩
  · simp only [Buf.appendByte]
    split <;> simp
  simp only [Buf.appendByte]
  by_cases hlt : b.n < b.mem.length
  · have hfit : out.length ≤ b.mem.length := by omega
    have hall : (out ++ [c]).take b.mem.length = out ++ [c] :=
      take_of_length_le (by rw [length_append, length_singleton]; omega)
    rw [take_of_length_le hfit] at hmem
    rw [if_pos hlt, hall, take_add_one, take_set_of_le (le_rfl), hmem]
    simp [hlt]
  · rw [if_neg hlt, take_of_length_le (by omega), take_append_of_le_length (by omega),
      ← hmem, take_of_length_le (by omega)]

theorem Represents.append (s : Bytes) : (b.append s).Represents size (out ++ s) := by
  induction s generalizing b out with
  | nil => simpa [Buf.append] using h
  | cons c s ih =>
    have := ih (h.appendByte c)
    rwa [append_assoc] at this

theorem Represents.contents_eq (hfit : out.length ≤ size) : b.contents = out := by
  rw [contents, h.take_mem, take_of_length_le hfit]

theorem Represents.hasSuffix_iff (hfit : out.length ≤ size)
    (s : Bytes) : b.hasSuffix s ↔ s <:+ out := by
  have hc : b.mem.take b.n = out := h.contents_eq hfit
  rw [Buf.hasSuffix, hc, h.n_eq, h.length_mem]
  simp only [Bool.and_eq_true, decide_eq_true_eq, beq_iff_eq]
  constructor
  · intro hs
    exact hs.2 ▸ drop_suffix _ _
  · intro hs
    exact ⟨⟨hs.length_le, hfit⟩, (suffix_iff_eq_drop.1 hs).symm⟩

theorem Represents.shrink (hfit : out.length ≤ size) (k : Nat) :
    (b.shrink k).Represents size (out.take (out.length - k)) := by
  have hc : b.mem.take b.n = out := h.contents_eq hfit
  refine ⟨h.length_mem, by simp [Buf.shrink, h.n_eq], ?_⟩
  have hlen : (out.take (out.length - k)).length ≤ size := by simp; omega
  have hmin : min (b.n - k) b.n = b.n - k := by omega
  rw [take_of_length_le hlen]
  show b.mem.take (b.n - k) = _
  rw [← hmin, ← take_take, hc, h.n_eq]

/-- Once the position is past the end no suffix is found. -/
theorem Represents.hasSuffix_of_overflow (hlong : size < out.length)
    (s : Bytes) : b.hasSuffix s = false := by
  have : ¬ b.n ≤ b.mem.length := by
    rw [h.n_eq, h.length_mem]
    omega
  simp [hasSuffix, this]

end

end Buf

end Bouine.Lib
