import Mathlib.Algebra.Ring.Nat
import Mathlib.Data.List.Basic

/-! # Buffers that grow when appended to

Only sizes matter: how many bytes a buffer holds and how many it has room for. When an append does
not fit, the buffer moves to a larger block, whose size is the allocator's choice.
-/

namespace Bouine.Lib

/-- The allocator's choice of a block for `n` bytes, for a buffer with room for `cap`. -/
structure Growth where
  grow : (cap n : Nat) → Nat
  enough : ∀ cap n, n ≤ grow cap n

def Growth.exact : Growth := ⟨fun _ n => n, fun _ n => Nat.le_refl n⟩

structure GrowingBuffer where
  len : Nat
  cap : Nat
  fits : len ≤ cap

namespace GrowingBuffer

def empty (cap : Nat) : GrowingBuffer := ⟨0, cap, Nat.zero_le cap⟩

variable (g : Growth)

def append (b : GrowingBuffer) (n : Nat) : GrowingBuffer :=
  if h : b.len + n ≤ b.cap then ⟨b.len + n, b.cap, h⟩
  else ⟨b.len + n, g.grow b.cap (b.len + n), g.enough _ _⟩

def appendAll (b : GrowingBuffer) (ns : List Nat) : GrowingBuffer := ns.foldl (append g) b

@[simp] theorem len_append (b : GrowingBuffer) (n : Nat) : (b.append g n).len = b.len + n := by
  unfold append
  split <;> rfl

theorem cap_le_append (b : GrowingBuffer) (n : Nat) : b.cap ≤ (b.append g n).cap := by
  unfold append
  split
  · exact Nat.le_refl _
  next hfull =>
    have henough := g.enough b.cap (b.len + n)
    exact Nat.le_trans (Nat.le_of_lt (Nat.lt_of_not_le hfull)) henough

theorem len_appendAll (b : GrowingBuffer) (ns : List Nat) :
    (b.appendAll g ns).len = b.len + ns.sum := by
  induction ns generalizing b with
  | nil => rfl
  | cons n ns ih =>
    calc ((b.append g n).appendAll g ns).len = (b.append g n).len + ns.sum := ih _
      _ = b.len + (n :: ns).sum := by rw [len_append, List.sum_cons, Nat.add_assoc]

theorem cap_le_appendAll (b : GrowingBuffer) (ns : List Nat) : b.cap ≤ (b.appendAll g ns).cap := by
  induction ns generalizing b with
  | nil => exact Nat.le_refl _
  | cons n ns ih => exact Nat.le_trans (b.cap_le_append g n) (ih _)

/-- The room of a buffer of `cap` bytes once it has been emptied and appended to. -/
def capAfter (cap : Nat) (ns : List Nat) : Nat := ((empty cap).appendAll g ns).cap

theorem le_capAfter (cap : Nat) (ns : List Nat) : cap ≤ capAfter g cap ns :=
  (empty cap).cap_le_appendAll g ns

theorem sum_le_capAfter (cap : Nat) (ns : List Nat) : ns.sum ≤ capAfter g cap ns := by
  have hfits := ((empty cap).appendAll g ns).fits
  rw [len_appendAll] at hfits
  exact Nat.le_trans (Nat.le_add_left _ _) hfits

end GrowingBuffer

end Bouine.Lib
