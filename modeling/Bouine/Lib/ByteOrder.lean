import Mathlib.Data.List.Sort
import Mathlib.Data.List.Destutter
import Bouine.Lib.Bytes

/-! # Byte strings in order

The order of byte strings is linear, so a sorted list is determined by its members and their
multiplicities, and one without repetitions by its members.
-/

namespace Bouine.Lib

open List

instance : IsTrans Bytes bytesLE where
  trans _ _ _ := List.le_trans

instance : Std.Total bytesLE where
  total := List.le_total

instance : Std.Antisymm bytesLE where
  antisymm _ _ := List.le_antisymm

def Ordered : Type := Bytes

instance : LinearOrder Ordered where
  le := bytesLE
  lt a b := List.instLT.lt (α := Bytes) a b
  le_refl a := (Std.Total.total (r := bytesLE) a a).elim id id
  le_trans _ _ _ := List.le_trans
  le_antisymm _ _ := List.le_antisymm
  le_total := List.le_total
  lt_iff_le_not_ge a b := ⟨fun h => ⟨List.lt_asymm h, not_not_intro h⟩, fun h => not_not.1 h.2⟩
  toDecidableLE := inferInstanceAs (DecidableRel bytesLE)

namespace Ordered

def of (s : Bytes) : Ordered := s

theorem of_lt_of {a b : Bytes} : of a < of b ↔ a < b := Iff.rfl

end Ordered

theorem sort_eq_iff {l l' : List Bytes} :
    l.insertionSort bytesLE = l'.insertionSort bytesLE ↔ l.Perm l' := by
  have hperm := perm_insertionSort bytesLE
  constructor
  · intro h
    exact (hperm l).symm.trans (h ▸ hperm l')
  · intro h
    exact ((hperm l).trans (h.trans (hperm l').symm)).eq_of_pairwise
      (fun a b _ _ => List.le_antisymm) (pairwise_insertionSort _ l)
      (pairwise_insertionSort _ l')

theorem destutter_sort_congr {l l' : List Bytes} (h : ∀ s, s ∈ l ↔ s ∈ l') :
    (l.insertionSort bytesLE).destutter (· ≠ ·) = (l'.insertionSort bytesLE).destutter (· ≠ ·) := by
  have hsorted := pairwise_insertionSort bytesLE
  have hmem (l : List Bytes) (s : Bytes) : s ∈ (l.insertionSort bytesLE).dedup ↔ s ∈ l := by
    rw [mem_dedup, (perm_insertionSort bytesLE l).mem_iff]
  have hperm : (l.insertionSort bytesLE).dedup.Perm (l'.insertionSort bytesLE).dedup :=
    (perm_ext_iff_of_nodup (nodup_dedup _) (nodup_dedup _)).2 fun s => by
      rw [hmem, hmem, h]
  rw [(hsorted l).destutter_eq_dedup, (hsorted l').destutter_eq_dedup]
  exact hperm.eq_of_pairwise (fun a b _ _ => List.le_antisymm)
    ((hsorted l).sublist (dedup_sublist _)) ((hsorted l').sublist (dedup_sublist _))

theorem destutter_sort_nil_cons {l : List Bytes} (h : [] ∉ l) :
    (([] :: l).insertionSort bytesLE).destutter (· ≠ ·) =
      [] :: (l.insertionSort bytesLE).destutter (· ≠ ·) := by
  have hfirst (s : Bytes) : bytesLE [] s := not_lt_nil s
  rw [← (perm_insertionSort bytesLE l).mem_iff] at h
  rw [insertionSort_cons]
  cases hs : l.insertionSort bytesLE with
  | nil => rfl
  | cons s rest =>
    have hne : [] ≠ s := fun heq => h (by rw [hs, heq]; exact (.head _))
    rw [orderedInsert_cons_of_le _ _ (hfirst s), destutter_cons_cons, if_pos hne, destutter_cons']

end Bouine.Lib
