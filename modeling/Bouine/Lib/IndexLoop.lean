import Mathlib.Data.List.TakeWhile

/-! # Index loops

Loops that walk over an array with an index, told by what is left of the array's list.
-/

namespace Bouine.Lib

open List

variable {α : Type}

/-- `for i < len(s) && p(s[i]) { i++ }` -/
def indexWhile (p : α → Bool) (s : Array α) (i : Nat) : Nat :=
  if h : i < s.size then
    if p s[i] then indexWhile p s (i + 1) else i
  else i
termination_by s.size - i

theorem drop_toList_cons {s : Array α} {i : Nat} (h : i < s.size) :
    s.toList.drop i = s[i] :: s.toList.drop (i + 1) := by
  rw [drop_eq_getElem_cons (by simpa using h)]
  rfl

theorem drop_toList_nil {s : Array α} {i : Nat} (h : ¬ i < s.size) : s.toList.drop i = [] :=
  drop_eq_nil_of_le (by simpa using h)

theorem le_indexWhile (p : α → Bool) (s : Array α) (i : Nat) : i ≤ indexWhile p s i := by
  fun_induction indexWhile p s i with
  | case1 i h hp ih => omega
  | case2 | case3 => exact le_rfl

theorem drop_indexWhile (p : α → Bool) (s : Array α) (i : Nat) :
    s.toList.drop (indexWhile p s i) = (s.toList.drop i).dropWhile p := by
  fun_induction indexWhile p s i with
  | case1 i h hp ih => rw [ih, drop_toList_cons h, dropWhile_cons_of_pos hp]
  | case2 i h hp => rw [drop_toList_cons h, dropWhile_cons_of_neg hp]
  | case3 i h => rw [drop_toList_nil h, dropWhile_nil]

theorem extract_indexWhile (p : α → Bool) (s : Array α) (i : Nat) :
    (s.extract i (indexWhile p s i)).toList = (s.toList.drop i).takeWhile p := by
  rw [Array.toList_extract, extract_eq_take_drop]
  fun_induction indexWhile p s i with
  | case1 i h hp ih =>
    have hle := le_indexWhile p s (i + 1)
    have hstep : indexWhile p s (i + 1) - i = (indexWhile p s (i + 1) - (i + 1)) + 1 := by omega
    rw [hstep, drop_toList_cons h, take_succ_cons, ih, takeWhile_cons_of_pos hp]
  | case2 i h hp =>
    rw [drop_toList_cons h, takeWhile_cons_of_neg hp, Nat.sub_self, take_zero]
  | case3 i h => rw [drop_toList_nil h, take_nil, takeWhile_nil]

end Bouine.Lib
