import Mathlib.Data.List.Basic

/-! # Filtering with or without repeated names

`select` goes through a list and keeps the elements that pass a test; on request it keeps only
the first of those that share a name. -/

namespace Bouine.Lib

variable {α β : Type*} [BEq β]

def select (ok : α → Bool) (name : α → β) (dedup : Bool) : List β → List α → List α
  | _, [] => []
  | seen, a :: as =>
    if ok a && !(dedup && seen.contains (name a)) then
      a :: select ok name dedup (seen ++ [name a]) as
    else select ok name dedup seen as

variable {ok : α → Bool} {name : α → β}

theorem select_keep_all (seen : List β) (as : List α) :
    select ok name false seen as = as.filter ok := by
  induction as generalizing seen with
  | nil => rfl
  | cons a as ih => cases h : ok a <;> simp [select, h, ih]

/-- With repeated names dropped, an element is kept if it is the first of its name to pass. -/
theorem mem_select_first [LawfulBEq β] {seen : List β} {as : List α} {a : α} :
    a ∈ select ok name true seen as ↔
      name a ∉ seen ∧ as.find? (fun b => ok b && name b == name a) = some a := by
  induction as generalizing seen with
  | nil => simp [select]
  | cons b as ih =>
    simp only [select, Bool.true_and]
    by_cases hb : ok b = true
    · by_cases hseen : name b ∈ seen
      · -- the name was taken: what is kept has another one
        have hskip : (ok b && !seen.contains (name b)) = false := by simp [hseen]
        rw [hskip, if_neg (by simp), ih]
        refine and_congr_right fun ha => ?_
        have hne : name b ≠ name a := fun h => ha (h ▸ hseen)
        simp [hne]
      · have htake : (ok b && !seen.contains (name b)) = true := by simp [hb, hseen]
        rw [htake, if_pos rfl, List.mem_cons, ih]
        by_cases hname : name b = name a
        · simp only [List.find?_cons, hb, hname, beq_self_eq_true, Bool.and_true]
          simp only [List.mem_append, List.mem_singleton, or_true, not_true, false_and, or_false,
            Option.some.injEq]
          exact ⟨fun h => ⟨hname ▸ hseen, h.symm⟩, fun h => h.2.symm⟩
        · have hne : a ≠ b := fun h => hname (by rw [h])
          simp [hname, Ne.symm hname, hne]
    · simp [hb, ih]

end Bouine.Lib
