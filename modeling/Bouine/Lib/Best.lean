import Mathlib.Order.Lattice
import Mathlib.Data.List.Perm.Basic

/-! # The best of a list

A loop that keeps the best offer so far. If what it keeps is measured by a key in a linear order,
and each round leaves the greater of the key kept and the key offered, the key at the end is a
maximum, and the order of the list does not matter.
-/

namespace Bouine.Lib

variable {α β K : Type*} [LinearOrder K]

/-- The round `step` keeps the better of what it has and what an item offers, if anything. `Inv`
holds of everything that is ever kept. -/
structure KeepsBest (Inv : α → Prop) (key : α → K) (offer : β → Option K) (step : α → β → α) : Prop where
  inv : ∀ a b, Inv a → Inv (step a b)
  none : ∀ a b, Inv a → offer b = none → key (step a b) = key a
  some : ∀ a b k, Inv a → offer b = some k → key (step a b) = max (key a) k

namespace KeepsBest

variable {Inv : α → Prop} {key : α → K} {offer : β → Option K} {step : α → β → α}

theorem of_cases (h : ∀ a b, Inv a → offer b = Option.none ∧ step a b = a ∨
      ∃ k, offer b = Option.some k ∧ Inv (step a b) ∧ key (step a b) = max (key a) k) :
    KeepsBest Inv key offer step := by
  refine ⟨fun a b ha => ?_, fun a b ha hb => ?_, fun a b k ha hb => ?_⟩ <;>
    rcases h a b ha with ⟨hnone, hstep⟩ | ⟨k, hsome, hinv, hkey⟩
  · rwa [hstep]
  · exact hinv
  · rw [hstep]
  · cases hsome.symm.trans hb
  · cases hnone.symm.trans hb
  · cases hsome.symm.trans hb
    exact hkey

variable (h : KeepsBest Inv key offer step) {a : α} (ha : Inv a)
include h ha

theorem key_foldl (l : List β) :
    key (l.foldl step a) = (l.filterMap offer).foldl max (key a) := by
  induction l generalizing a with
  | nil => rfl
  | cons b l ih =>
    rw [List.foldl_cons, ih (h.inv a b ha)]
    cases hb : offer b with
    | none => rw [List.filterMap_cons_none hb, h.none a b ha hb]
    | some k => rw [List.filterMap_cons_some hb, h.some a b k ha hb, List.foldl_cons]

theorem key_foldl_perm {l l' : List β} (hperm : l.Perm l') :
    key (l.foldl step a) = key (l'.foldl step a) := by
  rw [h.key_foldl ha, h.key_foldl ha]
  exact (hperm.filterMap offer).foldl_op_eq

end KeepsBest

end Bouine.Lib
