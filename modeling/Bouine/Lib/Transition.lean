import Mathlib.Data.List.Basic

/-! # Runs of a deterministic machine

A machine is a step function `step : σ → ι → σ`; a run folds it over a list of inputs. `Along P`
holds of a run when `P` holds of every input in the state it is applied in, `Always Q` when `Q`
holds of every state the run visits, the first and the last included. The rules at the end turn
one-step facts into facts about runs.
-/

namespace Bouine.Lib.Transition

variable {σ ι : Type*} (step : σ → ι → σ)

def run (s : σ) (is : List ι) : σ := is.foldl step s

/-- Every input of the run satisfies `P` in the state it is applied in. -/
def Along (P : σ → ι → Prop) : σ → List ι → Prop
  | _, [] => True
  | s, i :: is => P s i ∧ Along P (step s i) is

instance decidableAlong (P : σ → ι → Prop) [∀ s i, Decidable (P s i)] :
    ∀ s is, Decidable (Along step P s is)
  | _, [] => inferInstanceAs (Decidable True)
  | s, i :: is =>
    have := decidableAlong P (step s i) is
    inferInstanceAs (Decidable (_ ∧ _))

/-- Every state of the run satisfies `Q`. -/
def Always (Q : σ → Prop) : σ → List ι → Prop
  | s, [] => Q s
  | s, i :: is => Q s ∧ Always Q (step s i) is

@[simp] theorem run_nil (s : σ) : run step s [] = s := rfl

@[simp] theorem run_cons (s : σ) (i : ι) (is : List ι) :
    run step s (i :: is) = run step (step s i) is := rfl

@[simp] theorem run_append (s : σ) (is js : List ι) :
    run step s (is ++ js) = run step (run step s is) js := by
  simp [run, List.foldl_append]

variable {step} {P : σ → ι → Prop} {Q : σ → Prop}

theorem along_append {s : σ} {is js : List ι} :
    Along step P s (is ++ js) ↔ Along step P s is ∧ Along step P (run step s is) js := by
  induction is generalizing s with
  | nil => simp [Along]
  | cons i is ih => simp [Along, ih, and_assoc]

theorem Along.take {s : σ} {is : List ι} (h : Along step P s is) (n : Nat) :
    Along step P s (is.take n) := by
  rw [← List.take_append_drop n is] at h
  exact (along_append.1 h).1

theorem along_of_mem {R : ι → Prop} {is : List ι} (h : ∀ i ∈ is, R i) (s : σ) :
    Along step (fun _ => R) s is := by
  induction is generalizing s with
  | nil => trivial
  | cons i is ih =>
    exact ⟨h i (.head _), ih (fun j hj => h j (.tail _ hj)) _⟩

theorem Always.head {s : σ} : ∀ {is : List ι}, Always step Q s is → Q s
  | [], h => h
  | _ :: _, h => h.1

theorem Always.last {s : σ} {is : List ι} (h : Always step Q s is) : Q (run step s is) := by
  induction is generalizing s with
  | nil => exact h
  | cons i is ih => exact ih h.2

theorem Always.mono {Q' : σ → Prop} (hQ : ∀ s, Q s → Q' s) {s : σ} {is : List ι}
    (h : Always step Q s is) : Always step Q' s is := by
  induction is generalizing s with
  | nil => exact hQ s h
  | cons i is ih => exact ⟨hQ s h.1, ih h.2⟩

theorem Along.mono {P' : σ → ι → Prop} (hP : ∀ s i, P s i → P' s i) {s : σ} {is : List ι}
    (h : Along step P s is) : Along step P' s is := by
  induction is generalizing s with
  | nil => trivial
  | cons i is ih => exact ⟨hP s i h.1, ih h.2⟩

/-- When, in states with an invariant `W` and on inputs that satisfy `R`, an input preserves the
property exactly if it is good, a run of such inputs keeps it throughout exactly if all its inputs
are good. -/
theorem always_iff_along_within {W : σ → Prop} {R : σ → ι → Prop}
    (hW : ∀ s i, W s → R s i → W (step s i))
    (hstep : ∀ s i, W s → R s i → Q s → (Q (step s i) ↔ P s i)) {s : σ} {is : List ι}
    (h0 : W s) (hR : Along step R s is) (hQ : Q s) : Always step Q s is ↔ Along step P s is := by
  induction is generalizing s with
  | nil => exact iff_of_true hQ trivial
  | cons i is ih =>
    have hnext := hW s i h0 hR.1
    constructor
    · rintro ⟨-, hrest⟩
      exact ⟨(hstep s i h0 hR.1 hQ).1 hrest.head, (ih hnext hR.2 hrest.head).1 hrest⟩
    · rintro ⟨hi, hrest⟩
      exact ⟨hQ, (ih hnext hR.2 ((hstep s i h0 hR.1 hQ).2 hi)).2 hrest⟩

theorem always_iff_along {W : σ → Prop} (hW : ∀ s i, W s → W (step s i))
    (hstep : ∀ s i, W s → Q s → (Q (step s i) ↔ P s i)) {s : σ} {is : List ι}
    (h0 : W s) (hQ : Q s) : Always step Q s is ↔ Along step P s is :=
  always_iff_along_within (R := fun _ _ => True) (fun s i hs _ => hW s i hs)
    (fun s i hs _ => hstep s i hs) h0 (along_of_mem (fun _ _ => trivial) s) hQ

theorem always_of_step (hstep : ∀ s i, Q s → Q (step s i)) {s : σ} (h0 : Q s) (is : List ι) :
    Always step Q s is := by
  induction is generalizing s with
  | nil => exact h0
  | cons i is ih => exact ⟨h0, ih (hstep s i h0)⟩

theorem always_of_along (hstep : ∀ s i, Q s → P s i → Q (step s i)) {s : σ} {is : List ι}
    (h0 : Q s) (h : Along step P s is) : Always step Q s is := by
  induction is generalizing s with
  | nil => exact h0
  | cons i is ih => exact ⟨h0, ih (hstep s i h0 h.1) h.2⟩

theorem run_preserves (hstep : ∀ s i, Q s → Q (step s i)) {s : σ} (h0 : Q s) (is : List ι) :
    Q (run step s is) :=
  (always_of_step hstep h0 is).last

/-! ## Stores -/

theorem update_eq_some {α β : Type*} [DecidableEq α] {f : α → Option β} {a b : α} {x y : β}
    (h : Function.update f a (some x) b = some y) : b = a ∧ x = y ∨ b ≠ a ∧ f b = some y := by
  rw [Function.update_apply] at h
  split_ifs at h with hb
  · exact .inl ⟨hb, Option.some.inj h⟩
  · exact .inr ⟨hb, h⟩

end Bouine.Lib.Transition
