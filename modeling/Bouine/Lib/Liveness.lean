import Mathlib.Order.Nat

/-! # Endless runs

A machine `step : σ → ι → σ` that is given inputs for ever. `Often P` says that inputs with `P` come
again and again. The rule at the end gets an event from a rank that no input raises, and every input
with `P` lowers, as long as the event has not come.
-/

namespace Bouine.Lib.Liveness

variable {σ ι : Type*} (step : σ → ι → σ)

def trace (s : σ) (is : Nat → ι) : Nat → σ
  | 0 => s
  | n + 1 => step (trace s is n) (is n)

def Often (P : ι → Prop) (is : Nat → ι) : Prop := ∀ n, ∃ m, n ≤ m ∧ P (is m)

variable {s : σ} {is : Nat → ι}

theorem trace_preserves (Q : σ → Prop) {n : Nat}
    (hstep : ∀ m, n ≤ m → Q (trace step s is m) → Q (step (trace step s is m) (is m)))
    (hn : Q (trace step s is n)) {m : Nat} (hm : n ≤ m) : Q (trace step s is m) := by
  induction hm with
  | refl => exact hn
  | step hle ih => exact hstep _ hle ih

/-- The event comes, or the rank is still there, and not higher. -/
theorem event_or_rank (Rank : Nat → σ → Prop) (Event : σ → ι → Prop)
    (hkeep : ∀ k s i, Rank k s → Event s i ∨ ∃ j ≤ k, Rank j (step s i)) {n k : Nat}
    (hn : Rank k (trace step s is n)) {m : Nat} (hm : n ≤ m) :
    (∃ m', n ≤ m' ∧ Event (trace step s is m') (is m')) ∨ ∃ j ≤ k, Rank j (trace step s is m) := by
  induction hm with
  | refl => exact .inr ⟨k, le_rfl, hn⟩
  | @step m hle ih =>
    rcases ih with hevent | ⟨j, hj, hrank⟩
    · exact .inl hevent
    · rcases hkeep j _ (is m) hrank with hevent | ⟨j', hj', hrank'⟩
      · exact .inl ⟨m, hle, hevent⟩
      · exact .inr ⟨j', hj'.trans hj, hrank'⟩

theorem exists_event_of_rank (Rank : Nat → σ → Prop) (Event : σ → ι → Prop) {P : ι → Prop}
    (hkeep : ∀ k s i, Rank k s → Event s i ∨ ∃ j ≤ k, Rank j (step s i))
    (hlower : ∀ k s i, Rank k s → P i → Event s i ∨ ∃ j < k, Rank j (step s i))
    (hoften : Often P is) {n k : Nat} (hn : Rank k (trace step s is n)) :
    ∃ m, n ≤ m ∧ Event (trace step s is m) (is m) := by
  induction k using Nat.strongRecOn generalizing n with
  | _ k ih =>
    obtain ⟨m, hm, hP⟩ := hoften n
    rcases event_or_rank step Rank Event hkeep hn hm with hevent | ⟨j, hj, hrank⟩
    · exact hevent
    · rcases hlower j _ (is m) hrank hP with hevent | ⟨j', hj', hrank'⟩
      · exact ⟨m, hm, hevent⟩
      · have hnext : Rank j' (trace step s is (m + 1)) := hrank'
        obtain ⟨m', hm', hevent⟩ := ih j' (hj'.trans_le hj) hnext
        exact ⟨m', (hm.trans (Nat.le_succ m)).trans hm', hevent⟩

end Bouine.Lib.Liveness
