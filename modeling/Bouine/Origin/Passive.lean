import Bouine.Lib.Transition

/-! # Ejection by 5xx answers

`recordPassive5xx` and `notePassiveSuccess` of a target (`internal/origin/pool.go`), each atomic
operation a step. The check of the success window comes first and the count later, so a success in
between does not keep the count from ejecting the target.
-/

namespace Bouine.Origin.Passive

open Lib.Transition

def passive5xxCountWindow : Int := 5000000000

/-- Times are nanoseconds since 1970, and 0 is none. The calls under way are alike but for where they
are, so it is enough to count them. -/
structure Target where
  passiveErrors : Nat
  lastSuccess : Int
  healthy : Bool
  /-- 5xx answers found outside the window and not counted yet -/
  checked : Nat
  /-- counts at the threshold, before the compare-and-swap -/
  due : Nat
  /-- successes that have reset the count and not noted their time -/
  noting : Nat
  completed : List Int
  clock : Int

inductive Op where
  | check
  | count
  | eject
  | reset
  | note
  /-- by the reaper or the operator, who then restore -/
  | clear
  /-- also by a probe, which does not clear the count -/
  | restore
deriving DecidableEq

namespace Target

def new : Target := ⟨0, 0, true, 0, 0, 0, [], 1⟩

def successWithin (t : Target) (d : Int) : Bool := t.lastSuccess ≠ 0 ∧ t.clock - t.lastSuccess < d

def perform (threshold : Nat) (t : Target) : Op → Target
  | .check => if t.successWithin passive5xxCountWindow then t else { t with checked := t.checked + 1 }
  | .count =>
    if t.checked = 0 then t
    else
      { t with
        checked := t.checked - 1
        passiveErrors := t.passiveErrors + 1
        due := if t.passiveErrors + 1 < threshold then t.due else t.due + 1 }
  | .eject => if t.due = 0 then t else { t with due := t.due - 1, healthy := false }
  | .reset => { t with passiveErrors := 0, noting := t.noting + 1 }
  | .note =>
    if t.noting = 0 then t
    else
      { t with
        noting := t.noting - 1, lastSuccess := t.clock, completed := t.clock :: t.completed }
  | .clear => { t with passiveErrors := 0 }
  | .restore => { t with healthy := true }

def step (threshold : Nat) (t : Target) (act : Int × Op) : Target :=
  perform threshold { t with clock := act.1 } act.2

/-- The clock goes on, and no success is noted between a check and the end of its call. -/
def Apart (t : Target) (act : Int × Op) : Prop :=
  t.clock ≤ act.1 ∧ (act.2 = .note → t.checked = 0 ∧ t.due = 0)

instance (t : Target) (act : Int × Op) : Decidable (t.Apart act) := inferInstanceAs (Decidable (_ ∧ _))

structure Sound (t : Target) : Prop where
  clock : 1 ≤ t.clock
  last : t.lastSuccess ≤ t.clock
  completed : ∀ time ∈ t.completed, 1 ≤ time ∧ time ≤ t.lastSuccess
  quiet : t.checked ≠ 0 ∨ t.due ≠ 0 → ∀ time ∈ t.completed, time + passive5xxCountWindow ≤ t.clock

variable {threshold : Nat} {t : Target}

theorem Sound.perform (ht : t.Sound) {op : Op} (hop : op = .note → t.checked = 0 ∧ t.due = 0) :
    (t.perform threshold op).Sound := by
  cases op with
  | check =>
    rw [Target.perform]
    split_ifs with hwithin
    · exact ht
    · refine { ht with quiet := fun _ time hmem => ?_ }
      obtain ⟨hpos, hle⟩ := ht.completed time hmem
      simp only [successWithin, decide_eq_true_eq, not_and] at hwithin
      dsimp only
      omega
  | count =>
    rw [Target.perform]
    split
    · exact ht
    · next hsome => exact { ht with quiet := fun _ => ht.quiet (.inl hsome) }
  | eject =>
    rw [Target.perform]
    split_ifs with hnone
    · exact ht
    · exact { ht with quiet := fun _ => ht.quiet (.inr hnone) }
  | reset | clear | restore => exact { ht with }
  | note =>
    rw [Target.perform]
    split_ifs
    · exact ht
    · refine ⟨ht.clock, Int.le_refl _, List.forall_mem_cons.2 ⟨⟨ht.clock, Int.le_refl _⟩, ?_⟩, ?_⟩
      · exact fun time hmem => (ht.completed time hmem).imp_right fun h => Int.le_trans h ht.last
      · exact fun h => absurd h (by simp [hop rfl])

theorem Sound.step (ht : t.Sound) {act : Int × Op} (hact : t.Apart act) :
    (t.step threshold act).Sound :=
  perform (t := { t with clock := act.1 })
    ⟨Int.le_trans ht.clock hact.1, Int.le_trans ht.last hact.1, ht.completed,
      fun h time hmem => Int.le_trans (ht.quiet h time hmem) hact.1⟩ hact.2

/-- If no success is noted while a call is between its check and its end, a target that is ejected
has had no success within five seconds. -/
theorem ejected_without_success (threshold : Nat) (acts : List (Int × Op)) (now : Int)
    (h : Along (step threshold) Apart new (acts ++ [(now, .eject)]))
    (hdue : (run (step threshold) new acts).due ≠ 0) :
    ∀ time ∈ (run (step threshold) new acts).completed, time + passive5xxCountWindow ≤ now := by
  obtain ⟨hacts, ⟨hclock, -⟩, -⟩ := along_append.1 h
  have hnew : new.Sound := ⟨by decide, by decide, nofun, nofun⟩
  have hsound := (always_of_along (fun _ _ ht hact => ht.step hact) hnew hacts).last
  exact fun time hmem => Int.le_trans (hsound.quiet (.inr hdue) time hmem) hclock

/-- A success is noted and five seconds later the first 5xx answer ejects the target. -/
theorem ejected_after_window :
    let t := run (step 1) new [(1, .reset), (1, .note), (5000000001, .check), (5000000001, .count)]
    t.due ≠ 0 ∧ ∀ time ∈ t.completed, time + passive5xxCountWindow ≤ 5000000001 :=
  ⟨by decide, ejected_without_success 1 _ _ (by decide) (by decide)⟩

/-- A success is noted between the check and the count of a 5xx answer, which ejects the target. -/
theorem ejected_after_success :
    let t := run (step 1) new [(1, .check), (2, .reset), (3, .note), (4, .count)]
    t.healthy = true ∧ 3 ∈ t.completed ∧ (t.step 1 (5, .eject)).healthy = false := by
  decide

end Target

end Bouine.Origin.Passive
