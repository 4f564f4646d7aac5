import Mathlib.Logic.Function.Basic
import Mathlib.Order.Defs.LinearOrder
import Bouine.Lib.Transition

/-! # Hedged fetches

`doHedgedResponse` (`internal/origin/hedgedfetch.go`), step by step and as a function of the times at
which things happen, counted from its start. Both attempts run in one context. The caller cancels it
when it has the first result, and if that is an error waits for the second, whose attempt may not have
begun its call by then: `Client.Do` does not send a request in a context that is done.
-/

namespace Bouine.Origin

/-! ## Steps -/

/-- Attempts are told apart by whether they are the duplicate. -/
inductive HedgeEvent where
  | timer
  | begin (duplicate : Bool)
  | result (duplicate : Bool)
  | receive
  | cancel

/-- Where the caller is, and whose result it has received first. -/
inductive HedgePlace (T : Type) where
  | select
  | first
  | cancel (i : Bool)
  | second (i : Bool)
  | returned (value : Option T)

/-- `began` says whether the context was live as the attempt began its call, and `sent` is what has
been sent on `resCh`. -/
structure Race (T : Type) where
  place : HedgePlace T := .select
  fired : Bool := false
  live : Bool := true
  began : Bool → Option Bool := fun _ => none
  sent : List Bool := []

namespace Race

open Lib.Transition

variable {T : Type} (outcome : Bool → Option T)

def result (s : Race T) (i : Bool) : Option T := if s.began i = some true then outcome i else none

def step (s : Race T) : HedgeEvent → Race T
  | .timer =>
    match s.place with
    | .select => { s with place := .first, fired := true }
    | _ => s
  | .begin i =>
    if s.began i = none ∧ (i → s.fired) then
      { s with began := Function.update s.began i (some s.live) }
    else s
  | .result i =>
    if s.began i ≠ none ∧ i ∉ s.sent then { s with sent := s.sent ++ [i] } else s
  | .receive =>
    match s.place, s.sent with
    | .select, i :: _ => { s with place := .returned (s.result outcome i) }
    | .first, i :: _ => { s with place := .cancel i }
    | .second i, _ :: j :: _ => { s with place := .returned ((s.result outcome i).or (s.result outcome j)) }
    | _, _ => s
  | .cancel =>
    match s.place with
    | .cancel i =>
      { s with
        live := false
        place := if (s.result outcome i).isSome then .returned (s.result outcome i) else .second i }
    | _ => s

/-- The result that was received first, else the other's if its call began in a live context. -/
def Answers (s : Race T) (value : Option T) : Prop :=
  ∃ i, s.sent.head? = some i ∧ value = (outcome i).or (s.result outcome !i)

def Ok (s : Race T) : Prop :=
  s.sent.Nodup ∧ (∀ i ∈ s.sent, s.began i ≠ none) ∧
    match s.place with
    | .select => s.fired = false ∧ s.live ∧ ∀ i, s.began i ≠ some false
    | .first => s.live ∧ ∀ i, s.began i ≠ some false
    | .cancel i => s.sent.head? = some i ∧ s.live ∧ ∀ i, s.began i ≠ some false
    | .second i => s.sent.head? = some i ∧ s.live = false ∧ s.began i = some true ∧ outcome i = none
    | .returned value => s.fired → s.live = false ∧ s.Answers outcome value

variable {outcome} {s : Race T}

theorem Ok.begin (h : s.Ok outcome) (i : Bool) : (s.step outcome (.begin i)).Ok outcome := by
  unfold step
  dsimp only
  split_ifs with hnew
  · obtain ⟨hnodup, hbegan, hplace⟩ := h
    refine ⟨hnodup, fun j hj => ?_, ?_⟩
    · by_cases hji : j = i <;> simp [Function.update, hji, hbegan j hj]
    · revert hplace
      cases s.place <;> grind [Answers, result]
  · exact h

theorem Ok.result (h : s.Ok outcome) (i : Bool) : (s.step outcome (.result i)).Ok outcome := by
  unfold step
  dsimp only
  split_ifs with hnew
  · obtain ⟨hnodup, hbegan, hplace⟩ := h
    refine ⟨?_, ?_, ?_⟩
    · refine List.nodup_append.2 ⟨hnodup, by simp, fun j hj k hk heq => hnew.2 ?_⟩
      rwa [← List.mem_singleton.1 hk, ← heq]
    · exact List.forall_mem_append.2 ⟨hbegan, List.forall_mem_singleton.2 hnew.1⟩
    · revert hplace
      cases s.place <;> grind [Answers, Race.result]
  · exact h

theorem Ok.cancel (h : s.Ok outcome) : (s.step outcome .cancel).Ok outcome := by
  obtain ⟨place, fired, live, began, sent⟩ := s
  obtain ⟨hnodup, hbegan, hplace⟩ := h
  cases place with
  | cancel i =>
    obtain ⟨hhead, -, hlive⟩ := hplace
    have hi : began i = some true := by
      rcases hb : began i with _ | _ | _
      · exact absurd hb (hbegan i (List.mem_of_head? hhead))
      · exact absurd hb (hlive i)
      · rfl
    have hresult : Race.result outcome ⟨.cancel i, fired, live, began, sent⟩ i = outcome i := if_pos hi
    simp only [Race.step, hresult]
    refine ⟨hnodup, hbegan, ?_⟩
    cases ho : outcome i with
    | none => exact ⟨hhead, rfl, hi, ho⟩
    | some v => exact fun _ => ⟨rfl, i, hhead, by simp [ho]⟩
  | _ => exact ⟨hnodup, hbegan, hplace⟩

theorem Ok.receive (h : s.Ok outcome) : (s.step outcome .receive).Ok outcome := by
  obtain ⟨place, fired, live, began, sent⟩ := s
  obtain ⟨hnodup, hbegan, hplace⟩ := h
  cases place with
  | select =>
    cases sent with
    | nil => exact ⟨hnodup, hbegan, hplace⟩
    | cons => exact ⟨hnodup, hbegan, fun hfired => absurd (hplace.1.symm.trans hfired) (by decide)⟩
  | first =>
    cases sent with
    | nil => exact ⟨hnodup, hbegan, hplace⟩
    | cons => exact ⟨hnodup, hbegan, rfl, hplace⟩
  | second i =>
    rcases sent with _ | ⟨k, _ | ⟨j, sent⟩⟩
    · exact ⟨hnodup, hbegan, hplace⟩
    · exact ⟨hnodup, hbegan, hplace⟩
    · obtain ⟨hhead, hlive, hi, -⟩ := hplace
      obtain rfl := Option.some.inj hhead
      have hj : j = !k := by cases j <;> cases k <;> simp_all
      refine ⟨hnodup, hbegan, fun _ => ⟨hlive, k, rfl, ?_⟩⟩
      rw [← hj, Race.result, if_pos hi]
      rfl
  | _ => exact ⟨hnodup, hbegan, hplace⟩

theorem Ok.step (h : s.Ok outcome) (e : HedgeEvent) : (s.step outcome e).Ok outcome := by
  cases e with
  | timer =>
    obtain ⟨place, fired, live, began, sent⟩ := s
    cases place with
    | select => exact ⟨h.1, h.2.1, h.2.2.2⟩
    | _ => exact h
  | begin i => exact h.begin i
  | result i => exact h.result i
  | receive => exact h.receive
  | cancel => exact h.cancel

/-- However the steps of the caller and the attempts interleave, a call that has fired the duplicate
returns the first result, or if that is an error the other's, which is one unless its call began
before the caller cancelled. -/
theorem returned_of_fired (events : List HedgeEvent) {value : Option T}
    (hreturned : (run (step outcome) {} events).place = .returned value)
    (hfired : (run (step outcome) {} events).fired) :
    (run (step outcome) {} events).Answers outcome value := by
  have hstart : ({} : Race T).Ok outcome := ⟨.nil, by simp, rfl, rfl, by simp⟩
  have hok : (run (step outcome) {} events).Ok outcome :=
    run_preserves (fun (s : Race T) e (h : s.Ok outcome) => h.step e) hstart events
  have hplace := hok.2.2
  rw [hreturned] at hplace
  exact (hplace hfired).2

end Race

/-! ## Times -/

/-- What an attempt does in a live context. An error is no value. -/
structure Attempt (T : Type) where
  begins : Nat
  takes : Nat
  result : Option T

namespace Attempt

variable {T : Type}

def ends (a : Attempt T) : Nat := a.begins + a.takes

def runAttempt (a : Attempt T) (cancelled : Nat) : Option T :=
  if a.begins < cancelled then a.result else none

end Attempt

/-- The select is taken at `delay`, and with `late` it takes the timer though the result is there.
The duplicate begins `lag` after that, the call of `cancel` comes `wait` after the first result is
received, and `tie` says which one that is if both come at once. -/
structure Hedge (T : Type) where
  delay : Nat
  late : Bool
  first : Attempt T
  lag : Nat
  duplicate : Attempt T
  wait : Nat
  tie : Bool

namespace Hedge

variable {T : Type} (h : Hedge T)

def fired : Bool := h.delay < h.first.ends ∨ h.late

def second : Attempt T := { h.duplicate with begins := h.delay + h.lag }

/-- The attempts in the order of their results. -/
def order : Attempt T × Attempt T :=
  if h.first.ends < h.second.ends ∨ h.first.ends = h.second.ends ∧ h.tie then (h.first, h.second)
  else (h.second, h.first)

def cancelled : Nat := max h.delay h.order.1.ends + h.wait

def doHedgedResponse : Option T :=
  if h.fired then h.order.1.result.or (h.order.2.runAttempt h.cancelled) else h.first.result

/-- The steps return the same if the results come in the order of their times, and the other call
began in a live context exactly if it began before the cancellation. -/
theorem doHedgedResponse_eq_returned (hfired : h.fired) {events : List HedgeEvent} {i : Bool}
    {value : Option T} :
    let outcome := fun i => if i then h.second.result else h.first.result
    let s := Lib.Transition.run (Race.step outcome) {} events
    s.place = .returned value → s.fired → s.sent.head? = some i →
      h.order = (if i then (h.second, h.first) else (h.first, h.second)) →
      ((s.began !i) = some true ↔ h.order.2.begins < h.cancelled) →
      h.doHedgedResponse = value := by
  intro outcome s hreturned hrun hhead horder hbegan
  obtain ⟨j, hj, rfl⟩ := Race.returned_of_fired events hreturned hrun
  obtain rfl := Option.some.inj (hhead.symm.trans hj)
  rw [doHedgedResponse, if_pos hfired, Attempt.runAttempt, if_congr hbegan.symm rfl rfl, horder]
  cases i <;> rfl

/-- If one of the attempts is good, so is the answer, unless the attempt whose result is first fails
and the other has not begun when the context is cancelled. -/
theorem good_attempt_answers_iff (hfired : h.fired)
    (hgood : h.first.result.isSome ∨ h.second.result.isSome) :
    h.doHedgedResponse.isSome ↔ h.order.1.result.isSome ∨ h.order.2.begins < h.cancelled := by
  have hgood : h.order.1.result.isSome ∨ h.order.2.result.isSome := by
    unfold order
    split_ifs
    · exact hgood
    · exact hgood.symm
  rw [doHedgedResponse, if_pos hfired, Option.isSome_or, Bool.or_eq_true, Attempt.runAttempt]
  split_ifs with hbegun
  · simp [hgood, hbegun]
  · simp [hbegun]

end Hedge

/-- The first attempt fails as the duplicate is fired, which is still to begin. -/
theorem good_duplicate_cancelled :
    let h : Hedge Unit := ⟨10, true, ⟨0, 10, none⟩, 1, ⟨0, 5, some ()⟩, 0, true⟩
    h.fired ∧ h.second.result = some () ∧ h.doHedgedResponse = none := by
  decide

theorem good_duplicate_answers :
    (⟨10, false, ⟨0, 20, none⟩, 1, ⟨0, 5, some ()⟩, 0, true⟩ : Hedge Unit).doHedgedResponse.isSome :=
  (Hedge.good_attempt_answers_iff _ (by decide) (by decide)).2 (by decide)

end Bouine.Origin
