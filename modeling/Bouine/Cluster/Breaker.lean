import Bouine.Lib.Transition

/-! # The breaker of a peer address

`breakerAllowed` and `recordPeerFailure` of `internal/cluster/peerfetch.go`, for one address. After
too many failures in a row it is marked until some time. The check that finds the time over clears
the mark, the next failure sets it again, and in between every check passes.
-/

namespace Bouine.Cluster

open Lib.Transition

/-- Times are in nanoseconds, and the zero time is none. -/
structure AddrFailureState where
  consecutive : Nat
  trippedUntil : Option Int

structure BreakerConfig where
  failureThreshold : Nat
  failureCooldown : Int

/-- The entry of the address in `breaker`, if there is one. -/
abbrev BreakerEntry := Option AddrFailureState

namespace BreakerEntry

def trippedUntil (e : BreakerEntry) : Option Int := e.bind AddrFailureState.trippedUntil

def breakerAllowed (e : BreakerEntry) (now : Int) : Bool × BreakerEntry :=
  match e with
  | none | some ⟨_, none⟩ => (true, e)
  | some ⟨consecutive, some time⟩ =>
    if now < time then (false, e) else (true, some ⟨consecutive, none⟩)

def recordPeerFailure (cfg : BreakerConfig) (e : BreakerEntry) (now : Int) : BreakerEntry :=
  let st := e.getD ⟨0, none⟩
  some ⟨st.consecutive + 1,
    if cfg.failureThreshold ≤ st.consecutive + 1 ∧ st.trippedUntil = none then
      some (now + cfg.failureCooldown)
    else st.trippedUntil⟩

theorem breakerAllowed_cases (e : BreakerEntry) (now : Int) :
    e.trippedUntil = none ∧ e.breakerAllowed now = (true, e) ∨
      ∃ time, e.trippedUntil = some time ∧ (now < time ∧ e.breakerAllowed now = (false, e) ∨
        time ≤ now ∧ ∃ e' : BreakerEntry, e.breakerAllowed now = (true, e') ∧ e'.trippedUntil = none ∧
          (e.getD ⟨0, none⟩).consecutive = (e'.getD ⟨0, none⟩).consecutive) := by
  unfold breakerAllowed
  split
  · exact .inl ⟨rfl, rfl⟩
  · exact .inl ⟨rfl, rfl⟩
  · next consecutive time =>
    refine .inr ⟨time, rfl, ?_⟩
    split_ifs with h
    · exact .inl ⟨h, rfl⟩
    · exact .inr ⟨Int.not_lt.1 h, _, rfl, rfl, rfl⟩

theorem mem_trippedUntil_recordPeerFailure {cfg : BreakerConfig} {e : BreakerEntry} {now time : Int}
    (h : time ∈ (e.recordPeerFailure cfg now).trippedUntil) :
    time = now + cfg.failureCooldown ∨ time ∈ e.trippedUntil := by
  have he : e.trippedUntil = (e.getD ⟨0, none⟩).trippedUntil := by cases e <;> rfl
  rw [recordPeerFailure, trippedUntil, Option.bind_some] at h
  split_ifs at h
  · exact .inl (Option.some.inj h).symm
  · exact .inr (he ▸ h)

end BreakerEntry

/-! ## RPCs to a dead peer -/

/-- Where an RPC stands: one that passed before the address was blacklisted is `dialing`, one that
has passed since is `probing`. -/
inductive RpcPhase where
  | waiting
  | dialing
  | probing
  | done
deriving DecidableEq

/-- The locked calls of an RPC, with the time it reads. -/
inductive BreakerAct where
  | allowed (rpc : Nat) (now : Int)
  | failed (rpc : Nat) (now : Int)

def BreakerAct.now : BreakerAct → Int
  | .allowed _ now | .failed _ now => now

/-- The entry, the time of the last call, the RPCs, and the times at which they have passed. -/
structure DeadPeer where
  entry : BreakerEntry
  clock : Int
  phase : Nat → RpcPhase
  passes : List Int

namespace DeadPeer

/-- An RPC checks once, and records a failure once, after its dial. -/
def step (cfg : BreakerConfig) (s : DeadPeer) : BreakerAct → DeadPeer
  | .allowed rpc now =>
    if s.phase rpc ≠ .waiting then { s with clock := now }
    else if (s.entry.breakerAllowed now).1 then
      ⟨(s.entry.breakerAllowed now).2, now, Function.update s.phase rpc .probing, s.passes ++ [now]⟩
    else
      { s with entry := (s.entry.breakerAllowed now).2, clock := now
               phase := Function.update s.phase rpc .done }
  | .failed rpc now =>
    if s.phase rpc = .dialing ∨ s.phase rpc = .probing then
      { s with entry := s.entry.recordPeerFailure cfg now, clock := now
               phase := Function.update s.phase rpc .done }
    else { s with clock := now }

/-- The address has been blacklisted, and no RPC has passed since. -/
structure Blacklisted (cfg : BreakerConfig) (s : DeadPeer) : Prop where
  tripped : ∃ st time, s.entry = some st ∧ st.trippedUntil = some time ∧
    cfg.failureThreshold ≤ st.consecutive
  passes : s.passes = []

/-- No interval shorter than the cooldown has two passes. -/
def OnePerCooldown (cfg : BreakerConfig) (s : DeadPeer) : Prop :=
  s.passes.Pairwise (· + cfg.failureCooldown ≤ ·)

/-- No RPC checks while a probe is dialing and nobody has set the mark that it cleared. -/
def Quiet (s : DeadPeer) : BreakerAct → Prop
  | .allowed .. => (∃ r, s.phase r = .probing) → s.entry.trippedUntil ≠ none
  | .failed .. => True

structure Ok (cfg : BreakerConfig) (s : DeadPeer) : Prop where
  past : ∀ p ∈ s.passes, p ≤ s.clock
  marked : ∀ time ∈ s.entry.trippedUntil, ∀ p ∈ s.passes, p + cfg.failureCooldown ≤ time
  cleared : s.entry.trippedUntil = none → ∃ r, s.phase r = .probing
  tripped : cfg.failureThreshold ≤ (s.entry.getD ⟨0, none⟩).consecutive
  spaced : s.OnePerCooldown cfg

variable {cfg : BreakerConfig} {s : DeadPeer}

theorem Blacklisted.ok (h : s.Blacklisted cfg) : Ok cfg s := by
  obtain ⟨⟨st, time, hentry, htime, hcount⟩, hpasses⟩ := h
  have hmark : s.entry.trippedUntil = some time := by rw [hentry, ← htime]; rfl
  refine ⟨by simp [hpasses], by simp [hpasses], by simp [hmark], by simpa [hentry], ?_⟩
  rw [OnePerCooldown, hpasses]
  exact .nil

theorem Ok.wait (h : Ok cfg s) {now : Int} (hnow : s.clock ≤ now) : Ok cfg { s with clock := now } :=
  ⟨fun p hp => Int.le_trans (h.past p hp) hnow, h.marked, h.cleared, h.tripped, h.spaced⟩

/-- A failure sets the mark if it is cleared: the count has not gone back. -/
theorem Ok.fail (h : Ok cfg s) {now : Int} (hnow : s.clock ≤ now) (phase : Nat → RpcPhase) :
    Ok cfg { s with entry := s.entry.recordPeerFailure cfg now, clock := now, phase := phase } := by
  refine ⟨(h.wait hnow).past, fun time htime p hp => ?_, fun hnone => ?_, Nat.le_succ_of_le h.tripped,
    h.spaced⟩
  · rcases BreakerEntry.mem_trippedUntil_recordPeerFailure htime with rfl | htime
    · exact Int.add_le_add_right (Int.le_trans (h.past p hp) hnow) _
    · exact h.marked time htime p hp
  · rw [BreakerEntry.recordPeerFailure, BreakerEntry.trippedUntil, Option.bind_some] at hnone
    split_ifs at hnone with hset
    exact absurd ⟨Nat.le_succ_of_le h.tripped, hnone⟩ hset

/-- A check that finds a mark is refused, or comes a cooldown after every pass. -/
theorem Ok.check (h : Ok cfg s) {rpc : Nat} {now : Int} (hnow : s.clock ≤ now)
    (hquiet : s.Quiet (.allowed rpc now)) : Ok cfg (step cfg s (.allowed rpc now)) := by
  unfold step
  dsimp only
  split_ifs with hwaiting hpass
  · exact h.wait hnow
  all_goals
    rcases s.entry.breakerAllowed_cases now with
      ⟨hclear, -⟩ | ⟨time, hmark, ⟨-, heq⟩ | ⟨hover, e', heq, hclear, hcount⟩⟩
  · exact absurd hclear (hquiet (h.cleared hclear))
  · simp [heq] at hpass
  · have hspaced : ∀ p ∈ s.passes, p + cfg.failureCooldown ≤ now := fun p hp =>
      Int.le_trans (h.marked time hmark p hp) hover
    rw [heq]
    refine ⟨List.forall_mem_append.2 ⟨(h.wait hnow).past, by simp⟩, by simp [hclear],
      fun _ => ⟨rpc, Function.update_self ..⟩, hcount ▸ h.tripped, ?_⟩
    rw [OnePerCooldown, List.pairwise_append]
    exact ⟨h.spaced, List.pairwise_singleton .., by simpa using hspaced⟩
  · exact absurd hclear (hquiet (h.cleared hclear))
  · rw [heq]
    exact ⟨(h.wait hnow).past, h.marked, by simp [hmark], h.tripped, h.spaced⟩
  · simp [heq] at hpass

theorem Ok.step (h : Ok cfg s) {act : BreakerAct} (hnow : s.clock ≤ act.now) (hquiet : s.Quiet act) :
    Ok cfg (step cfg s act) := by
  cases act with
  | allowed rpc now => exact h.check hnow hquiet
  | failed rpc now =>
    unfold DeadPeer.step
    dsimp only
    split_ifs
    · exact h.fail hnow _
    · exact h.wait hnow

/-- After an address has been blacklisted, at most one RPC passes in any interval shorter than the
cooldown, if no RPC checks between the pass of a probe and the next failure. -/
theorem one_dial_per_cooldown (h : s.Blacklisted cfg) {acts : List BreakerAct}
    (hacts : Along (step cfg) (fun s act => s.clock ≤ act.now ∧ s.Quiet act) s acts) :
    Always (step cfg) (OnePerCooldown cfg) s acts :=
  (always_of_along (Q := Ok cfg) (fun _ _ hok hact => hok.step hact.1 hact.2) h.ok hacts).mono
    fun _ => Ok.spaced

def markedPeer : DeadPeer := ⟨some ⟨3, some 10⟩, 0, fun _ => .waiting, []⟩

/-- Marked until 10, with a cooldown of 10: an RPC that comes before the probe has failed passes too. -/
theorem two_dials_at_once :
    markedPeer.Blacklisted ⟨3, 10⟩ ∧
      (run (step ⟨3, 10⟩) markedPeer [.allowed 1 10, .allowed 2 11]).passes = [10, 11] ∧
      ¬ Always (step ⟨3, 10⟩) (OnePerCooldown ⟨3, 10⟩) markedPeer [.allowed 1 10, .allowed 2 11] := by
  refine ⟨⟨⟨_, 10, rfl, rfl, by decide⟩, rfl⟩, by decide, fun h => ?_⟩
  exact absurd h.last (by unfold OnePerCooldown; decide)

/-- The probe fails before the next RPC checks. -/
theorem one_probe_at_a_time : Always (step ⟨3, 10⟩) (OnePerCooldown ⟨3, 10⟩) markedPeer
    [.allowed 1 10, .failed 1 11, .allowed 2 12] := by
  refine one_dial_per_cooldown ⟨⟨_, 10, rfl, rfl, by decide⟩, rfl⟩ ⟨⟨by decide, ?_⟩, ⟨by decide, trivial⟩,
    ⟨by decide, ?_⟩, trivial⟩
  · exact fun _ => by decide
  · exact fun _ => by decide

end DeadPeer

end Bouine.Cluster
