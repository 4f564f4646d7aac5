import Bouine.Lib.Transition
import Bouine.Cache.Freshness

/-! # The rate of background refreshes

The token bucket a refresh has to pass (`internal/cache/rate_limiter.go`). A time too short for a
token stays with the bucket, also with a full one, and is paid out later.
-/

namespace Bouine.Cache

open Lib.Transition Header

structure RefreshRateLimiter where
  tokens : Int
  max : Int
  lastNs : Int

namespace RefreshRateLimiter

def refill (r : RefreshRateLimiter) (now : Int) : RefreshRateLimiter :=
  let elapsed := wrap64 (now - r.lastNs)
  if 0 < elapsed then
    let refill := (wrap64 (r.max * elapsed)).tdiv second
    if 0 < refill then { r with tokens := min (wrap64 (r.tokens + refill)) r.max, lastNs := now }
    else r
  else r

def allow (r : RefreshRateLimiter) (now : Int) : Bool × RefreshRateLimiter :=
  let r := r.refill now
  if r.tokens ≤ 0 then (false, r) else (true, { r with tokens := r.tokens - 1 })

end RefreshRateLimiter

/-- The limiter and the number of calls it allowed. -/
structure Allowance where
  limiter : RefreshRateLimiter
  allowed : Int

def Allowance.step (a : Allowance) (now : Int) : Allowance :=
  let (ok, limiter) := a.limiter.allow now
  ⟨limiter, if ok then a.allowed + 1 else a.allowed⟩

/-- What was allowed since the bucket was `r`, and what it holds, is paid by a full bucket and the
time up to the last refill. -/
structure Paid (r : RefreshRateLimiter) (stop : Int) (a : Allowance) : Prop where
  max_eq : a.limiter.max = r.max
  tokens : 0 ≤ a.limiter.tokens ∧ a.limiter.tokens ≤ r.max
  clock : 0 ≤ a.limiter.lastNs ∧ a.limiter.lastNs ≤ stop
  paid : (a.allowed + a.limiter.tokens) * second ≤
    r.max * second + r.max * (a.limiter.lastNs - r.lastNs)

variable {r : RefreshRateLimiter} {a : Allowance} {now stop : Int}

theorem Paid.refill (h : Paid r stop a) (hmax : r.max ≤ 2 ^ 62) (hstop : stop < 2 ^ 63)
    (hnow : 0 ≤ now ∧ now ≤ stop) : Paid r stop { a with limiter := a.limiter.refill now } := by
  obtain ⟨heq, htokens, hclock, hpaid⟩ := h
  have helapsed : wrap64 (now - a.limiter.lastNs) = now - a.limiter.lastNs :=
    wrap64_of_range (by unfold minDuration maxDuration; omega)
  unfold RefreshRateLimiter.refill second
  rw [helapsed, heq]
  dsimp only
  split_ifs with hlater hrefill
  · have hproduct : 0 ≤ r.max * (now - a.limiter.lastNs) := Int.mul_nonneg (by omega) (by omega)
    have hwrap := wrap64_le (n := r.max * (now - a.limiter.lastNs)) (by unfold minDuration; omega)
    have hrange := wrap64_range (r.max * (now - a.limiter.lastNs))
    generalize wrap64 (r.max * (now - a.limiter.lastNs)) = w at hrefill hwrap hrange
    have hw : 0 ≤ w := by
      by_contra hneg
      have hdiv := Int.tdiv_nonneg (a := -w) (b := 1000000000) (by omega) (by omega)
      rw [Int.neg_tdiv] at hdiv
      omega
    rw [Int.tdiv_eq_ediv_of_nonneg hw] at hrefill ⊢
    unfold maxDuration at hrange
    rw [wrap64_eq (by omega) (by omega)]
    refine ⟨rfl, by dsimp only; omega, hnow, ?_⟩
    simp only [second, Int.mul_sub] at hpaid hwrap ⊢
    omega
  · exact ⟨heq, htokens, hclock, hpaid⟩
  · exact ⟨heq, htokens, hclock, hpaid⟩

theorem Paid.step (h : Paid r stop a) (hmax : r.max ≤ 2 ^ 62) (hstop : stop < 2 ^ 63)
    (hnow : 0 ≤ now ∧ now ≤ stop) : Paid r stop (a.step now) := by
  obtain ⟨heq, htokens, hclock, hpaid⟩ := h.refill hmax hstop hnow
  dsimp only at *
  unfold Allowance.step RefreshRateLimiter.allow
  dsimp only
  split_ifs with hempty hok hok
  · cases hok
  · exact ⟨heq, htokens, hclock, hpaid⟩
  · refine ⟨heq, by dsimp only; omega, hclock, ?_⟩
    have hsum : a.allowed + 1 + ((a.limiter.refill now).tokens - 1) =
        a.allowed + (a.limiter.refill now).tokens := by omega
    simpa [hsum] using hpaid
  · exact absurd rfl hok

theorem allowed_within_rate {start : Int} {ts : List Int} (hmax : r.max ≤ 2 ^ 62)
    (htokens : 0 ≤ r.tokens ∧ r.tokens ≤ r.max) (hstart : start ≤ r.lastNs) (hstop : stop < 2 ^ 63)
    (hts : ∀ t ∈ r.lastNs :: ts, 0 ≤ t ∧ t ≤ stop) :
    let a := run Allowance.step ⟨r, 0⟩ ts
    (0 ≤ a.limiter.tokens ∧ a.limiter.tokens ≤ r.max) ∧
      a.allowed * second ≤ r.max * second + r.max * (stop - start) := by
  intro a
  rw [List.forall_mem_cons] at hts
  obtain ⟨-, htokens', hclock, hpaid⟩ : Paid r stop a := by
    refine (always_of_along (fun _ _ h hnow => h.step hmax hstop hnow) ?_ (along_of_mem hts.2 _)).last
    exact ⟨rfl, htokens, hts.1, by simp only [second]; omega⟩
  have hrate := Int.mul_le_mul_of_nonneg_left (Int.sub_le_sub hclock.2 hstart)
    (htokens.1.trans htokens.2)
  refine ⟨htokens', ?_⟩
  simp only [second] at hpaid ⊢
  omega

theorem one_a_second : let a := run Allowance.step ⟨⟨1, 1, 0⟩, 0⟩ [900000000, 1000000000]
    (0 ≤ a.limiter.tokens ∧ a.limiter.tokens ≤ 1) ∧ a.allowed * second ≤ 1 * second + 1 * (second - 0) :=
  allowed_within_rate (r := ⟨1, 1, 0⟩) (by decide) (by decide) (by decide) (by decide) (by decide)

/-- The second call is paid by the time before the window, in which the bucket was full. -/
theorem full_bucket_exceeds_rate : let a := run Allowance.step ⟨⟨1, 1, 0⟩, 0⟩ [900000000, 1000000000]
    1 * second + 1 * (second - 900000000) < a.allowed * second := by
  decide

end Bouine.Cache
