import Bouine.Cache.Lifetime

/-! # The reaper of the hot tier

Every interval the hot store takes out of its shards the entries whose lifetime and grace windows
have passed (`reapExpired` and `reapShard` in `internal/storage/hot.go`). The end of an entry is one
sum of three durations here, and two sums of two in the freshness checks of the object; the file
says when they agree.
-/

namespace Bouine.Storage.Reaper

open Lib Header Cache

/-- A stored object with the stamp of its route that asks for grace. -/
structure HotObject where
  obj : Stored
  keepGrace : Bool
deriving DecidableEq

/-- The entries that stay in a shard and those that are taken out. -/
structure Reaped where
  kept : List (Key × HotObject)
  removed : List (Key × HotObject)

section

-- the gate for entries that ask for grace, where one is wired
variable (mayReap : Option (HotObject → Bool)) (now : Int)

def expiry (o : Stored) : Int :=
  o.storedAt + wrap64 (wrap64 (o.ttl + o.staleWhileRevalidate) + o.staleIfError)

def holds (o : HotObject) : Bool := o.keepGrace && !(mayReap.map fun gate => gate o).getD true

def reaps (o : HotObject) : Bool := expiry o.obj < now && !holds mayReap o

/-- The pass over one shard. `visits` is the number of entries there is time for. -/
def reapShard : Nat → List (Key × HotObject) → Reaped
  | 0, entries => ⟨entries, []⟩
  | _, [] => ⟨[], []⟩
  | visits + 1, e :: entries =>
    let rest := reapShard visits entries
    if reaps mayReap now e.2 then { rest with removed := e :: rest.removed }
    else { rest with kept := e :: rest.kept }

theorem reaps_of_removed {visits : Nat} {entries : List (Key × HotObject)} {e : Key × HotObject}
    (he : e ∈ (reapShard mayReap now visits entries).removed) :
    e ∈ entries ∧ reaps mayReap now e.2 = true := by
  induction visits generalizing entries with
  | zero => simp [reapShard] at he
  | succ visits ih =>
    cases entries with
    | nil => simp [reapShard] at he
    | cons x entries =>
      rw [reapShard] at he
      split_ifs at he with hx
      · rcases List.mem_cons.1 he with rfl | he
        · exact ⟨(.head _), hx⟩
        · exact (ih he).imp_left (List.mem_cons_of_mem x)
      · exact (ih he).imp_left (List.mem_cons_of_mem x)

end

/-! ## What is dead -/

def Dead (o : Stored) (now : Int) : Prop :=
  o.fresh now = false ∧ o.staleForSWR now = false ∧ o.staleForSIE now = false

/-- The durations of an object are not negative and fit `int64`. -/
structure Durations (o : Stored) : Prop where
  ttl : 0 ≤ o.ttl ∧ o.ttl ≤ maxDuration
  staleWhileRevalidate : 0 ≤ o.staleWhileRevalidate ∧ o.staleWhileRevalidate ≤ maxDuration
  staleIfError : 0 ≤ o.staleIfError ∧ o.staleIfError ≤ maxDuration

variable {o : Stored}

theorem dead_iff (hd : Durations o) (now : Int) :
    Dead o now ↔ o.storedAt + o.ttl + max o.staleWhileRevalidate o.staleIfError ≤ now := by
  have hsie := hd.staleIfError.1
  unfold Dead Stored.staleForSWR Stored.staleForSIE Stored.fresh
  by_cases hfresh : now < o.storedAt + o.ttl
  · simp only [hfresh, decide_true, Bool.true_eq_false, false_and, false_iff]
    omega
  · by_cases hw : o.staleWhileRevalidate = 0 <;> by_cases he : o.staleIfError = 0 <;>
      simp [he] <;> omega

theorem expiry_eq (o : Stored) :
    expiry o = o.storedAt + wrap64 (o.ttl + o.staleWhileRevalidate + o.staleIfError) := by
  unfold expiry wrap64
  rw [Int.bmod_add_bmod]

theorem expiry_of_fits (hd : Durations o)
    (hfits : o.ttl + o.staleWhileRevalidate + o.staleIfError ≤ maxDuration) :
    expiry o = o.storedAt + (o.ttl + o.staleWhileRevalidate + o.staleIfError) := by
  have httl := hd.ttl.1
  have hswr := hd.staleWhileRevalidate.1
  have hsie := hd.staleIfError.1
  unfold maxDuration at hfits
  rw [expiry_eq, wrap64_eq (by omega) (by omega)]

theorem expiry_of_overflow (hd : Durations o)
    (hover : maxDuration < o.ttl + o.staleWhileRevalidate + o.staleIfError) :
    expiry o < o.storedAt + o.ttl + max o.staleWhileRevalidate o.staleIfError - 1 := by
  obtain ⟨⟨-, httl⟩, ⟨-, hswr⟩, -, hsie⟩ := hd
  rw [expiry_eq, wrap64_of_gt hover (by omega)]
  unfold maxDuration at *
  omega

/-- Only dead objects are ever taken out exactly if their lifetime and windows add up without
overflow, or the gate holds them. -/
theorem reaper_removes_only_dead_iff (mayReap : Option (HotObject → Bool)) (o : HotObject)
    (hd : Durations o.obj) :
    (∀ key visits entries now, (key, o) ∈ (reapShard mayReap now visits entries).removed →
        Dead o.obj now) ↔
      o.obj.ttl + o.obj.staleWhileRevalidate + o.obj.staleIfError ≤ maxDuration ∨
        holds mayReap o = true := by
  constructor
  · intro h
    by_contra hnot
    rw [not_or, not_le] at hnot
    -- the last moment of the longer window, in a shard of this entry alone
    let now := o.obj.storedAt + o.obj.ttl + max o.obj.staleWhileRevalidate o.obj.staleIfError - 1
    have hreaps : reaps mayReap now o = true := by
      simpa [reaps, hnot.2] using expiry_of_overflow hd hnot.1
    have hdead := h o.obj.key 1 [(o.obj.key, o)] now (by simp [reapShard, hreaps])
    rw [dead_iff hd] at hdead
    omega
  · rintro (hfits | hheld) key visits entries now hremoved
    · have hreaps := (reaps_of_removed mayReap now hremoved).2
      have hswr := hd.staleWhileRevalidate.1
      have hsie := hd.staleIfError.1
      rw [dead_iff hd]
      simp only [reaps, Bool.and_eq_true, decide_eq_true_eq, expiry_of_fits hd hfits] at hreaps
      omega
    · have hreaps := (reaps_of_removed mayReap now hremoved).2
      simp [reaps, hheld] at hreaps

def storedWith (cacheControl : Bytes) : HotObject :=
  ⟨(filled ⟨[⟨Field.cacheControl, cacheControl⟩]⟩ 0).obj, false⟩

/-- Two durations of 158 years, which the parser takes: the object is fresh, and taken out in its
first second. -/
theorem fresh_object_reaped :
    let o := storedWith (ascii "max-age=5000000000, stale-while-revalidate=5000000000")
    (⟨0, 0⟩, o) ∈ (reapShard none second 1 [(⟨0, 0⟩, o)]).removed ∧ o.obj.fresh second = true := by
  decide +kernel

/-- A minute of freshness and an hour of either grace, taken out a second after both hours. -/
theorem minute_object_reaped_dead :
    let o := storedWith (ascii "max-age=60, stale-while-revalidate=3600, stale-if-error=3600")
    (⟨0, 0⟩, o) ∈ (reapShard none (7261 * second) 1 [(⟨0, 0⟩, o)]).removed ∧
      Dead o.obj (7261 * second) := by
  have hremoved : (⟨0, 0⟩, storedWith (ascii
      "max-age=60, stale-while-revalidate=3600, stale-if-error=3600")) ∈
      (reapShard none (7261 * second) 1 [(⟨0, 0⟩, storedWith (ascii
        "max-age=60, stale-while-revalidate=3600, stale-if-error=3600"))]).removed := by
    decide
  refine ⟨hremoved, (reaper_removes_only_dead_iff none _ ⟨?_, ?_, ?_⟩).2 (.inl ?_) _ _ _ _ hremoved⟩
  all_goals decide

end Bouine.Storage.Reaper
