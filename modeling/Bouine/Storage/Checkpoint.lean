import Bouine.Storage.WarmRecovery

/-! # The order of the log, and checkpoints

An operation of `TieredStore` changes the warm index first and brings its entry to the log later:
`walEnqueue` waits while `checkpointing` is set, and the sync cycle and the evictions collect theirs
for a batch. Other operations, and the steps of `checkpoint`, get in between. The entries of a batch
are enqueued one by one here, which allows every order the batches allow.
-/

namespace Bouine.Storage.Warm

open Lib Lib.Transition List

/-- The steps of `checkpoint` that are done. -/
inductive CheckpointPc where
  | idle | flushed | flagged | flushedAgain | snapped | truncated
  deriving DecidableEq

/-- `passed` are the held entries whose writers have found `checkpointing` false. -/
structure Logger where
  tier : Tier
  passed : List LogEntry
  pc : CheckpointPc

def Logger.empty (segMax : Nat) (h : 0 < segMax) : Logger := ⟨Tier.empty segMax h, [], .idle⟩

def Logger.checkpointing (w : Logger) : Bool :=
  match w.pc with
  | .idle | .flushed => false
  | .flagged | .flushedAgain | .snapped | .truncated => true

inductive LoggerStep where
  | put (key : Key) (body : Bytes)
  | delete (key : Key)
  | evict (victim : Key)
  /-- the test of the loop in `walEnqueue` -/
  | test (e : LogEntry)
  | enqueue (e : LogEntry)
  /-- a turn of `walSyncLoop` -/
  | sync
  /-- the next step of `checkpoint` -/
  | checkpoint
  /-- the return of `checkpoint` on an error -/
  | giveUp

def Logger.advance (w : Logger) : Logger :=
  match w.pc with
  | .idle => { w with tier := w.tier.complete .drain, pc := .flushed }
  | .flushed => { w with pc := .flagged }
  | .flagged => { w with tier := w.tier.complete .drain, pc := .flushedAgain }
  | .flushedAgain => { w with tier := w.tier.complete .writeSnapshot, pc := .snapped }
  | .snapped => { w with tier := { w.tier with wal := [] }, pc := .truncated }
  | .truncated => { w with pc := .idle }

def Logger.step (w : Logger) : LoggerStep → Logger
  | .put key body => { w with tier := w.tier.complete (.put key body) }
  | .delete key => { w with tier := w.tier.complete (.delete key) }
  | .evict victim => { w with tier := w.tier.complete (.evict victim) }
  | .test e =>
    if w.checkpointing = false ∧ w.passed.count e < w.tier.held.count e then
      { w with passed := e :: w.passed }
    else w
  | .enqueue e =>
    if e ∈ w.passed then
      { w with tier := w.tier.complete (.enqueue e), passed := w.passed.erase e }
    else w
  | .sync => { w with tier := w.tier.complete .drain }
  | .checkpoint => w.advance
  | .giveUp => { w with pc := .idle }

def LoggerStep.updates : LoggerStep → Option Key
  | .put key _ | .delete key | .evict key => some key
  | .test _ | .enqueue _ | .sync | .checkpoint | .giveUp => none

def Logger.Alone (w : Logger) (s : LoggerStep) : Prop :=
  ∀ key ∈ s.updates, ∀ e ∈ w.tier.held, e.1 ≠ key

def Tier.snapIndex (t : Tier) : Index := (t.snap.map Snapshot.entries).getD ∅

def Tier.replayed (t : Tier) (rest : List LogEntry) : Index :=
  Journal.replay t.snapIndex (t.wal ++ t.syncCh ++ rest)

/-! ## The invariant -/

/-- A held entry is what the index says of its key; of the other keys the log tells. Once the
snapshot is written, the entries still let through say nothing new. -/
structure Logger.Safe (w : Logger) : Prop where
  passed : ∀ e, w.passed.count e ≤ w.tier.held.count e
  held : ∀ e ∈ w.tier.held, w.tier.warm.index.lookup e.1 = e.2
  log : ∀ key, (∀ e ∈ w.tier.held, e.1 ≠ key) →
    (w.tier.replayed []).lookup key = w.tier.warm.index.lookup key
  copied : w.pc = .snapped → ∀ key, (∀ e ∈ w.tier.held, e.1 = key → e ∈ w.passed) →
    w.tier.snapIndex.lookup key = w.tier.warm.index.lookup key

section

variable {w : Logger}

theorem lookup_replayed (t : Tier) (rest : List LogEntry) (key : Key) :
    (t.replayed rest).lookup key =
      (Journal.newest (t.wal ++ t.syncCh ++ rest) key).getD (t.snapIndex.lookup key) :=
  Journal.lookup_replay _ _ key

variable {e : LogEntry}

theorem Logger.Safe.mem_held (h : w.Safe) (he : e ∈ w.passed) : e ∈ w.tier.held :=
  count_pos_iff.1 (lt_of_lt_of_le (count_pos_iff.2 he) (h.passed e))

theorem Logger.Safe.update (h : w.Safe) {warm : Store} {written : List (Key × Bytes)}
    (halone : ∀ e' ∈ w.tier.held, e'.1 ≠ e.1) (hnew : warm.index.lookup e.1 = e.2)
    (hother : ∀ k, k ≠ e.1 → warm.index.lookup k = w.tier.warm.index.lookup k) :
    Logger.Safe { w with tier := { w.tier with warm, written, held := w.tier.held ++ [e] } } := by
  have hsplit : ∀ {P : LogEntry → Prop}, (∀ e' ∈ w.tier.held ++ [e], P e') →
      (∀ e' ∈ w.tier.held, P e') ∧ P e := fun hP =>
    ⟨fun e' he' => hP e' (mem_append_left _ he'), hP e (by simp)⟩
  refine ⟨fun e' => ?_, fun e' he' => ?_, fun key hkey => ?_, fun hpc key hkey => ?_⟩
  · rw [count_append]
    exact Nat.le_add_right_of_le (h.passed e')
  · rcases mem_append.1 he' with he' | he'
    · exact (hother e'.1 (halone e' he')).trans (h.held e' he')
    · rw [mem_singleton.1 he']
      exact hnew
  · obtain ⟨hheld, hne⟩ := hsplit hkey
    exact (h.log key hheld).trans (hother key hne.symm).symm
  · obtain ⟨hheld, hlast⟩ := hsplit hkey
    -- the new entry has not passed
    have hne : key ≠ e.1 := fun he => halone e (h.mem_held (hlast he.symm)) rfl
    exact (h.copied hpc key hheld).trans (hother key hne).symm

theorem Logger.Safe.enqueue (h : w.Safe) (he : e ∈ w.passed) :
    Logger.Safe { w with tier := w.tier.complete (.enqueue e), passed := w.passed.erase e } := by
  rw [Tier.complete, if_pos (h.mem_held he)]
  have herase : ∀ e' ∈ w.tier.held, e' ≠ e → e' ∈ w.tier.held.erase e :=
    fun e' he' hne => (mem_erase_of_ne hne).2 he'
  refine ⟨fun e' => ?_, fun e' he' => h.held e' (mem_of_mem_erase he'), fun key hkey => ?_,
    fun hpc key hkey => h.copied hpc key fun e' he' hk => ?_⟩
  · rw [count_erase, count_erase]
    exact Nat.sub_le_sub_right (h.passed e') _
  · rw [lookup_replayed]
    simp only [append_nil, ← append_assoc]
    rw [Journal.newest_append, Journal.newest_singleton]
    split_ifs with hk
    · subst hk
      exact (h.held e (h.mem_held he)).symm
    · have hlog := h.log key fun e' he' hk' =>
        hkey e' (herase e' he' fun heq => hk (heq ▸ hk')) hk'
      rwa [lookup_replayed, append_nil] at hlog
  · by_cases heq : e' = e
    · exact heq ▸ he
    · exact mem_of_mem_erase (hkey e' (herase e' he' heq) hk)

theorem Logger.Safe.drain (h : w.Safe) (pc : CheckpointPc) (hpc : pc = .snapped → w.pc = .snapped) :
    Logger.Safe { w with tier := w.tier.complete .drain, pc } :=
  ⟨h.passed, h.held, by simpa [Tier.replayed, Tier.complete, Tier.snapIndex] using h.log,
    fun hs => h.copied (hpc hs)⟩

theorem Logger.Safe.advance (h : w.Safe) : w.advance.Safe := by
  unfold Logger.advance
  split
  · exact h.drain .flushed fun hpc => by cases hpc
  · exact { h with copied := fun hpc => by cases hpc }
  · exact h.drain .flushedAgain fun hpc => by cases hpc
  · -- what the log tells of a key is what the copied index says
    refine ⟨h.passed, h.held, fun key hkey => ?_, fun _ _ _ => rfl⟩
    have hlog := h.log key hkey
    rw [lookup_replayed] at hlog ⊢
    cases hnew : Journal.newest (w.tier.wal ++ w.tier.syncCh ++ []) key with
    | none => simp only [Tier.complete, hnew]; rfl
    | some v =>
      rw [hnew] at hlog
      simp only [Tier.complete, hnew]
      exact hlog
  · next hpc =>
    refine ⟨h.passed, h.held, fun key hkey => ?_, fun hpc => by cases hpc⟩
    have hlog := h.log key hkey
    rw [lookup_replayed] at hlog ⊢
    simp only [append_nil, nil_append] at hlog ⊢
    rw [Journal.newest_append] at hlog
    cases hnew : Journal.newest w.tier.syncCh key with
    | none => exact h.copied hpc key fun e he hk => absurd hk (hkey e he)
    | some v =>
      rw [hnew] at hlog
      exact hlog
  · exact { h with copied := fun hpc => by cases hpc }

theorem Logger.Safe.step (h : w.Safe) {s : LoggerStep} (halone : w.Alone s) : (w.step s).Safe := by
  cases s with
  | put key body =>
    refine h.update (halone key rfl) rfl fun k hk => ?_
    exact (AList.lookup_insert_ne hk).trans (by rw [index_newSegment])
  | delete key =>
    exact h.update (halone key rfl) ((lookup_delete _ key key).trans (if_pos rfl))
      fun k hk => (lookup_delete _ key k).trans (if_neg hk)
  | evict victim =>
    exact h.update (halone victim rfl) ((lookup_evictOne _ victim victim).trans (if_pos rfl))
      fun k hk => (lookup_evictOne _ victim k).trans (if_neg hk)
  | test e =>
    rw [Logger.step]
    split_ifs with htest
    · refine ⟨fun e' => ?_, h.held, h.log, fun hpc => ?_⟩
      · rw [count_cons]
        split_ifs with heq
        · rw [← beq_iff_eq.1 heq]
          exact htest.2
        · exact h.passed e'
      · -- nobody passes while the flag is set
        have hflag := htest.1
        rw [Logger.checkpointing, hpc] at hflag
        cases hflag
    · exact h
  | enqueue e =>
    rw [Logger.step]
    split_ifs with he
    · exact h.enqueue he
    · exact h
  | sync => exact h.drain w.pc id
  | checkpoint => exact h.advance
  | giveUp => exact { h with copied := nofun }

theorem safe_empty {segMax : Nat} (h : 0 < segMax) : (Logger.empty segMax h).Safe where
  passed _ := le_rfl
  held _ he := nomatch he
  log _ _ := rfl
  copied := nofun

theorem Logger.Safe.lookup_replayed_held (h : w.Safe) (key : Key) :
    (w.tier.replayed w.tier.held).lookup key = w.tier.warm.index.lookup key := by
  rw [lookup_replayed, Journal.newest_append]
  cases hnew : Journal.newest w.tier.held key with
  | some v => exact (h.held (key, v) (Journal.mem_of_newest hnew)).symm
  | none =>
    have hlog := h.log key (Journal.newest_eq_none.1 hnew)
    rwa [lookup_replayed, append_nil] at hlog

end

/-- With one operation on a key at a time, a crash at any moment of a checkpoint finds the index in
the snapshot, the log and the entries on their way to it. -/
theorem checkpoint_crash_safe {segMax : Nat} (h : 0 < segMax) (steps : List LoggerStep)
    (halone : Along Logger.step Logger.Alone (Logger.empty segMax h) steps) :
    Always Logger.step (fun w => ∀ key,
      (w.tier.replayed w.tier.held).lookup key = w.tier.warm.index.lookup key)
      (Logger.empty segMax h) steps :=
  (always_of_along (fun _ _ hw hs => hw.step hs) (safe_empty h) halone).mono
    fun _ hw => hw.lookup_replayed_held

/-- With one operation on a key at a time, the log agrees with the index whenever none is on its
way. -/
theorem log_follows_index {segMax : Nat} (h : 0 < segMax) (steps : List LoggerStep)
    (halone : Along Logger.step Logger.Alone (Logger.empty segMax h) steps)
    (hquiet : (run Logger.step (Logger.empty segMax h) steps).tier.held = []) (key : Key) :
    ((run Logger.step (Logger.empty segMax h) steps).tier.replayed []).lookup key =
      (run Logger.step (Logger.empty segMax h) steps).tier.warm.index.lookup key := by
  have hsafe := (always_of_along (fun _ _ hw hs => hw.step hs) (safe_empty h) halone).last
  have hheld := hsafe.lookup_replayed_held key
  rwa [hquiet] at hheld

/-! ## Runs -/

def logged (s : LoggerStep) (e : LogEntry) : List LoggerStep := [s, .test e, .enqueue e]

def putEntry (offset : Nat) : LogEntry := (exampleKey 1, some ⟨0, offset, recSize []⟩)

/-- The cycle deletes a key and goes on; the key is put again; the cycle enqueues its batch. -/
def lateBatch : List LoggerStep :=
  .delete (exampleKey 1) :: (logged (.put (exampleKey 1) []) (putEntry 28) ++
    [.test (exampleKey 1, none), .enqueue (exampleKey 1, none)])

theorem late_batch_unlogs_put :
    (run Logger.step (Logger.empty 64 (by decide)) lateBatch).tier.held = [] ∧
      ((run Logger.step (Logger.empty 64 (by decide)) lateBatch).tier.replayed []).lookup
        (exampleKey 1) = none ∧
      (run Logger.step (Logger.empty 64 (by decide)) lateBatch).tier.warm.index.lookup
        (exampleKey 1) = some ⟨0, 28, recSize []⟩ := by
  decide

instance (w : Logger) (s : LoggerStep) : Decidable (w.Alone s) :=
  inferInstanceAs (Decidable (∀ key ∈ s.updates, _))

theorem put_then_delete_logged :
    ((run Logger.step (Logger.empty 64 (by decide))
      (logged (.put (exampleKey 1) []) (putEntry 0) ++
        logged (.delete (exampleKey 1)) (exampleKey 1, none))).tier.replayed []).lookup (exampleKey 1) =
      (run Logger.step (Logger.empty 64 (by decide))
        (logged (.put (exampleKey 1) []) (putEntry 0) ++
          logged (.delete (exampleKey 1)) (exampleKey 1, none))).tier.warm.index.lookup (exampleKey 1) :=
  log_follows_index (by decide) _ (by decide) (by decide) _

/-- A writer passes the test before the flag is set and enqueues behind the truncation, another has
to wait. -/
def lateWriter : List LoggerStep :=
  [.put (exampleKey 1) [], .test (putEntry 0), .checkpoint, .checkpoint, .checkpoint, .checkpoint,
    .delete (exampleKey 2), .test (exampleKey 2, none), .checkpoint, .enqueue (putEntry 0)]

theorem late_writer_crash_safe :
    Always Logger.step (fun w => ∀ key,
      (w.tier.replayed w.tier.held).lookup key = w.tier.warm.index.lookup key)
      (Logger.empty 64 (by decide)) lateWriter :=
  checkpoint_crash_safe (by decide) lateWriter (by decide)

end Bouine.Storage.Warm
