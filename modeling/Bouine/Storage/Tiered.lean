import Bouine.Lib.Transition
import Bouine.Api.Object

/-! # The tiered store

`TieredStore` keeps every object in a hot tier and some of them in a warm tier as well. Three
bounded queues tie the tiers together, which a background drain empties: tombstones (delete the warm
copy), unprotects (the warm copy lost its hot twin) and warm evictions (write-ahead-log
bookkeeping). This file models the calls and the background steps and says what each does to the
versions in the two tiers.

Which entries a tier gives up, whether the warm tier accepts a record, which bans are in force and
which keys a sync cycle picks first are inputs of the steps. `version` fields and `last` are
bookkeeping of the proof; no modelled function reads them.
-/

namespace Bouine.Storage.Tiered

open Api Lib.Transition Function

structure HotEntry (Key : Type) where
  obj : Object Key
  hasBackup : Bool
  version : Nat

structure WarmEntry (Blob : Type) where
  blob : Blob
  isProtected : Bool
  version : Nat

/-- `encode` is `encodeObject`; `decode` is `decodeObject` followed by
`rederiveTransients`, and fails on an unreadable record. -/
structure Config (Key Blob : Type) where
  bodyThreshold : Nat
  queueSize : Nat
  encode : Object Key → Blob
  decode : Blob → Option (Object Key)

structure State (Key Blob : Type) where
  hot : Key → Option (HotEntry Key)
  warm : Key → Option (WarmEntry Blob)
  tombstoneQueue : List Key
  warmUnprotectQueue : List Key
  warmEvictQueue : List Key
  /-- The version of the last `Put` with no `Delete` after it. -/
  last : Key → Option Nat
  clock : Nat

inductive EvictReason where
  | sieve | reaper | ban | delete
deriving DecidableEq, Repr

variable {Key Blob : Type} [DecidableEq Key]

/-! ## Queues -/

/-- A send on a bounded channel inside `select … default`: dropped when full. -/
def trySend (size : Nat) (q : List Key) (k : Key) : List Key :=
  if q.length < size then q ++ [k] else q

/-- The hot tier's `OnEvict`. -/
def onEvict (c : Config Key Blob) (s : State Key Blob) (k : Key) : State Key Blob :=
  { s with tombstoneQueue := trySend c.queueSize s.tombstoneQueue k }

/-- The hot tier's `OnEvictDemoted`, falling back to a tombstone when its queue is full. -/
def onEvictDemoted (c : Config Key Blob) (s : State Key Blob) (k : Key) : State Key Blob :=
  if s.warmUnprotectQueue.length < c.queueSize then
    { s with warmUnprotectQueue := s.warmUnprotectQueue ++ [k] }
  else onEvict c s k

def notifyEvict (c : Config Key Blob) (s : State Key Blob) (k : Key) (e : HotEntry Key)
    (reason : EvictReason) : State Key Blob :=
  if e.hasBackup then
    match reason with
    | .sieve => onEvictDemoted c s k
    | .reaper | .ban | .delete => onEvict c s k
  else s

/-! ## The hot tier -/

/-- Take `k` out of the hot tier: SIEVE eviction, the reaper, `evictBanned` and `HotStore.Delete`
report different reasons. -/
def hotRemove (c : Config Key Blob) (s : State Key Blob) (k : Key) (reason : EvictReason) :
    State Key Blob :=
  match s.hot k with
  | none => s
  | some e =>
    let s := notifyEvict c s k e reason
    { s with hot := update s.hot k none }

/-- The inline SIEVE evictions of `putStored`. -/
def evictInline (c : Config Key Blob) (s : State Key Blob) (victims : List Key) :
    State Key Blob :=
  victims.foldl (fun s v => hotRemove c s v .sieve) s

/-- `HotStore.putStored`: make room, report the overwritten entry, insert the new one without a
backup. -/
def putStored (c : Config Key Blob) (s : State Key Blob) (k : Key) (obj : Object Key)
    (version : Nat) (victims : List Key) : State Key Blob :=
  let s := hotRemove c (evictInline c s victims) k .delete
  { s with hot := update s.hot k (some ⟨obj, false, version⟩) }

def hotGet (c : Config Key Blob) (s : State Key Blob) (k : Key) (banned : Object Key → Bool) :
    State Key Blob × Option (HotEntry Key) :=
  match s.hot k with
  | none => (s, none)
  | some e => if banned e.obj then (hotRemove c s k .ban, none) else (s, some e)

def setBacked (s : State Key Blob) (k : Key) : State Key Blob :=
  { s with hot := update s.hot k ((s.hot k).map fun e => { e with hasBackup := true }) }

def clearBacked (s : State Key Blob) (k : Key) : State Key Blob :=
  { s with hot := update s.hot k ((s.hot k).map fun e => { e with hasBackup := false }) }

/-! ## The warm tier -/

def warmPut (s : State Key Blob) (k : Key) (blob : Blob) (version : Nat) : State Key Blob :=
  { s with warm := update s.warm k (some ⟨blob, false, version⟩) }

def warmDelete (s : State Key Blob) (k : Key) : State Key Blob :=
  { s with warm := update s.warm k none }

def setProtected (s : State Key Blob) (k : Key) (b : Bool) : State Key Blob :=
  { s with warm := update s.warm k ((s.warm k).map fun w => { w with isProtected := b }) }

def warmWrite (c : Config Key Blob) (s : State Key Blob) (k : Key) (obj : Object Key)
    (version : Nat) : State Key Blob :=
  setProtected (setBacked (warmPut s k (c.encode obj) version) k) k true

def warmEligible (c : Config Key Blob) (obj : Object Key) : Bool :=
  c.bodyThreshold < obj.bodySize || obj.keepGrace || obj.isVaryResolver

/-- `warmBack`; a refused record (`ErrOverBudget`, or a failed write) leaves the warm tier
as it was. -/
def warmBack (c : Config Key Blob) (s : State Key Blob) (k : Key) (obj : Object Key)
    (version : Nat) (accepted : Bool) : State Key Blob :=
  if warmEligible c obj && accepted then warmWrite c s k obj version else s

/-! ## Calls -/

def put (c : Config Key Blob) (s : State Key Blob) (k : Key) (obj : Object Key)
    (victims : List Key) (accepted : Bool) : State Key Blob :=
  { warmBack c (putStored c s k obj s.clock victims) k obj s.clock accepted with
    last := update s.last k (some s.clock) }

/-- What a `Get` found: the object and the version it stems from. -/
abbrev Found (Key : Type) := Option (Object Key × Nat)

/-- The warm half of `Get`: evict an unreadable record, else promote it and check the bans before
serving. -/
def getWarm (c : Config Key Blob) (s : State Key Blob) (k : Key) (banned : Object Key → Bool)
    (victims : List Key) : State Key Blob × Found Key :=
  match s.warm k with
  | none => (s, none)
  | some w =>
    match c.decode w.blob with
    | none => (warmDelete s k, none)
    | some loaded =>
      let s := putStored c s k loaded w.version victims
      if banned loaded then (hotRemove c s k .delete, none) else (s, some (loaded, w.version))

def get (c : Config Key Blob) (s : State Key Blob) (k : Key) (banned : Object Key → Bool)
    (victims : List Key) : State Key Blob × Found Key :=
  match hotGet c s k banned with
  | (s, some e) => (s, some (e.obj, e.version))
  | (s, none) => getWarm c s k banned victims

def delete (c : Config Key Blob) (s : State Key Blob) (k : Key) : State Key Blob :=
  { warmDelete (hotRemove c s k .delete) k with last := update s.last k none }

/-! ## Background steps -/

def drainTombstones (s : State Key Blob) : State Key Blob :=
  { s.tombstoneQueue.foldl warmDelete s with tombstoneQueue := [] }

def drainWarmEvicts (s : State Key Blob) : State Key Blob := { s with warmEvictQueue := [] }

def drainWarmUnprotects (s : State Key Blob) : State Key Blob :=
  { s.warmUnprotectQueue.foldl (fun s k => setProtected s k false) s with
    warmUnprotectQueue := [] }

def drainQueues (s : State Key Blob) : State Key Blob :=
  drainWarmUnprotects (drainWarmEvicts (drainTombstones s))

/-- A warm SIEVE eviction of `k`; protected entries are passed over. -/
def warmEvict (c : Config Key Blob) (s : State Key Blob) (k : Key) : State Key Blob :=
  match s.warm k with
  | none => s
  | some w =>
    if w.isProtected then s
    else
      let s := clearBacked (warmDelete s k) k
      { s with warmEvictQueue := trySend c.queueSize s.warmEvictQueue k }

/-- One key of `writeHotOnlyToWarm`; `accepted` is the warm tier's answer. -/
def syncOne (c : Config Key Blob) (banned : Object Key → Bool) (s : State Key Blob)
    (k : Key) : State Key Blob :=
  match hotGet c s k banned with
  | (s, none) => s
  | (s, some e) => warmWrite c s k e.obj e.version

/-- `writeHotOnlyToWarm`: the first refusal ends the batch, after `hot.Get` has run. -/
def writeHotOnlyToWarm (c : Config Key Blob) (banned : Object Key → Bool) :
    State Key Blob → List (Key × Bool) → State Key Blob
  | s, [] => s
  | s, (k, true) :: rest => writeHotOnlyToWarm c banned (syncOne c banned s k) rest
  | s, (k, false) :: _ => (hotGet c s k banned).1

/-- The keys a cycle may pick: hot entries not marked as backed or, when reconciling, hot entries
that the warm index does not list. -/
def hotOnly (s : State Key Blob) (reconcile : Bool) (k : Key) : Bool :=
  match s.hot k with
  | none => false
  | some e => if reconcile then (s.warm k).isNone else !e.hasBackup

def runWarmSyncCycle (c : Config Key Blob) (s : State Key Blob) (overBudget reconcile : Bool)
    (keys : List (Key × Bool)) (banned : Object Key → Bool) : State Key Blob :=
  let s := drainQueues s
  if overBudget then s
  else writeHotOnlyToWarm c banned s (keys.filter fun ka => hotOnly s reconcile ka.1)

/-! ## Operations -/

inductive Op (Key : Type) where
  | put (k : Key) (obj : Object Key) (victims : List Key) (accepted : Bool)
  | get (k : Key) (banned : Object Key → Bool) (victims : List Key)
  | delete (k : Key)
  | hotEvict (k : Key) (reason : EvictReason)
  | drain
  | warmEvict (k : Key)
  | sync (overBudget reconcile : Bool) (keys : List (Key × Bool)) (banned : Object Key → Bool)

def apply (c : Config Key Blob) (s : State Key Blob) : Op Key → State Key Blob
  | .put k obj victims accepted => put c s k obj victims accepted
  | .get k banned victims => (get c s k banned victims).1
  | .delete k => delete c s k
  | .hotEvict k reason => hotRemove c s k reason
  | .drain => drainQueues s
  | .warmEvict k => warmEvict c s k
  | .sync overBudget reconcile keys banned => runWarmSyncCycle c s overBudget reconcile keys banned

def step (c : Config Key Blob) (s : State Key Blob) (op : Op Key) : State Key Blob :=
  { apply c s op with clock := s.clock + 1 }

def State.fresh : State Key Blob := ⟨fun _ => none, fun _ => none, [], [], [], fun _ => none, 0⟩

/-! ## The versions in the two tiers

How old an answer can be depends on three things per key: the version in the hot tier, that of the
warm copy if it can be decoded, and that of the last `Put`. Every call is described by what it does
to these.
-/

def hotVersion (s : State Key Blob) (k : Key) : Option Nat := (s.hot k).map (·.version)

def recordVersion (c : Config Key Blob) (w : WarmEntry Blob) : Option Nat :=
  (c.decode w.blob).map fun _ => w.version

def warmVersion (c : Config Key Blob) (s : State Key Blob) (k : Key) : Option Nat :=
  (s.warm k).bind (recordVersion c)

section

variable (c : Config Key Blob) (s : State Key Blob)

omit [DecidableEq Key] in
theorem notifyEvict_tiers (k : Key) (e : HotEntry Key) (r : EvictReason) :
    (notifyEvict c s k e r).hot = s.hot ∧ (notifyEvict c s k e r).warm = s.warm ∧
      (notifyEvict c s k e r).last = s.last := by
  unfold notifyEvict onEvictDemoted onEvict
  split
  · cases r with
    | sieve => simp only; split <;> exact ⟨rfl, rfl, rfl⟩
    | reaper | ban | delete => exact ⟨rfl, rfl, rfl⟩
  · exact ⟨rfl, rfl, rfl⟩

@[simp] theorem hotRemove_hot (k : Key) (r : EvictReason) :
    (hotRemove c s k r).hot = update s.hot k none := by
  unfold hotRemove
  split
  · rename_i h
    rw [← h, update_eq_self]
  · simp [(notifyEvict_tiers c s k _ r).1]

@[simp] theorem hotRemove_warm (k : Key) (r : EvictReason) :
    (hotRemove c s k r).warm = s.warm := by
  unfold hotRemove
  split
  · rfl
  · exact (notifyEvict_tiers c s k _ r).2.1

@[simp] theorem hotRemove_last (k : Key) (r : EvictReason) :
    (hotRemove c s k r).last = s.last := by
  unfold hotRemove
  split
  · rfl
  · exact (notifyEvict_tiers c s k _ r).2.2

theorem evictInline_tiers (victims : List Key) :
    (∀ k, (evictInline c s victims).hot k = if k ∈ victims then none else s.hot k) ∧
      (evictInline c s victims).warm = s.warm ∧ (evictInline c s victims).last = s.last := by
  induction victims generalizing s with
  | nil => simp [evictInline]
  | cons v vs ih =>
    obtain ⟨hhot, hwarm, hlast⟩ := ih (hotRemove c s v .sieve)
    refine ⟨fun k => ?_, hwarm.trans (hotRemove_warm c s v _), hlast.trans (hotRemove_last c s v _)⟩
    show (evictInline c (hotRemove c s v .sieve) vs).hot k = _
    rw [hhot k]
    by_cases hv : k = v
    · simp [hv]
    · simp [hv]

theorem hotGet_cases (k : Key) (banned : Object Key → Bool) :
    (∃ e, s.hot k = some e ∧ ¬ banned e.obj ∧ hotGet c s k banned = (s, some e)) ∨
      (∀ e, s.hot k = some e → banned e.obj) ∧
        hotGet c s k banned = (hotRemove c s k .ban, none) := by
  unfold hotGet
  cases hk : s.hot k with
  | none => exact .inr ⟨by simp, by simp [hotRemove, hk]⟩
  | some e =>
    by_cases hb : banned e.obj
    · exact .inr ⟨by simp [hb], if_pos hb⟩
    · exact .inl ⟨e, rfl, hb, if_neg hb⟩

/-- `putStored` in versions: the key gets the new one, the victims leave the hot tier, the rest
stays. -/
theorem putStored_hotVersion (k : Key) (obj : Object Key) (n : Nat) (victims : List Key)
    (k' : Key) :
    hotVersion (putStored c s k obj n victims) k' =
      if k' = k then some n else if k' ∈ victims then none else hotVersion s k' := by
  by_cases hk : k' = k
  · simp [hotVersion, putStored, hk]
  · simp only [hotVersion, putStored, hotRemove_hot, update_of_ne hk,
      (evictInline_tiers c s victims).1 k']
    split <;> rfl

@[simp] theorem putStored_warm (k : Key) (obj : Object Key) (n : Nat) (victims : List Key) :
    (putStored c s k obj n victims).warm = s.warm := by
  simp [putStored, (evictInline_tiers c s victims).2.1]

@[simp] theorem putStored_last (k : Key) (obj : Object Key) (n : Nat) (victims : List Key) :
    (putStored c s k obj n victims).last = s.last := by
  simp [putStored, (evictInline_tiers c s victims).2.2]

theorem hotRemove_hotVersion (k : Key) (r : EvictReason) (k' : Key) :
    hotVersion (hotRemove c s k r) k' = if k' = k then none else hotVersion s k' := by
  by_cases hk : k' = k <;> simp [hotVersion, hk]

@[simp] theorem setBacked_hotVersion (k k' : Key) :
    hotVersion (setBacked s k) k' = hotVersion s k' := by
  by_cases hk : k' = k
  · subst hk
    simp only [hotVersion, setBacked, update_self, Option.map_map]
    rfl
  · simp [hotVersion, setBacked, hk]

@[simp] theorem clearBacked_hotVersion (k k' : Key) :
    hotVersion (clearBacked s k) k' = hotVersion s k' := by
  by_cases hk : k' = k
  · subst hk
    simp only [hotVersion, clearBacked, update_self, Option.map_map]
    rfl
  · simp [hotVersion, clearBacked, hk]

@[simp] theorem setProtected_warmVersion (k : Key) (b : Bool) (k' : Key) :
    warmVersion c (setProtected s k b) k' = warmVersion c s k' := by
  by_cases hk : k' = k
  · subst hk
    simp only [warmVersion, setProtected, update_self]
    cases s.warm k' <;> rfl
  · simp [warmVersion, setProtected, hk]

theorem warmDelete_warmVersion (k k' : Key) :
    warmVersion c (warmDelete s k) k' = if k' = k then none else warmVersion c s k' := by
  by_cases hk : k' = k <;> simp [warmVersion, warmDelete, hk]

theorem warmWrite_warmVersion (k : Key) (obj : Object Key) (n : Nat) (k' : Key) :
    warmVersion c (warmWrite c s k obj n) k' =
      if k' = k then (c.decode (c.encode obj)).map fun _ => n else warmVersion c s k' := by
  rw [warmWrite, setProtected_warmVersion]
  by_cases hk : k' = k <;> simp [warmVersion, setBacked, warmPut, hk, recordVersion]

theorem warmWrite_hotVersion (k : Key) (obj : Object Key) (n : Nat) (k' : Key) :
    hotVersion (warmWrite c s k obj n) k' = hotVersion s k' :=
  setBacked_hotVersion (warmPut s k (c.encode obj) n) k k'

theorem drainTombstones_effect :
    (drainTombstones s).hot = s.hot ∧ (drainTombstones s).last = s.last ∧
      ∀ k, warmVersion c (drainTombstones s) k = none ∨
        warmVersion c (drainTombstones s) k = warmVersion c s k := by
  refine @run_preserves _ _ warmDelete
    (fun t => t.hot = s.hot ∧ t.last = s.last ∧
      ∀ k, warmVersion c t k = none ∨ warmVersion c t k = warmVersion c s k)
    (fun t d ht => ⟨ht.1, ht.2.1, fun k => ?_⟩) s ⟨rfl, rfl, fun _ => .inr rfl⟩ s.tombstoneQueue
  rw [warmDelete_warmVersion]
  split
  · exact .inl rfl
  · exact ht.2.2 k

theorem drainWarmUnprotects_effect :
    (drainWarmUnprotects s).hot = s.hot ∧ (drainWarmUnprotects s).last = s.last ∧
      ∀ k, warmVersion c (drainWarmUnprotects s) k = warmVersion c s k := by
  refine @run_preserves _ _ (fun s k => setProtected s k false)
    (fun t => t.hot = s.hot ∧ t.last = s.last ∧ ∀ k, warmVersion c t k = warmVersion c s k)
    (fun t d ht => ⟨ht.1, ht.2.1, fun k => ?_⟩) s ⟨rfl, rfl, fun _ => rfl⟩ s.warmUnprotectQueue
  rw [setProtected_warmVersion]
  exact ht.2.2 k

theorem drainQueues_effect :
    (drainQueues s).hot = s.hot ∧ (drainQueues s).last = s.last ∧
      ∀ k, warmVersion c (drainQueues s) k = none ∨
        warmVersion c (drainQueues s) k = warmVersion c s k := by
  obtain ⟨hh, hl, hw⟩ := drainTombstones_effect c s
  obtain ⟨hh', hl', hw'⟩ := drainWarmUnprotects_effect c (drainWarmEvicts (drainTombstones s))
  refine ⟨hh'.trans hh, hl'.trans hl, fun k => ?_⟩
  rw [drainQueues, hw' k]
  exact hw k

end

/-! ## A small store for examples -/

/-- Records are the objects themselves, and only bodies over ten bytes qualify for the
warm tier. -/
def exampleConfig : Config Nat (Object Nat) where
  bodyThreshold := 10
  queueSize := 8
  encode := id
  decode := some

def exampleObject (bodySize : Nat) : Object Nat where
  key := 0
  body := []
  bodySize := bodySize
  varyValue := ""
  varyKey := ""
  pairedKey := none
  keepGrace := false

end Bouine.Storage.Tiered
