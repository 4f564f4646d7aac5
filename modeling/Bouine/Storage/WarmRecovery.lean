import Mathlib.Data.Char
import Mathlib.Data.List.Lex
import Bouine.Storage.WarmScan

/-! # The warm tier across crashes

`TieredStore` (`internal/storage/tiered.go`) keeps the index of the warm store in memory. On disk it
leaves an index snapshot and a log of index changes, which `initWAL` reads back after a restart.
Both name records by segment number and offset. An operation is given by its changes in memory
(`complete`) and its file-system operations (`plan`); a crash keeps a prefix of the plan and nothing
of the memory.

Writes to `.compact`, `*.seg.tmp` and `index.snap.tmp` are not in the plans: a restart does not read
these files. The log is the list of its entries.
-/

namespace Bouine.Storage.Warm

open Lib Lib.Framing Lib.Transition List Nat

/-! ## Snapshot and log -/

/-- A PUT with its place, whose size is 0 for the base format, or a DELETE. -/
abbrev LogEntry := Key × Option Loc

def hasSize (e : LogEntry) : Bool := e.2.all fun loc => 0 < loc.size

/-- The contents of `index.snap`: numbers and sizes of the segments the index names, and the
index. -/
structure Snapshot where
  table : List (Nat × Nat)
  entries : Index
  deriving DecidableEq

def Store.snapshot (s : Store) : Snapshot where
  table := (s.segs.filter fun seg => s.index.entries.any fun e => e.2.segID == seg.id).map
    fun seg => (seg.id, seg.data.length)
  entries := s.index

def validateSegmentTable (segs : List Segment) (table : List (Nat × Nat)) : Bool :=
  table.all fun e =>
    match segs.find? (·.id = e.1) with
    | none => false
    | some seg => e.2 ≤ seg.data.length

/-- `LoadSnapshot`: the index of a snapshot that validates. -/
def loadSnapshot (segs : List Segment) (snap : Option Snapshot) : Option Index :=
  snap.bind fun snap => if validateSegmentTable segs snap.table then some snap.entries else none

/-- The update of a size in `RecomputeStats`. -/
def backfill (index : Index) (p : Nat × Record) : Index :=
  match index.lookup p.2.key with
  | some loc =>
    if loc.size = 0 then index.insert p.2.key { loc with size := recSize p.2.body } else index
  | none => index

def Store.recomputeStats (s : Store) : Store :=
  if s.segs.all fun seg => (scanSegment seg.data).2 then
    { s with
      index := (s.segs.flatMap fun seg =>
        (recordsOf seg.data).filter (isIndexed s.index seg.id)).foldl backfill s.index }
  else s

/-- `initWAL` on a store that was just opened. -/
def initWAL (s : Store) (snap : Option Snapshot) (wal : List LogEntry) : Store :=
  match loadSnapshot s.segs snap with
  | some index => { s with index := Journal.replay index wal }
  | none =>
    let s := { s with index := Journal.replay s.index wal }
    if s.index.entries = [] then rebuildIndexFromScan s
    else if wal.all hasSize then s
    else s.recomputeStats

/-! ## The directory -/

/-- What a restart finds. `written` is not on disk: it lists the records `Put` has written. -/
structure Disk where
  files : List Segment
  snap : Option Snapshot
  wal : List LogEntry
  walTmp : List LogEntry
  written : List (Key × Bytes)

inductive FsOp where
  | createSeg (id : Nat)
  | writeRecord (id : Nat) (r : Record)
  | renameSeg (seg : Segment)
  | removeSeg (id : Nat)
  | renameSnap (snap : Snapshot)
  | writeWal (entries : List LogEntry)
  | writeWalTmp (e : LogEntry)
  | renameWal
  | truncateWal
  deriving DecidableEq

def Disk.apply (d : Disk) : FsOp → Disk
  | .createSeg id => { d with files := d.files ++ [⟨id, []⟩] }
  | .writeRecord id r =>
    { d with
      files := d.files.map fun seg => if seg.id = id then ⟨seg.id, seg.data ++ r.encode⟩ else seg
      written := if r.isTomb then d.written else (r.key, r.body) :: d.written }
  | .renameSeg seg => { d with files := d.files.filter (·.id ≠ seg.id) ++ [seg] }
  | .removeSeg id => { d with files := d.files.filter (·.id ≠ id) }
  | .renameSnap snap => { d with snap := some snap }
  | .writeWal entries => { d with wal := d.wal ++ entries }
  | .writeWalTmp e => { d with walTmp := d.walTmp ++ [e] }
  | .renameWal => { d with wal := d.walTmp, walTmp := [] }
  | .truncateWal => { d with wal := [] }

def segName (id : Nat) : List Char :=
  let digits := Nat.toDigits 10 id
  List.replicate (6 - digits.length) '0' ++ digits ++ ['.', 's', 'e', 'g']

/-- `os.ReadDir`, which sorts by name. -/
def readDir (files : List Segment) : List Segment :=
  files.insertionSort fun a b => segName a.id ≤ segName b.id

/-! ## The tier -/

/-- The warm part of `TieredStore`. -/
structure Tier where
  warm : Store
  snap : Option Snapshot
  wal : List LogEntry
  /-- The log `rewriteWAL` was writing when a crash came; it is opened for append again. -/
  walTmp : List LogEntry
  written : List (Key × Bytes)
  /-- Entries of operations that have returned from the warm store and not reached the log:
  `Put` and `Delete` before `walEnqueue`, a sync cycle before `walEnqueueBatch`, evictions. -/
  held : List LogEntry
  /-- The queue of the log. -/
  syncCh : List LogEntry
  /-- Not in the code: `Compact` has moved records and the log names their old places. -/
  stale : Bool

def Tier.disk (t : Tier) : Disk := ⟨t.warm.segs, t.snap, t.wal, t.walTmp, t.written⟩

def Tier.empty (segMax : Nat) (h : 0 < segMax) : Tier :=
  ⟨.empty segMax h, none, [], [], [], [], [], false⟩

/-- `runCompaction` is `compact`, `rewriteWAL`, `writeSnapshot`; `rewriteWAL` takes the keys of the
index as the map yields them. -/
inductive Act where
  | put (key : Key) (body : Bytes)
  | delete (key : Key)
  | evict (victim : Key)
  | newSegment
  | read (key : Key)
  | enqueue (e : LogEntry)
  | drop (e : LogEntry)
  | drain
  | compactSegment (segID : Nat)
  | compact
  | rewriteWAL (keys : List Key)
  | writeSnapshot
  | checkpoint

/-- `Compact` gets to `swapSegmentFiles`. -/
def Store.compacts (s : Store) : Bool :=
  s.segs.all (fun seg => (scanSegment seg.data).2) && s.segs.flatMap (pending s.index) ≠ []

def Store.compactTarget (s : Store) (segID : Nat) : Option Segment :=
  (s.segs.find? (·.id = segID)).filter fun target =>
    s.segs.getLast?.map Segment.id ≠ some segID && (scanSegment target.data).2

def newSegmentPlan (s : Store) : List FsOp := if s.full then [.createSeg s.nextID] else []

/-- `drainAndSync`: one write for all entries of the queue. -/
def drainPlan (syncCh : List LogEntry) : List FsOp :=
  if syncCh = [] then [] else [.writeWal syncCh]

/-- `swapSegmentFiles`. The snapshot that closing the temporary store wrote moves along, after the
segments because of its name. -/
def swapSegmentFiles (s : Store) : List FsOp :=
  (readDir s.segs).map (fun seg => .removeSeg seg.id) ++
    ((readDir s.compactSegments.segs).map .renameSeg ++ [.renameSnap s.compactSegments.snapshot])

def rewriteEntries (s : Store) (keys : List Key) : List LogEntry :=
  keys.filterMap fun key => (s.index.lookup key).map fun loc => (key, some loc)

def Tier.plan (t : Tier) : Act → List FsOp
  | .put key body =>
    newSegmentPlan t.warm ++ [.writeRecord t.warm.newSegment.activeID ⟨key, body, false⟩]
  | .delete key =>
    newSegmentPlan t.warm ++ [.writeRecord t.warm.newSegment.activeID ⟨key, [], true⟩]
  | .evict victim =>
    if (t.warm.index.lookup victim).isSome then
      [.writeRecord t.warm.activeID ⟨victim, [], true⟩]
    else []
  | .newSegment => newSegmentPlan t.warm
  | .read _ | .enqueue _ | .drop _ => []
  | .drain => drainPlan t.syncCh
  | .compactSegment segID =>
    match t.warm.compactTarget segID with
    | some target => [.renameSeg (t.warm.writeCompactTemp target), .removeSeg segID]
    | none => []
  | .compact => if t.warm.compacts then swapSegmentFiles t.warm else []
  | .rewriteWAL keys =>
    (rewriteEntries t.warm keys).map .writeWalTmp ++ (drainPlan t.syncCh ++ [.renameWal])
  | .writeSnapshot => [.renameSnap t.warm.snapshot]
  | .checkpoint => drainPlan t.syncCh ++ [.renameSnap t.warm.snapshot, .truncateWal]

def Tier.complete (t : Tier) : Act → Tier
  | .put key body =>
    let warm := t.warm.put key body
    { t with
      warm := warm
      held := t.held ++ [(key, warm.index.lookup key)]
      written := (key, body) :: t.written }
  | .delete key => { t with warm := t.warm.delete key, held := t.held ++ [(key, none)] }
  | .evict victim => { t with warm := t.warm.evictOne victim, held := t.held ++ [(victim, none)] }
  | .newSegment => { t with warm := t.warm.newSegment }
  | .read key => { t with warm := t.warm.dropStale key }
  | .enqueue e =>
    if e ∈ t.held then { t with held := t.held.erase e, syncCh := t.syncCh ++ [e] } else t
  | .drop e => { t with held := t.held.erase e }
  | .drain => { t with wal := t.wal ++ t.syncCh, syncCh := [] }
  | .compactSegment segID => { t with warm := t.warm.compactSegment segID }
  | .compact =>
    if t.warm.compacts then
      { t with warm := t.warm.compact, snap := some t.warm.compactSegments.snapshot, stale := true }
    else t
  | .rewriteWAL keys =>
    { t with
      wal := t.walTmp ++ rewriteEntries t.warm keys, walTmp := [], syncCh := [], stale := false }
  | .writeSnapshot => { t with snap := some t.warm.snapshot }
  | .checkpoint => { t with snap := some t.warm.snapshot, wal := [], syncCh := [], stale := false }

/-- A restart: `NewStore` on the segment files, then `initWAL`. -/
def recover (d : Disk) (segMax : Nat) (h : 0 < segMax) : Tier where
  warm := initWAL (openExisting d.files segMax h) d.snap d.wal
  snap := d.snap
  wal := d.wal
  walTmp := d.walTmp
  written := d.written
  held := []
  syncCh := []
  stale := false

def Tier.diskAfter (t : Tier) (act : Act) (i : Nat) : Disk :=
  run Disk.apply t.disk ((t.plan act).take i)

inductive Event where
  | complete (act : Act)
  /-- A crash after the first `i` file-system operations of `act`, and the restart. -/
  | crash (act : Act) (i : Nat)

theorem Tier.segMax_pos (t : Tier) : 0 < t.warm.segMax := t.warm.segMax_pos

def Tier.step (t : Tier) : Event → Tier
  | .complete act => t.complete act
  | .crash act i => recover (t.diskAfter act i) t.warm.segMax t.segMax_pos

def ReadsOwn (t : Tier) : Prop :=
  ∀ key body, t.warm.readRecord key = some body → (key, body) ∈ t.written

def NoPuts (entries : List LogEntry) : Prop := ∀ e ∈ entries, e.2 = none

instance (entries : List LogEntry) : Decidable (NoPuts entries) :=
  inferInstanceAs (Decidable (∀ _ ∈ entries, _))

/-- The body of a `Put` fits the header of a record. -/
def ActOk : Act → Prop
  | .put _ body => body.length < 2 ^ 32
  | _ => True

/-- `Compact` starts when no places wait for the log, or in what is left of an older rewrite of
it. No crash comes between its removal of the segment with the highest number and the end of the
next rewrite or checkpoint. -/
def EventOk (t : Tier) : Event → Prop
  | .complete act =>
    ActOk act ∧ (act matches .compact → t.warm.compacts → NoPuts t.held ∧ NoPuts t.walTmp)
  | .crash act i =>
    ActOk act ∧ t.stale = false ∧
      (act matches .compact → ∀ seg ∈ t.warm.segs, (∀ seg' ∈ t.warm.segs, seg'.id ≤ seg.id) →
        FsOp.removeSeg seg.id ∉ (t.plan act).take i)

instance : ∀ act, Decidable (ActOk act)
  | .put _ body => inferInstanceAs (Decidable (body.length < 2 ^ 32))
  | .delete _ | .evict _ | .newSegment | .read _ | .enqueue _ | .drop _ | .drain
  | .compactSegment _ | .compact | .rewriteWAL _ | .writeSnapshot | .checkpoint =>
    inferInstanceAs (Decidable True)

instance (t : Tier) : ∀ e, Decidable (EventOk t e)
  | .complete act =>
    inferInstanceAs (Decidable (ActOk act ∧ (_ → _ → NoPuts t.held ∧ NoPuts t.walTmp)))
  | .crash act _ =>
    inferInstanceAs (Decidable (ActOk act ∧ t.stale = false ∧ (_ → ∀ seg ∈ t.warm.segs,
      (∀ seg' ∈ t.warm.segs, seg'.id ≤ seg.id) → FsOp.removeSeg seg.id ∉ _)))

/-! ## Places that stay good -/

/-- A place a restart may give to the key: it holds a record of the key, or its segment is gone
and numbers are given out above it. -/
def RefOk (segs : List Segment) (key : Key) (loc : Loc) : Prop :=
  Points segs key loc ∨
    ((∀ seg ∈ segs, seg.id ≠ loc.segID) ∧ ∃ seg ∈ segs, loc.segID < seg.id)

def EntryOk (segs : List Segment) (e : LogEntry) : Prop :=
  ∀ loc, e.2 = some loc → RefOk segs e.1 loc

def IndexOk (segs : List Segment) (index : Index) : Prop :=
  ∀ key loc, index.lookup key = some loc → RefOk segs key loc

def Keeps (segs segs' : List Segment) : Prop :=
  ∀ key loc, RefOk segs key loc → RefOk segs' key loc

theorem Keeps.refl (segs : List Segment) : Keeps segs segs := fun _ _ h => h

theorem Keeps.trans {a b c : List Segment} (h : Keeps a b) (h' : Keeps b c) : Keeps a c :=
  fun key loc hr => h' key loc (h key loc hr)

variable {segs segs' : List Segment}

theorem EntryOk.keep (hk : Keeps segs segs') {e : LogEntry} (h : EntryOk segs e) :
    EntryOk segs' e :=
  fun loc hloc => hk e.1 loc (h loc hloc)

theorem IndexOk.keep (hk : Keeps segs segs') {index : Index} (h : IndexOk segs index) :
    IndexOk segs' index :=
  fun key loc hloc => hk key loc (h key loc hloc)

variable {segs : List Segment}

theorem NoPuts.entryOk {entries : List LogEntry} (h : NoPuts entries)
    {e : LogEntry} (he : e ∈ entries) : EntryOk segs e := by
  intro loc hloc
  rw [h e he] at hloc
  cases hloc

theorem RefOk.points {key : Key} {loc : Loc} (h : RefOk segs key loc)
    {seg : Segment} (hseg : seg ∈ segs) (hid : seg.id = loc.segID) : Points segs key loc :=
  h.resolve_right fun hgone => hgone.1 seg hseg hid

theorem grows_of_subset (h : segs ⊆ segs') : Grows segs segs' :=
  fun seg hseg => ⟨seg, h hseg, rfl, List.Subset.refl _⟩

theorem keeps_of_grows (hg : Grows segs segs')
    (hids : ∀ seg' ∈ segs', ∃ seg ∈ segs, seg.id = seg'.id) : Keeps segs segs' := by
  intro key loc hr
  rcases hr with hp | ⟨hgone, seg, hseg, hlt⟩
  · exact .inl (hp.grow hg)
  · obtain ⟨seg', hseg', hid, -⟩ := hg seg hseg
    refine .inr ⟨fun x hx hxid => ?_, seg', hseg', hid ▸ hlt⟩
    obtain ⟨y, hy, hyid⟩ := hids x hx
    exact hgone y hy (hyid.trans hxid)

theorem keeps_perm (h : segs.Perm segs') : Keeps segs segs' :=
  keeps_of_grows (grows_of_subset h.subset) fun seg' hseg' => ⟨seg', h.symm.subset hseg', rfl⟩

theorem keeps_concat {new : Segment} (h : ∀ seg ∈ segs, seg.id < new.id) :
    Keeps segs (segs ++ [new]) := by
  intro key loc hr
  rcases hr with hp | ⟨hgone, seg, hseg, hlt⟩
  · exact .inl (hp.grow (grows_of_subset (subset_append_left _ _)))
  · refine .inr ⟨forall_mem_concat.2 ⟨hgone, ?_⟩, seg, mem_append_left _ hseg, hlt⟩
    exact ne_of_gt (lt_trans hlt (h seg hseg))

theorem keeps_remove {id : Nat} (h : ∃ seg ∈ segs, id < seg.id) :
    Keeps segs (segs.filter (·.id ≠ id)) := by
  obtain ⟨high, hhigh, hlt⟩ := h
  have hmem : high ∈ segs.filter (·.id ≠ id) := by simp [hhigh, ne_of_gt hlt]
  intro key loc hr
  rcases hr with ⟨seg, hseg, hid, hrest⟩ | ⟨hgone, seg, hseg, hlt'⟩
  · by_cases heq : seg.id = id
    · refine .inr ⟨fun x hx => ?_, high, hmem, ?_⟩
      · rw [← hid, heq]
        simpa using of_mem_filter hx
      · rwa [← hid, heq]
    · exact .inl ⟨seg, by simp [hseg, heq], hid, hrest⟩
  · refine .inr ⟨fun x hx => hgone x (mem_of_mem_filter hx), ?_⟩
    by_cases heq : seg.id = id
    · exact ⟨high, hmem, lt_trans hlt' (heq ▸ hlt)⟩
    · exact ⟨seg, by simp [hseg, heq], hlt'⟩

/-! ## What the file-system operations keep -/

/-- The segment files hold whole records, and only records `Put` has written. -/
structure Sound (segMax : Nat) (written : List (Key × Bytes)) (segs : List Segment) : Prop where
  files : Files segs
  records : ∀ seg ∈ segs, ∀ p ∈ recordsOf seg.data, p.2.isTomb = false →
    p.1 < segMax ∧ (p.2.key, p.2.body) ∈ written

/-- The files hold no place that has gone bad. While the log is stale nothing is said of it. -/
structure DiskOk (stale : Bool) (segMax : Nat) (d : Disk) : Prop where
  sound : Sound segMax d.written d.files
  snap : ∀ snap ∈ d.snap, IndexOk d.files snap.entries
  wal : stale = false → ∀ e ∈ d.wal, EntryOk d.files e
  walTmp : ∀ e ∈ d.walTmp, EntryOk d.files e

def OpFits (stale : Bool) (segMax : Nat) (d : Disk) : FsOp → Prop
  | .createSeg id => ∀ seg ∈ d.files, seg.id < id
  | .writeRecord id r =>
    r.Fits ∧ (r.isTomb = false → ∀ seg ∈ d.files, seg.id = id → seg.data.length < segMax)
  | .renameSeg new =>
    (∀ seg ∈ d.files, seg.id < new.id) ∧ WholeRecords new.data ∧
      ∀ p ∈ recordsOf new.data, p.2.isTomb = false →
        p.1 < segMax ∧ (p.2.key, p.2.body) ∈ d.written
  | .removeSeg id => ∃ seg ∈ d.files, id < seg.id
  | .renameSnap snap => IndexOk d.files snap.entries
  | .writeWal entries => stale = false → ∀ e ∈ entries, EntryOk d.files e
  | .writeWalTmp e => EntryOk d.files e
  | .renameWal | .truncateWal => True

section

variable {segMax : Nat} {written : List (Key × Bytes)} {files : List Segment}
  (h : Sound segMax written files)
include h

theorem Sound.concat {new : Segment} (hnew : ∀ seg ∈ files, seg.id < new.id)
    (hwhole : WholeRecords new.data)
    (hrec : ∀ p ∈ recordsOf new.data, p.2.isTomb = false →
      p.1 < segMax ∧ (p.2.key, p.2.body) ∈ written) : Sound segMax written (files ++ [new]) :=
  ⟨h.files.concat hnew hwhole, forall_mem_concat.2 ⟨h.records, hrec⟩⟩

theorem Sound.filter (p : Segment → Bool) : Sound segMax written (files.filter p) :=
  ⟨h.files.filter p, fun seg hseg => h.records seg (mem_of_mem_filter hseg)⟩

theorem Sound.perm {files' : List Segment} (hp : files.Perm files') :
    Sound segMax written files' :=
  ⟨h.files.perm hp, fun seg hseg => h.records seg (hp.mem_iff.2 hseg)⟩

theorem grows_writeRecord (id : Nat) {r : Record} (hr : r.Fits) :
    Grows files
      (files.map fun seg => if seg.id = id then ⟨seg.id, seg.data ++ r.encode⟩ else seg) := by
  intro seg hseg
  refine ⟨_, mem_map_of_mem hseg, ?_⟩
  split_ifs with hid
  · rw [(h.files.whole seg hseg).recordsOf_append hr]
    exact ⟨rfl, subset_append_left _ _⟩
  · exact ⟨rfl, List.Subset.refl _⟩

theorem Sound.writeRecord {id : Nat} {r : Record} (hr : r.Fits)
    (hroom : r.isTomb = false → ∀ seg ∈ files, seg.id = id → seg.data.length < segMax) :
    Sound segMax (if r.isTomb then written else (r.key, r.body) :: written)
      (files.map fun seg => if seg.id = id then ⟨seg.id, seg.data ++ r.encode⟩ else seg) := by
  have hold : ∀ e ∈ written, e ∈ (if r.isTomb then written else (r.key, r.body) :: written) := by
    intro e he
    split
    · exact he
    · exact .tail _ he
  refine ⟨⟨?_, ?_⟩, ?_⟩
  · intro seg' hseg'
    obtain ⟨seg, hseg, rfl⟩ := mem_map.1 hseg'
    split_ifs
    · exact (h.files.whole seg hseg).append hr
    · exact h.files.whole seg hseg
  · have hids : (files.map fun seg =>
        if seg.id = id then ⟨seg.id, seg.data ++ r.encode⟩ else seg).map Segment.id =
        files.map Segment.id := by
      rw [map_map]
      refine map_congr_left fun seg _ => ?_
      simp only [Function.comp_apply]
      split_ifs <;> rfl
    rw [hids]
    exact h.files.nodup
  · intro seg' hseg' p hp hlive
    obtain ⟨seg, hseg, rfl⟩ := mem_map.1 hseg'
    have hkeep : p ∈ recordsOf seg.data → p.1 < segMax ∧ _ := fun hp =>
      (h.records seg hseg p hp hlive).imp_right (hold _)
    split_ifs at hp with hid
    · rw [(h.files.whole seg hseg).recordsOf_append hr] at hp
      rcases mem_append.1 hp with hp | hp
      · exact hkeep hp
      · -- the new record
        rw [mem_singleton.1 hp] at hlive ⊢
        simp only at hlive
        exact ⟨hroom hlive seg hseg hid, by simp [hlive]⟩
    · exact hkeep hp

end

section

variable {stale : Bool} {segMax : Nat} {d : Disk} (h : DiskOk stale segMax d)
include h

variable {op : FsOp}

theorem DiskOk.keeps_apply (hop : OpFits stale segMax d op) :
    Keeps d.files (d.apply op).files := by
  cases op with
  | createSeg id => exact keeps_concat hop
  | writeRecord id r =>
    refine keeps_of_grows (grows_writeRecord h.sound id hop.1) fun seg' hseg' => ?_
    obtain ⟨seg, hseg, rfl⟩ := mem_map.1 hseg'
    refine ⟨seg, hseg, ?_⟩
    split_ifs <;> rfl
  | renameSeg new =>
    rw [Disk.apply, filter_eq_self.2 fun seg hseg => by
      simpa using Nat.ne_of_lt (hop.1 seg hseg)]
    exact keeps_concat hop.1
  | removeSeg id => exact keeps_remove hop
  | renameSnap _ | writeWal _ | writeWalTmp _ | renameWal | truncateWal => exact Keeps.refl _

theorem DiskOk.sound_apply (hop : OpFits stale segMax d op) :
    Sound segMax (d.apply op).written (d.apply op).files := by
  cases op with
  | createSeg id => exact h.sound.concat hop wholeRecords_nil fun p hp => by cases hp
  | writeRecord id r => exact h.sound.writeRecord hop.1 hop.2
  | renameSeg new =>
    rw [Disk.apply, filter_eq_self.2 fun seg hseg => by
      simpa using Nat.ne_of_lt (hop.1 seg hseg)]
    exact h.sound.concat hop.1 hop.2.1 hop.2.2
  | removeSeg id => exact h.sound.filter _
  | renameSnap _ | writeWal _ | writeWalTmp _ | renameWal | truncateWal => exact h.sound

theorem DiskOk.apply (hop : OpFits stale segMax d op) :
    DiskOk stale segMax (d.apply op) := by
  have hk := h.keeps_apply hop
  have hsnap : ∀ snap ∈ d.snap, IndexOk (d.apply op).files snap.entries :=
    fun snap hs => (h.snap snap hs).keep hk
  have hwal : stale = false → ∀ e ∈ d.wal, EntryOk (d.apply op).files e :=
    fun hb e he => (h.wal hb e he).keep hk
  have htmp : ∀ e ∈ d.walTmp, EntryOk (d.apply op).files e := fun e he => (h.walTmp e he).keep hk
  refine ⟨h.sound_apply hop, ?_, ?_, ?_⟩
  · cases op with
    | renameSnap snap =>
      intro snap' hs
      cases hs
      exact hop
    | createSeg _ | writeRecord _ _ | renameSeg _ | removeSeg _ | writeWal _ | writeWalTmp _
    | renameWal | truncateWal => exact hsnap
  · cases op with
    | writeWal entries => exact fun hb => forall_mem_append.2 ⟨hwal hb, hop hb⟩
    | renameWal => exact fun _ => htmp
    | truncateWal => intro _ e he; cases he
    | createSeg _ | writeRecord _ _ | renameSeg _ | removeSeg _ | renameSnap _
    | writeWalTmp _ => exact hwal
  · cases op with
    | writeWalTmp e => exact forall_mem_concat.2 ⟨htmp, hop⟩
    | renameWal => intro e he; cases he
    | createSeg _ | writeRecord _ _ | renameSeg _ | removeSeg _ | renameSnap _ | writeWal _
    | truncateWal => exact htmp

theorem DiskOk.run {ops : List FsOp} (hops : Along Disk.apply (OpFits stale segMax) d ops) :
    DiskOk stale segMax (run Disk.apply d ops) ∧ Keeps d.files (run Disk.apply d ops).files := by
  induction ops generalizing d with
  | nil => exact ⟨h, Keeps.refl _⟩
  | cons op ops ih =>
    obtain ⟨hdisk, hk⟩ := ih (h.apply hops.1) hops.2
    exact ⟨hdisk, (h.keeps_apply hops.1).trans hk⟩

end

end Bouine.Storage.Warm
