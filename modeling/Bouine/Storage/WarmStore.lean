import Mathlib.Data.List.AList
import Mathlib.Data.List.Sort
import Bouine.Storage.WarmRecord

/-! # The warm store

Segments, index and compaction of `internal/storage/warm/warm.go`. Writers append to the last
segment of `segs`; the index maps a key to the place of its live record. `CompactSegment` copies the
indexed records of a sealed segment into one with a fresh number and drops the rest, tombstones
included; `Compact` does so for all segments at once and numbers the result from zero.
-/

namespace Bouine.Storage.Warm

open Lib Lib.Framing List

/-! ## The store and its operations -/

/-- `warmLoc`: where a record is, and its size on disk, 0 if unknown. -/
structure Loc where
  segID : Nat
  offset : Nat
  size : Nat
  deriving DecidableEq

instance : LawfulBEq (Key × Option Loc) := inferInstance

/-- `Segment` with the contents of its file. -/
structure Segment where
  id : Nat
  data : Bytes
  deriving DecidableEq

abbrev Index := AList fun _ : Key => Loc

/-- `Store`. The last segment is the active one. `NewStore` replaces a `SegMax` that is not
positive. -/
structure Store where
  segs : List Segment
  index : Index
  nextID : Nat
  segMax : Nat
  segMax_pos : 0 < segMax

def Store.empty (segMax : Nat) (h : 0 < segMax) : Store := ⟨[], ∅, 0, segMax, h⟩

/-- `sort.Ints` on the numbers of the segment files. -/
def sortByID (files : List Segment) : List Segment :=
  files.insertionSort fun a b => a.id ≤ b.id

/-- `nextID` after the loop of `openExisting`. -/
def nextIDOf (files : List Segment) : Nat :=
  files.foldl (fun n seg => if n ≤ seg.id then seg.id + 1 else n) 0

/-- `NewStore` on the segment files of a directory. -/
def openExisting (files : List Segment) (segMax : Nat) (h : 0 < segMax) : Store :=
  ⟨sortByID files, ∅, nextIDOf (sortByID files), segMax, h⟩

/-- `preallocateSegments`: files of zeros, at least one. They are full from the start, so nothing is
written to them. -/
def preallocateSegments (segMax : Nat) (h : 0 < segMax) (preallocate : Nat) : Store :=
  let numSegs := max 1 (preallocate / segMax)
  ⟨(List.range numSegs).map fun id => ⟨id, List.replicate segMax 0⟩, ∅, numSegs, segMax, h⟩

/-- `NewStore` on an empty directory. -/
def newStore (segMax : Nat) (h : 0 < segMax) (preallocate : Nat) : Store :=
  if 0 < preallocate then preallocateSegments segMax h preallocate else Store.empty segMax h

def Store.full (s : Store) : Bool :=
  match s.segs.getLast? with
  | none => true
  | some seg => s.segMax ≤ seg.data.length

/-- `newSegment`, which leaves a segment that is not full in place. -/
def Store.newSegment (s : Store) : Store :=
  if s.full then { s with segs := s.segs ++ [⟨s.nextID, []⟩], nextID := s.nextID + 1 } else s

/-- `writeRecordAt` at the end of the active segment. -/
def Store.append (s : Store) (r : Record) : Store :=
  match s.segs.getLast? with
  | none => s
  | some seg => { s with segs := s.segs.dropLast ++ [⟨seg.id, seg.data ++ r.encode⟩] }

def Store.activeID (s : Store) : Nat := (s.segs.getLast?.map Segment.id).getD 0

def Store.activeSize (s : Store) : Nat := (s.segs.getLast?.map (·.data.length)).getD 0

/-- `Put`, within its budgets. -/
def Store.put (s : Store) (key : Key) (body : Bytes) : Store :=
  let s := s.newSegment
  { s.append ⟨key, body, false⟩ with
    index := s.index.insert key ⟨s.activeID, s.activeSize, recSize body⟩ }

def Store.delete (s : Store) (key : Key) : Store :=
  let s := s.newSegment
  { s.append ⟨key, [], true⟩ with index := s.index.erase key }

/-- `evictOneLocked` with the victim of the eviction list. A batch of evictions checks only before
its first one that the segment is not full. -/
def Store.evictOne (s : Store) (victim : Key) : Store :=
  if (s.index.lookup victim).isSome then
    { s.append ⟨victim, [], true⟩ with index := s.index.erase victim }
  else s

def isIndexed (index : Index) (segID : Nat) (p : Nat × Record) : Bool :=
  !p.2.isTomb &&
    match index.lookup p.2.key with
    | some loc => loc.segID == segID && loc.offset == p.1
    | none => false

def pending (index : Index) (seg : Segment) : List Record :=
  ((recordsOf seg.data).filter (isIndexed index seg.id)).map Prod.snd

def Store.putAll (s : Store) (rs : List Record) : Store :=
  rs.foldl (fun s r => s.put r.key r.body) s

/-- `compactSegments`: the kept records of all segments, put into a new store. -/
def Store.compactSegments (s : Store) : Store :=
  (Store.empty s.segMax s.segMax_pos).putAll (s.segs.flatMap (pending s.index))

/-- `Compact`. The segments are numbered from zero, `nextID` stays. -/
def Store.compact (s : Store) : Store :=
  if s.segs.all (fun seg => (scanSegment seg.data).2) = false then s
  else if s.segs.flatMap (pending s.index) = [] then s
  else { s with segs := s.compactSegments.segs, index := s.compactSegments.index }

/-- The update of one index entry in `swapCompactSegment`. -/
def relocate (segID newSegID : Nat) (index : Index) (p : Nat × Record) : Index :=
  match index.lookup p.2.key with
  | some cur =>
    if cur.segID = segID then index.insert p.2.key ⟨newSegID, p.1, recSize p.2.body⟩ else index
  | none => index

/-- `writeCompactTemp`: the kept records of a segment under a fresh number. -/
def Store.writeCompactTemp (s : Store) (target : Segment) : Segment :=
  ⟨s.nextID, encodeAll Record.encode (pending s.index target)⟩

/-- `swapCompactSegment`: the new segment takes the old one's place in `segs`. -/
def Store.swapCompactSegment (s : Store) (target : Segment) : Store :=
  { s with
    segs := s.segs.map fun seg => if seg.id = target.id then s.writeCompactTemp target else seg
    index := (place Record.encode 0 (pending s.index target)).foldl
      (relocate target.id s.nextID) s.index
    nextID := s.nextID + 1 }

/-- `CompactSegment`, which refuses the active segment. -/
def Store.compactSegment (s : Store) (segID : Nat) : Store :=
  match s.segs.find? (·.id = segID) with
  | none => s
  | some target =>
    if s.segs.getLast?.map Segment.id = some segID then s
    else if (scanSegment target.data).2 = false then s
    else s.swapCompactSegment target

/-- The body `readRecord` returns for a place of the index. -/
def bodyAt (segs : List Segment) (loc : Loc) : Option Bytes :=
  match segs.find? (·.id = loc.segID) with
  | none => none
  | some seg =>
    match readRecordAt seg.data loc.offset loc.size with
    | .ok r => if r.isTomb then none else some r.body
    | .error _ => none

def Store.readRecord (s : Store) (key : Key) : Option Bytes :=
  (s.index.lookup key).bind (bodyAt s.segs)

/-- The index after `readRecord`, which drops a place whose segment is gone or whose record is
not all there. -/
def Store.dropStale (s : Store) (key : Key) : Store :=
  match s.index.lookup key with
  | none => s
  | some loc =>
    match s.segs.find? (·.id = loc.segID) with
    | none => { s with index := s.index.erase key }
    | some seg =>
      if readRecordAt seg.data loc.offset loc.size = .error .torn then
        { s with index := s.index.erase key }
      else s

@[elab_as_elim] theorem dropStale_induction {motive : Store → Prop} {s : Store} (key : Key)
    (same : motive s) (erase : motive { s with index := s.index.erase key }) :
    motive (s.dropStale key) := by
  unfold Store.dropStale
  repeat' split
  all_goals first | exact same | exact erase

/-! ## What the directory holds -/

/-- The segments are files of whole records with different numbers. -/
structure Files (segs : List Segment) : Prop where
  whole : ∀ seg ∈ segs, WholeRecords seg.data
  nodup : (segs.map Segment.id).Nodup

def Points (segs : List Segment) (key : Key) (loc : Loc) : Prop :=
  ∃ seg ∈ segs, seg.id = loc.segID ∧ ∃ r, (loc.offset, r) ∈ recordsOf seg.data ∧
    r.key = key ∧ r.isTomb = false ∧ (loc.size = 0 ∨ loc.size = recSize r.body)

structure Layout (s : Store) : Prop where
  files : Files s.segs
  /-- A fresh number is one no segment has. -/
  fresh : ∀ seg ∈ s.segs, seg.id < s.nextID
  count : s.segs.length ≤ s.nextID
  /-- No live record was written to a full segment. -/
  room : ∀ seg ∈ s.segs, ∀ p ∈ recordsOf seg.data, p.2.isTomb = false → p.1 < s.segMax

def IndexPoints (s : Store) : Prop :=
  ∀ key loc, s.index.lookup key = some loc → Points s.segs key loc

variable {s : Store} {segs : List Segment} {seg : Segment} {key : Key} {body : Bytes}

theorem Files.eq_of_id (h : Files segs) {a b : Segment} (ha : a ∈ segs) (hb : b ∈ segs)
    (hid : a.id = b.id) : a = b :=
  inj_on_of_nodup_map h.nodup ha hb hid

theorem find_of_nodup (h : (segs.map Segment.id).Nodup) (hseg : seg ∈ segs) {id : Nat}
    (hid : seg.id = id) : segs.find? (·.id = id) = some seg := by
  cases hfind : segs.find? (·.id = id) with
  | none => simpa [hid] using find?_eq_none.1 hfind seg hseg
  | some seg' =>
    have hid' : seg'.id = id := by simpa using find?_some hfind
    rw [inj_on_of_nodup_map h (mem_of_find?_eq_some hfind) hseg (hid'.trans hid.symm)]

variable {loc : Loc}

theorem Files.bodyAt_eq (h : Files segs) (hseg : seg ∈ segs) {p : Nat × Record}
    (hp : p ∈ recordsOf seg.data) (hid : seg.id = loc.segID) (hoff : loc.offset = p.1)
    (hsize : loc.size = 0 ∨ loc.size = recSize p.2.body) :
    bodyAt segs loc = if p.2.isTomb then none else some p.2.body := by
  have hread : readRecordAt seg.data p.1 loc.size = .ok p.2 :=
    (h.whole seg hseg).readRecordAt_eq hp hsize
  simp [bodyAt, find_of_nodup h.nodup hseg hid, hoff, hread]

/-! ## Appending a record -/

def Grows (segs segs' : List Segment) : Prop :=
  ∀ seg ∈ segs, ∃ seg' ∈ segs', seg'.id = seg.id ∧ recordsOf seg.data ⊆ recordsOf seg'.data

theorem Points.grow {segs segs' : List Segment} (h : Grows segs segs')
    (hp : Points segs key loc) : Points segs' key loc := by
  obtain ⟨seg, hseg, hid, r, hr, hrest⟩ := hp
  obtain ⟨seg', hseg', hid', hsub⟩ := h seg hseg
  exact ⟨seg', hseg', hid'.trans hid, r, hsub hr, hrest⟩

theorem Points.bodyAt_grow {segs segs' : List Segment} (hf : Files segs) (hf' : Files segs')
    (h : Grows segs segs') (hp : Points segs key loc) :
    bodyAt segs' loc = bodyAt segs loc := by
  obtain ⟨seg, hseg, hid, r, hr, -, -, hsize⟩ := hp
  obtain ⟨seg', hseg', hid', hsub⟩ := h seg hseg
  rw [hf.bodyAt_eq hseg hr hid rfl hsize, hf'.bodyAt_eq hseg' (hsub hr) (hid'.trans hid) rfl hsize]

section

variable {s : Store}

theorem newSegment_of_full (h : s.full) :
    s.newSegment = { s with segs := s.segs ++ [⟨s.nextID, []⟩], nextID := s.nextID + 1 } :=
  if_pos h

theorem newSegment_of_not_full (h : s.full = false) : s.newSegment = s := by
  rw [Store.newSegment, h]
  rfl

@[elab_as_elim] theorem newSegment_induction {motive : Store → Prop} (same : motive s)
    (new : motive { s with segs := s.segs ++ [⟨s.nextID, []⟩], nextID := s.nextID + 1 }) :
    motive s.newSegment := by
  unfold Store.newSegment
  split
  · exact new
  · exact same

@[simp] theorem index_newSegment : s.newSegment.index = s.index := by
  unfold Store.newSegment
  split <;> rfl

@[simp] theorem segMax_newSegment : s.newSegment.segMax = s.segMax := by
  unfold Store.newSegment
  split <;> rfl

theorem exists_active (h : s.full = false) :
    ∃ init seg, s.segs = init ++ [seg] ∧ seg.data.length < s.segMax := by
  rcases eq_nil_or_concat' s.segs with hnil | ⟨init, seg, hsegs⟩
  · simp [Store.full, hnil] at h
  · refine ⟨init, seg, hsegs, ?_⟩
    simpa [Store.full, hsegs] using h

theorem exists_active_newSegment :
    ∃ init seg, s.newSegment.segs = init ++ [seg] ∧ seg.data.length < s.segMax := by
  cases hfull : s.full with
  | true =>
    rw [newSegment_of_full hfull]
    exact ⟨s.segs, ⟨s.nextID, []⟩, rfl, s.segMax_pos⟩
  | false =>
    rw [newSegment_of_not_full hfull]
    exact exists_active hfull

theorem not_full_newSegment : s.newSegment.full = false := by
  obtain ⟨init, seg, hsegs, hroom⟩ := exists_active_newSegment (s := s)
  simpa [Store.full, hsegs] using hroom

variable {init : List Segment} {seg : Segment} (hsegs : s.segs = init ++ [seg]) (r : Record)
include hsegs

theorem append_eq :
    s.append r = { s with segs := init ++ [⟨seg.id, seg.data ++ r.encode⟩] } := by
  simp [Store.append, hsegs]

theorem activeID_eq : s.activeID = seg.id := by
  simp [Store.activeID, hsegs]

theorem activeSize_eq : s.activeSize = seg.data.length := by
  simp [Store.activeSize, hsegs]

end

@[elab_as_elim] theorem append_induction {motive : Store → Prop} (r : Record)
    (same : s.segs = [] → motive s)
    (append : ∀ init seg, s.segs = init ++ [seg] →
      motive { s with segs := init ++ [⟨seg.id, seg.data ++ r.encode⟩] }) : motive (s.append r) := by
  rcases eq_nil_or_concat' s.segs with hnil | ⟨init, seg, hsegs⟩
  · simpa [Store.append, hnil] using same hnil
  · simpa [append_eq hsegs] using append init seg hsegs

theorem Grows.refl (segs : List Segment) : Grows segs segs :=
  fun seg h => ⟨seg, h, rfl, List.Subset.refl _⟩

theorem Grows.trans {a b c : List Segment} (h : Grows a b) (h' : Grows b c) : Grows a c := by
  intro seg hseg
  obtain ⟨seg', hseg', hid, hsub⟩ := h seg hseg
  obtain ⟨seg'', hseg'', hid', hsub'⟩ := h' seg' hseg'
  exact ⟨seg'', hseg'', hid'.trans hid, List.Subset.trans hsub hsub'⟩

theorem grows_newSegment (s : Store) : Grows s.segs s.newSegment.segs := by
  refine newSegment_induction (Grows.refl _) fun seg hseg => ?_
  exact ⟨seg, mem_append_left _ hseg, rfl, List.Subset.refl _⟩

theorem Files.concat {segs : List Segment} {new : Segment} (h : Files segs)
    (hnew : ∀ seg ∈ segs, seg.id < new.id) (hwhole : WholeRecords new.data) :
    Files (segs ++ [new]) := by
  refine ⟨forall_mem_concat.2 ⟨h.whole, hwhole⟩, ?_⟩
  rw [map_append, nodup_append]
  refine ⟨h.nodup, by simp, ?_⟩
  intro i hi j hj
  obtain ⟨seg, hseg, rfl⟩ := mem_map.1 hi
  rw [mem_singleton.1 hj]
  exact ne_of_lt (hnew seg hseg)

theorem Layout.newSegment (h : Layout s) : Layout s.newSegment := by
  refine newSegment_induction h ⟨h.files.concat h.fresh wholeRecords_nil, ?_, ?_, ?_⟩
  · exact forall_mem_concat.2 ⟨fun seg hseg => Nat.lt_succ_of_lt (h.fresh seg hseg), Nat.lt_succ_self _⟩
  · simpa using h.count
  · exact forall_mem_concat.2 ⟨h.room, nofun⟩

theorem grows_append (hf : Files s.segs) {r : Record} (hr : r.Fits) :
    Grows s.segs (s.append r).segs := by
  refine append_induction r (fun _ => Grows.refl _) fun init seg hsegs => ?_
  rw [hsegs] at hf ⊢
  refine forall_mem_concat.2 ⟨fun seg' hseg' => ?_, ?_⟩
  · exact ⟨seg', mem_append_left _ hseg', rfl, List.Subset.refl _⟩
  · refine ⟨⟨seg.id, seg.data ++ r.encode⟩, by simp, rfl, ?_⟩
    rw [(hf.whole seg (by simp)).recordsOf_append hr]
    exact subset_append_left _ _

theorem Layout.append (h : Layout s) {r : Record} (hr : r.Fits)
    (hroom : s.full = false ∨ r.isTomb) : Layout (s.append r) := by
  refine append_induction r (fun _ => h) fun init seg hsegs => ?_
  obtain ⟨⟨hwholes, hnodup⟩, hfresh, hcount, hrooms⟩ := h
  rw [hsegs] at hwholes hnodup hfresh hcount hrooms
  rw [forall_mem_concat] at hwholes hfresh hrooms
  refine ⟨⟨forall_mem_concat.2 ⟨hwholes.1, hwholes.2.append hr⟩, by simpa using hnodup⟩,
    forall_mem_concat.2 hfresh, by simpa using hcount, forall_mem_concat.2 ⟨hrooms.1, ?_⟩⟩
  rw [hwholes.2.recordsOf_append hr]
  refine forall_mem_concat.2 ⟨hrooms.2, fun hlive => ?_⟩
  rcases hroom with hroom | htomb
  · simpa [Store.full, hsegs] using hroom
  · simp [htomb] at hlive

/-! ## Put, Delete and eviction -/

theorem put_of_full (h : s.full) (key : Key) (body : Bytes) :
    s.put key body =
      { s with
        segs := s.segs ++ [⟨s.nextID, Record.encode ⟨key, body, false⟩⟩]
        index := s.index.insert key ⟨s.nextID, 0, recSize body⟩
        nextID := s.nextID + 1 } := by
  have hsegs : s.newSegment.segs = s.segs ++ [⟨s.nextID, []⟩] := by
    rw [newSegment_of_full h]
  rw [Store.put, append_eq hsegs, activeID_eq hsegs, activeSize_eq hsegs, nil_append,
    newSegment_of_full h]
  rfl

theorem put_of_not_full (h : s.full = false) {init : List Segment} (hsegs : s.segs = init ++ [seg])
    (key : Key) (body : Bytes) :
    s.put key body =
      { s with
        segs := init ++ [⟨seg.id, seg.data ++ Record.encode ⟨key, body, false⟩⟩]
        index := s.index.insert key ⟨seg.id, seg.data.length, recSize body⟩ } := by
  rw [Store.put, newSegment_of_not_full h, append_eq hsegs, activeID_eq hsegs, activeSize_eq hsegs]

theorem fits_live (key : Key) (hb : body.length < 2 ^ 32) : (⟨key, body, false⟩ : Record).Fits := hb

theorem fits_tombstone (key : Key) : (⟨key, [], true⟩ : Record).Fits := by
  show 0 < 2 ^ 32
  decide

theorem Layout.withIndex (h : Layout s) (index : Index) :
    Layout { s with index := index } :=
  ⟨h.files, h.fresh, h.count, h.room⟩

section

variable {s : Store} (h : Layout s) {key : Key}
include h

variable {body : Bytes}

theorem Layout.put (hb : body.length < 2 ^ 32) : Layout (s.put key body) :=
  (h.newSegment.append (fits_live key hb) (.inl not_full_newSegment)).withIndex _

theorem Layout.delete : Layout (s.delete key) :=
  (h.newSegment.append (fits_tombstone key) (.inr rfl)).withIndex _

theorem Layout.evictOne : Layout (s.evictOne key) := by
  unfold Store.evictOne
  split
  · exact (h.append (fits_tombstone key) (.inr rfl)).withIndex _
  · exact h

theorem grows_put (hb : body.length < 2 ^ 32) : Grows s.segs (s.put key body).segs :=
  (grows_newSegment s).trans (grows_append h.newSegment.files (fits_live key hb))

theorem grows_delete : Grows s.segs (s.delete key).segs :=
  (grows_newSegment s).trans (grows_append h.newSegment.files (fits_tombstone key))

theorem grows_evictOne : Grows s.segs (s.evictOne key).segs := by
  unfold Store.evictOne
  split
  · exact grows_append h.files (fits_tombstone key)
  · exact Grows.refl _

/-- The place `Put` returns holds its record. -/
theorem points_put (hb : body.length < 2 ^ 32) :
    ∃ loc, (s.put key body).index = s.index.insert key loc ∧
      Points (s.put key body).segs key loc ∧ bodyAt (s.put key body).segs loc = some body := by
  obtain ⟨init, seg, hsegs, -⟩ := exists_active_newSegment (s := s)
  have hwhole := h.newSegment.files.whole seg (by simp [hsegs])
  have hput : (s.put key body).segs =
      init ++ [⟨seg.id, seg.data ++ Record.encode ⟨key, body, false⟩⟩] := by
    rw [Store.put, append_eq hsegs]
  have hrec : (seg.data.length, (⟨key, body, false⟩ : Record)) ∈
      recordsOf (seg.data ++ Record.encode ⟨key, body, false⟩) := by
    rw [hwhole.recordsOf_append (fits_live key hb)]
    simp
  refine ⟨⟨seg.id, seg.data.length, recSize body⟩, ?_, ?_, ?_⟩
  · rw [Store.put, activeID_eq hsegs, activeSize_eq hsegs, index_newSegment]
  · rw [hput]
    exact ⟨_, mem_append_right _ (.head _), rfl, _, hrec, rfl, rfl, .inr rfl⟩
  · have hfiles : Files (s.put key body).segs := (h.put hb).files
    have hmem : ⟨seg.id, seg.data ++ Record.encode ⟨key, body, false⟩⟩ ∈ (s.put key body).segs := by
      rw [hput]
      simp
    exact hfiles.bodyAt_eq hmem hrec rfl rfl (.inr rfl)

end

theorem IndexPoints.grow {s s' : Store} (h : IndexPoints s) (hg : Grows s.segs s'.segs)
    (hi : ∀ key loc, s'.index.lookup key = some loc → s.index.lookup key = some loc) :
    IndexPoints s' :=
  fun key loc hloc => (h key loc (hi key loc hloc)).grow hg

theorem IndexPoints.put (h : Layout s) (hi : IndexPoints s) (key : Key)
    (hb : body.length < 2 ^ 32) :
    IndexPoints (s.put key body) := by
  obtain ⟨loc, hindex, hpoints, -⟩ : ∃ loc, (s.put key body).index = _ ∧ _ := points_put h hb
  intro key' loc' hloc'
  rw [hindex] at hloc'
  by_cases hkey : key' = key
  · subst hkey
    rw [AList.lookup_insert] at hloc'
    cases hloc'
    exact hpoints
  · rw [AList.lookup_insert_ne hkey] at hloc'
    exact (hi key' loc' hloc').grow (grows_put h hb)

theorem readRecord_of_lookup {loc : Loc} (h : s.index.lookup key = some loc) :
    s.readRecord key = bodyAt s.segs loc := by
  rw [Store.readRecord, h]
  rfl

theorem readRecord_grow {s s' : Store} (hi : IndexPoints s) (hf : Files s.segs)
    (hf' : Files s'.segs) (hg : Grows s.segs s'.segs)
    (hsame : s'.index.lookup key = s.index.lookup key) : s'.readRecord key = s.readRecord key := by
  rw [Store.readRecord, Store.readRecord, hsame]
  cases hloc : s.index.lookup key with
  | none => rfl
  | some loc => exact (hi key loc hloc).bodyAt_grow hf hf' hg

theorem readRecord_put (h : Layout s) (hi : IndexPoints s) (hb : body.length < 2 ^ 32) (k : Key) :
    (s.put key body).readRecord k = if k = key then some body else s.readRecord k := by
  obtain ⟨loc, hindex, -, hbody⟩ : ∃ loc, (s.put key body).index = _ ∧ _ := points_put h hb
  split_ifs with hk
  · rw [hk, readRecord_of_lookup (hindex ▸ AList.lookup_insert _), hbody]
  · refine readRecord_grow hi h.files (h.put hb).files (grows_put h hb) ?_
    rw [hindex, AList.lookup_insert_ne hk]

theorem index_delete (s : Store) (key : Key) : (s.delete key).index = s.index.erase key := by
  simp [Store.delete]

theorem lookup_erase_index (index : Index) (key k : Key) :
    (index.erase key).lookup k = if k = key then none else index.lookup k := by
  split_ifs with hk
  · rw [hk]
    exact AList.lookup_erase _ _
  · exact AList.lookup_erase_ne hk

theorem lookup_evictOne (s : Store) (key k : Key) :
    (s.evictOne key).index.lookup k = if k = key then none else s.index.lookup k := by
  unfold Store.evictOne
  split
  · exact lookup_erase_index s.index key k
  · next hnone =>
    rw [Option.not_isSome_iff_eq_none] at hnone
    split_ifs with hk
    · rw [hk, hnone]
    · rfl

theorem lookup_delete (s : Store) (key k : Key) :
    (s.delete key).index.lookup k = if k = key then none else s.index.lookup k := by
  rw [index_delete]
  exact lookup_erase_index s.index key k

theorem lookup_of_erase {index : Index} {k : Key} {loc : Loc}
    (h : (index.erase key).lookup k = some loc) : index.lookup k = some loc := by
  rw [lookup_erase_index] at h
  split_ifs at h
  exact h

theorem lookup_of_dropStale {k : Key} {loc : Loc} :
    (s.dropStale key).index.lookup k = some loc → s.index.lookup k = some loc :=
  dropStale_induction key id lookup_of_erase

section

variable {s s' : Store} {key : Key}
  (hlookup : ∀ k, s'.index.lookup k = if k = key then none else s.index.lookup k)
include hlookup

theorem lookup_of_remove {k : Key} {loc : Loc} (h : s'.index.lookup k = some loc) :
    s.index.lookup k = some loc := by
  rw [hlookup] at h
  split_ifs at h
  exact h

theorem IndexPoints.remove (hi : IndexPoints s) (hg : Grows s.segs s'.segs) : IndexPoints s' :=
  hi.grow hg fun _ _ => lookup_of_remove hlookup

theorem readRecord_remove (hi : IndexPoints s) (hf : Files s.segs) (hf' : Files s'.segs)
    (hg : Grows s.segs s'.segs) (k : Key) :
    s'.readRecord k = if k = key then none else s.readRecord k := by
  split_ifs with hk
  · rw [Store.readRecord, hlookup, if_pos hk]
    rfl
  · refine readRecord_grow hi hf hf' hg ?_
    rw [hlookup, if_neg hk]

end

end Bouine.Storage.Warm
