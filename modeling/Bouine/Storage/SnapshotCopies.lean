import Bouine.Storage.CompactionPhases
import Bouine.Storage.SnapshotFile

/-! # The two copies of `WriteSnapshot`

The index is copied under `idxMu` and the table of segments later, under `s.mu`. Puts, deletes and the
swap of a compaction may come in between. `LoadSnapshot` looks at the table only.
-/

namespace Bouine.Storage.Warm

open Lib Lib.Framing Lib.Transition List Nat

/-- A segment that is not in the copy of `segByID` is left out of the table. The size of the others
is read later. -/
def writeSnapshotFromCopy (idxSnap : Index) (segByID : List Segment) (segSize : Segment → Nat) :
    Snapshot where
  table := (segByID.filter fun seg => idxSnap.entries.any fun e => e.2.segID == seg.id).map
    fun seg => (seg.id, segSize seg)
  entries := idxSnap

inductive CopyStep where
  | op (op : Between)
  /-- A compaction takes a number. -/
  | takeID
  /-- It swaps its copy in, with the records that it kept. -/
  | swap (segID newID : Nat) (kept : List Record)

def Store.copyStep (w : Store) : CopyStep → Store
  | .op op => w.between op
  | .takeID => w.takeID
  | .swap segID newID kept => w.compactSwap segID newID kept

/-- A number that is taken has not been that of a segment. -/
def CopyStep.Fits (s : Store) : CopyStep → Prop
  | .swap _ newID _ => newID ∉ s.segs.map Segment.id
  | .op _ | .takeID => True

def Snapshot.Closed (snap : Snapshot) : Prop :=
  ∀ e ∈ snap.entries.entries, ∃ size, (e.2.segID, size) ∈ snap.table ∧ e.2.offset + e.2.size ≤ size

/-- What has kept its number since has only grown. -/
structure Continues (s w : Store) : Prop where
  nextID : s.nextID ≤ w.nextID
  data : ∀ old ∈ s.segs, ∀ seg ∈ w.segs, seg.id = old.id → old.data <+: seg.data

section

variable {s w : Store} (hs : Layout s)
include hs

theorem Continues.refl : Continues s s := by
  refine ⟨le_rfl, fun old hold seg hseg hid => ?_⟩
  rw [hs.files.eq_of_id hseg hold hid]

variable (h : Continues s w)
include h

theorem Continues.newSegment : Continues s w.newSegment := by
  refine newSegment_induction h ⟨le_succ_of_le h.nextID, fun old hold => ?_⟩
  refine forall_mem_concat.2 ⟨h.data old hold, fun hid => ?_⟩
  have hlt := hs.fresh old hold
  have hle := h.nextID
  dsimp only at hid
  omega

omit hs in
theorem Continues.append (r : Record) : Continues s (w.append r) := by
  refine append_induction r (fun _ => h) fun init last hsegs => ⟨h.nextID, fun old hold => ?_⟩
  have hdata := h.data old hold
  rw [hsegs, forall_mem_concat] at hdata
  exact forall_mem_concat.2 ⟨hdata.1, fun hid => (hdata.2 hid).trans (prefix_append _ _)⟩

theorem Continues.step {step : CopyStep} (hfits : step.Fits s) : Continues s (w.copyStep step) := by
  cases step with
  | op op =>
    exact between_induction (motive := fun w => Continues s w) h op (fun _ h => h.newSegment hs)
      (fun _ r h => h.append r) fun _ _ h => ⟨h.nextID, h.data⟩
  | takeID => exact ⟨le_succ_of_le h.nextID, h.data⟩
  | swap segID newID kept =>
    rw [Store.copyStep, Store.compactSwap]
    split_ifs
    · refine ⟨h.nextID, fun old hold seg hseg hid => ?_⟩
      obtain ⟨seg', hseg', rfl⟩ := mem_map.1 hseg
      split_ifs at hid ⊢ with hswapped
      · exact absurd (mem_map.2 ⟨old, hold, hid.symm⟩) hfits
      · exact h.data old hold seg' hseg' hid
    · exact h

end

theorem WholeRecords.end_le {data : Bytes} (h : WholeRecords data) {off : Nat} {r : Record}
    (hr : (off, r) ∈ recordsOf data) : off + recSize r.body ≤ data.length := by
  obtain ⟨rs, hrs, rfl⟩ := h
  rw [recordsOf, scanSegment_encodeAll hrs] at hr
  obtain ⟨p, q, heq, hoff⟩ := exists_of_mem_place hr
  rw [heq]
  simp at hoff ⊢
  omega

/-- The limits of the file format for the copied index, and for the table copied from `w`. -/
structure InRange (s w : Store) (segSize : Segment → Nat) : Prop where
  ids : ∀ seg ∈ s.segs ++ w.segs, seg.id < 2 ^ 31
  lengths : ∀ seg ∈ s.segs, seg.data.length < 2 ^ 63
  sizes : ∀ seg ∈ w.segs, segSize seg < 2 ^ 63
  segs : w.segs.length * snapSegEntryLen < 2 ^ 32
  entries : s.index.entries.length * snapEntryLen < 2 ^ 62

theorem InRange.fits {s w : Store} {segSize : Segment → Nat} (h : InRange s w segSize)
    (hs : Layout s) (hi : IndexPoints s) :
    (writeSnapshotFromCopy s.index w.segs segSize).Fits := by
  refine ⟨fun e he => ?_, fun e he => ?_, ?_, h.entries⟩
  · obtain ⟨seg, hseg, rfl⟩ := mem_map.1 he
    have hseg := mem_of_mem_filter hseg
    exact ⟨h.ids seg (mem_append_right _ hseg), h.sizes seg hseg⟩
  · obtain ⟨old, hold, hid, r, hr, -, -, hrec⟩ := hi e.1 e.2 (AList.mem_lookup_iff.2 he)
    have hend := (hs.files.whole old hold).end_le hr
    have hlen := h.lengths old hold
    refine ⟨hid ▸ h.ids old (mem_append_left _ hold), ?_⟩
    rcases hrec with hzero | heq <;> omega
  · rw [writeSnapshotFromCopy, length_map]
    exact (Nat.mul_le_mul_right _ (length_filter_le _ _)).trans_lt h.segs

/-- The snapshot is closed exactly if the table was copied while it had all segments that the copied
index names. A file that is accepted gives the copied index in any case, and if the snapshot is
closed every entry has its segment. -/
theorem snapshot_closed_iff {s : Store} (hs : Layout s) (hi : IndexPoints s) (steps : List CopyStep)
    (hsteps : ∀ step ∈ steps, step.Fits s) (segSize : Segment → Nat)
    (hsize : ∀ seg ∈ (run Store.copyStep s steps).segs, seg.data.length ≤ segSize seg)
    (hrange : InRange s (run Store.copyStep s steps) segSize) :
    ((writeSnapshotFromCopy s.index (run Store.copyStep s steps).segs segSize).Closed ↔
      ∀ e ∈ s.index.entries, e.2.segID ∈ (run Store.copyStep s steps).segs.map Segment.id) ∧
    ∀ files,
      ((∃ loaded, loadSnapshotFile files
          (writeSnapshotFromCopy s.index (run Store.copyStep s steps).segs segSize).file = .ok loaded) ↔
        validateSegmentTable files
          (writeSnapshotFromCopy s.index (run Store.copyStep s steps).segs segSize).table) ∧
      ∀ loaded, loadSnapshotFile files
          (writeSnapshotFromCopy s.index (run Store.copyStep s steps).segs segSize).file = .ok loaded →
        (∀ k, loaded.index.lookup k = (s.index.lookup k).map Loc.read) ∧
        ((writeSnapshotFromCopy s.index (run Store.copyStep s steps).segs segSize).Closed →
          ∀ k loc, loaded.index.lookup k = some loc →
            ∃ seg ∈ files, loc.segID = seg.id ∧ loc.offset + loc.size ≤ seg.data.length) := by
  have hcont : Continues s (run Store.copyStep s steps) :=
    (always_of_along (fun _ _ hw hfits => hw.step hs hfits) (Continues.refl hs)
      (along_of_mem hsteps _)).last
  have hfits := hrange.fits hs hi
  refine ⟨⟨fun hclosed e he => ?_, fun hthere e he => ?_⟩, fun files => ⟨?_, fun loaded hload => ?_⟩⟩
  · obtain ⟨size, hmem, -⟩ := hclosed e he
    obtain ⟨seg, hseg, heq⟩ := mem_map.1 hmem
    exact mem_map.2 ⟨seg, mem_of_mem_filter hseg, congrArg Prod.fst heq⟩
  · obtain ⟨seg, hseg, hid⟩ := mem_map.1 (hthere e he)
    obtain ⟨old, hold, hid', r, hr, -, -, hrec⟩ := hi e.1 e.2 (AList.mem_lookup_iff.2 he)
    have hend := (hs.files.whole old hold).end_le hr
    have hgrown := (hcont.data old hold seg hseg (hid.trans hid'.symm)).length_le
    have hread := hsize seg hseg
    refine ⟨segSize seg, mem_map.2 ⟨seg, mem_filter.2 ⟨hseg, ?_⟩, by rw [hid]⟩, ?_⟩
    · exact any_eq_true.2 ⟨e, he, by simp [hid]⟩
    · rcases hrec with hzero | heq <;> omega
  · simp only [loadSnapshotFile_file hfits, exists_and_left, exists_eq, and_true]
  · have hlookup := lookup_loadSnapshotFile hfits hload
    refine ⟨hlookup, fun hclosed k loc hloc => ?_⟩
    obtain ⟨place, hplace, rfl⟩ := Option.map_eq_some_iff.1 ((hlookup k).symm.trans hloc)
    obtain ⟨size, hmem, hin⟩ := hclosed ⟨k, place⟩ (AList.mem_lookup_iff.1 hplace)
    have hfile := all_eq_true.1 ((loadSnapshotFile_file hfits files loaded).1 hload).1 _ hmem
    split at hfile
    · cases hfile
    · next seg hfind =>
      have hid : seg.id = place.segID := by simpa using find?_some hfind
      have hlen := of_decide_eq_true hfile
      dsimp only at hin
      refine ⟨seg, mem_of_find?_eq_some hfind, by rw [hid]; rfl, ?_⟩
      simp only [Loc.read]
      omega

/-- The first of two segments is compacted between the two copies. -/
def swapped : List CopyStep := [.takeID, .swap 0 2 [⟨exampleKey 1, [1], false⟩]]

/-- The snapshot is accepted, and the key of the compacted segment is in none. -/
theorem swap_between_copies_loses_segment :
    twoSegments.compactScan 0 = some [⟨exampleKey 1, [1], false⟩] ∧
    0 ∉ (run Store.copyStep twoSegments swapped).segs.map Segment.id ∧
    ∃ loaded, loadSnapshotFile (run Store.copyStep twoSegments swapped).segs (writeSnapshotFromCopy
        twoSegments.index (run Store.copyStep twoSegments swapped).segs (·.data.length)).file =
          .ok loaded ∧
      loaded.index.lookup (exampleKey 1) = some ⟨0, 0, recSize [1]⟩ := by
  have hrange : InRange twoSegments (run Store.copyStep twoSegments swapped) (·.data.length) := by
    constructor <;> decide +kernel
  have hfits := hrange.fits twoSegments_ok.1 twoSegments_ok.2
  have hload := (loadSnapshotFile_file hfits (run Store.copyStep twoSegments swapped).segs _).2
    ⟨by decide +kernel, rfl⟩
  refine ⟨by decide +kernel, by decide +kernel, _, hload, ?_⟩
  rw [lookup_loadSnapshotFile hfits hload]
  rfl

theorem put_between_copies_closed :
    (writeSnapshotFromCopy twoSegments.index
      (run Store.copyStep twoSegments [.op (.put (exampleKey 3) [3]), .op (.delete (exampleKey 1))]).segs
      (·.data.length)).Closed := by
  refine (snapshot_closed_iff twoSegments_ok.1 twoSegments_ok.2 _ (by simp [CopyStep.Fits]) _
    (fun _ _ => le_rfl) ⟨?_, ?_, ?_, ?_, ?_⟩).1.2 ?_
  all_goals decide

end Bouine.Storage.Warm
