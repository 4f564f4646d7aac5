import Mathlib.Data.List.MinMax
import Bouine.Storage.WarmRecovery

/-! # Warm reads across crashes

A place in the index, the log or the snapshot goes bad when the segment it names is replaced by
another of the same number. Writes and compactions of one segment give out numbers above all others,
so places stay good through them at every file-system operation. `Compact` numbers its segments from
zero: the places in the log are bad from the removal of the segment with the highest number to the
next rewrite of the log. A restart in between reads a record of another key.
-/

namespace Bouine.Storage.Warm

open Lib Lib.Framing Lib.Transition List Nat

/-! ## A restart -/

theorem lt_nextIDOf_aux (segs : List Segment) (n : Nat) :
    n ≤ segs.foldl (fun n seg => if n ≤ seg.id then seg.id + 1 else n) n ∧
      ∀ seg ∈ segs, seg.id < segs.foldl (fun n seg => if n ≤ seg.id then seg.id + 1 else n) n := by
  induction segs generalizing n with
  | nil => simp
  | cons seg segs ih =>
    obtain ⟨hle, hlt⟩ := ih (if n ≤ seg.id then seg.id + 1 else n)
    have hn : n ≤ (if n ≤ seg.id then seg.id + 1 else n) ∧
        seg.id < (if n ≤ seg.id then seg.id + 1 else n) := by
      split <;> omega
    refine ⟨le_trans hn.1 hle, fun seg' hseg' => ?_⟩
    rcases mem_cons.1 hseg' with rfl | hseg'
    · exact hn.2.trans_le hle
    · exact hlt seg' hseg'

variable {segs : List Segment} {s : Store} {p : Nat × Record} {seg : Segment} {segMax : Nat}
  {target : Segment} {index : Index} {t : Tier}

theorem lt_nextIDOf (h : seg ∈ segs) : seg.id < nextIDOf segs :=
  (lt_nextIDOf_aux segs 0).2 seg h

theorem length_le_of_id_lt (h : (segs.map Segment.id).Nodup) {n : Nat}
    (hlt : ∀ seg ∈ segs, seg.id < n) : segs.length ≤ n := by
  have hsub : segs.map Segment.id ⊆ range n := by
    intro i hi
    obtain ⟨seg, hseg, rfl⟩ := mem_map.1 hi
    exact mem_range.2 (hlt seg hseg)
  simpa using (subperm_of_subset h hsub).length_le

theorem layout_openExisting {written : List (Key × Bytes)} {files : List Segment}
    (h : Sound segMax written files) (hpos : 0 < segMax) :
    Layout (openExisting files segMax hpos) := by
  have hsort : Sound segMax written (sortByID files) := h.perm (sortByID_perm files).symm
  exact ⟨hsort.files, fun seg hseg => lt_nextIDOf hseg,
    length_le_of_id_lt hsort.files.nodup fun seg hseg => lt_nextIDOf hseg,
    fun seg hseg p hp hlive => (hsort.records seg hseg p hp hlive).1⟩

theorem IndexOk.replay (h : IndexOk segs index) {entries : List LogEntry}
    (hes : ∀ e ∈ entries, EntryOk segs e) : IndexOk segs (Journal.replay index entries) := by
  intro key loc hloc
  rw [Journal.lookup_replay] at hloc
  cases hnew : Journal.newest entries key with
  | none =>
    rw [hnew] at hloc
    exact h key loc hloc
  | some v =>
    rw [hnew] at hloc
    exact hes _ (Journal.mem_of_newest hnew) loc hloc

theorem entryOk_scanEvents (h : Files segs) {e : LogEntry} (he : e ∈ scanEvents segs) :
    EntryOk segs e := by
  rw [scanEvents_eq h.whole] at he
  obtain ⟨seg, hseg, he⟩ := mem_flatMap.1 he
  obtain ⟨p, hp, rfl⟩ := mem_map.1 he
  intro loc hloc
  cases htomb : p.2.isTomb with
  | true => simp [scanEvent, htomb] at hloc
  | false =>
    have hloc : loc = ⟨seg.id, p.1, 0⟩ := by simpa [scanEvent, htomb] using hloc.symm
    rw [hloc]
    exact .inl ⟨seg, hseg, rfl, p.2, hp, rfl, htomb, .inl rfl⟩

theorem lookup_backfill (index : Index) (p : Nat × Record) (k : Key) :
    (backfill index p).lookup k = (index.lookup k).map fun loc =>
      if p.2.key = k ∧ loc.size = 0 then { loc with size := recSize p.2.body } else loc := by
  unfold backfill
  by_cases hk : p.2.key = k
  · subst hk
    cases hloc : index.lookup p.2.key with
    | none => simp [hloc]
    | some loc =>
      by_cases hsize : loc.size = 0
      · simp [hsize]
      · simp [hsize, hloc]
  · have hother : ∀ loc, (index.insert p.2.key loc).lookup k = index.lookup k :=
      fun loc => AList.lookup_insert_ne (Ne.symm hk)
    cases index.lookup p.2.key with
    | none => simp [hk]
    | some loc =>
      by_cases hsize : loc.size = 0
      · simp [hsize, hk, hother]
      · simp [hsize, hk]

def Named (segs : List Segment) (index : Index) (p : Nat × Record) : Prop :=
  ∃ seg ∈ segs, p ∈ recordsOf seg.data ∧
    ∃ loc, index.lookup p.2.key = some loc ∧ loc.segID = seg.id ∧ loc.offset = p.1

theorem Named.backfill (h : Named segs index p) (q : Nat × Record) :
    Named segs (backfill index q) p := by
  obtain ⟨seg, hseg, hp, loc, hloc, hid, hoff⟩ := h
  refine ⟨seg, hseg, hp, _, by rw [lookup_backfill, hloc]; rfl, ?_⟩
  simp only
  split_ifs
  · exact ⟨hid, hoff⟩
  · exact ⟨hid, hoff⟩

theorem IndexOk.backfill (hf : Files segs) (h : IndexOk segs index) (hp : Named segs index p) :
    IndexOk segs (backfill index p) := by
  intro key loc' hloc'
  rw [lookup_backfill] at hloc'
  obtain ⟨loc, hloc, rfl⟩ := Option.map_eq_some_iff.1 hloc'
  split_ifs with hk
  · obtain ⟨rfl, -⟩ := hk
    obtain ⟨seg, hseg, hrec, loc', hlook, hid, hoff⟩ := hp
    obtain rfl : loc' = loc := Option.some.inj (hlook.symm.trans hloc)
    obtain ⟨seg', hseg', hid', r, hr, hkey, hlive, -⟩ :=
      (h p.2.key loc' hloc).points hseg hid.symm
    obtain rfl := hf.eq_of_id hseg' hseg (hid'.trans hid)
    -- one record stands at the offset
    have hsame : (loc'.offset, r) = p :=
      inj_on_of_nodup_map (nodup_offsets _) hr hrec hoff
    refine .inl ⟨seg', hseg, hid', r, hr, hkey, hlive, .inr ?_⟩
    rw [← hsame]
  · exact h key loc hloc

theorem IndexOk.recomputeStats (hf : Files s.segs) (h : IndexOk s.segs s.index) :
    IndexOk s.segs s.recomputeStats.index := by
  unfold Store.recomputeStats
  split
  · have hnamed : ∀ p ∈ s.segs.flatMap fun seg =>
        (recordsOf seg.data).filter (isIndexed s.index seg.id), Named s.segs s.index p := by
      intro p hp
      obtain ⟨seg, hseg, hp⟩ := mem_flatMap.1 hp
      obtain ⟨hp, hi⟩ := mem_filter.1 hp
      obtain ⟨-, hloc⟩ := isIndexed_iff.1 hi
      exact ⟨seg, hseg, hp, hloc⟩
    generalize s.segs.flatMap _ = ps at hnamed
    generalize s.index = index at hnamed h
    induction ps generalizing index with
    | nil => exact h
    | cons p ps ih =>
      exact ih _ (fun q hq => (hnamed q (.tail _ hq)).backfill p)
        (h.backfill hf (hnamed p (.head _)))
  · exact h

theorem initWAL_eq (s : Store) (snap : Option Snapshot) (wal : List LogEntry) :
    ∃ index, initWAL s snap wal = { s with index := index } := by
  unfold initWAL Store.recomputeStats rebuildIndexFromScan
  split
  · exact ⟨_, rfl⟩
  · simp only
    split_ifs <;> exact ⟨_, rfl⟩

/-- `initWAL` puts only good places into the index. -/
theorem indexOk_initWAL (hf : Files s.segs) (hindex : IndexOk s.segs s.index)
    {snap : Option Snapshot} (hsnap : ∀ x ∈ snap, IndexOk s.segs x.entries) {wal : List LogEntry}
    (hwal : ∀ e ∈ wal, EntryOk s.segs e) : IndexOk s.segs (initWAL s snap wal).index := by
  unfold initWAL
  split
  · rename_i index hload
    obtain ⟨x, hx, hload⟩ := Option.bind_eq_some_iff.1 hload
    split_ifs at hload
    cases hload
    exact (hsnap x hx).replay hwal
  · have hreplay := hindex.replay hwal
    simp only
    split_ifs
    · exact hreplay.replay fun e he => entryOk_scanEvents hf he
    · exact hreplay
    · exact IndexOk.recomputeStats (s := { s with index := Journal.replay s.index wal }) hf hreplay

/-! ## The invariant -/

structure TierOk (t : Tier) : Prop where
  layout : Layout t.warm
  disk : DiskOk t.stale t.warm.segMax t.disk
  index : IndexOk t.warm.segs t.warm.index
  held : ∀ e ∈ t.held, EntryOk t.warm.segs e
  syncCh : t.stale = false → ∀ e ∈ t.syncCh, EntryOk t.warm.segs e

theorem TierOk.readsOwn (h : TierOk t) : ReadsOwn t := by
  intro key body hread
  obtain ⟨loc, hloc, hbody⟩ := Option.bind_eq_some_iff.1 hread
  rcases h.index key loc hloc with ⟨seg, hseg, hid, r, hr, rfl, hlive, hsize⟩ | ⟨hgone, -⟩
  · rw [h.layout.files.bodyAt_eq hseg hr hid rfl hsize] at hbody
    simp only [hlive, Bool.false_eq_true, if_false, Option.some.injEq] at hbody
    rw [← hbody]
    exact (h.disk.sound.records seg hseg _ hr hlive).2
  · rw [bodyAt_of_missing hgone] at hbody
    cases hbody

theorem tierOk_empty (h : 0 < segMax) : TierOk (Tier.empty segMax h) := by
  refine ⟨layout_empty h, ⟨⟨(layout_empty h).files, ?_⟩, ?_, ?_, ?_⟩, ?_, ?_, ?_⟩
  all_goals simp [Tier.empty, Tier.disk, Store.empty, IndexOk]

theorem tierOk_recover {d : Disk} (h : DiskOk false segMax d) (hpos : 0 < segMax) :
    TierOk (recover d segMax hpos) := by
  have hperm := (sortByID_perm d.files).symm
  have hkeep : Keeps d.files (sortByID d.files) := keeps_perm hperm
  have hsort := h.sound.perm hperm
  obtain ⟨index, hinit⟩ := initWAL_eq (openExisting d.files segMax hpos) d.snap d.wal
  have hempty : IndexOk (sortByID d.files) (∅ : Index) := by
    intro key loc hloc
    simp at hloc
  have hsnap : ∀ x ∈ d.snap, IndexOk (sortByID d.files) x.entries :=
    fun x hx => (h.snap x hx).keep hkeep
  have hwal : ∀ e ∈ d.wal, EntryOk (sortByID d.files) e := fun e he => (h.wal rfl e he).keep hkeep
  have hindex := indexOk_initWAL (s := openExisting d.files segMax hpos) hsort.files hempty hsnap hwal
  rw [recover, hinit] at *
  exact ⟨(layout_openExisting h.sound hpos).withIndex _,
    ⟨hsort, hsnap, fun _ => hwal, fun e he => (h.walTmp e he).keep hkeep⟩, hindex, nofun, nofun⟩

/-! ## Plans and completed operations -/

def SameDisk (d d' : Disk) : Prop := d.files.Perm d'.files ∧ d = { d' with files := d.files }

theorem SameDisk.refl (d : Disk) : SameDisk d d := ⟨List.Perm.refl _, rfl⟩

theorem DiskOk.same {stale : Bool} {d d' : Disk} (h : DiskOk stale segMax d) (hs : SameDisk d d') :
    DiskOk stale segMax d' := by
  obtain ⟨hperm, heq⟩ := hs
  have hkeep := keeps_perm hperm
  rw [heq] at h
  exact ⟨h.sound.perm hperm, fun x hx => (h.snap x hx).keep hkeep,
    fun hb e he => (h.wal hb e he).keep hkeep, fun e he => (h.walTmp e he).keep hkeep⟩

theorem compactSegment_eq (s : Store) (segID : Nat) :
    s.compactSegment segID =
      match s.compactTarget segID with
      | some target => s.swapCompactSegment target
      | none => s := by
  unfold Store.compactSegment Store.compactTarget
  cases s.segs.find? (·.id = segID) with
  | none => rfl
  | some target =>
    by_cases hlast : s.segs.getLast?.map Segment.id = some segID
    · simp [hlast]
    · by_cases hscan : (scanSegment target.data).2 = false
      · simp [Option.filter, hscan]
      · simp [Option.filter, hlast, hscan]

theorem mem_of_compactTarget {segID : Nat} (h : s.compactTarget segID = some target) :
    target ∈ s.segs ∧ target.id = segID := by
  obtain ⟨hfind, -⟩ := Option.filter_eq_some_iff.1 h
  exact ⟨mem_of_find?_eq_some hfind, by simpa using find?_some hfind⟩

theorem compact_of_compacts (h : s.compacts) :
    s.compact = { s with segs := s.compactSegments.segs, index := s.compactSegments.index } := by
  obtain ⟨hscan, hkept⟩ : _ ∧ s.segs.flatMap (pending s.index) ≠ [] := by
    simpa [Store.compacts] using h
  unfold Store.compact
  rw [if_neg (by simpa using hscan), if_neg hkept]

section

variable {d : Disk} {s : Store}

theorem run_newSegmentPlan (h : d.files = s.segs) :
    run Disk.apply d (newSegmentPlan s) = { d with files := s.newSegment.segs } := by
  unfold newSegmentPlan
  cases hfull : s.full with
  | true =>
    rw [newSegment_of_full hfull, ← h]
    rfl
  | false =>
    rw [newSegment_of_not_full hfull, ← h]
    rfl

theorem run_drainPlan (syncCh : List LogEntry) :
    run Disk.apply d (drainPlan syncCh) = { d with wal := d.wal ++ syncCh } := by
  unfold drainPlan
  split_ifs with hnil
  · rw [hnil, append_nil]
    rfl
  · rfl

theorem run_writeWalTmp (entries : List LogEntry) :
    run Disk.apply d (entries.map .writeWalTmp) = { d with walTmp := d.walTmp ++ entries } := by
  induction entries generalizing d with
  | nil => simp
  | cons e entries ih =>
    rw [map_cons, run_cons, ih]
    simp [Disk.apply]

theorem map_writeRecord (hf : Files s.segs) (r : Record) :
    (s.segs.map fun seg =>
      if seg.id = s.activeID then ⟨seg.id, seg.data ++ r.encode⟩ else seg) = (s.append r).segs := by
  rcases eq_nil_or_concat' s.segs with hnil | ⟨init, seg, hsegs⟩
  · simp [Store.append, hnil]
  · have hnodup := hf.nodup
    rw [hsegs, map_append, nodup_append] at hnodup
    have hinit : ∀ x ∈ init, x.id ≠ seg.id :=
      fun x hx => hnodup.2.2 x.id (mem_map_of_mem hx) seg.id (by simp)
    rw [append_eq hsegs, activeID_eq hsegs, hsegs, map_append]
    congr 1
    · conv_rhs => rw [← map_id init]
      exact map_congr_left fun x hx => if_neg (hinit x hx)
    · simp

theorem run_removeSeg (segs : List Segment) (h : ∀ seg ∈ d.files, seg ∈ segs) :
    run Disk.apply d (segs.map fun seg => .removeSeg seg.id) = { d with files := [] } := by
  induction segs generalizing d with
  | nil =>
    have hnil : d.files = [] := eq_nil_iff_forall_not_mem.2 fun seg hseg => by
      cases h seg hseg
    rw [map_nil, run_nil, ← hnil]
  | cons seg segs ih =>
    rw [map_cons, run_cons, ih]
    · rfl
    · intro x hx
      obtain ⟨hx, hid⟩ := mem_filter.1 hx
      have hne : x ≠ seg := fun heq => by simp [heq] at hid
      exact (mem_cons.1 (h x hx)).resolve_left hne

theorem run_renameSeg {segs : List Segment}
    (h : ((d.files ++ segs).map Segment.id).Nodup) :
    run Disk.apply d (segs.map .renameSeg) = { d with files := d.files ++ segs } := by
  induction segs generalizing d with
  | nil => simp
  | cons seg segs ih =>
    have hsplit : (d.files ++ seg :: segs).map Segment.id =
        ((d.files ++ [seg]) ++ segs).map Segment.id := by simp
    have hfilter : d.files.filter (·.id ≠ seg.id) = d.files := by
      rw [map_append, nodup_append] at h
      refine filter_eq_self.2 fun x hx => ?_
      simpa using h.2.2 x.id (mem_map_of_mem hx) seg.id (by simp)
    rw [map_cons, run_cons, Disk.apply, hfilter, ih (by rw [← hsplit]; exact h)]
    simp

end

theorem readDir_perm (files : List Segment) : (readDir files).Perm files :=
  perm_insertionSort _ _

theorem run_swap_perm (h : Layout t.warm) (hmem : target ∈ t.warm.segs) :
    (run Disk.apply t.disk [.renameSeg (t.warm.writeCompactTemp target), .removeSeg target.id]).files.Perm
      (t.warm.swapCompactSegment target).segs := by
  have hfresh : t.warm.segs.filter (·.id ≠ t.warm.nextID) = t.warm.segs :=
    filter_eq_self.2 fun seg hseg => by simpa using Nat.ne_of_lt (h.fresh seg hseg)
  have hfiles : (run Disk.apply t.disk
      [.renameSeg (t.warm.writeCompactTemp target), .removeSeg target.id]).files =
      (t.warm.segs ++ [t.warm.writeCompactTemp target]).filter (·.id ≠ target.id) := by
    show ((t.warm.segs.filter (·.id ≠ t.warm.nextID)) ++ _).filter _ = _
    rw [hfresh]
  have hne : (t.warm.writeCompactTemp target).id ≠ target.id := ne_of_gt (h.fresh target hmem)
  rw [hfiles, filter_append, filter_cons_of_pos (by simpa using hne)]
  exact (perm_append_singleton _ _).trans (swap_segs_perm hmem h).symm

theorem run_plan (h : Layout t.warm) (act : Act) :
    SameDisk (run Disk.apply t.disk (t.plan act)) (t.complete act).disk := by
  have hwrite : ∀ s : Store, Files s.segs → ∀ r : Record, ∀ d : Disk, d.files = s.segs →
      run Disk.apply d [.writeRecord s.activeID r] =
        { d with
          files := (s.append r).segs
          written := if r.isTomb then d.written else (r.key, r.body) :: d.written } := by
    intro s hf r d hd
    rw [← map_writeRecord hf r, ← hd]
    rfl
  cases act with
  | put key body | delete key =>
    rw [Tier.plan, run_append, run_newSegmentPlan rfl, hwrite _ h.newSegment.files _ _ rfl]
    exact SameDisk.refl _
  | evict victim =>
    rw [Tier.plan, Tier.complete, Store.evictOne]
    split_ifs with hsome
    · rw [hwrite _ h.files _ _ rfl]
      exact SameDisk.refl _
    · exact SameDisk.refl _
  | newSegment =>
    rw [Tier.plan, run_newSegmentPlan rfl]
    exact SameDisk.refl _
  | read key =>
    exact ⟨dropStale_induction (motive := fun s => t.warm.segs.Perm s.segs) key (.refl _) (.refl _), rfl⟩
  | enqueue e =>
    rw [Tier.complete]
    split_ifs <;> exact SameDisk.refl _
  | drop e | writeSnapshot => exact SameDisk.refl _
  | drain =>
    rw [Tier.plan, run_drainPlan]
    exact SameDisk.refl _
  | compactSegment segID =>
    rw [Tier.plan, Tier.complete, compactSegment_eq]
    cases htarget : t.warm.compactTarget segID with
    | none => exact SameDisk.refl _
    | some target =>
      obtain ⟨hmem, rfl⟩ := mem_of_compactTarget htarget
      exact ⟨run_swap_perm h hmem, rfl⟩
  | compact =>
    rw [Tier.plan, Tier.complete]
    split_ifs with hc
    · have hperm := readDir_perm t.warm.compactSegments.segs
      have hnodup : (([] ++ readDir t.warm.compactSegments.segs).map Segment.id).Nodup :=
        (hperm.map _).nodup_iff.2 (layout_compactSegments _).files.nodup
      rw [swapSegmentFiles, run_append, run_append,
        run_removeSeg _ fun seg hseg => (readDir_perm t.warm.segs).symm.subset hseg,
        run_renameSeg hnodup, compact_of_compacts hc]
      exact ⟨hperm, rfl⟩
    · exact SameDisk.refl _
  | rewriteWAL keys =>
    rw [Tier.plan, run_append, run_append, run_writeWalTmp, run_drainPlan]
    exact SameDisk.refl _
  | checkpoint =>
    rw [Tier.plan, run_append, run_drainPlan]
    exact SameDisk.refl _

/-! ## Crashes -/

section

variable {stale : Bool} {d : Disk} {s : Store}

theorem fits_newSegmentPlan (h : Layout s) (hd : d.files = s.segs) :
    Along Disk.apply (OpFits stale s.segMax) d (newSegmentPlan s) := by
  unfold newSegmentPlan
  split
  · refine ⟨fun seg hseg => h.fresh seg ?_, trivial⟩
    rwa [← hd]
  · trivial

theorem fits_write (h : Layout s) (hd : d.files = s.segs) {r : Record} (hr : r.Fits) :
    Along Disk.apply (OpFits stale s.segMax) d
      (newSegmentPlan s ++ [.writeRecord s.newSegment.activeID r]) := by
  refine along_append.2 ⟨fits_newSegmentPlan h hd, ⟨hr, fun _ seg hseg hid => ?_⟩, trivial⟩
  rw [run_newSegmentPlan hd] at hseg
  obtain ⟨init, last, hsegs, hroom⟩ := exists_active_newSegment (s := s)
  have hlast : last ∈ s.newSegment.segs := by simp [hsegs]
  rw [h.newSegment.files.eq_of_id hseg hlast (hid.trans (activeID_eq hsegs))]
  exact hroom

theorem fits_drainPlan {segMax : Nat} {syncCh : List LogEntry}
    (h : stale = false → ∀ e ∈ syncCh, EntryOk d.files e) :
    Along Disk.apply (OpFits stale segMax) d (drainPlan syncCh) := by
  unfold drainPlan
  split
  · trivial
  · exact ⟨h, trivial⟩

theorem fits_writeWalTmp {segMax : Nat} {entries : List LogEntry}
    (h : ∀ e ∈ entries, EntryOk d.files e) :
    Along Disk.apply (OpFits stale segMax) d (entries.map .writeWalTmp) := by
  induction entries generalizing d with
  | nil => trivial
  | cons e entries ih =>
    exact ⟨h e (.head _), ih fun e' he' => h e' (.tail _ he')⟩

end

theorem IndexOk.rewriteEntries (h : IndexOk s.segs s.index) {keys : List Key} {e : LogEntry}
    (he : e ∈ rewriteEntries s keys) : EntryOk s.segs e := by
  obtain ⟨key, -, he⟩ := mem_filterMap.1 he
  obtain ⟨loc, hloc, rfl⟩ := Option.map_eq_some_iff.1 he
  intro loc' hloc'
  cases hloc'
  exact h key loc hloc

section

variable {t : Tier} (h : TierOk t)
include h

/-- The copies of `CompactSegment` are records `Put` has written. -/
theorem TierOk.records_writeCompactTemp {target : Segment} (hmem : target ∈ t.warm.segs) :
    ∀ p ∈ recordsOf (t.warm.writeCompactTemp target).data, p.2.isTomb = false →
      p.1 < t.warm.segMax ∧ (p.2.key, p.2.body) ∈ t.written := by
  intro p hp hlive
  rw [recordsOf_writeCompactTemp] at hp
  obtain ⟨off, hle, hrec, -⟩ := exists_of_mem_place_pending (h.layout.files.whole target hmem) hp
  obtain ⟨hroom, hwritten⟩ := h.disk.sound.records target hmem (off, p.2) hrec hlive
  exact ⟨lt_of_le_of_lt hle hroom, hwritten⟩

/-- No operation but `Compact` spoils a place, at any of its file-system operations. -/
theorem TierOk.fits {act : Act} (hact : ActOk act) (hne : act ≠ .compact) :
    Along Disk.apply (OpFits t.stale t.warm.segMax) t.disk (t.plan act) := by
  cases act with
  | put key body => exact fits_write h.layout rfl (fits_live key hact)
  | delete key => exact fits_write h.layout rfl (fits_tombstone key)
  | evict victim =>
    rw [Tier.plan]
    split_ifs
    · exact ⟨⟨fits_tombstone victim, nofun⟩, trivial⟩
    · trivial
  | newSegment => exact fits_newSegmentPlan h.layout rfl
  | read _ | enqueue _ | drop _ => trivial
  | drain => exact fits_drainPlan h.syncCh
  | compactSegment segID =>
    rw [Tier.plan]
    cases htarget : t.warm.compactTarget segID with
    | none => trivial
    | some target =>
      obtain ⟨hmem, rfl⟩ := mem_of_compactTarget htarget
      have hwhole : WholeRecords (t.warm.writeCompactTemp target).data :=
        wholeRecords_encodeAll fun r hr =>
          fits_of_mem_pending hr
      refine ⟨⟨h.layout.fresh, hwhole, h.records_writeCompactTemp hmem⟩,
        ⟨t.warm.writeCompactTemp target, ?_, h.layout.fresh target hmem⟩, trivial⟩
      exact mem_append_right _ (.head _)
  | compact => cases hne rfl
  | rewriteWAL keys =>
    refine along_append.2 ⟨fits_writeWalTmp fun e he => h.index.rewriteEntries he, ?_⟩
    rw [run_writeWalTmp]
    exact along_append.2 ⟨fits_drainPlan h.syncCh, trivial, trivial⟩
  | writeSnapshot => exact ⟨h.index, trivial⟩
  | checkpoint =>
    refine along_append.2 ⟨fits_drainPlan h.syncCh, ?_, trivial, trivial⟩
    rw [run_drainPlan]
    exact h.index

omit h in
theorem fits_removeSeg {stale : Bool} {segMax : Nat} {d : Disk} {ids : List Nat} {high : Segment}
    (hhigh : high ∈ d.files) (h : ∀ id ∈ ids, id < high.id) :
    Along Disk.apply (OpFits stale segMax) d (ids.map .removeSeg) := by
  induction ids generalizing d with
  | nil => trivial
  | cons id ids ih =>
    have hlt := h id (.head _)
    refine ⟨⟨high, hhigh, hlt⟩, ih ?_ fun id' hid' => h id' (.tail _ hid')⟩
    exact mem_filter.2 ⟨hhigh, by simpa using ne_of_gt hlt⟩

omit h in
theorem exists_highest {segs : List Segment} (h : segs ≠ []) :
    ∃ high ∈ segs, ∀ seg ∈ segs, seg.id ≤ high.id := by
  obtain ⟨high, hhigh⟩ := Option.ne_none_iff_exists'.1 (argmax_eq_none (f := Segment.id).not.2 h)
  exact ⟨high, argmax_mem hhigh, fun seg hseg => le_of_mem_argmax hseg hhigh⟩

omit h in
/-- `Compact` spoils no place before it removes the segment with the highest number. -/
theorem fits_compact {i : Nat}
    (hhigh : ∀ seg ∈ t.warm.segs, (∀ seg' ∈ t.warm.segs, seg'.id ≤ seg.id) →
      FsOp.removeSeg seg.id ∉ (t.plan .compact).take i) :
    Along Disk.apply (OpFits t.stale t.warm.segMax) t.disk ((t.plan .compact).take i) := by
  rw [Tier.plan] at hhigh ⊢
  split_ifs at hhigh ⊢ with hc
  · have hne : t.warm.segs ≠ [] := by
      intro hnil
      simp [Store.compacts, hnil] at hc
    obtain ⟨high, hmem, hmax⟩ := exists_highest hne
    have hnot := hhigh high hmem hmax
    have hremove : FsOp.removeSeg high.id ∈
        (readDir t.warm.segs).map fun seg => FsOp.removeSeg seg.id :=
      mem_map.2 ⟨high, (readDir_perm _).mem_iff.2 hmem, rfl⟩
    -- the prefix ends within the removals
    have hi : i ≤ ((readDir t.warm.segs).map fun seg => FsOp.removeSeg seg.id).length := by
      by_contra hgt
      refine hnot ?_
      rw [swapSegmentFiles, take_append, take_of_length_le (by omega)]
      exact mem_append_left _ hremove
    have htake : (swapSegmentFiles t.warm).take i =
        (((readDir t.warm.segs).take i).map Segment.id).map FsOp.removeSeg := by
      rw [swapSegmentFiles, take_append_of_le_length hi, map_take, map_take, map_map]
      rfl
    rw [htake] at hnot ⊢
    refine fits_removeSeg hmem fun id hid => ?_
    obtain ⟨seg, hseg, rfl⟩ := mem_map.1 hid
    have hseg := (readDir_perm _).mem_iff.1 (mem_of_mem_take hseg)
    refine lt_of_le_of_ne (hmax seg hseg) fun heq => hnot ?_
    exact heq ▸ mem_map_of_mem hid
  · rw [take_nil]
    trivial

theorem TierOk.crash {act : Act} {i : Nat} (hok : EventOk t (.crash act i)) :
    TierOk (t.step (.crash act i)) := by
  obtain ⟨hact, hstale, hcompact⟩ := hok
  have hfits : Along Disk.apply (OpFits t.stale t.warm.segMax) t.disk ((t.plan act).take i) := by
    by_cases hc : act = .compact
    · subst hc
      exact fits_compact (hcompact rfl)
    · exact (h.fits hact hc).take i
  have hdisk := (h.disk.run hfits).1
  rw [hstale] at hdisk
  exact tierOk_recover hdisk t.warm.segMax_pos

end

/-! ## Completed operations -/

theorem records_append (hf : Files s.segs) {r : Record} (hr : r.Fits)
    (hseg : seg ∈ (s.append r).segs) (hp : p ∈ recordsOf seg.data) :
    (∃ seg' ∈ s.segs, p ∈ recordsOf seg'.data) ∨ p.2 = r := by
  rw [← map_writeRecord hf] at hseg
  obtain ⟨seg', hseg', rfl⟩ := mem_map.1 hseg
  split_ifs at hp
  · rw [(hf.whole seg' hseg').recordsOf_append hr] at hp
    rcases mem_append.1 hp with hp | hp
    · exact .inl ⟨seg', hseg', hp⟩
    · exact .inr (by rw [mem_singleton.1 hp])
  · exact .inl ⟨seg', hseg', hp⟩

theorem records_newSegment (hseg : seg ∈ s.newSegment.segs) (hp : p ∈ recordsOf seg.data) :
    ∃ seg' ∈ s.segs, p ∈ recordsOf seg'.data := by
  revert hseg
  refine newSegment_induction (fun hseg => ⟨seg, hseg, hp⟩) fun hseg => ?_
  rcases mem_append.1 hseg with hseg | hseg
  · exact ⟨seg, hseg, hp⟩
  · cases mem_singleton.1 hseg
    cases hp

theorem records_putAll (h : Layout s) {rs : List Record} (hfits : ∀ r ∈ rs, Record.Fits r)
    (hseg : seg ∈ (s.putAll rs).segs) (hp : p ∈ recordsOf seg.data) :
    (∃ seg' ∈ s.segs, p ∈ recordsOf seg'.data) ∨ ∃ r ∈ rs, p.2 = ⟨r.key, r.body, false⟩ := by
  induction rs generalizing s with
  | nil => exact .inl ⟨seg, hseg, hp⟩
  | cons r rs ih =>
    have hr := hfits r (.head _)
    rcases ih (h.put hr) (fun r' hr' => hfits r' (.tail _ hr')) hseg with
      ⟨seg', hseg', hp'⟩ | ⟨r', hr', heq⟩
    · have hput : seg' ∈ (s.newSegment.append ⟨r.key, r.body, false⟩).segs := hseg'
      rcases records_append h.newSegment.files (fits_live r.key hr) hput hp' with
        ⟨seg'', hseg'', hp''⟩ | heq
      · exact .inl (records_newSegment hseg'' hp'')
      · exact .inr ⟨r, (.head _), heq⟩
    · exact .inr ⟨r', .tail _ hr', heq⟩

theorem indexOk_swap (h : Layout s) (hmem : target ∈ s.segs)
    (hk : Keeps s.segs (s.swapCompactSegment target).segs) (hi : IndexOk s.segs s.index) :
    IndexOk (s.swapCompactSegment target).segs (s.swapCompactSegment target).index := by
  intro key loc' hloc'
  rcases lookup_foldl_relocate target.id s.nextID s.index nodup_copy_keys key with
    ⟨hsame, -⟩ | ⟨hin, -⟩
  · exact hk key loc' (hi key loc' (hsame.symm.trans hloc'))
  · obtain ⟨loc, hloc, hid⟩ := Option.map_eq_some_iff.1 hin
    obtain ⟨loc'', hlookup, hpoints, -⟩ :=
      lookup_swap hmem h hloc ((hi key loc hloc).points hmem hid.symm)
    rw [hlookup] at hloc'
    cases hloc'
    exact .inl hpoints

section

variable {t : Tier} (h : TierOk t)
include h

omit h in
theorem segMax_complete (act : Act) : (t.complete act).warm.segMax = t.warm.segMax := by
  have happend : ∀ (s : Store) (r : Record), (s.append r).segMax = s.segMax := by
    intro s r
    unfold Store.append
    split <;> rfl
  cases act with
  | put key body => exact segMax_put _ _ _
  | delete key => exact (happend _ _).trans segMax_newSegment
  | evict victim =>
    show (t.warm.evictOne victim).segMax = _
    unfold Store.evictOne
    split
    · exact happend _ _
    · rfl
  | newSegment => exact segMax_newSegment
  | read key =>
    exact dropStale_induction (motive := fun s => s.segMax = t.warm.segMax) key rfl rfl
  | enqueue e =>
    rw [Tier.complete]
    split_ifs <;> rfl
  | compactSegment segID =>
    exact compactSegment_induction (motive := fun s => s.segMax = t.warm.segMax) rfl
      fun _ _ _ _ => rfl
  | compact =>
    rw [Tier.complete]
    split_ifs with hc
    · simp [compact_of_compacts hc]
    · rfl
  | drop _ | drain | rewriteWAL _ | writeSnapshot | checkpoint => rfl

variable {act : Act}

/-- Operations other than `Compact` keep the places they do not set themselves. -/
theorem TierOk.keeps (hact : ActOk act) (hne : act ≠ .compact) :
    DiskOk t.stale (t.complete act).warm.segMax (t.complete act).disk ∧
      Keeps t.warm.segs (t.complete act).warm.segs := by
  obtain ⟨hdisk, hkeep⟩ := h.disk.run (h.fits hact hne)
  have hsame := run_plan h.layout act
  rw [segMax_complete]
  exact ⟨hdisk.same hsame, hkeep.trans (keeps_perm hsame.1)⟩

theorem TierOk.layout_complete (hact : ActOk act) : Layout (t.complete act).warm := by
  cases act with
  | put key body => exact h.layout.put hact
  | delete key => exact h.layout.delete
  | evict victim => exact h.layout.evictOne
  | newSegment => exact h.layout.newSegment
  | read key =>
    exact dropStale_induction (motive := Layout) key h.layout (h.layout.withIndex _)
  | enqueue e =>
    rw [Tier.complete]
    split_ifs <;> exact h.layout
  | compactSegment segID => exact h.layout.compactSegment segID
  | compact =>
    rw [Tier.complete]
    split_ifs
    · exact h.layout.compact
    · exact h.layout
  | drop _ | drain | rewriteWAL _ | writeSnapshot | checkpoint => exact h.layout

theorem TierOk.next (hact : ActOk act) (hne : act ≠ .compact)
    (hindex : ∀ key loc, (t.complete act).warm.index.lookup key = some loc →
      t.warm.index.lookup key = some loc ∨ RefOk (t.complete act).warm.segs key loc)
    (hheld : ∀ e ∈ (t.complete act).held, e ∈ t.held ∨ EntryOk (t.complete act).warm.segs e)
    (hch : (t.complete act).stale = false → ∀ e ∈ (t.complete act).syncCh,
      e ∈ t.held ∨ t.stale = false ∧ e ∈ t.syncCh)
    (hwal : (t.complete act).stale = false → t.stale = false ∨ ∀ e ∈ (t.complete act).wal,
      EntryOk t.warm.segs e) : TierOk (t.complete act) := by
  obtain ⟨hdisk, hkeep⟩ := h.keeps hact hne
  refine ⟨h.layout_complete hact, ⟨hdisk.sound, hdisk.snap, ?_, hdisk.walTmp⟩, ?_, ?_, ?_⟩
  · intro hb e he
    rcases hwal hb with hstale | hwal
    · exact hdisk.wal hstale e he
    · exact (hwal e he).keep hkeep
  · intro key loc hloc
    rcases hindex key loc hloc with hold | hnew
    · exact hkeep key loc (h.index key loc hold)
    · exact hnew
  · intro e he
    rcases hheld e he with hold | hnew
    · exact (h.held e hold).keep hkeep
    · exact hnew
  · intro hb e he
    rcases hch hb e he with hheld | ⟨hstale, he⟩
    · exact (h.held e hheld).keep hkeep
    · exact (h.syncCh hstale e he).keep hkeep

theorem TierOk.complete_compact
    (hok : t.warm.compacts → NoPuts t.held ∧ NoPuts t.walTmp) : TierOk (t.complete .compact) := by
  rw [Tier.complete]
  split_ifs with hc
  · obtain ⟨hheld, htmp⟩ := hok hc
    have hlayout := h.layout.compact
    have hpoints : IndexOk t.warm.compactSegments.segs t.warm.compactSegments.index :=
      fun key loc hloc => .inl (indexPoints_compactSegments _ key loc hloc)
    rw [compact_of_compacts hc] at hlayout ⊢
    refine ⟨hlayout, ⟨⟨hlayout.files, ?_⟩, ?_, fun hb => (by cases hb),
      fun e he => htmp.entryOk he⟩, hpoints, fun e he => hheld.entryOk he, fun hb => (by cases hb)⟩
    · intro seg hseg p hp hlive
      refine ⟨hlayout.room seg hseg p hp hlive, ?_⟩
      rcases records_putAll (layout_empty t.warm.segMax_pos) (fits_kept _) hseg hp with
        ⟨seg', hseg', -⟩ | ⟨r, hr, heq⟩
      · cases hseg'
      · obtain ⟨seg', hseg', hr⟩ := mem_flatMap.1 hr
        obtain ⟨off, hrec, -⟩ := mem_pending.1 hr
        rw [heq]
        exact (h.disk.sound.records seg' hseg' _ hrec (isTomb_of_mem_pending hr)).2
    · intro x hx
      cases hx
      exact hpoints
  · exact h

theorem TierOk.complete_put {key : Key} {body : Bytes} (hb : body.length < 2 ^ 32) :
    TierOk (t.complete (.put key body)) := by
  obtain ⟨loc, hindex, hpoints, -⟩ : ∃ loc, (t.warm.put key body).index = _ ∧ _ :=
    points_put h.layout hb
  have hlookup : ∀ k l, (t.warm.put key body).index.lookup k = some l →
      t.warm.index.lookup k = some l ∨ RefOk (t.warm.put key body).segs k l := by
    intro k l hl
    rw [hindex] at hl
    by_cases hk : k = key
    · subst hk
      rw [AList.lookup_insert] at hl
      cases hl
      exact .inr (.inl hpoints)
    · rw [AList.lookup_insert_ne hk] at hl
      exact .inl hl
  have hact : ActOk (.put key body) := hb
  refine h.next hact (by simp) hlookup ?_
    (fun hs e he => .inr ⟨hs, he⟩) .inl
  intro e he
  rcases mem_append.1 he with he | he
  · exact .inl he
  · refine .inr fun l hl => ?_
    rw [mem_singleton.1 he] at hl ⊢
    rw [hindex, AList.lookup_insert] at hl
    cases hl
    exact .inl hpoints

theorem TierOk.complete_compactSegment (segID : Nat) :
    TierOk (t.complete (.compactSegment segID)) := by
  have hact : ActOk (.compactSegment segID) := trivial
  obtain ⟨-, hkeep⟩ := h.keeps hact (by simp)
  refine h.next hact (by simp) ?_ (fun e he => .inl he)
    (fun hs e he => .inr ⟨hs, he⟩) .inl
  intro key loc
  refine compactSegment_induction (motive := fun s => Keeps t.warm.segs s.segs →
    s.index.lookup key = some loc → _ ∨ RefOk s.segs key loc) (fun _ => .inl) ?_ hkeep
  exact fun _ hmem _ _ hkeep hloc => .inr (indexOk_swap h.layout hmem hkeep h.index key loc hloc)

theorem TierOk.complete (hok : EventOk t (.complete act)) : TierOk (t.complete act) := by
  obtain ⟨hact, hcompact⟩ := hok
  have hsame : ∀ key loc, t.warm.index.lookup key = some loc →
      t.warm.index.lookup key = some loc ∨ RefOk t.warm.segs key loc := fun _ _ => .inl
  have hqueue : t.stale = false → ∀ e ∈ t.syncCh, e ∈ t.held ∨ t.stale = false ∧ e ∈ t.syncCh :=
    fun hs e he => .inr ⟨hs, he⟩
  have hdeleted : ∀ (key : Key) (segs : List Segment), ∀ e ∈ t.held ++ [(key, none)],
      e ∈ t.held ∨ EntryOk segs e :=
    fun key segs => forall_mem_concat.2 ⟨fun e => .inl, .inr nofun⟩
  cases act with
  | put key body => exact h.complete_put hact
  | delete key =>
    exact h.next hact (by simp) (fun k loc hloc => .inl (lookup_of_remove (lookup_delete _ key) hloc))
      (hdeleted key _) hqueue .inl
  | evict victim =>
    exact h.next hact (by simp)
      (fun k loc hloc => .inl (lookup_of_remove (lookup_evictOne _ victim) hloc)) (hdeleted victim _)
      hqueue .inl
  | newSegment =>
    refine h.next hact (by simp) (fun k loc hloc => .inl ?_) (fun e he => .inl he) hqueue .inl
    have hloc : t.warm.newSegment.index.lookup k = some loc := hloc
    rwa [index_newSegment] at hloc
  | read key =>
    exact h.next hact (by simp) (fun k loc hloc => .inl (lookup_of_dropStale hloc))
      (fun e he => .inl he) hqueue .inl
  | enqueue e =>
    by_cases he : e ∈ t.held
    · refine h.next hact (by simp) ?_ ?_ ?_ ?_
      all_goals rw [Tier.complete, if_pos he]
      · exact hsame
      · exact fun e' he' => .inl (mem_of_mem_erase he')
      · intro hs e' he'
        rcases mem_append.1 he' with he' | he'
        · exact .inr ⟨hs, he'⟩
        · rw [mem_singleton.1 he']
          exact .inl he
      · exact .inl
    · rw [Tier.complete, if_neg he]
      exact h
  | drop e =>
    exact h.next hact (by simp) hsame (fun e' he' => .inl (mem_of_mem_erase he')) hqueue
      .inl
  | drain =>
    exact h.next hact (by simp) hsame (fun e he => .inl he) (fun _ e he => by cases he) .inl
  | compactSegment segID => exact h.complete_compactSegment segID
  | compact => exact h.complete_compact (hcompact rfl)
  | rewriteWAL keys =>
    refine h.next hact (by simp) hsame (fun e he => .inl he) (fun _ e he => by cases he)
      fun _ => .inr (forall_mem_append.2 ⟨h.disk.walTmp, fun e he => h.index.rewriteEntries he⟩)
  | writeSnapshot => exact h.next hact (by simp) hsame (fun e he => .inl he) hqueue .inl
  | checkpoint =>
    exact h.next hact (by simp) hsame (fun e he => .inl he) (fun _ e he => by cases he)
      fun _ => .inr fun e he => by cases he

end

theorem TierOk.step (h : TierOk t) {e : Event} (hok : EventOk t e) : TierOk (t.step e) := by
  cases e with
  | complete act => exact h.complete hok
  | crash act i => exact h.crash hok

/-- No warm read returns the body of another key's record, in every run in which no crash falls
between the removal of the last segment by `Compact` and the next rewrite of the log, and `Compact`
starts with no place on its way to the log. -/
theorem warm_read_returns_own_record {segMax : Nat} (h : 0 < segMax) (events : List Event)
    (hok : Along Tier.step EventOk (Tier.empty segMax h) events) :
    Always Tier.step ReadsOwn (Tier.empty segMax h) events :=
  (always_of_along (fun _ _ ht hok => ht.step hok) (tierOk_empty h) hok).mono
    fun _ ht => ht.readsOwn

def loggedPut (n : UInt8) (offset : Nat) : List Event :=
  [.complete (.put (exampleKey n) [n]), .complete (.enqueue (exampleKey n, some ⟨0, offset, 29⟩))]

def threeRecords : List Event :=
  loggedPut 1 0 ++ loggedPut 2 29 ++ loggedPut 3 58 ++
    [.complete (.delete (exampleKey 1)), .complete (.enqueue (exampleKey 1, none)),
      .complete .drain]

/-- A crash between `Compact` and the rewrite of the log, which sends the second key to the place
where the third key's record is now. -/
theorem log_replay_reads_other_record :
    let t := run Tier.step (Tier.empty 1000 (by decide))
      (threeRecords ++
        [.complete .compact, .crash (.rewriteWAL [exampleKey 2, exampleKey 3]) 0])
    t.warm.readRecord (exampleKey 2) = some [3] ∧ (exampleKey 2, [3]) ∉ t.written := by
  decide +kernel

/-- The run goes on with the rewrite, the snapshot, a crash in a compaction of one segment and one
within a second rewrite of the log. -/
def recoveredRun : List Event :=
  threeRecords ++
    [.complete .compact, .complete (.rewriteWAL [exampleKey 3, exampleKey 2]),
      .complete .writeSnapshot, .complete (.put (exampleKey 4) [4]),
      .complete (.put (exampleKey 5) [5]), .crash (.compactSegment 0) 1,
      .crash (.rewriteWAL [exampleKey 2, exampleKey 3]) 1, .complete (.read (exampleKey 2))]

theorem recoveredRun_reads_own :
    Always Tier.step ReadsOwn (Tier.empty 80 (by decide)) recoveredRun ∧
      (run Tier.step (Tier.empty 80 (by decide)) recoveredRun).warm.readRecord (exampleKey 2) =
        some [2] :=
  ⟨warm_read_returns_own_record _ _ (by decide +kernel), by decide +kernel⟩

end Bouine.Storage.Warm
