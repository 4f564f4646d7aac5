import Mathlib.Algebra.BigOperators.Group.List.Basic
import Bouine.Storage.DescriptorCache

/-! # The counters of the warm store

The operations keep `stats.entries` and `stats.bytes` from one to the next. The setters that
`initWAL` replays the log with leave them alone, and each of its branches decides whether to count
again.
-/

namespace Bouine.Storage.Warm

open Lib Lib.Transition List

/-! ## Sums over an index -/

def total (f : Loc → Int) (index : Index) : Int := (index.entries.map fun e => f e.2).sum

/-- What a key contributes. -/
def share (f : Loc → Int) (index : Index) (key : Key) : Int := ((index.lookup key).map f).getD 0

section

variable (f : Loc → Int) (index : Index) (key : Key)

theorem total_erase : total f (index.erase key) = total f index - share f index key := by
  have hentries : (index.erase key).entries = index.entries.kerase key := rfl
  rw [total, hentries]
  by_cases hkey : key ∈ index.entries.keys
  · obtain ⟨loc, before, after, -, hall, herase⟩ := exists_of_kerase hkey
    have hlookup : index.lookup key = some loc :=
      AList.mem_lookup_iff.2 (by rw [hall]; simp)
    rw [herase, share, hlookup, total, hall]
    simp
    omega
  · have hnone : index.lookup key = none := AList.lookup_eq_none.2 hkey
    rw [kerase_of_notMem_keys hkey, share, hnone]
    simp [total]

theorem total_insert (loc : Loc) :
    total f (index.insert key loc) = total f index - share f index key + f loc := by
  rw [← total_erase, Int.add_comm]
  rfl

theorem total_one : total (fun _ => 1) index = index.entries.length := by
  simp [total]

theorem total_eq_sum_share : total f index = (index.keys.map (share f index)).sum := by
  rw [total, AList.keys, keys, map_map]
  refine congrArg sum (map_congr_left fun e he => ?_)
  have hlookup : index.lookup e.1 = some e.2 := AList.mem_lookup_iff.2 he
  simp [share, hlookup]

end

/-! ## The counters -/

structure Counted where
  store : Store
  entries : Int
  bytes : Int

def size (loc : Loc) : Int := loc.size

/-- The counters when an operation may have taken the key out of the index. -/
def Counted.remove (c : Counted) (store : Store) (key : Key) : Counted :=
  if store.index.lookup key = none then
    ⟨store, c.entries - share (fun _ => 1) c.store.index key, c.bytes - share size c.store.index key⟩
  else ⟨store, c.entries, c.bytes⟩

def Counted.step (c : Counted) (op : Between) : Counted :=
  match op with
  | .put key body =>
    ⟨c.store.between op, if (c.store.index.lookup key).isSome then c.entries else c.entries + 1,
      c.bytes - share size c.store.index key + recSize body⟩
  | .delete key | .evict key | .get key => c.remove (c.store.between op) key

/-- The counters that `initWAL` ends with. -/
def initCounters (s : Store) (snap : Option Snapshot) (wal : List LogEntry) : Counted :=
  let store := initWAL s snap wal
  match loadSnapshot s.segs snap with
  -- the numbers in the header of the snapshot
  | some index => ⟨store, index.entries.length, total size index⟩
  | none =>
    let index := Journal.replay s.index wal
    if index.entries = [] then ⟨store, 0, 0⟩
    else if wal.all hasSize then ⟨store, store.index.entries.length, total size store.index⟩
    else if s.segs.all fun seg => (scanSegment seg.data).2 then
      let kept := s.segs.flatMap (pending index)
      ⟨store, kept.length, (kept.map fun r => (recSize r.body : Int)).sum⟩
    else ⟨store, 0, 0⟩

/-- The counters are those of the index, which has the sizes of the records on disk. -/
structure Counted.Accurate (c : Counted) : Prop where
  entries : c.entries = c.store.index.entries.length
  bytes : c.bytes = total size c.store.index
  sizes : ∀ key loc, c.store.index.lookup key = some loc →
    Points c.store.segs key loc ∧ loc.size ≠ 0

/-! ## What a recovery may read -/

/-- The index after the log, before any scan. -/
def replayed (s : Store) (snap : Option Snapshot) (wal : List LogEntry) : Index :=
  Journal.replay ((loadSnapshot s.segs snap).getD s.index) wal

/-- An entry of the log that gives its key the size it has in the snapshot, or deletes a key that is
not there. -/
def Balanced (index : Index) (e : LogEntry) : Prop :=
  e.2.map Loc.size = (index.lookup e.1).map Loc.size

structure RecoveryOk (s : Store) (snap : Option Snapshot) (wal : List LogEntry) : Prop where
  places : ∀ key loc, (replayed s snap wal).lookup key = some loc → Points s.segs key loc
  /-- The numbers of a snapshot are not counted again. -/
  snapshot : ∀ index, loadSnapshot s.segs snap = some index →
    (∀ key loc, index.lookup key = some loc → loc.size ≠ 0) ∧ ∀ e ∈ wal, Balanced index e
  /-- Nor is what the scan finds: the last record of every key is a tombstone. -/
  scan : loadSnapshot s.segs snap = none → (replayed s snap wal).entries = [] →
    ∀ key loc, Journal.newest (scanEvents s.segs) key ≠ some (some loc)

section

variable {c : Counted} {key : Key}

theorem Counted.Accurate.remove (h : c.Accurate) {s : Store} (hfiles : Grows c.store.segs s.segs)
    (hindex : s.index = c.store.index ∨ s.index = c.store.index.erase key) :
    (c.remove s key).Accurate := by
  have hsizes : ∀ k loc, s.index.lookup k = some loc → Points s.segs k loc ∧ loc.size ≠ 0 := by
    intro k loc hloc
    have hold : c.store.index.lookup k = some loc := by
      rcases hindex with heq | heq <;> rw [heq] at hloc
      · exact hloc
      · exact lookup_of_erase hloc
    exact (h.sizes k loc hold).imp_left fun hp => hp.grow hfiles
  have hentries := h.entries
  have hbytes := h.bytes
  rw [← total_one] at hentries
  unfold Counted.remove
  rcases hindex with heq | heq
  · split_ifs with hnone
    · have hshare : ∀ f : Loc → Int, share f c.store.index key = 0 := fun f => by
        rw [share, ← heq, hnone]
        rfl
      refine ⟨?_, ?_, hsizes⟩ <;> simp only [hshare, heq, ← total_one, Int.sub_zero] <;> assumption
    · refine ⟨?_, ?_, hsizes⟩ <;> simp only [heq, ← total_one] <;> assumption
  · have hnone : s.index.lookup key = none := by rw [heq, AList.lookup_erase]
    rw [if_pos hnone]
    refine ⟨?_, ?_, hsizes⟩ <;> simp [heq, ← total_one, total_erase]
    · rw [hentries]
    · rw [hbytes]

theorem Counted.Accurate.step (hl : Layout c.store) (h : c.Accurate) {op : Between}
    (hop : op.Fits) : (c.step op).Accurate := by
  have hi : IndexPoints c.store := fun key loc hloc => (h.sizes key loc hloc).1
  cases op with
  | put key body =>
    have hindex : (c.store.put key body).index = c.store.index.insert key
        ⟨c.store.newSegment.activeID, c.store.newSegment.activeSize, recSize body⟩ := by
      simp [Store.put]
    refine ⟨?_, ?_, fun k loc hloc => ⟨(between_ok hl hi hop).2 k loc hloc, ?_⟩⟩
    · simp only [Counted.step, Store.between, hindex, ← total_one, total_insert, share]
      rw [h.entries, ← total_one]
      cases hlookup : c.store.index.lookup key <;> simp
    · simp only [Counted.step, Store.between, hindex, total_insert, h.bytes]
      rfl
    · simp only [Counted.step, Store.between, hindex] at hloc
      by_cases hk : k = key
      · rw [hk, AList.lookup_insert] at hloc
        cases hloc
        simp [recSize, headerLen]
      · rw [AList.lookup_insert_ne hk] at hloc
        exact (h.sizes k loc hloc).2
  | delete key => exact h.remove (grows_delete hl) (.inr (index_delete _ key))
  | evict victim =>
    refine h.remove (grows_evictOne hl) ?_
    rw [Store.between, Store.evictOne]
    split_ifs
    · exact .inr rfl
    · exact .inl rfl
  | get key =>
    exact dropStale_induction (motive := fun s => (c.remove s key).Accurate) key
      (h.remove (Grows.refl _) (.inl rfl)) (h.remove (Grows.refl _) (.inr rfl))

end

/-! ## A log on top of a snapshot -/

section

variable {index : Index} {e : LogEntry}

theorem Balanced.lookup_apply (h : Balanced index e) (k : Key) :
    ((Journal.apply index e).lookup k).map Loc.size = (index.lookup k).map Loc.size := by
  rw [Journal.lookup_apply]
  split_ifs with hk
  · rw [← hk]
    exact h
  · rfl

theorem Balanced.total_apply (h : Balanced index e) (g : Nat → Int) :
    total (fun loc => g loc.size) (Journal.apply index e) = total (fun loc => g loc.size) index := by
  have hshare : share (fun loc => g loc.size) index e.1 = ((e.2.map Loc.size).map g).getD 0 := by
    rw [h, Option.map_map]
    rfl
  obtain ⟨key, _ | loc⟩ := e
  · simp only [Journal.apply, total_erase, hshare]
    simp
  · simp only [Journal.apply, total_insert, hshare]
    simp

theorem replay_of_balanced {wal : List LogEntry} (h : ∀ e ∈ wal, Balanced index e) :
    (∀ k, ((Journal.replay index wal).lookup k).map Loc.size = (index.lookup k).map Loc.size) ∧
      ∀ g : Nat → Int, total (fun loc => g loc.size) (Journal.replay index wal) =
        total (fun loc => g loc.size) index := by
  induction wal generalizing index with
  | nil => exact ⟨fun _ => rfl, fun _ => rfl⟩
  | cons e wal ih =>
    have he := h e (.head _)
    have hrest : ∀ e' ∈ wal, Balanced (Journal.apply index e) e' := by
      intro e' he'
      rw [Balanced, he.lookup_apply]
      exact h e' (.tail _ he')
    obtain ⟨hlookup, htotal⟩ := ih hrest
    exact ⟨fun k => (hlookup k).trans (he.lookup_apply k),
      fun g => (htotal g).trans (he.total_apply g)⟩

end

/-! ## The count by `RecomputeStats` -/

section

variable {s : Store}

theorem lookup_foldl_backfill_of_notMem {ps : List (Nat × Record)} {k : Key}
    (h : ∀ p ∈ ps, p.2.key ≠ k) (index : Index) :
    (ps.foldl backfill index).lookup k = index.lookup k := by
  induction ps generalizing index with
  | nil => rfl
  | cons p ps ih =>
    rw [foldl_cons, ih fun q hq => h q (.tail _ hq), lookup_backfill]
    simp [h p (.head _)]

theorem lookup_foldl_backfill {ps : List (Nat × Record)} (hnodup : (ps.map (·.2.key)).Nodup)
    {p : Nat × Record} (hp : p ∈ ps) (index : Index) :
    (ps.foldl backfill index).lookup p.2.key = (index.lookup p.2.key).map fun loc =>
      if loc.size = 0 then { loc with size := recSize p.2.body } else loc := by
  induction ps generalizing index with
  | nil => cases hp
  | cons q ps ih =>
    rw [map_cons, nodup_cons] at hnodup
    rw [foldl_cons]
    rcases mem_cons.1 hp with rfl | hp
    · have hrest : ∀ q ∈ ps, q.2.key ≠ p.2.key := fun q hq heq =>
        hnodup.1 (mem_map.2 ⟨q, hq, heq⟩)
      rw [lookup_foldl_backfill_of_notMem hrest, lookup_backfill]
      simp
    · have hne : q.2.key ≠ p.2.key := fun heq => hnodup.1 (mem_map.2 ⟨p, hp, heq.symm⟩)
      rw [ih hnodup.2 hp, lookup_backfill]
      simp [hne]

variable (hl : Layout s)
include hl

theorem recomputeStats_index :
    s.recomputeStats.index = (s.segs.flatMap fun seg =>
      (recordsOf seg.data).filter (isIndexed s.index seg.id)).foldl backfill s.index := by
  rw [Store.recomputeStats, if_pos]
  exact all_eq_true.2 fun seg hseg => (hl.files.whole seg hseg).scan_ok

variable (hi : IndexPoints s)
include hi

/-- A kept record is in the index with its size. -/
theorem lookup_recomputeStats {r : Record} (hr : r ∈ s.segs.flatMap (pending s.index)) :
    ∃ loc, s.recomputeStats.index.lookup r.key = some loc ∧ Points s.segs r.key loc ∧
      loc.size = recSize r.body := by
  obtain ⟨seg, hseg, hr⟩ := mem_flatMap.1 hr
  obtain ⟨off, hrec, hindexed⟩ := mem_pending.1 hr
  obtain ⟨hlive, loc, hloc, hid, hoff⟩ := isIndexed_iff.1 hindexed
  obtain ⟨seg', hseg', hid', r', hr', hkey, -, hsize⟩ := hi _ _ hloc
  obtain rfl := hl.files.eq_of_id hseg' hseg (hid'.trans hid)
  have hsame : (loc.offset, r') = (off, r) :=
    inj_on_of_nodup_map (nodup_offsets _) hr' hrec hoff
  have hnodup := nodup_kept_keys (s := s) hl.files
  simp only [map_flatMap, pending, map_map] at hnodup
  have hmem : (off, r) ∈ s.segs.flatMap fun seg =>
      (recordsOf seg.data).filter (isIndexed s.index seg.id) :=
    mem_flatMap.2 ⟨seg', hseg, mem_filter.2 ⟨hrec, hindexed⟩⟩
  refine ⟨{ loc with size := recSize r.body }, ?_,
    ⟨seg', hseg, hid', r, by rw [hoff]; exact hrec, rfl, hlive, .inr rfl⟩, rfl⟩
  rw [recomputeStats_index hl,
    lookup_foldl_backfill (p := (off, r)) (by rwa [map_flatMap]) hmem, hloc]
  rcases hsize with hzero | hsize
  · simp [hzero]
  · simp only [Option.map_some, Option.some.injEq]
    split_ifs
    · rfl
    · rw [show r' = r from (Prod.mk.inj hsame).2] at hsize
      rw [← hsize]

theorem exists_kept {key : Key} {loc : Loc} (hloc : s.recomputeStats.index.lookup key = some loc) :
    ∃ r ∈ s.segs.flatMap (pending s.index), r.key = key := by
  by_contra hnone
  have hother : ∀ p ∈ s.segs.flatMap fun seg =>
      (recordsOf seg.data).filter (isIndexed s.index seg.id), p.2.key ≠ key := by
    intro p hp heq
    obtain ⟨seg, hseg, hp⟩ := mem_flatMap.1 hp
    obtain ⟨hp, hindexed⟩ := mem_filter.1 hp
    exact hnone ⟨p.2, mem_flatMap.2 ⟨seg, hseg, mem_pending.2 ⟨p.1, hp, hindexed⟩⟩, heq⟩
  rw [recomputeStats_index hl, lookup_foldl_backfill_of_notMem hother] at hloc
  obtain ⟨seg, hseg, hid, -⟩ := hi _ _ hloc
  obtain ⟨r, hr, hkey, -⟩ := exists_copy hseg hl hloc (hi _ _ hloc) hid.symm
  exact hnone ⟨r, mem_flatMap.2 ⟨seg, hseg, hr⟩, hkey⟩

theorem accurate_recomputeStats : Counted.Accurate
    ⟨s.recomputeStats, (s.segs.flatMap (pending s.index)).length,
      ((s.segs.flatMap (pending s.index)).map fun r => (recSize r.body : Int)).sum⟩ := by
  have hsegs : s.recomputeStats.segs = s.segs := by
    unfold Store.recomputeStats
    split_ifs <;> rfl
  have hperm : ((s.segs.flatMap (pending s.index)).map Record.key).Perm
      s.recomputeStats.index.keys := by
    refine (perm_ext_iff_of_nodup (nodup_kept_keys hl.files)
      s.recomputeStats.index.keys_nodup).2 fun key => ?_
    rw [← AList.mem_keys, ← AList.lookup_isSome, mem_map]
    constructor
    · rintro ⟨r, hr, rfl⟩
      obtain ⟨loc, hloc, -⟩ := lookup_recomputeStats hl hi hr
      rw [hloc]
      rfl
    · intro hsome
      obtain ⟨loc, hloc⟩ := Option.isSome_iff_exists.1 hsome
      exact exists_kept hl hi hloc
  refine ⟨?_, ?_, fun key loc hloc => ?_⟩
  · have hlength := hperm.length_eq
    rw [length_map, AList.keys, keys, length_map] at hlength
    exact congrArg Nat.cast hlength
  · rw [total_eq_sum_share, ← (hperm.map _).sum_eq, map_map]
    refine congrArg sum (map_congr_left fun r hr => ?_)
    obtain ⟨loc, hloc, -, hsize⟩ := lookup_recomputeStats hl hi hr
    simp [share, hloc, size, hsize]
  · obtain ⟨r, hr, rfl⟩ := exists_kept hl hi hloc
    obtain ⟨loc', hloc', hp, hsize⟩ := lookup_recomputeStats hl hi hr
    rw [Option.some.inj (hloc.symm.trans hloc'), hsegs, hsize]
    exact ⟨hp, by simp [recSize, headerLen]⟩

end

section

variable {s : Store} {snap : Option Snapshot} {wal : List LogEntry}

/-- Each branch of `initWAL` ends with the right counters. -/
theorem accurate_initCounters (hl : Layout s) (hopen : s.index = ∅) (hok : RecoveryOk s snap wal) :
    (initCounters s snap wal).Accurate := by
  obtain ⟨hplaces, hsnap, hscan⟩ := hok
  unfold replayed at hplaces hscan
  unfold initCounters initWAL
  cases hload : loadSnapshot s.segs snap with
  | some index =>
    rw [hload, Option.getD_some] at hplaces
    obtain ⟨hsized, hbalanced⟩ := hsnap index hload
    obtain ⟨hlookup, htotal⟩ := replay_of_balanced hbalanced
    have hlength := htotal fun _ => 1
    rw [total_one, total_one] at hlength
    refine ⟨hlength.symm, (htotal Nat.cast).symm, fun key loc hloc => ⟨hplaces key loc hloc, ?_⟩⟩
    · have hsame := hlookup key
      rw [hloc] at hsame
      obtain ⟨old, hold, hsize⟩ := Option.map_eq_some_iff.1 hsame.symm
      rw [← hsize]
      exact hsized key old hold
  | none =>
    rw [hload, Option.getD_none] at hplaces hscan
    dsimp only
    split_ifs with hempty hsized hscans
    · have hnil : (rebuildIndexFromScan { s with index := Journal.replay s.index wal }).index.entries =
          [] := by
        refine entries_eq_nil_iff.2 fun key => ?_
        rw [rebuildIndexFromScan, Journal.lookup_replay, entries_eq_nil_iff.1 hempty]
        rcases hnew : Journal.newest (scanEvents s.segs) key with _ | _ | loc
        · rfl
        · rfl
        · exact (hscan rfl hempty key loc hnew).elim
      refine ⟨by rw [hnil]; rfl, by rw [total, hnil]; rfl, fun key loc hloc => ?_⟩
      rw [entries_eq_nil_iff.1 hnil] at hloc
      cases hloc
    · refine ⟨rfl, rfl, fun key loc hloc => ⟨hplaces key loc hloc, ?_⟩⟩
      rw [hopen, Journal.lookup_replay, AList.lookup_empty] at hloc
      -- the entry is one of the log
      cases hnew : Journal.newest wal key with
      | none => simp [hnew] at hloc
      | some v =>
        rw [hnew] at hloc
        have hpos := all_eq_true.1 hsized _ (Journal.mem_of_newest hnew)
        obtain rfl : v = some loc := hloc
        simpa [hasSize, Nat.pos_iff_ne_zero] using hpos
    · exact accurate_recomputeStats (s := { s with index := Journal.replay s.index wal })
        (hl.withIndex _) hplaces
    · exact (hscans (all_eq_true.2 fun seg hseg => (hl.files.whole seg hseg).scan_ok)).elim

theorem store_step (c : Counted) (op : Between) : (c.step op).store = c.store.between op := by
  unfold Counted.step Counted.remove
  cases op <;> dsimp only <;> split_ifs <;> rfl

end

/-! ## Runs -/

theorem exampleMax_pos : 0 < 64 := by decide

/-- A directory with one record of 28 bytes, as `NewStore` opens it. -/
def oneRecord : Store :=
  openExisting ((Store.empty 64 exampleMax_pos).put (exampleKey 1) []).segs 64 exampleMax_pos

def onePlace : Loc := ⟨0, 0, recSize []⟩

end Bouine.Storage.Warm
