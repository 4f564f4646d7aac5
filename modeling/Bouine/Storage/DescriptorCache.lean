import Bouine.Storage.CompactionPhases
import Bouine.Storage.WarmCrash

/-! # Global compaction and open files

`NewStore` leaves the segment files closed, and `fdCache` closes those not in use. Writers and
readers open a file before they use it; `Compact` hands the files to `scanSegment` as they are,
which fails on a closed one, and on one that was preallocated. With no live record it returns before
the swap.
-/

namespace Bouine.Storage.Warm

open Lib Lib.Transition List

structure FdStore where
  store : Store
  opened : Nat → Bool

def FdStore.new (segMax : Nat) (h : 0 < segMax) (preallocate : Nat) : FdStore :=
  ⟨newStore segMax h preallocate, fun _ => false⟩

/-- The segments whose files an operation opens. `newSegment` opens the one it seals as well. -/
def Store.opens (s : Store) : Between → List Nat
  | .put _ _ | .delete _ => (s.segs.getLast?.map Segment.id).toList ++ [s.newSegment.activeID]
  | .evict _ => (s.segs.getLast?.map Segment.id).toList
  | .get key => ((s.index.lookup key).map Loc.segID).toList

/-- `reopen` is `NewStore` with the index that the recovery ends with. -/
inductive FdCall where
  | op (op : Between)
  | closeIfIdle (segID : Nat)
  | reopen (index : Index)

def FdStore.step (w : FdStore) : FdCall → FdStore
  | .op op => ⟨w.store.between op, fun i => w.opened i || (w.store.opens op).contains i⟩
  | .closeIfIdle segID => ⟨w.store, fun i => w.opened i && i != segID⟩
  | .reopen index =>
    ⟨{ openExisting w.store.segs w.store.segMax w.store.segMax_pos with index }, fun _ => false⟩

/-- `Compact`; none if it returns an error. The files of the new segments are closed. -/
def FdStore.compact (w : FdStore) : Option FdStore :=
  if w.store.segs.all (fun seg => w.opened seg.id && (scanSegment seg.data).2) = false then none
  else if w.store.segs.flatMap (pending w.store.index) = [] then some w
  else some ⟨w.store.compact, fun _ => false⟩

def Store.diskBytes (s : Store) : Nat := (s.segs.map (·.data.length)).sum

def Store.liveBytes (s : Store) : Nat := (s.index.entries.map (·.2.size)).sum

/-- Bodies have a length of 32 bits, and a recovery finds the places of live records. -/
def FdStore.Fits (w : FdStore) : FdCall → Prop
  | .op op => op.Fits
  | .closeIfIdle _ => True
  | .reopen index => ∀ key loc, index.lookup key = some loc → Points w.store.segs key loc

/-! ## Bytes of a store without dead records -/

section

variable {s : Store} {key : Key} {body : Bytes} {rs : List Record}

theorem diskBytes_newSegment : s.newSegment.diskBytes = s.diskBytes := by
  unfold Store.newSegment
  split_ifs <;> simp [Store.diskBytes]

theorem diskBytes_put : (s.put key body).diskBytes = s.diskBytes + recSize body := by
  obtain ⟨init, seg, hsegs, -⟩ := exists_active_newSegment (s := s)
  have hold : s.diskBytes = (init.map (·.data.length)).sum + seg.data.length := by
    rw [← diskBytes_newSegment, Store.diskBytes, hsegs]
    simp
  rw [hold, Store.put, Store.diskBytes]
  simp only [append_eq hsegs]
  simp [Nat.add_assoc]

theorem liveBytes_put (hnew : s.index.lookup key = none) :
    (s.put key body).liveBytes = s.liveBytes + recSize body := by
  have hmem : key ∉ s.index := AList.lookup_eq_none.1 hnew
  simp [Store.liveBytes, Store.put, kerase_of_notMem_keys hmem, Nat.add_comm]

theorem bytes_putAll (hnodup : (rs.map Record.key).Nodup)
    (hnew : ∀ r ∈ rs, s.index.lookup r.key = none) (h : s.diskBytes = s.liveBytes) :
    (s.putAll rs).diskBytes = (s.putAll rs).liveBytes := by
  induction rs generalizing s with
  | nil => exact h
  | cons r rs ih =>
    obtain ⟨hr, hnodup⟩ := nodup_cons.1 hnodup
    obtain ⟨hfirst, hrest⟩ := forall_mem_cons.1 hnew
    refine ih hnodup (fun r' hr' => ?_) (by rw [diskBytes_put, liveBytes_put hfirst, h])
    have hne : r'.key ≠ r.key := fun he => hr (he ▸ mem_map_of_mem hr')
    simp only [Store.put, AList.lookup_insert_ne hne, index_newSegment]
    exact hrest r' hr'

theorem nodup_kept_keys (h : Files s.segs) :
    ((s.segs.flatMap (pending s.index)).map Record.key).Nodup := by
  rw [map_flatMap, nodup_flatMap]
  refine ⟨fun seg hseg => nodup_pending_keys, ?_⟩
  refine (pairwise_map.1 h.nodup).imp fun {a b} hne k hka hkb => hne ?_
  -- the index names one segment for a key
  obtain ⟨r, hr, rfl⟩ := mem_map.1 hka
  obtain ⟨r', hr', heq⟩ := mem_map.1 hkb
  obtain ⟨off, -, hind⟩ := mem_pending.1 hr
  obtain ⟨off', -, hind'⟩ := mem_pending.1 hr'
  obtain ⟨-, loc, hloc, hid, -⟩ := isIndexed_iff.1 hind
  obtain ⟨-, loc', hloc', hid', -⟩ := isIndexed_iff.1 hind'
  rw [heq, hloc] at hloc'
  rw [← hid, ← hid', Option.some.inj hloc']

end

/-! ## Reachable stores -/

structure FdStore.Ok (w : FdStore) : Prop where
  layout : Layout w.store
  points : IndexPoints w.store

theorem Layout.reopen {s : Store} (h : Layout s) (index : Index) :
    Layout { openExisting s.segs s.segMax s.segMax_pos with index } := by
  have hperm := sortByID_perm s.segs
  have hf : Files (sortByID s.segs) := h.files.perm hperm.symm
  exact ⟨hf, fun seg hseg => lt_nextIDOf hseg,
    length_le_of_id_lt hf.nodup fun seg hseg => lt_nextIDOf hseg,
    fun seg hseg => h.room seg (hperm.mem_iff.1 hseg)⟩

variable {w : FdStore}

theorem FdStore.Ok.step {call : FdCall} (h : w.Ok) (hfits : w.Fits call) :
    (w.step call).Ok := by
  obtain ⟨hl, hi⟩ := h
  cases call with
  | op op =>
    obtain ⟨hl, hi⟩ := between_ok hl hi hfits
    exact ⟨hl, hi⟩
  | closeIfIdle segID => exact ⟨hl, hi⟩
  | reopen index =>
    refine ⟨hl.reopen index, fun key loc hloc => ?_⟩
    obtain ⟨seg, hseg, hrest⟩ := hfits key loc hloc
    exact ⟨seg, (sortByID_perm _).mem_iff.2 hseg, hrest⟩

theorem entries_eq_nil_iff {index : Index} :
    index.entries = [] ↔ ∀ key, index.lookup key = none := by
  refine ⟨fun h key => ?_, fun h => eq_nil_iff_forall_not_mem.2 fun e he => ?_⟩
  · rw [AList.lookup, h]
    rfl
  · have hlookup : index.lookup e.1 = some e.2 := AList.mem_lookup_iff.2 he
    rw [h] at hlookup
    cases hlookup

theorem FdStore.Ok.kept_eq_nil (h : w.Ok) :
    w.store.segs.flatMap (pending w.store.index) = [] ↔ ∀ key, w.store.readRecord key = none := by
  refine ⟨fun hnil key => ?_, fun hnone => eq_nil_iff_forall_not_mem.2 fun r hr => ?_⟩
  · cases hread : w.store.readRecord key with
    | none => rfl
    | some body =>
      obtain ⟨r, hr, -⟩ := mem_kept_of_readRecord h.points.sound hread
      rw [hnil] at hr
      cases hr
  · have hread := readRecord_of_mem_kept h.layout h.points.sound hr
    rw [hnone] at hread
    cases hread

/-! ## Preallocated files -/

/-- A file that starts with an empty record of zeros. -/
def Zeroed (s : Store) : Prop :=
  ∃ seg ∈ s.segs, List.replicate (headerLen + footerLen) 0 <+: seg.data

theorem Zeroed.extend {s s' : Store} (h : Zeroed s) (hext : Extends s.segs s'.segs) : Zeroed s' := by
  obtain ⟨seg, hseg, hzeros⟩ := h
  obtain ⟨seg', hseg', -, hpre⟩ := hext seg hseg
  exact ⟨seg', hseg', hzeros.trans hpre⟩

theorem Zeroed.step {call : FdCall} (h : Zeroed w.store) : Zeroed (w.step call).store := by
  cases call with
  | op op => exact h.extend (extends_between _ op)
  | closeIfIdle segID => exact h
  | reopen index =>
    obtain ⟨seg, hseg, hzeros⟩ := h
    exact ⟨seg, (sortByID_perm _).mem_iff.2 hseg, hzeros⟩

/-- The checksum of zeros is not zero. -/
theorem scan_zeros (rest : Bytes) :
    (scanSegment (List.replicate (headerLen + footerLen) 0 ++ rest)).2 = false := by
  have hslice : ∀ a b, b ≤ headerLen + footerLen →
      slice a b (List.replicate (headerLen + footerLen) 0 ++ rest) =
        slice a b (List.replicate (headerLen + footerLen) 0) :=
    fun a b hb => slice_append_left (by simpa using hb) rest
  have hcrc : crc32 castagnoli (slice 0 headerLen (List.replicate (headerLen + footerLen) 0)) ≠
      getUint32 (slice headerLen (headerLen + footerLen)
        (List.replicate (headerLen + footerLen) 0)) := by decide +kernel
  have hread : readRecordAtLegacy (List.replicate (headerLen + footerLen) 0 ++ rest) 0 =
      .error .crc := by
    have hlen : bodyLenOf (slice 0 headerLen (List.replicate (headerLen + footerLen) 0)) = 0 := by
      decide
    unfold readRecordAtLegacy
    simp only [Nat.zero_add, hslice 0 headerLen (by decide), hlen, Nat.add_zero,
      hslice headerLen (headerLen + footerLen) (by decide)]
    rw [if_neg (by simp [headerLen]; omega), if_neg (by simp), if_pos hcrc]
  have hnext : nextRecord (List.replicate (headerLen + footerLen) 0 ++ rest) = .corrupt := by
    rw [nextRecord, hread]
    rfl
  rw [scanSegment, Framing.scan, Framing.scanFrom, hnext]

theorem zeroed_newStore {segMax preallocate : Nat} (h : 0 < segMax)
    (hmax : headerLen + footerLen ≤ segMax) (hpos : 0 < preallocate) :
    Zeroed (newStore segMax h preallocate) := by
  rw [newStore, if_pos hpos]
  refine ⟨⟨0, List.replicate segMax 0⟩, mem_map.2 ⟨0, mem_range.2 (by simp), rfl⟩, ?_⟩
  exact ⟨List.replicate (segMax - (headerLen + footerLen)) 0, by
    rw [← replicate_add, Nat.add_sub_cancel' hmax]⟩

theorem Zeroed.compact (h : Zeroed w.store) : w.compact = none := by
  obtain ⟨seg, hseg, rest, hdata⟩ := h
  refine if_pos (all_eq_false.2 ⟨seg, hseg, ?_⟩)
  rw [← hdata, scan_zeros]
  simp

/-- `Compact` succeeds, keeps what can be read and leaves no dead bytes exactly if no files were
preallocated, every segment file is open, and there is a live record or nothing on disk. -/
theorem compact_reclaims_iff {segMax preallocate : Nat} (h : 0 < segMax)
    (hmax : headerLen + footerLen ≤ segMax) (calls : List FdCall)
    (hfits : Along FdStore.step FdStore.Fits (FdStore.new segMax h preallocate) calls) :
    (∃ w, (run FdStore.step (FdStore.new segMax h preallocate) calls).compact = some w ∧
      (∀ key, w.store.readRecord key =
        (run FdStore.step (FdStore.new segMax h preallocate) calls).store.readRecord key) ∧
      w.store.diskBytes = w.store.liveBytes) ↔
    preallocate = 0 ∧
      (∀ seg ∈ (run FdStore.step (FdStore.new segMax h preallocate) calls).store.segs,
        (run FdStore.step (FdStore.new segMax h preallocate) calls).opened seg.id = true) ∧
      ((∀ key, (run FdStore.step (FdStore.new segMax h preallocate) calls).store.readRecord key =
          none) →
        (run FdStore.step (FdStore.new segMax h preallocate) calls).store.diskBytes = 0) := by
  rcases Nat.eq_zero_or_pos preallocate with rfl | hpos
  swap
  · -- a file of zeros stays, and no scan gets past it
    have hzeroed : Zeroed (run FdStore.step (FdStore.new segMax h preallocate) calls).store :=
      run_preserves (Q := fun w : FdStore => Zeroed w.store) (fun _ _ hw => hw.step)
        (zeroed_newStore h hmax hpos) calls
    rw [hzeroed.compact]
    simp [hpos.ne']
  rw [eq_self, true_and]
  have hok : (run FdStore.step (FdStore.new segMax h 0) calls).Ok :=
    (always_of_along (fun w call hw hcall => hw.step hcall)
      ⟨layout_empty h, indexPoints_empty h⟩ hfits).last
  generalize run FdStore.step (FdStore.new segMax h 0) calls = w at hok
  have hscan : ∀ seg ∈ w.store.segs, (scanSegment seg.data).2 = true :=
    fun seg hseg => (hok.layout.files.whole seg hseg).scan_ok
  have hall : w.store.segs.all (fun seg => w.opened seg.id && (scanSegment seg.data).2) ↔
      ∀ seg ∈ w.store.segs, w.opened seg.id = true := by
    rw [all_eq_true]
    exact forall₂_congr fun seg hseg => by rw [hscan seg hseg, Bool.and_true]
  unfold FdStore.compact
  rw [← hall]
  split_ifs with hclosed hnil
  · simp [hclosed]
  · -- without a live record nothing is rewritten
    rw [hok.kept_eq_nil] at hnil
    have hlive : w.store.liveBytes = 0 := by
      have hnil : w.store.index.entries = [] := by
        refine entries_eq_nil_iff.2 fun key => Option.eq_none_iff_forall_ne_some.2 fun loc hloc => ?_
        obtain ⟨seg, hseg, hid, r, hr, -, hlive, hsize⟩ := hok.points key loc hloc
        have hread := hnil key
        rw [Store.readRecord, hloc, Option.bind_some,
          hok.layout.files.bodyAt_eq hseg hr hid rfl hsize, hlive] at hread
        cases hread
      rw [Store.liveBytes, hnil]
      rfl
    simp [Bool.not_eq_false _ ▸ hclosed, hnil, hlive]
  · have hkept : ¬ ∀ key, w.store.readRecord key = none := hok.kept_eq_nil.not.1 hnil
    refine ⟨fun _ => ⟨by simpa using hclosed, fun hnone => absurd hnone hkept⟩, fun _ => ?_⟩
    refine ⟨_, rfl, readRecord_compact hok.layout hok.points.sound, ?_⟩
    have hcompact : w.store.compact = { w.store with
        segs := w.store.compactSegments.segs, index := w.store.compactSegments.index } := by
      rw [Store.compact, if_neg, if_neg hnil]
      simpa using hscan
    rw [hcompact]
    exact bytes_putAll (nodup_kept_keys hok.layout.files) (fun _ _ => rfl) rfl

/-- A store whose process was started again cannot be compacted, nor one with preallocated files, and
a store that has lost its last record keeps the bytes. -/
theorem compact_fails_on_closed :
    let key := exampleKey 1
    let index := ((Store.empty 64 (by decide)).put key []).index
    (run FdStore.step (FdStore.new 64 (by decide) 0)
        [.op (.put key []), .reopen index]).compact.isNone ∧
      (run FdStore.step (FdStore.new 64 (by decide) 64)
        [.reopen ∅, .op (.put key [])]).compact.isNone ∧
      (run FdStore.step (FdStore.new 64 (by decide) 0)
        [.op (.put key []), .op (.delete key)]).compact.map
          (fun w => (w.store.diskBytes, w.store.liveBytes)) = some (56, 0) := by
  decide +kernel

theorem overwritten_record_reclaimed :
    let calls := [FdCall.op (.put (exampleKey 1) []), .op (.put (exampleKey 1) [7])]
    ∃ w, (run FdStore.step (FdStore.new 64 (by decide) 0) calls).compact = some w ∧
      (∀ key, w.store.readRecord key =
        (run FdStore.step (FdStore.new 64 (by decide) 0) calls).store.readRecord key) ∧
      w.store.diskBytes = w.store.liveBytes := by
  refine (compact_reclaims_iff (by decide) (by decide) _ ?_).2 ⟨rfl, ?_, ?_⟩
  · exact ⟨Nat.two_pow_pos 32, Nat.one_lt_two_pow (by decide), trivial⟩
  · decide
  · intro hnone
    exact absurd (hnone (exampleKey 1)) (by decide +kernel)

end Bouine.Storage.Warm
