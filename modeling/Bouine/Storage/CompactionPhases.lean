import Bouine.Storage.WarmScan

/-! # Compaction of one segment in phases

`CompactSegment` scans a sealed segment under the lock, writes the kept records to a new file
without it, and swaps the files under the lock again. Puts, deletes, evictions and reads get in
between. They write to the active segment only, so no entry comes to name the sealed one, and the
swap moves the entries that still do. That is invisible exactly if the scan, which ends at the first
torn record, has come to all of them.
-/

namespace Bouine.Storage.Warm

open Lib Lib.Framing Lib.Transition List

/-! ## The phases -/

/-- The scan of `CompactSegment`: the records it keeps, unless it gives up. -/
def Store.compactScan (s : Store) (segID : Nat) : Option (List Record) :=
  match s.segs.find? (·.id = segID) with
  | none => none
  | some target =>
    if s.segs.getLast?.map Segment.id = some segID then none
    else if (scanSegment target.data).2 = false then none
    else some (pending s.index target)

/-- `swapCompactSegment`. -/
def Store.compactSwap (s : Store) (segID newID : Nat) (kept : List Record) : Store :=
  if segID ∈ s.segs.map Segment.id ∧ s.segs.getLast?.map Segment.id ≠ some segID then
    s.swapIn segID newID kept
  else s

/-- The number that `writeCompactTemp` takes. -/
def Store.takeID (s : Store) : Store := { s with nextID := s.nextID + 1 }

inductive Between where
  | put (key : Key) (body : Bytes)
  | delete (key : Key)
  | evict (victim : Key)
  | get (key : Key)

def Store.between (s : Store) : Between → Store
  | .put key body => s.put key body
  | .delete key => s.delete key
  | .evict victim => s.evictOne victim
  | .get key => s.dropStale key

/-- The store right before the swap: operations before and after the new number is taken. -/
def Store.beforeSwap (s : Store) (ops ops' : List Between) : Store :=
  run Store.between (run Store.between s ops).takeID ops'

def Store.afterSwap (s : Store) (segID : Nat) (kept : List Record) (ops ops' : List Between) : Store :=
  (s.beforeSwap ops ops').compactSwap segID (run Store.between s ops).nextID kept

/-- Without anything in between this is `CompactSegment`. -/
theorem afterSwap_nil {s : Store} {segID : Nat} {kept : List Record}
    (h : s.compactScan segID = some kept) : s.afterSwap segID kept [] [] = s.compactSegment segID := by
  unfold Store.compactScan at h
  unfold Store.compactSegment
  cases hfind : s.segs.find? (·.id = segID) with
  | none =>
    rw [hfind] at h
    cases h
  | some target =>
    rw [hfind] at h
    dsimp only at h ⊢
    split_ifs at h with hlast hscan
    cases h
    obtain rfl : target.id = segID := by simpa using find?_some hfind
    have hmem : target.id ∈ s.segs.map Segment.id :=
      mem_map_of_mem (mem_of_find?_eq_some hfind)
    rw [if_neg hlast, if_neg hscan]
    exact if_pos (And.intro hmem hlast)

/-! ## Entries that are read -/

/-- The body of a `Put` has a length of 32 bits. -/
def Between.Fits : Between → Prop
  | .put _ body => body.length < 2 ^ 32
  | .delete _ | .evict _ | .get _ => True

def Between.touches : Between → Option Key
  | .put key _ | .delete key | .evict key => some key
  | .get _ => none

/-- A read at the place finds a live record of the key. -/
def Reads (segs : List Segment) (key : Key) (loc : Loc) : Prop :=
  ∃ seg ∈ segs, seg.id = loc.segID ∧
    ∃ r, readRecordAt seg.data loc.offset loc.size = .ok r ∧ r.key = key ∧ r.isTomb = false

/-- Whatever else the files hold, every entry is read. -/
structure Readable (s : Store) : Prop where
  nodup : (s.segs.map Segment.id).Nodup
  fresh : ∀ seg ∈ s.segs, seg.id < s.nextID
  reads : ∀ key loc, s.index.lookup key = some loc → Reads s.segs key loc

theorem Layout.readable {s : Store} (h : Layout s) (hi : IndexPoints s) : Readable s := by
  refine ⟨h.files.nodup, h.fresh, fun key loc hloc => ?_⟩
  obtain ⟨seg, hseg, hid, r, hr, hkey, hlive, hsize⟩ := hi key loc hloc
  exact ⟨seg, hseg, hid, r, (h.files.whole seg hseg).readRecordAt_eq hr hsize, hkey, hlive⟩

def Extends (segs segs' : List Segment) : Prop :=
  ∀ seg ∈ segs, ∃ seg' ∈ segs', seg'.id = seg.id ∧ seg.data <+: seg'.data

section

variable {segs segs' : List Segment} {key : Key} {loc : Loc}

theorem bodyAt_of_read (hnodup : (segs.map Segment.id).Nodup) {seg : Segment} (hseg : seg ∈ segs)
    (hid : seg.id = loc.segID) {r : Record}
    (hread : readRecordAt seg.data loc.offset loc.size = .ok r) (hlive : r.isTomb = false) :
    bodyAt segs loc = some r.body := by
  simp [bodyAt, find_of_nodup hnodup hseg hid, hread, hlive]

theorem Extends.trans {segs'' : List Segment} (h : Extends segs segs') (h' : Extends segs' segs'') :
    Extends segs segs'' := by
  intro seg hseg
  obtain ⟨seg', hseg', hid, hpre⟩ := h seg hseg
  obtain ⟨seg'', hseg'', hid', hpre'⟩ := h' seg' hseg'
  exact ⟨seg'', hseg'', hid'.trans hid, hpre.trans hpre'⟩

theorem Reads.extend (h : Extends segs segs') (hr : Reads segs key loc) : Reads segs' key loc := by
  obtain ⟨seg, hseg, hid, r, hread, hrest⟩ := hr
  obtain ⟨seg', hseg', hid', more, hdata⟩ := h seg hseg
  exact ⟨seg', hseg', hid'.trans hid, r, hdata ▸ readRecordAt_append hread more, hrest⟩

theorem Reads.bodyAt_extend (hnodup : (segs.map Segment.id).Nodup)
    (hnodup' : (segs'.map Segment.id).Nodup) (h : Extends segs segs') (hr : Reads segs key loc) :
    bodyAt segs' loc = bodyAt segs loc := by
  obtain ⟨seg, hseg, hid, r, hread, -, hlive⟩ := hr
  obtain ⟨seg', hseg', hid', more, hdata⟩ := h seg hseg
  rw [bodyAt_of_read hnodup hseg hid hread hlive, bodyAt_of_read hnodup' hseg' (hid'.trans hid)
    (hdata ▸ readRecordAt_append hread more) hlive]

end

section

variable {s : Store} {op : Between} {key : Key}

theorem extends_newSegment (s : Store) : Extends s.segs s.newSegment.segs := by
  refine newSegment_induction (fun seg hseg => ⟨seg, hseg, rfl, prefix_rfl⟩) fun seg hseg => ?_
  exact ⟨seg, mem_append_left _ hseg, rfl, prefix_rfl⟩

theorem extends_append (s : Store) (r : Record) : Extends s.segs (s.append r).segs := by
  refine append_induction r (fun _ seg hseg => ⟨seg, hseg, rfl, prefix_rfl⟩) fun init seg hsegs => ?_
  rw [hsegs]
  refine forall_mem_concat.2 ⟨fun seg' hseg' => ?_, ?_⟩
  · exact ⟨seg', mem_append_left _ hseg', rfl, prefix_rfl⟩
  · exact ⟨⟨seg.id, seg.data ++ r.encode⟩, by simp, rfl, prefix_append _ _⟩

/-- What a new segment, a record behind the others and a change of the index keep. -/
@[elab_as_elim] theorem between_induction {motive : Store → Prop} {s : Store} (start : motive s)
    (op : Between) (new : ∀ s, motive s → motive s.newSegment)
    (append : ∀ s r, motive s → motive (s.append r))
    (index : ∀ s i, motive s → motive { s with index := i }) : motive (s.between op) := by
  cases op with
  | put key body => exact index _ _ (append _ _ (new s start))
  | delete key => exact index _ _ (append _ _ (new s start))
  | evict victim =>
    rw [Store.between, Store.evictOne]
    split_ifs
    · exact index _ _ (append _ _ start)
    · exact start
  | get key => exact dropStale_induction (motive := motive) key start (index _ _ start)

theorem extends_between (s : Store) (op : Between) : Extends s.segs (s.between op).segs :=
  between_induction (motive := fun w => Extends s.segs w.segs)
    (fun seg hseg => ⟨seg, hseg, rfl, prefix_rfl⟩) op (fun w h => h.trans (extends_newSegment w))
    (fun w r h => h.trans (extends_append w r)) fun _ _ h => h

/-- An entry is an old one, or that of a `Put`. -/
theorem lookup_between {loc : Loc} (h : (s.between op).index.lookup key = some loc) :
    s.index.lookup key = some loc ∨ ∃ body, op = .put key body ∧
      loc = ⟨s.newSegment.activeID, s.newSegment.activeSize, recSize body⟩ := by
  cases op with
  | put k body =>
    by_cases hk : key = k
    · subst hk
      rw [Store.between, Store.put, AList.lookup_insert] at h
      exact .inr ⟨body, rfl, (Option.some.inj h).symm⟩
    · rw [Store.between, Store.put, AList.lookup_insert_ne hk, index_newSegment] at h
      exact .inl h
  | delete k => exact .inl (lookup_of_remove (lookup_delete s k) h)
  | evict victim => exact .inl (lookup_of_remove (lookup_evictOne s victim) h)
  | get k => exact .inl (lookup_of_dropStale h)

/-- The numbers of the segments, apart from the contents. -/
def Numbered (s : Store) : Prop :=
  (s.segs.map Segment.id).Nodup ∧ ∀ seg ∈ s.segs, seg.id < s.nextID

theorem Numbered.newSegment (h : Numbered s) : Numbered s.newSegment := by
  refine newSegment_induction h ⟨?_, ?_⟩
  · rw [map_append, nodup_append]
    refine ⟨h.1, by simp, fun i hi j hj => ?_⟩
    obtain ⟨seg, hseg, rfl⟩ := mem_map.1 hi
    rw [mem_singleton.1 hj]
    exact ne_of_lt (h.2 seg hseg)
  · exact forall_mem_concat.2 ⟨fun seg hseg => Nat.lt_succ_of_lt (h.2 seg hseg), Nat.lt_succ_self _⟩

theorem Numbered.append (h : Numbered s) (r : Record) : Numbered (s.append r) := by
  refine append_induction r (fun _ => h) fun init seg hsegs => ?_
  rw [Numbered, hsegs, forall_mem_concat] at h
  exact ⟨by simpa using h.1, forall_mem_concat.2 h.2⟩

theorem Numbered.between (h : Numbered s) (op : Between) : Numbered (s.between op) :=
  between_induction h op (fun _ => newSegment) (fun _ r h => h.append r) fun _ _ h => h

theorem Readable.dropStale (h : Readable s) (key : Key) : s.dropStale key = s := by
  unfold Store.dropStale
  split
  · rfl
  · next loc hloc =>
    obtain ⟨seg, hseg, hid, r, hread, -⟩ := h.reads key loc hloc
    simp [find_of_nodup h.nodup hseg hid, hread]

theorem reads_put (s : Store) (key : Key) {body : Bytes} (hb : body.length < 2 ^ 32) :
    Reads (s.put key body).segs key
      ⟨s.newSegment.activeID, s.newSegment.activeSize, recSize body⟩ := by
  obtain ⟨init, seg, hsegs, -⟩ := exists_active_newSegment (s := s)
  have hread := readRecordAtSingle_encode (fits_live key hb) seg.data []
  rw [append_nil] at hread
  rw [Store.put, append_eq hsegs, activeID_eq hsegs, activeSize_eq hsegs]
  refine ⟨_, mem_append_right _ (.head _), rfl, ⟨key, body, false⟩, ?_, rfl, rfl⟩
  rw [readRecordAt, if_pos (by simp [recSize, headerLen, footerLen])]
  exact hread

theorem Readable.between (h : Readable s) (hop : op.Fits) :
    Readable (s.between op) ∧ ∀ k, op.touches ≠ some k →
      (s.between op).readRecord k = s.readRecord k := by
  obtain ⟨hnodup, hfresh⟩ := Numbered.between ⟨h.nodup, h.fresh⟩ op
  refine ⟨⟨hnodup, hfresh, fun k loc hloc => ?_⟩, fun k hk => ?_⟩
  · rcases lookup_between hloc with hold | ⟨body, rfl, rfl⟩
    · exact (h.reads k loc hold).extend (extends_between s op)
    · exact reads_put s k hop
  · have hlookup : (s.between op).index.lookup k = s.index.lookup k := by
      cases op with
      | put key body =>
        rw [Store.between, Store.put, AList.lookup_insert_ne fun heq => hk (congrArg some heq.symm),
          index_newSegment]
      | delete key => exact (lookup_delete s key k).trans (if_neg fun heq => hk (congrArg some heq.symm))
      | evict victim =>
        exact (lookup_evictOne s victim k).trans (if_neg fun heq => hk (congrArg some heq.symm))
      | get key => rw [Store.between, h.dropStale]
    rw [Store.readRecord, Store.readRecord, hlookup]
    cases hloc : s.index.lookup k with
    | none => rfl
    | some loc => exact (h.reads k loc hloc).bodyAt_extend h.nodup hnodup (extends_between s op)

variable {w : Store}

theorem dropStale_of_points (hl : Layout w) (hi : IndexPoints w) (key : Key) :
    w.dropStale key = w :=
  (hl.readable hi).dropStale key

theorem between_ok (hl : Layout w) (hi : IndexPoints w) (hop : op.Fits) :
    Layout (w.between op) ∧ IndexPoints (w.between op) := by
  cases op with
  | put key body => exact ⟨hl.put hop, hi.put hl key hop⟩
  | delete key => exact ⟨hl.delete, hi.remove (lookup_delete w key) (grows_delete hl)⟩
  | evict victim => exact ⟨hl.evictOne, hi.remove (lookup_evictOne w victim) (grows_evictOne hl)⟩
  | get key =>
    rw [Store.between, dropStale_of_points hl hi]
    exact ⟨hl, hi⟩

end

/-! ## The sealed segment -/

def SealedIn (segs : List Segment) (target : Segment) : Prop :=
  target ∈ segs ∧ segs.getLast?.map Segment.id ≠ some target.id

/-- What holds until the swap: the segment is as it was, and entries that name it are old. -/
structure Sealed (s : Store) (target : Segment) (w : Store) : Prop where
  readable : Readable w
  here : SealedIn w.segs target
  entries : ∀ key loc, w.index.lookup key = some loc → loc.segID = target.id →
    s.index.lookup key = some loc

section

variable {s w : Store} {target : Segment}

theorem SealedIn.append (h : SealedIn w.segs target) (r : Record) :
    SealedIn (w.append r).segs target := by
  refine append_induction r (fun _ => h) fun init seg hsegs => ?_
  obtain ⟨hmem, hlast⟩ := h
  rw [hsegs] at hmem hlast
  have hne : seg.id ≠ target.id := by simpa using hlast
  refine ⟨?_, by simpa using hne⟩
  rcases mem_append.1 hmem with hmem | hmem
  · exact mem_append_left _ hmem
  · exact absurd (congrArg Segment.id (mem_singleton.1 hmem)).symm hne

theorem SealedIn.newSegment (hw : Numbered w) (h : SealedIn w.segs target) :
    SealedIn w.newSegment.segs target :=
  newSegment_induction h ⟨mem_append_left _ h.1, by simpa using ne_of_gt (hw.2 target h.1)⟩

variable {op : Between}

theorem Sealed.step (h : Sealed s target w) (hop : op.Fits) :
    Sealed s target (w.between op) := by
  have hn : Numbered w := ⟨h.readable.nodup, h.readable.fresh⟩
  have hhere := between_induction (motive := fun w => Numbered w ∧ SealedIn w.segs target)
    ⟨hn, h.here⟩ op (fun _ h => ⟨h.1.newSegment, h.2.newSegment h.1⟩)
    (fun _ r h => ⟨h.1.append r, h.2.append r⟩) fun _ _ h => h
  refine ⟨(h.readable.between hop).1, hhere.2, fun k loc hloc hid => ?_⟩
  rcases lookup_between hloc with hold | ⟨body, -, rfl⟩
  · exact h.entries k loc hold hid
  · -- the new entry names the active segment
    obtain ⟨init, seg, hsegs, -⟩ := exists_active_newSegment (s := w)
    refine absurd ?_ (h.here.newSegment hn).2
    rw [← hid, activeID_eq hsegs, hsegs]
    simp

theorem Sealed.run {ops : List Between} (h : Sealed s target w) (hops : ∀ op ∈ ops, op.Fits) :
    Sealed s target (run Store.between w ops) ∧
      ∀ key, (∀ op ∈ ops, op.touches ≠ some key) →
        (run Store.between w ops).readRecord key = w.readRecord key := by
  induction ops generalizing w with
  | nil => exact ⟨h, fun _ _ => rfl⟩
  | cons op ops ih =>
    obtain ⟨hop, hops⟩ := forall_mem_cons.1 hops
    obtain ⟨hend, hreads⟩ := ih (h.step hop) hops
    refine ⟨hend, fun key hkey => ?_⟩
    obtain ⟨hfirst, hrest⟩ := forall_mem_cons.1 hkey
    rw [run_cons, hreads key hrest, (h.readable.between hop).2 key hfirst]

def Unused (n : Nat) (w : Store) : Prop := n ∉ w.segs.map Segment.id ∧ n < w.nextID

theorem Unused.newSegment {n : Nat} (h : Unused n w) : Unused n w.newSegment := by
  refine newSegment_induction h ⟨?_, Nat.lt_succ_of_lt h.2⟩
  simpa using ⟨by simpa using h.1, ne_of_lt h.2⟩

theorem Unused.append {n : Nat} (h : Unused n w) (r : Record) : Unused n (w.append r) := by
  refine append_induction r (fun _ => h) fun init seg hsegs => ⟨?_, h.2⟩
  simpa [hsegs] using h.1

theorem Unused.between {n : Nat} (h : Unused n w) (op : Between) : Unused n (w.between op) :=
  between_induction h op (fun _ => newSegment) (fun _ r h => h.append r) fun _ _ h => h

end

/-! ## No read sees the compaction -/

/-- The scan of the segment comes to every place that the index names in it. -/
def ScanReaches (s : Store) (segID : Nat) : Prop :=
  ∀ key loc, s.index.lookup key = some loc → loc.segID = segID →
    ∀ seg ∈ s.segs, seg.id = segID → loc.offset ∈ (recordsOf seg.data).map Prod.fst

section

variable {s w : Store} {target : Segment} {newID : Nat} (hw : Sealed s target w)
  (hnew : ∀ seg ∈ w.segs, seg.id ≠ newID)
include hw hnew

/-- The swap loses what an entry of the segment reads exactly if the scan did not come to it. -/
theorem readRecord_swapIn {key : Key} {loc : Loc} (hloc : w.index.lookup key = some loc) :
    (w.swapIn target.id newID (pending s.index target)).readRecord key = w.readRecord key ↔
      (loc.segID = target.id → loc.offset ∈ (recordsOf target.data).map Prod.fst) := by
  obtain ⟨seg, hseg, hid, r, hread, hkey, hlive⟩ := hw.readable.reads key loc hloc
  have hnodup := nodup_swapIn target.id (pending s.index target) hw.readable.nodup hnew
  have hsnd : (place Record.encode 0 (pending s.index target)).map Prod.snd =
      pending s.index target := map_snd_place 0 _
  rw [readRecord_of_lookup hloc, bodyAt_of_read hw.readable.nodup hseg hid hread hlive]
  rcases lookup_foldl_relocate target.id newID w.index nodup_copy_keys key with
    ⟨hsame, hnone⟩ | ⟨hin, p, hp, hpk, hmoved⟩
  · rw [readRecord_of_lookup (hsame.trans hloc)]
    by_cases hother : loc.segID = target.id
    · -- the entry stays behind, and its segment is gone
      have hgone : bodyAt (w.swapIn target.id newID (pending s.index target)).segs loc = none := by
        refine bodyAt_of_missing fun seg' hseg' => ?_
        rw [hother]
        rcases (mem_segs_swapIn hw.here.1).1 hseg' with rfl | ⟨-, hne⟩
        · exact (hnew target hw.here.1).symm
        · exact hne
      refine iff_of_false (fun h => ?_) fun h => ?_
      · rw [hgone] at h
        cases h
      · have hold := hw.entries key loc hloc hother
        obtain ⟨q, hq, hoff⟩ := mem_map.1 (h hother)
        obtain rfl := inj_on_of_nodup_map hw.readable.nodup hseg hw.here.1 (hid.trans hother)
        have hqr : q.2 = r := by
          rw [eq_recordAt_of_mem (show (q.1, q.2) ∈ recordsOf seg.data from hq), hoff,
            readRecordAt_eq_recordAt hread]
        have hkept : r ∈ pending s.index seg := by
          refine mem_pending.2 ⟨q.1, hqr ▸ hq, isIndexed_iff.2 ⟨hlive, loc, ?_, hother, hoff.symm⟩⟩
          rw [hkey]
          exact hold
        rw [← hsnd] at hkept
        obtain ⟨p, hp, hpr⟩ := mem_map.1 hkept
        exact hnone (by simp [hloc, hother]) p hp (by rw [hpr, hkey])
    · refine iff_of_true ?_ fun h => absurd h hother
      exact bodyAt_of_read hnodup
        ((mem_segs_swapIn hw.here.1).2 (.inr ⟨hseg, fun h => hother (hid.symm.trans h)⟩)) hid hread hlive
  · have hother : loc.segID = target.id := by simpa [hloc] using hin
    obtain rfl := inj_on_of_nodup_map hw.readable.nodup hseg hw.here.1 (hid.trans hother)
    have hkept : p.2 ∈ pending s.index seg := hsnd ▸ mem_map_of_mem hp
    obtain ⟨off, hrec, hindexed⟩ := mem_pending.1 hkept
    obtain ⟨-, loc', hloc', -, hoff⟩ := isIndexed_iff.1 hindexed
    rw [hpk, hw.entries key loc hloc hother] at hloc'
    obtain rfl := Option.some.inj hloc'
    have hoff : loc.offset = off := hoff
    have hpr : p.2 = r := by
      rw [eq_recordAt_of_mem hrec, ← hoff, readRecordAt_eq_recordAt hread]
    refine iff_of_true ?_ fun _ => mem_map.2 ⟨(off, p.2), hrec, hoff.symm⟩
    have hfits : ∀ r ∈ pending s.index seg, r.Fits := fun r hr => fits_of_mem_pending hr
    have hp' : p ∈ recordsOf (encodeAll Record.encode (pending s.index seg)) := by
      rw [recordsOf, scanSegment_encodeAll hfits]
      exact hp
    rw [readRecord_of_lookup hmoved, ← hpr]
    exact bodyAt_of_read hnodup ((mem_segs_swapIn hw.here.1).2 (.inl rfl)) rfl
      ((wholeRecords_encodeAll hfits).readRecordAt_eq hp' (.inr rfl)) (hpr ▸ hlive)

omit hw hnew in
theorem readRecord_swapIn_of_none {key : Key} (hloc : w.index.lookup key = none) :
    (w.swapIn target.id newID (pending s.index target)).readRecord key = w.readRecord key := by
  rcases lookup_foldl_relocate target.id newID w.index nodup_copy_keys key with
    ⟨hsame, -⟩ | ⟨hin, -⟩
  · rw [Store.readRecord, Store.readRecord, Store.swapIn, hsame, hloc]
    rfl
  · simp [hloc] at hin

end

/-- In a store whose entries are read, no key reads differently after the swap than right before it,
nor, if it was not written, than before the scan, whatever comes in between, exactly if the scan has
come to all places that the index names in the segment. -/
theorem compaction_in_phases_unseen_iff {s : Store} (h : Readable s) {segID : Nat}
    {kept : List Record} (hscan : s.compactScan segID = some kept) :
    (∀ ops ops' : List Between, (∀ op ∈ ops ++ ops', op.Fits) →
      (∀ key, (s.afterSwap segID kept ops ops').readRecord key =
        (s.beforeSwap ops ops').readRecord key) ∧
      ∀ key, (∀ op ∈ ops ++ ops', op.touches ≠ some key) →
        (s.afterSwap segID kept ops ops').readRecord key = s.readRecord key) ↔
      ScanReaches s segID := by
  unfold Store.compactScan at hscan
  split at hscan
  · cases hscan
  next target hfind =>
  split_ifs at hscan with hlast
  cases hscan
  obtain rfl : target.id = segID := by simpa using find?_some hfind
  have hmem := mem_of_find?_eq_some hfind
  -- what holds right before the swap, with the number that was taken
  have hbefore : ∀ ops ops' : List Between, (∀ op ∈ ops ++ ops', op.Fits) →
      Sealed s target (s.beforeSwap ops ops') ∧
      (∀ seg ∈ (s.beforeSwap ops ops').segs, seg.id ≠ (run Store.between s ops).nextID) ∧
      ∀ key, (∀ op ∈ ops ++ ops', op.touches ≠ some key) →
        (s.beforeSwap ops ops').readRecord key = s.readRecord key := by
    intro ops ops' hops
    obtain ⟨hops, hops'⟩ := forall_mem_append.1 hops
    obtain ⟨h₁, hreads₁⟩ := Sealed.run ⟨h, ⟨hmem, hlast⟩, fun _ _ hloc _ => hloc⟩ hops
    have htaken : Sealed s target (run Store.between s ops).takeID :=
      ⟨⟨h₁.readable.nodup, fun seg hseg => Nat.lt_succ_of_lt (h₁.readable.fresh seg hseg),
        h₁.readable.reads⟩, h₁.here, h₁.entries⟩
    obtain ⟨h₂, hreads₂⟩ := htaken.run hops'
    have hfresh : Unused (run Store.between s ops).nextID (run Store.between s ops).takeID := by
      refine ⟨fun hid => ?_, Nat.lt_succ_self _⟩
      obtain ⟨seg, hseg, heq⟩ := mem_map.1 hid
      exact ne_of_lt (h₁.readable.fresh seg hseg) heq
    have hunused : Unused (run Store.between s ops).nextID (s.beforeSwap ops ops') :=
      run_preserves (fun _ op hw => hw.between op) hfresh ops'
    refine ⟨h₂, fun seg hseg heq => hunused.1 (mem_map.2 ⟨seg, hseg, heq⟩), fun key hkey => ?_⟩
    obtain ⟨hkey, hkey'⟩ := forall_mem_append.1 hkey
    rw [Store.beforeSwap, hreads₂ key hkey']
    exact hreads₁ key hkey
  have hswap : ∀ ops ops' : List Between, (∀ op ∈ ops ++ ops', op.Fits) →
      s.afterSwap target.id (pending s.index target) ops ops' =
        (s.beforeSwap ops ops').swapIn target.id (run Store.between s ops).nextID
          (pending s.index target) := fun ops ops' hops =>
    if_pos ⟨mem_map_of_mem (hbefore ops ops' hops).1.here.1, (hbefore ops ops' hops).1.here.2⟩
  constructor
  · -- already without a step in between, an entry that the scan did not come to is lost
    intro hall key loc hloc hid seg hseg hsegid
    obtain rfl := inj_on_of_nodup_map h.nodup hseg hmem hsegid
    obtain ⟨hw, hnew, -⟩ := hbefore [] [] (by simp)
    have hread := (hall [] [] (by simp)).1 key
    rw [hswap [] [] (by simp)] at hread
    exact (readRecord_swapIn hw hnew hloc).1 hread hid
  · intro hreach ops ops' hops
    obtain ⟨hw, hnew, hreads⟩ := hbefore ops ops' hops
    have hsame : ∀ key, (s.afterSwap target.id (pending s.index target) ops ops').readRecord key =
        (s.beforeSwap ops ops').readRecord key := by
      intro key
      rw [hswap ops ops' hops]
      cases hloc : (s.beforeSwap ops ops').index.lookup key with
      | none => exact readRecord_swapIn_of_none hloc
      | some loc =>
        refine (readRecord_swapIn hw hnew hloc).2 fun hid => ?_
        exact hreach key loc (hw.entries key loc hloc hid) hid target hmem rfl
    exact ⟨hsame, fun key hkey => (hsame key).trans (hreads key hkey)⟩

/-- The header of a record of 100 bytes, left by a crash, and two puts after the restart, the second
of which seals the segment. -/
def sealedBehindTorn : Store :=
  run Store.between (openExisting
      [⟨0, (Record.encode ⟨exampleKey 2, List.replicate 100 7, false⟩).take headerLen⟩] 40 (by decide))
    [.put (exampleKey 3) [3], .put (exampleKey 4) [4]]

/-- The scan of the sealed segment ends at the torn record without an error, and the swap loses the
record behind it. -/
theorem compaction_loses_behind_torn :
    sealedBehindTorn.compactScan 0 = some [] ∧
    (sealedBehindTorn.beforeSwap [] []).readRecord (exampleKey 3) = some [3] ∧
    (sealedBehindTorn.afterSwap 0 [] [] []).readRecord (exampleKey 3) = none := by
  decide +kernel

def twoSegments : Store :=
  ((Store.empty 20 (by decide)).put (exampleKey 1) [1]).put (exampleKey 2) [2]

theorem twoSegments_ok : Layout twoSegments ∧ IndexPoints twoSegments := by
  have hempty : 0 < 20 := by decide
  have hl : Layout ((Store.empty 20 hempty).put (exampleKey 1) [1]) :=
    (layout_empty hempty).put (by decide)
  have hi : IndexPoints ((Store.empty 20 hempty).put (exampleKey 1) [1]) :=
    (indexPoints_empty hempty).put (layout_empty hempty) _ (by decide)
  exact ⟨hl.put (by decide), hi.put hl _ (by decide)⟩

/-- While the first segment is compacted its key is read, another one is put and deleted, and the
key of the second segment is evicted. -/
theorem compaction_in_phases_keeps :
    twoSegments.compactScan 0 = some [⟨exampleKey 1, [1], false⟩] ∧
    (twoSegments.afterSwap 0 [⟨exampleKey 1, [1], false⟩]
      [.get (exampleKey 1), .put (exampleKey 3) [3]]
      [.delete (exampleKey 3), .evict (exampleKey 2)]).readRecord (exampleKey 1) = some [1] := by
  have hscan : twoSegments.compactScan 0 = some [⟨exampleKey 1, [1], false⟩] := by decide +kernel
  have hread : twoSegments.readRecord (exampleKey 1) = some [1] := by decide +kernel
  have hreach : ScanReaches twoSegments 0 := by
    intro key loc hloc hid seg hseg hsegid
    obtain ⟨seg', hseg', hid', r, hr, -⟩ := twoSegments_ok.2 key loc hloc
    obtain rfl := twoSegments_ok.1.files.eq_of_id hseg' hseg (hid'.trans (hid.trans hsegid.symm))
    exact mem_map_of_mem hr
  refine ⟨hscan, ?_⟩
  have hreads := (compaction_in_phases_unseen_iff (twoSegments_ok.1.readable twoSegments_ok.2)
    hscan).2 hreach [.get (exampleKey 1), .put (exampleKey 3) [3]]
    [.delete (exampleKey 3), .evict (exampleKey 2)] (by simp [Between.Fits])
  exact (hreads.2 (exampleKey 1) (by decide)).trans hread

end Bouine.Storage.Warm
