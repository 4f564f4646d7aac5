import Bouine.Lib.Transition
import Bouine.Storage.WarmCompaction

/-! # Rebuilding the warm index from the segment files

Without log and snapshot, `rebuildIndexFromScan` (`internal/storage/tiered.go`) reads the segments
in the order of their numbers: a live record sets its key, a tombstone removes it. The newest record
of a key is the last one in the segment with the highest number, which is not always the one written
last: a compaction moves old records to a higher number, and drops tombstones of keys that have a
live record in another segment.
-/

namespace Bouine.Storage.Warm

open Lib Lib.Framing Lib.Transition List Nat

/-! ## The scan -/

/-- What `rebuildIndexFromScan` does with one record. -/
def scanEvent (segID : Nat) (p : Nat × Record) : Key × Option Loc :=
  (p.2.key, if p.2.isTomb then none else some ⟨segID, p.1, 0⟩)

/-- The records `Scan` reports. It ends at a segment that does not scan. -/
def scanEvents : List Segment → List (Key × Option Loc)
  | [] => []
  | seg :: segs =>
    let (records, ok) := scanSegment seg.data
    records.map (scanEvent seg.id) ++ (if ok then scanEvents segs else [])

def rebuildIndexFromScan (s : Store) : Store :=
  { s with index := Journal.replay s.index (scanEvents s.segs) }

def Store.restart (s : Store) : Store :=
  rebuildIndexFromScan (openExisting s.segs s.segMax s.segMax_pos)

def history (seg : Segment) : List (Key × Record) := (recordsOf seg.data).map fun p => (p.2.key, p.2)

def newestOnDisk (segs : List Segment) (key : Key) : Option Record :=
  Journal.newest ((sortByID segs).flatMap history) key

def scannedBody (segs : List Segment) (key : Key) : Option Bytes :=
  (newestOnDisk segs key).bind fun r => if r.isTomb then none else some r.body

/-! ## The operations -/

/-- Writers call `newSegment` on their own when the active segment is full, and also when they are
about to evict. -/
inductive Op where
  | put (key : Key) (body : Bytes)
  | delete (key : Key)
  | evict (victim : Key)
  | newSegment
  | compactSegment (segID : Nat)
  | compact

def Store.step (s : Store) : Op → Store
  | .put key body => s.put key body
  | .delete key => s.delete key
  | .evict victim => s.evictOne victim
  | .newSegment => s.newSegment
  | .compactSegment segID => s.compactSegment segID
  | .compact => s.compact

/-- The restarted store has the keys of the store before, each at a record of the same body. -/
def Backstop (s : Store) : Prop :=
  ∀ key, (s.restart.index.lookup key).map (bodyAt s.restart.segs) =
    (s.index.lookup key).map (bodyAt s.segs)

def Store.above (s : Store) : List Segment := s.segs.filter (s.activeID < ·.id)

/-- A written record is the newest of its key on disk, or the newest one says the same. A segment
is compacted only if the keys whose place is elsewhere read the same without it. -/
def StepOk (s : Store) : Op → Prop
  | .put key body =>
    body.length < 2 ^ 32 ∧
      ∀ r ∈ newestOnDisk s.newSegment.above key, r.isTomb = false ∧ r.body = body
  | .delete key => ∀ r ∈ newestOnDisk s.newSegment.above key, r.isTomb = true
  | .evict victim =>
    (s.index.lookup victim).isSome → ∀ r ∈ newestOnDisk s.above victim, r.isTomb = true
  | .newSegment => True
  | .compactSegment segID =>
    s.segs.getLast?.map Segment.id ≠ some segID →
      ∀ target ∈ s.segs, target.id = segID → ∀ e ∈ history target,
        (s.index.lookup e.1).map Loc.segID ≠ some segID →
          scannedBody (s.segs.filter (·.id ≠ segID)) e.1 = scannedBody s.segs e.1
  | .compact => True

instance (s : Store) : ∀ op, Decidable (StepOk s op)
  | .put key body => inferInstanceAs (Decidable (_ ∧ ∀ r ∈ newestOnDisk _ key, _ ∧ r.body = body))
  | .delete key => inferInstanceAs (Decidable (∀ r ∈ newestOnDisk _ key, r.isTomb = true))
  | .evict victim =>
    inferInstanceAs (Decidable (_ → ∀ r ∈ newestOnDisk _ victim, r.isTomb = true))
  | .newSegment | .compact => inferInstanceAs (Decidable True)
  | .compactSegment segID =>
    inferInstanceAs (Decidable (_ → ∀ target ∈ s.segs, target.id = segID → ∀ e ∈ history target,
      (s.index.lookup e.1).map Loc.segID ≠ some segID → _ = _))

/-! ## The order of the scan -/

theorem sortByID_perm (segs : List Segment) : (sortByID segs).Perm segs :=
  perm_insertionSort _ _

theorem pairwise_sortByID (segs : List Segment) :
    (sortByID segs).Pairwise fun a b => a.id ≤ b.id := by
  exact pairwise_insertionSort _ _

variable {segs segs' : List Segment}

theorem Files.perm (h : Files segs) (hp : segs.Perm segs') :
    Files segs' :=
  ⟨fun seg hseg => h.whole seg (hp.mem_iff.2 hseg), (hp.map _).nodup_iff.1 h.nodup⟩

variable {s : Store} {segs : List Segment}

theorem Files.filter (h : Files segs) (p : Segment → Bool) : Files (segs.filter p) :=
  ⟨fun seg hseg => h.whole seg (mem_of_mem_filter hseg), h.nodup.sublist (filter_sublist.map _)⟩

theorem Files.sortByID_eq (h : Files segs) (hp : segs'.Perm segs)
    (hs : segs'.Pairwise fun a b => a.id ≤ b.id) : sortByID segs = segs' := by
  refine List.Perm.eq_of_pairwise ?_ (pairwise_sortByID segs) hs
    ((sortByID_perm segs).trans hp.symm)
  intro a b ha hb hab hba
  exact h.eq_of_id ((sortByID_perm segs).mem_iff.1 ha) (hp.mem_iff.1 hb) (le_antisymm hab hba)

theorem Files.newestOnDisk_perm (h : Files segs)
    (hp : segs.Perm segs') (key : Key) : newestOnDisk segs' key = newestOnDisk segs key := by
  rw [newestOnDisk, newestOnDisk,
    h.sortByID_eq ((sortByID_perm segs').trans hp.symm) (pairwise_sortByID segs')]

theorem Files.newestOnDisk_split (h : Files segs) (n : Nat) (key : Key) :
    newestOnDisk segs key = (newestOnDisk (segs.filter fun seg => !(seg.id < n : Bool)) key).or
      (newestOnDisk (segs.filter fun seg => seg.id < n) key) := by
  have hsort : sortByID segs = sortByID (segs.filter fun seg => seg.id < n) ++
      sortByID (segs.filter fun seg => !(seg.id < n : Bool)) := by
    refine h.sortByID_eq ?_ ?_
    · exact ((sortByID_perm _).append (sortByID_perm _)).trans (filter_append_perm _ segs)
    · refine pairwise_append.2 ⟨pairwise_sortByID _, pairwise_sortByID _, ?_⟩
      intro a ha b hb
      have ha := of_mem_filter ((sortByID_perm _).mem_iff.1 ha)
      have hb := of_mem_filter ((sortByID_perm _).mem_iff.1 hb)
      simp only [decide_eq_true_eq, Bool.not_eq_eq_eq_not, Bool.not_true, decide_eq_false_iff_not,
        not_lt] at ha hb
      exact le_of_lt (ha.trans_le hb)
  rw [newestOnDisk, hsort, flatMap_append, Journal.newest_append]
  rfl

/-- The newest record of a key is that of the segment with the highest number, if it has one. -/
theorem Files.newestOnDisk_cons {new : Segment} (h : Files (new :: segs))
    (hlt : ∀ seg ∈ segs, seg.id < new.id) (key : Key) :
    newestOnDisk (new :: segs) key =
      (Journal.newest (history new) key).or (newestOnDisk segs key) := by
  have hsort : sortByID (new :: segs) = sortByID segs ++ [new] := by
    refine h.sortByID_eq (((sortByID_perm segs).append_right _).trans (perm_append_singleton _ _)) ?_
    refine pairwise_append.2 ⟨pairwise_sortByID _, pairwise_singleton _ _, fun seg hseg => ?_⟩
    simpa using (hlt seg ((sortByID_perm segs).mem_iff.1 hseg)).le
  rw [newestOnDisk, hsort, flatMap_append, Journal.newest_append, flatMap_singleton]
  rfl

theorem newestOnDisk_singleton (seg : Segment) (key : Key) :
    newestOnDisk [seg] key = Journal.newest (history seg) key := by
  simp [newestOnDisk, sortByID]

theorem Files.filter_id_eq (h : Files segs) {seg : Segment} (hseg : seg ∈ segs) :
    segs.filter (·.id = seg.id) = [seg] := by
  have hnodup : (segs.filter (·.id = seg.id)).Nodup := (List.Nodup.of_map _ h.nodup).filter _
  refine perm_singleton.1 ((perm_ext_iff_of_nodup hnodup (by simp)).2 ?_)
  intro seg'
  rw [mem_filter, mem_singleton]
  constructor
  · intro h'
    exact h.eq_of_id h'.1 hseg (by simpa using h'.2)
  · intro h'
    rw [h']
    exact ⟨hseg, by simp⟩

theorem filter_filter_eq {p q r : Segment → Bool} (h : ∀ seg, (q seg && p seg) = r seg)
    (segs : List Segment) : (segs.filter p).filter q = segs.filter r := by
  rw [filter_filter]
  exact filter_congr fun seg _ => h seg

theorem Files.newestOnDisk_of_mem (h : Files segs) {seg : Segment} (hseg : seg ∈ segs) (key : Key) :
    newestOnDisk segs key =
      (newestOnDisk (segs.filter (seg.id < ·.id)) key).or
        ((Journal.newest (history seg) key).or
          (newestOnDisk (segs.filter (·.id < seg.id)) key)) := by
  have habove : (segs.filter fun x => !(x.id < seg.id : Bool)).filter
      (fun x => !(x.id < seg.id + 1 : Bool)) = segs.filter (seg.id < ·.id) :=
    filter_filter_eq (by grind) segs
  have hhere : (segs.filter fun x => !(x.id < seg.id : Bool)).filter
      (fun x => x.id < seg.id + 1) = [seg] :=
    (filter_filter_eq (by grind) segs).trans (h.filter_id_eq hseg)
  rw [h.newestOnDisk_split seg.id, (h.filter _).newestOnDisk_split (seg.id + 1), habove, hhere,
    newestOnDisk_singleton, Option.or_assoc]

/-! ## What a restart finds -/

theorem scanEvents_eq (h : ∀ seg ∈ segs, WholeRecords seg.data) :
    scanEvents segs = segs.flatMap fun seg => (recordsOf seg.data).map (scanEvent seg.id) := by
  induction segs with
  | nil => rfl
  | cons seg segs ih =>
    have hok := (h seg (.head _)).scan_ok
    rw [scanEvents, ih fun seg' h' => h seg' (.tail _ h'), flatMap_cons, recordsOf]
    simp [hok]

theorem restart_lookup (h : Files s.segs) (key : Key) :
    (s.restart.index.lookup key).map (bodyAt s.restart.segs) =
      (scannedBody s.segs key).map some := by
  have hfiles : Files (sortByID s.segs) := h.perm (sortByID_perm s.segs).symm
  -- the scan and the history go through the same records
  let entries := (sortByID s.segs).flatMap fun seg =>
    (recordsOf seg.data).map fun p => (p.2.key, seg.id, p)
  have hevents : scanEvents (sortByID s.segs) =
      entries.map fun e => (e.1, (scanEvent e.2.1 e.2.2).2) := by
    rw [scanEvents_eq hfiles.whole, map_flatMap]
    simp only [map_map]
    rfl
  have hhistory : (sortByID s.segs).flatMap history = entries.map fun e => (e.1, e.2.2.2) := by
    rw [map_flatMap]
    simp only [map_map]
    rfl
  have hindex : s.restart.index.lookup key =
      (Journal.newest (scanEvents (sortByID s.segs)) key).getD none :=
    Journal.lookup_replay ∅ _ key
  rw [hindex, hevents, scannedBody, newestOnDisk, hhistory,
    Journal.newest_map (fun v => (scanEvent v.1 v.2).2) entries key,
    Journal.newest_map (fun v => v.2.2) entries key]
  cases hnew : Journal.newest entries key with
  | none => rfl
  | some v =>
    obtain ⟨segID, p⟩ := v
    have hmem := Journal.mem_of_newest hnew
    obtain ⟨seg, hseg, hmem⟩ := mem_flatMap.1 hmem
    obtain ⟨q, hq, heq⟩ := mem_map.1 hmem
    obtain ⟨-, rfl, rfl⟩ : q.2.key = key ∧ seg.id = segID ∧ q = p := by simpa using heq
    cases htomb : q.2.isTomb with
    | true => simp [scanEvent, htomb]
    | false =>
      have hbody : bodyAt s.restart.segs ⟨seg.id, q.1, 0⟩ = _ :=
        hfiles.bodyAt_eq hseg hq rfl rfl (.inl rfl)
      simpa [scanEvent, htomb] using hbody

theorem IndexPoints.map_bodyAt (h : Files s.segs) (hi : IndexPoints s) (key : Key) :
    (s.index.lookup key).map (bodyAt s.segs) = (s.readRecord key).map some := by
  rw [Store.readRecord]
  cases hloc : s.index.lookup key with
  | none => rfl
  | some loc =>
    obtain ⟨seg, hseg, hid, r, hr, -, hlive, hsize⟩ := hi key loc hloc
    have hbody := h.bodyAt_eq hseg hr hid rfl hsize
    simp [hbody, hlive]

def ScanAgrees (s : Store) : Prop := ∀ key, scannedBody s.segs key = s.readRecord key

theorem backstop_iff (h : Files s.segs) (hi : IndexPoints s) : Backstop s ↔ ScanAgrees s := by
  refine forall_congr' fun key => ?_
  rw [restart_lookup h, hi.map_bodyAt h]
  exact (Option.map_injective fun _ _ => Option.some.inj).eq_iff

/-! ## Writes -/

theorem Layout.newestOnDisk_newSegment (h : Layout s) (key : Key) :
    newestOnDisk s.newSegment.segs key = newestOnDisk s.segs key := by
  refine newSegment_induction rfl ?_
  have hfiles : Files (s.segs ++ [⟨s.nextID, []⟩]) := h.files.concat h.fresh wholeRecords_nil
  have hperm := perm_append_singleton (⟨s.nextID, []⟩ : Segment) s.segs
  rw [← hfiles.newestOnDisk_perm hperm, (hfiles.perm hperm).newestOnDisk_cons h.fresh]
  rfl

/-- A record written to the active segment is the newest of its key, unless a segment above has a
record of the key. -/
theorem Layout.newestOnDisk_append (h : Layout s) (hne : s.segs ≠ []) {r : Record} (hr : r.Fits)
    (hroom : s.full = false ∨ r.isTomb) (key : Key) :
    newestOnDisk (s.append r).segs key =
      if r.key = key then (newestOnDisk s.above key).or (some r) else newestOnDisk s.segs key := by
  obtain ⟨init, seg, hsegs⟩ : ∃ init seg, s.segs = init ++ [seg] :=
    (eq_nil_or_concat' s.segs).resolve_left hne
  have hmem : seg ∈ s.segs := by simp [hsegs]
  have hfiles := (h.append hr hroom).files
  have hhist : history ⟨seg.id, seg.data ++ r.encode⟩ = history seg ++ [(r.key, r)] := by
    rw [history, (h.files.whole seg hmem).recordsOf_append hr]
    simp [history]
  have hkeep : ∀ (p : Nat → Bool), p seg.id = false →
      (s.append r).segs.filter (fun x => p x.id) = s.segs.filter (fun x => p x.id) := by
    intro p hp
    rw [append_eq hsegs, hsegs]
    simp [hp]
  have hmem' : (⟨seg.id, seg.data ++ r.encode⟩ : Segment) ∈ (s.append r).segs := by
    rw [append_eq hsegs]
    simp
  rw [hfiles.newestOnDisk_of_mem hmem' key, h.files.newestOnDisk_of_mem hmem key, hhist,
    Journal.newest_append, Journal.newest_singleton,
    hkeep (seg.id < ·) (by simp), hkeep (· < seg.id) (by simp), Store.above, activeID_eq hsegs]
  by_cases hk : r.key = key
  · rw [if_pos hk, if_pos hk]
    rfl
  · rw [if_neg hk, if_neg hk]
    rfl

section

variable {s : Store} (h : Layout s) (hi : IndexPoints s) (hs : ScanAgrees s)

theorem newSegment_ne_nil : s.newSegment.segs ≠ [] := by
  obtain ⟨init, seg, hsegs, -⟩ := exists_active_newSegment (s := s)
  simp [hsegs]

include h hi

theorem readRecord_newSegment (key : Key) : s.newSegment.readRecord key = s.readRecord key :=
  readRecord_grow hi h.files h.newSegment.files (grows_newSegment s) (congrArg _ index_newSegment)

include hs

theorem ScanAgrees.newSegment : ScanAgrees s.newSegment := by
  intro key
  rw [scannedBody, h.newestOnDisk_newSegment, readRecord_newSegment h hi]
  exact hs key

omit hi in
theorem scanAgrees_append {s' : Store} {r : Record} (hne : s.segs ≠ []) (hr : r.Fits)
    (hroom : s.full = false ∨ r.isTomb) (hsegs : s'.segs = (s.append r).segs)
    (hread : ∀ k, s'.readRecord k =
      if k = r.key then if r.isTomb then none else some r.body else s.readRecord k)
    (hok : ∀ q ∈ newestOnDisk s.above r.key,
      (if q.isTomb then none else some q.body) = if r.isTomb then none else some r.body) :
    ScanAgrees s' := by
  intro k
  rw [scannedBody, hsegs, hread, h.newestOnDisk_append hne hr hroom]
  by_cases hk : r.key = k
  · subst hk
    rw [if_pos rfl, if_pos rfl]
    cases habove : newestOnDisk s.above r.key with
    | none => rfl
    | some q => exact hok q habove
  · rw [if_neg hk, if_neg (Ne.symm hk)]
    exact hs k

variable {key : Key}

theorem ScanAgrees.put {body : Bytes} (hb : body.length < 2 ^ 32)
    (hok : ∀ r ∈ newestOnDisk s.newSegment.above key, r.isTomb = false ∧ r.body = body) :
    ScanAgrees (s.put key body) := by
  refine scanAgrees_append h.newSegment (ScanAgrees.newSegment h hi hs) newSegment_ne_nil
    (fits_live key hb) (.inl not_full_newSegment) rfl (fun k => ?_) fun q hq => by simp [hok q hq]
  rw [readRecord_put h hi hb, readRecord_newSegment h hi]
  rfl

theorem ScanAgrees.delete
    (hok : ∀ r ∈ newestOnDisk s.newSegment.above key, r.isTomb) :
    ScanAgrees (s.delete key) := by
  refine scanAgrees_append h.newSegment (ScanAgrees.newSegment h hi hs) newSegment_ne_nil
    (fits_tombstone key) (.inr rfl) rfl (fun k => ?_) fun q hq => if_pos (hok q hq)
  rw [readRecord_remove (lookup_delete s key) hi h.files h.delete.files (grows_delete h),
    readRecord_newSegment h hi]
  rfl

theorem ScanAgrees.evictOne {victim : Key}
    (hok : (s.index.lookup victim).isSome → ∀ r ∈ newestOnDisk s.above victim, r.isTomb) :
    ScanAgrees (s.evictOne victim) := by
  cases hsome : (s.index.lookup victim).isSome with
  | false =>
    rw [Store.evictOne, hsome]
    exact hs
  | true =>
    obtain ⟨loc, hloc⟩ := Option.isSome_iff_exists.1 hsome
    obtain ⟨seg, hseg, -⟩ := hi victim loc hloc
    refine scanAgrees_append h hs (ne_nil_of_mem hseg) (fits_tombstone victim) (.inr rfl) ?_ ?_
      fun q hq => if_pos (hok hsome q hq)
    · rw [Store.evictOne, hsome]
      rfl
    · exact readRecord_remove (lookup_evictOne s victim) hi h.files h.evictOne.files
        (grows_evictOne h)

end

/-! ## Compactions -/

section

variable {s : Store} (h : Layout s) {target : Segment} (hmem : target ∈ s.segs)
include h hmem

theorem newestOnDisk_swap (key : Key) :
    newestOnDisk (s.swapCompactSegment target).segs key =
      (Journal.newest (history (s.writeCompactTemp target)) key).or
        (newestOnDisk (s.segs.filter (·.id ≠ target.id)) key) := by
  have hfiles := (layout_swap hmem h).files
  have hperm := swap_segs_perm hmem h
  rw [← hfiles.newestOnDisk_perm hperm]
  exact (hfiles.perm hperm).newestOnDisk_cons (fun seg hseg => h.fresh seg (mem_of_mem_filter hseg)) key

theorem newestOnDisk_without (key : Key) (hnone : ∀ e ∈ history target, e.1 ≠ key) :
    newestOnDisk (s.segs.filter (·.id ≠ target.id)) key = newestOnDisk s.segs key := by
  have hsplit := (h.files.filter (·.id ≠ target.id)).newestOnDisk_split target.id key
  have habove : (s.segs.filter (·.id ≠ target.id)).filter (fun x => !(x.id < target.id : Bool)) =
      s.segs.filter (target.id < ·.id) := filter_filter_eq (by grind) s.segs
  have hbelow : (s.segs.filter (·.id ≠ target.id)).filter (fun x => x.id < target.id) =
      s.segs.filter (·.id < target.id) := filter_filter_eq (by grind) s.segs
  rw [habove, hbelow] at hsplit
  rw [hsplit, h.files.newestOnDisk_of_mem hmem key, Journal.newest_eq_none.2 hnone,
    Option.none_or]

omit h hmem in
theorem mem_history_writeCompactTemp {e : Key × Record} :
    e ∈ history (s.writeCompactTemp target) ↔ e.2 ∈ pending s.index target ∧ e.1 = e.2.key := by
  have hmap : (place Record.encode 0 (pending s.index target)).map Prod.snd =
      pending s.index target := map_snd_place 0 _
  have hhist : history (s.writeCompactTemp target) =
      (pending s.index target).map fun r => (r.key, r) := by
    rw [history, recordsOf_writeCompactTemp]
    conv_rhs => rw [← hmap, map_map]
    rfl
  rw [hhist, mem_map]
  constructor
  · intro he
    obtain ⟨r, hr, rfl⟩ := he
    exact ⟨hr, rfl⟩
  · intro he
    exact ⟨e.2, he.1, Prod.ext he.2.symm rfl⟩

theorem ScanAgrees.swap (hi : IndexPoints s) (hs : ScanAgrees s)
    (hok : ∀ e ∈ history target, (s.index.lookup e.1).map Loc.segID ≠ some target.id →
      scannedBody (s.segs.filter (·.id ≠ target.id)) e.1 = scannedBody s.segs e.1) :
    ScanAgrees (s.swapCompactSegment target) := by
  intro key
  rw [scannedBody, newestOnDisk_swap h hmem, readRecord_swap hmem h hi]
  cases hnew : Journal.newest (history (s.writeCompactTemp target)) key with
  | some r =>
    -- the key's record was copied
    obtain ⟨hr, hkey⟩ : r ∈ pending s.index target ∧ key = r.key :=
      mem_history_writeCompactTemp.1 (Journal.mem_of_newest hnew)
    subst hkey
    have hlive := isTomb_of_mem_pending hr
    rw [readRecord_of_mem_kept h hi.sound (mem_flatMap.2 ⟨target, hmem, hr⟩)]
    simp [hlive]
  | none =>
    rw [Option.none_or, ← scannedBody, ← hs key]
    by_cases hrec : ∃ e ∈ history target, e.1 = key
    · obtain ⟨e, he, rfl⟩ := hrec
      refine hok e he fun hseg => ?_
      obtain ⟨loc, hloc, hid⟩ := Option.map_eq_some_iff.1 hseg
      obtain ⟨r, hr, hkey, -⟩ := exists_copy hmem h hloc (hi _ loc hloc) hid
      exact Journal.newest_eq_none.1 hnew (r.key, r)
        (mem_history_writeCompactTemp.2 ⟨hr, rfl⟩) hkey
    · rw [scannedBody, scannedBody, newestOnDisk_without h hmem key fun e he hk => hrec ⟨e, he, hk⟩]

end

def Topmost (s : Store) : Prop := ∀ seg ∈ s.segs, seg.id ≤ s.activeID

theorem Topmost.newSegment (h : Layout s) (ht : Topmost s) : Topmost s.newSegment := by
  refine newSegment_induction ht ?_
  rw [Topmost, activeID_eq rfl]
  exact forall_mem_concat.2 ⟨fun seg hseg => le_of_lt (h.fresh seg hseg), le_rfl⟩

theorem Topmost.above_eq (ht : Topmost s) : s.above = [] := by
  refine filter_eq_nil_iff.2 fun seg hseg => ?_
  simpa using ht seg hseg

theorem Topmost.append (ht : Topmost s) (r : Record) : Topmost (s.append r) := by
  refine append_induction r (fun _ => ht) fun init seg hsegs => ?_
  rw [Topmost, activeID_eq hsegs, hsegs, forall_mem_concat] at ht
  rw [Topmost, activeID_eq rfl]
  exact forall_mem_concat.2 ht

theorem Topmost.put (h : Layout s) (ht : Topmost s) (key : Key) (body : Bytes) :
    Topmost (s.put key body) :=
  (ht.newSegment h).append _

theorem scanAgrees_putAll (h : Layout s) (hi : IndexPoints s) (hs : ScanAgrees s) (ht : Topmost s)
    {rs : List Record} (hfits : ∀ r ∈ rs, Record.Fits r) : ScanAgrees (s.putAll rs) := by
  induction rs generalizing s with
  | nil => exact hs
  | cons r rs ih =>
    have hr := hfits r (.head _)
    have hs' : ScanAgrees (s.put r.key r.body) := by
      refine ScanAgrees.put h hi hs hr ?_
      rw [(ht.newSegment h).above_eq]
      intro r' hr'
      cases hr'
    exact ih (h.put hr) (hi.put h r.key hr) hs' (ht.put h r.key r.body)
      fun r' hr' => hfits r' (.tail _ hr')

theorem ScanAgrees.compact (hs : ScanAgrees s) : ScanAgrees s.compact :=
  compact_induction hs (scanAgrees_putAll (layout_empty s.segMax_pos) (indexPoints_empty s.segMax_pos)
    (fun _ => rfl) (fun seg hseg => by cases hseg) (fits_kept s))

/-! ## Runs -/

structure Kept (s : Store) : Prop where
  layout : Layout s
  points : IndexPoints s
  agrees : ScanAgrees s

/-- The body of a `Put` fits the header of a record. -/
def Op.Fits : Op → Prop
  | .put _ body => body.length < 2 ^ 32
  | _ => True

def contentsStep (m : Key → Option Bytes) : Op → Key → Option Bytes
  | .put key body => fun k => if k = key then some body else m k
  | .delete key => fun k => if k = key then none else m k
  | .evict victim => fun k => if k = victim then none else m k
  | .newSegment | .compactSegment _ | .compact => m

/-- Every operation does to what can be read what it does to a map. -/
theorem Layout.step (hl : Layout s) (hi : IndexPoints s) {op : Op} (hop : op.Fits) :
    Layout (s.step op) ∧ IndexPoints (s.step op) ∧
      (s.step op).readRecord = contentsStep s.readRecord op := by
  cases op with
  | put key body => exact ⟨hl.put hop, hi.put hl key hop, funext (readRecord_put hl hi hop)⟩
  | delete key =>
    exact ⟨hl.delete, hi.remove (lookup_delete s key) (grows_delete hl), funext
      (readRecord_remove (lookup_delete s key) hi hl.files hl.delete.files (grows_delete hl))⟩
  | evict victim =>
    exact ⟨hl.evictOne, hi.remove (lookup_evictOne s victim) (grows_evictOne hl), funext
      (readRecord_remove (lookup_evictOne s victim) hi hl.files hl.evictOne.files
        (grows_evictOne hl))⟩
  | newSegment =>
    refine ⟨hl.newSegment, hi.grow (grows_newSegment s) fun k loc hloc => ?_,
      funext (readRecord_newSegment hl hi)⟩
    rwa [Store.step, index_newSegment] at hloc
  | compactSegment segID =>
    exact compactSegment_induction
      (motive := fun w => Layout w ∧ IndexPoints w ∧ w.readRecord = s.readRecord) ⟨hl, hi, rfl⟩
      fun _ hmem _ _ => ⟨layout_swap hmem hl, hi.swap hmem hl, funext (readRecord_swap hmem hl hi)⟩
  | compact => exact ⟨hl.compact, hi.compact, funext (readRecord_compact hl hi.sound)⟩

theorem Layout.readRecord_run (hl : Layout s) (hi : IndexPoints s) {ops : List Op}
    (hfits : Along Store.step (fun _ => Op.Fits) s ops) :
    (run Store.step s ops).readRecord = ops.foldl contentsStep s.readRecord := by
  induction ops generalizing s with
  | nil => rfl
  | cons op ops ih =>
    obtain ⟨hl', hi', hread⟩ := hl.step hi hfits.1
    rw [run_cons, ih hl' hi' hfits.2, hread, foldl_cons]

/-- **The store is a map.** After every run a read finds the last body put, unless a delete or an
eviction came later; segments and compactions do not show. -/
theorem reads_as_map {segMax : Nat} (h : 0 < segMax) {ops : List Op} (hfits : ∀ op ∈ ops, op.Fits) :
    (run Store.step (Store.empty segMax h) ops).readRecord = ops.foldl contentsStep fun _ => none :=
  (layout_empty h).readRecord_run (indexPoints_empty h) (along_of_mem hfits _)

example : (run Store.step (Store.empty 1 (by decide))
    [.put (copyFixed 16 [1]) [1], .delete (copyFixed 16 [1]), .compactSegment 0, .compact]).readRecord
      (copyFixed 16 [1]) = none := by
  rw [reads_as_map _ (by simp [Op.Fits])]
  simp [contentsStep]

theorem kept_empty {segMax : Nat} (h : 0 < segMax) : Kept (Store.empty segMax h) :=
  ⟨layout_empty h, indexPoints_empty h, fun _ => rfl⟩

theorem StepOk.fits {op : Op} (h : StepOk s op) : op.Fits := by
  cases op with
  | put => exact h.1
  | _ => trivial

theorem Kept.step (h : Kept s) {op : Op} (hok : StepOk s op) : Kept (s.step op) := by
  obtain ⟨hl, hi, hs⟩ := h
  obtain ⟨hl', hi', -⟩ := hl.step hi hok.fits
  refine ⟨hl', hi', ?_⟩
  cases op with
  | put key body => exact ScanAgrees.put hl hi hs hok.1 hok.2
  | delete key => exact ScanAgrees.delete hl hi hs hok
  | evict victim => exact ScanAgrees.evictOne hl hi hs hok
  | newSegment => exact ScanAgrees.newSegment hl hi hs
  | compactSegment segID =>
    refine compactSegment_induction (motive := ScanAgrees) hs fun target hmem hid hsealed => ?_
    subst hid
    exact ScanAgrees.swap hl hmem hi hs (hok hsealed target hmem rfl)
  | compact => exact ScanAgrees.compact hs

theorem Kept.readRecord_run (h : Kept s) {ops : List Op} (hok : Along Store.step StepOk s ops) :
    (run Store.step s ops).readRecord = ops.foldl contentsStep s.readRecord :=
  h.layout.readRecord_run h.points (hok.mono fun _ _ => StepOk.fits)

theorem Backstop.readRecord_restart (h : Backstop s) (key : Key) :
    s.restart.readRecord key = s.readRecord key := by
  have hkey := congrArg (Option.bind · id) (h key)
  simp only [Option.bind_map] at hkey
  exact hkey

/-- A restart on the segment files alone finds the index of the store, and so the last body
written for each key, in every run without preallocated files whose writes reach the end of the scan
and whose compactions of one segment drop no tombstone that still hides a record. -/
theorem scan_rebuilds_index {segMax preallocate : Nat} (h : 0 < segMax) (hzero : preallocate = 0)
    (ops : List Op) (hok : Along Store.step StepOk (newStore segMax h preallocate) ops) :
    Always Store.step Backstop (newStore segMax h preallocate) ops ∧
      (run Store.step (newStore segMax h preallocate) ops).restart.readRecord =
        ops.foldl contentsStep fun _ => none := by
  subst hzero
  have hempty : newStore segMax h 0 = Store.empty segMax h := rfl
  rw [hempty] at hok ⊢
  have hkept : Always Store.step Kept (Store.empty segMax h) ops :=
    always_of_along (fun _ _ hs hok => hs.step hok) (kept_empty h) hok
  have hback := hkept.mono fun _ hs => (backstop_iff hs.layout.files hs.points).2 hs.agrees
  refine ⟨hback, funext fun key => ?_⟩
  rw [hback.last.readRecord_restart, (kept_empty h).readRecord_run hok]
  rfl

def exampleKey (n : UInt8) : Key := copyFixed 16 [n]

/-- A tombstone is compacted away while the record it hides is in another segment. Every record
fills a segment of one byte. -/
def compactedTombstone : List Op :=
  [.put (exampleKey 1) [1], .delete (exampleKey 1), .put (exampleKey 2) [2], .compactSegment 1]

/-- An overwrite in the active segment, which has a lower number than the compacted copy of the
record it replaces. -/
def overwriteBelowCopy : List Op :=
  [.put (exampleKey 1) [1], .put (exampleKey 2) [2], .put (exampleKey 3) [3],
    .put (exampleKey 4) [4], .compactSegment 0, .put (exampleKey 1) [5]]

/-- Besides, the scan of a preallocated file ends in an error, and the index stays empty. -/
theorem scan_brings_old_versions_back :
    ((run Store.step (newStore 1 (by decide) 0) compactedTombstone).readRecord (exampleKey 1) = none ∧
      (run Store.step (newStore 1 (by decide) 0) compactedTombstone).restart.readRecord
        (exampleKey 1) = some [1]) ∧
    ((run Store.step (newStore 60 (by decide) 0) overwriteBelowCopy).readRecord (exampleKey 1) =
        some [5] ∧
      (run Store.step (newStore 60 (by decide) 0) overwriteBelowCopy).restart.readRecord
        (exampleKey 1) = some [1]) ∧
    ((run Store.step (newStore 60 (by decide) 60) [.put (exampleKey 1) [1]]).readRecord
        (exampleKey 1) = some [1] ∧
      (run Store.step (newStore 60 (by decide) 60) [.put (exampleKey 1) [1]]).restart.readRecord
        (exampleKey 1) = none) := by
  decide +kernel

def compactedRun : List Op :=
  [.put (exampleKey 1) [1], .put (exampleKey 2) [2], .delete (exampleKey 2),
    .put (exampleKey 3) [3], .put (exampleKey 1) [4], .compactSegment 0, .evict (exampleKey 3),
    .compact, .put (exampleKey 2) [5]]

theorem scan_rebuilds_compacted_index :
    Always Store.step Backstop (newStore 60 (by decide) 0) compactedRun ∧
      (run Store.step (newStore 60 (by decide) 0) compactedRun).restart.readRecord =
        compactedRun.foldl contentsStep fun _ => none :=
  scan_rebuilds_index _ rfl _ (by decide +kernel)

end Bouine.Storage.Warm
