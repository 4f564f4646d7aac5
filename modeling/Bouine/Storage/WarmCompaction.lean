import Bouine.Lib.Journal
import Bouine.Storage.WarmStore

/-! # Compaction of the warm store

Both compactions keep the records the index names. They keep the layout of the store (in particular
numbers given out later are unused, although `Compact` numbers its segments from zero and leaves
`nextID` alone), the index names the copies afterwards, and no read returns anything else than
before.
-/

namespace Bouine.Storage.Warm

open Lib Lib.Framing List Nat

/-! ## The records a compaction keeps -/

variable {index : Index} {s : Store} {rs : List Record} {seg : Segment}

theorem isIndexed_iff {segID : Nat} {p : Nat × Record} :
    isIndexed index segID p ↔
      p.2.isTomb = false ∧
        ∃ loc, index.lookup p.2.key = some loc ∧ loc.segID = segID ∧ loc.offset = p.1 := by
  unfold isIndexed
  cases index.lookup p.2.key with
  | none => simp
  | some loc => simp

theorem mem_pending {r : Record} :
    r ∈ pending index seg ↔
      ∃ off, (off, r) ∈ recordsOf seg.data ∧ isIndexed index seg.id (off, r) = true := by
  simp [pending]

theorem isTomb_of_mem_pending {r : Record} (hr : r ∈ pending index seg) : r.isTomb = false := by
  obtain ⟨off, -, hi⟩ := mem_pending.1 hr
  exact (isIndexed_iff.1 hi).1

section

variable {index : Index} {seg : Segment}

theorem fits_of_mem_pending {r : Record} (hr : r ∈ pending index seg) : r.Fits := by
  obtain ⟨off, hmem, -⟩ := mem_pending.1 hr
  exact fits_of_mem_recordsOf hmem

theorem exists_of_mem_place_pending (h : WholeRecords seg.data) {p : Nat × Record}
    (hp : p ∈ place Record.encode 0 (pending index seg)) :
    ∃ off, p.1 ≤ off ∧ (off, p.2) ∈ recordsOf seg.data ∧
      isIndexed index seg.id (off, p.2) = true := by
  obtain ⟨rs, hrs, hdata⟩ := h
  have hrec : recordsOf seg.data = place Record.encode 0 rs := by
    rw [recordsOf, hdata, scanSegment_encodeAll hrs]
  rw [pending, hrec] at hp
  rw [hrec]
  exact exists_of_mem_place_filter (le_refl 0) hp

theorem eq_of_isIndexed {p q : Nat × Record} (hp : p ∈ recordsOf seg.data)
    (hpi : isIndexed index seg.id p) (hq : q ∈ recordsOf seg.data)
    (hqi : isIndexed index seg.id q) (hkey : p.2.key = q.2.key) : p = q := by
  obtain ⟨-, loc, hloc, -, hoff⟩ := isIndexed_iff.1 hpi
  obtain ⟨-, loc', hloc', -, hoff'⟩ := isIndexed_iff.1 hqi
  rw [hkey, hloc'] at hloc
  rw [Option.some.inj hloc, hoff] at hoff'
  exact inj_on_of_nodup_map (nodup_offsets _) hp hq hoff'

theorem nodup_pending_keys : ((pending index seg).map Record.key).Nodup := by
  have hnodup := (List.Nodup.of_map _ (nodup_offsets seg.data)).filter (isIndexed index seg.id)
  rw [pending, map_map]
  refine List.Nodup.map_on ?_ hnodup
  intro p hp q hq hkey
  obtain ⟨hp, hpi⟩ := mem_filter.1 hp
  obtain ⟨hq, hqi⟩ := mem_filter.1 hq
  exact eq_of_isIndexed hp hpi hq hqi hkey

theorem nodup_copy_keys :
    ((place Record.encode 0 (pending index seg)).map (·.2.key)).Nodup := by
  have hkeys : ((pending index seg).map Record.key).Nodup := nodup_pending_keys
  have hsnd : (place Record.encode 0 (pending index seg)).map Prod.snd = pending index seg :=
    map_snd_place 0 _
  rwa [← hsnd, map_map] at hkeys

end

/-! ## One segment -/

theorem lookup_relocate (segID newSegID : Nat) (index : Index) (p : Nat × Record) (k : Key) :
    (relocate segID newSegID index p).lookup k =
      if p.2.key = k ∧ (index.lookup k).map Loc.segID = some segID then
        some ⟨newSegID, p.1, recSize p.2.body⟩
      else index.lookup k := by
  unfold relocate
  cases hcur : index.lookup p.2.key with
  | none =>
    rw [if_neg]
    intro hk
    rw [← hk.1, hcur] at hk
    exact absurd hk.2 (by simp)
  | some cur =>
    by_cases hk : p.2.key = k
    · subst hk
      by_cases hseg : cur.segID = segID
      · simp [hcur, hseg]
      · simp [hcur, hseg]
    · by_cases hseg : cur.segID = segID
      · simp [hseg, hk, AList.lookup_insert_ne (Ne.symm hk)]
      · simp [hseg, hk]

theorem lookup_foldl_relocate (segID newSegID : Nat) (index : Index)
    {ps : List (Nat × Record)} (hnodup : (ps.map (·.2.key)).Nodup) (k : Key) :
    ((ps.foldl (relocate segID newSegID) index).lookup k = index.lookup k ∧
        ((index.lookup k).map Loc.segID = some segID → ∀ p ∈ ps, p.2.key ≠ k)) ∨
      ((index.lookup k).map Loc.segID = some segID ∧ ∃ p ∈ ps, p.2.key = k ∧
        (ps.foldl (relocate segID newSegID) index).lookup k =
          some ⟨newSegID, p.1, recSize p.2.body⟩) := by
  induction ps generalizing index with
  | nil => exact .inl ⟨rfl, by simp⟩
  | cons p ps ih =>
    rw [map_cons, nodup_cons] at hnodup
    have hrel := lookup_relocate segID newSegID index p k
    rw [foldl_cons]
    by_cases hk : p.2.key = k ∧ (index.lookup k).map Loc.segID = some segID
    · -- later copies have other keys
      rw [if_pos hk] at hrel
      refine .inr ⟨hk.2, p, (.head _), hk.1, ?_⟩
      rcases ih (relocate segID newSegID index p) hnodup.2 with
        ⟨heq, -⟩ | ⟨-, q, hq, hqk, -⟩
      · rw [heq, hrel]
      · exact absurd (mem_map.2 ⟨q, hq, hqk.trans hk.1.symm⟩) hnodup.1
    · rw [if_neg hk] at hrel
      rcases ih (relocate segID newSegID index p) hnodup.2 with
        ⟨heq, hnone⟩ | ⟨hseg, q, hq, hqk, heq⟩
      · refine .inl ⟨heq.trans hrel, fun hseg q hq => ?_⟩
        rcases mem_cons.1 hq with rfl | hq
        · exact fun hqk => hk ⟨hqk, hseg⟩
        · exact hnone (by rw [hrel]; exact hseg) q hq
      · exact .inr ⟨by rw [← hrel]; exact hseg, q, .tail _ hq, hqk, heq⟩

@[elab_as_elim] theorem compactSegment_induction {motive : Store → Prop} {s : Store} {segID : Nat}
    (same : motive s) (swap : ∀ target ∈ s.segs, target.id = segID →
      s.segs.getLast?.map Segment.id ≠ some segID → motive (s.swapCompactSegment target)) :
    motive (s.compactSegment segID) := by
  unfold Store.compactSegment
  split
  · exact same
  · rename_i target hfind
    split_ifs with hlast hscan
    · exact same
    · exact same
    · exact swap target (mem_of_find?_eq_some hfind) (by simpa using find?_some hfind) hlast

/-- `swapCompactSegment` with the records kept when the segment was scanned: the new segment takes
the old one's place in `segs`. -/
def Store.swapIn (s : Store) (segID newID : Nat) (kept : List Record) : Store :=
  { s with
    segs := s.segs.map fun seg =>
      if seg.id = segID then ⟨newID, encodeAll Record.encode kept⟩ else seg
    index := (place Record.encode 0 kept).foldl (relocate segID newID) s.index }

theorem nodup_swapIn {s : Store} (segID : Nat) {newID : Nat} (kept : List Record)
    (h : (s.segs.map Segment.id).Nodup) (hnew : ∀ seg ∈ s.segs, seg.id ≠ newID) :
    ((s.swapIn segID newID kept).segs.map Segment.id).Nodup := by
  rw [Store.swapIn, map_map]
  refine List.Nodup.map_on ?_ (.of_map _ h)
  intro a ha b hb hab
  simp only [Function.comp_apply] at hab
  split_ifs at hab with ha' hb' hb'
  · exact inj_on_of_nodup_map h ha hb (ha'.trans hb'.symm)
  · exact absurd hab.symm (hnew b hb)
  · exact absurd hab (hnew a ha)
  · exact inj_on_of_nodup_map h ha hb hab

section

variable {s : Store} {target : Segment} {newID : Nat} {kept : List Record} (hmem : target ∈ s.segs)
include hmem

theorem mem_segs_swapIn {seg : Segment} :
    seg ∈ (s.swapIn target.id newID kept).segs ↔
      seg = ⟨newID, encodeAll Record.encode kept⟩ ∨ (seg ∈ s.segs ∧ seg.id ≠ target.id) := by
  constructor
  · intro hseg
    obtain ⟨seg', hseg', rfl⟩ := mem_map.1 hseg
    by_cases hid : seg'.id = target.id
    · exact .inl (if_pos hid)
    · rw [if_neg hid]
      exact .inr ⟨hseg', hid⟩
  · rintro (rfl | ⟨hseg, hid⟩)
    · exact mem_map.2 ⟨target, hmem, if_pos rfl⟩
    · exact mem_map.2 ⟨seg, hseg, if_neg hid⟩

variable (hfits : ∀ r ∈ kept, r.Fits) (hf : Files s.segs)
include hfits hf

theorem files_swapIn (hnew : ∀ seg ∈ s.segs, seg.id ≠ newID) :
    Files (s.swapIn target.id newID kept).segs := by
  refine ⟨fun seg hseg => ?_, nodup_swapIn target.id kept hf.nodup hnew⟩
  rcases (mem_segs_swapIn hmem).1 hseg with rfl | ⟨hseg, -⟩
  · exact wholeRecords_encodeAll hfits
  · exact hf.whole seg hseg

/-- A place outside the compacted segment stays; one inside becomes that of the copy. Both read the
body they read before. -/
theorem lookup_swapIn (hf' : Files (s.swapIn target.id newID kept).segs)
    (hkeys : (kept.map Record.key).Nodup) (hlive : ∀ r ∈ kept, r.isTomb = false)
    {key : Key} {loc : Loc} (hloc : s.index.lookup key = some loc) (hp : Points s.segs key loc)
    (hcopied : loc.segID = target.id →
      ∃ r ∈ kept, r.key = key ∧ bodyAt s.segs loc = some r.body) :
    ∃ loc', (s.swapIn target.id newID kept).index.lookup key = some loc' ∧
      Points (s.swapIn target.id newID kept).segs key loc' ∧
      bodyAt (s.swapIn target.id newID kept).segs loc' = bodyAt s.segs loc := by
  have hsnd : (place Record.encode 0 kept).map Prod.snd = kept := map_snd_place 0 kept
  rw [← hsnd, map_map] at hkeys
  rcases lookup_foldl_relocate target.id newID s.index hkeys key with
    ⟨hsame, hnone⟩ | ⟨hseg, p, hpl, hpk, hnew⟩
  · have hid : loc.segID ≠ target.id := by
      intro hid
      obtain ⟨r, hr, hrk, -⟩ := hcopied hid
      rw [← hsnd] at hr
      obtain ⟨p, hpl, rfl⟩ := mem_map.1 hr
      exact hnone (by simp [hloc, hid]) p hpl hrk
    obtain ⟨seg, hsegm, hsegid, r, hr, hrest⟩ := hp
    have hseg' : seg ∈ (s.swapIn target.id newID kept).segs :=
      (mem_segs_swapIn hmem).2 (.inr ⟨hsegm, fun heq => hid (hsegid.symm.trans heq)⟩)
    refine ⟨loc, hsame.trans hloc, ⟨seg, hseg', hsegid, r, hr, hrest⟩, ?_⟩
    rw [hf.bodyAt_eq hsegm hr hsegid rfl hrest.2.2, hf'.bodyAt_eq hseg' hr hsegid rfl hrest.2.2]
  · have hid : loc.segID = target.id := by simpa [hloc] using hseg
    obtain ⟨r, hr, hrk, hbody⟩ := hcopied hid
    rw [← hsnd] at hr
    obtain ⟨q, hql, rfl⟩ := mem_map.1 hr
    obtain rfl : q = p := inj_on_of_nodup_map hkeys hql hpl (hrk.trans hpk.symm)
    have hnewmem : ⟨newID, encodeAll Record.encode kept⟩ ∈ (s.swapIn target.id newID kept).segs :=
      (mem_segs_swapIn hmem).2 (.inl rfl)
    have hrec : q ∈ recordsOf (encodeAll Record.encode kept) := by
      rw [recordsOf, scanSegment_encodeAll hfits]
      exact hql
    have hqlive : q.2.isTomb = false := hlive q.2 (hsnd ▸ mem_map_of_mem hql)
    refine ⟨_, hnew, ⟨_, hnewmem, rfl, q.2, hrec, hpk, hqlive, .inr rfl⟩, ?_⟩
    rw [hbody, hf'.bodyAt_eq hnewmem hrec rfl rfl (.inr rfl)]
    simp [hqlive]

end

theorem recordsOf_writeCompactTemp (s : Store) (target : Segment) :
    recordsOf (s.writeCompactTemp target).data = place Record.encode 0 (pending s.index target) := by
  rw [Store.writeCompactTemp, recordsOf, scanSegment_encodeAll fun _ hr => fits_of_mem_pending hr]

section

variable {s : Store} {target : Segment} (hmem : target ∈ s.segs)
include hmem

theorem mem_segs_swap {seg : Segment} :
    seg ∈ (s.swapCompactSegment target).segs ↔
      seg = s.writeCompactTemp target ∨ (seg ∈ s.segs ∧ seg.id ≠ target.id) :=
  mem_segs_swapIn hmem

variable (h : Layout s)
include h

theorem layout_swap : Layout (s.swapCompactSegment target) := by
  have hwhole := h.files.whole target hmem
  refine ⟨files_swapIn hmem (fun r hr => fits_of_mem_pending hr) h.files
    fun seg hseg => Nat.ne_of_lt (h.fresh seg hseg), ?_, ?_, ?_⟩
  · intro seg hseg
    rcases (mem_segs_swap hmem).1 hseg with rfl | ⟨hseg, -⟩
    · exact lt_succ_self _
    · exact lt_succ_of_lt (h.fresh seg hseg)
  · rw [Store.swapCompactSegment, length_map]
    exact le_succ_of_le h.count
  · intro seg hseg p hp hlive
    rcases (mem_segs_swap hmem).1 hseg with rfl | ⟨hseg, -⟩
    · rw [recordsOf_writeCompactTemp] at hp
      obtain ⟨off, hle, hrec, -⟩ := exists_of_mem_place_pending hwhole hp
      exact lt_of_le_of_lt hle (h.room target hmem (off, p.2) hrec hlive)
    · exact h.room seg hseg p hp hlive

theorem swap_segs_perm : (s.swapCompactSegment target).segs.Perm
    (s.writeCompactTemp target :: s.segs.filter (·.id ≠ target.id)) := by
  refine (perm_ext_iff_of_nodup (.of_map _ (layout_swap hmem h).files.nodup) ?_).2 fun seg => ?_
  · refine nodup_cons.2 ⟨fun hnew => ?_, (List.Nodup.of_map _ h.files.nodup).filter _⟩
    exact lt_irrefl _ (h.fresh _ (mem_of_mem_filter hnew))
  · simp [mem_segs_swap hmem]

variable {key : Key}

theorem exists_copy {loc : Loc} (hloc : s.index.lookup key = some loc)
    (hp : Points s.segs key loc) (hid : loc.segID = target.id) :
    ∃ r ∈ pending s.index target, r.key = key ∧ bodyAt s.segs loc = some r.body := by
  obtain ⟨seg, hseg, hsegid, r, hr, hkey, hlive, hsize⟩ := hp
  obtain rfl := h.files.eq_of_id hseg hmem (hsegid.trans hid)
  refine ⟨r, mem_pending.2 ⟨loc.offset, hr, isIndexed_iff.2 ⟨hlive, loc, ?_, hid, rfl⟩⟩, hkey, ?_⟩
  · rw [hkey]
    exact hloc
  · rw [h.files.bodyAt_eq hseg hr hsegid rfl hsize]
    simp [hlive]

theorem lookup_swap {loc : Loc} (hloc : s.index.lookup key = some loc)
    (hp : Points s.segs key loc) :
    ∃ loc', (s.swapCompactSegment target).index.lookup key = some loc' ∧
      Points (s.swapCompactSegment target).segs key loc' ∧
      bodyAt (s.swapCompactSegment target).segs loc' = bodyAt s.segs loc :=
  lookup_swapIn hmem (fun _ hr => fits_of_mem_pending hr) h.files
    (layout_swap hmem h).files nodup_pending_keys (fun _ hr => isTomb_of_mem_pending hr)
    hloc hp (exists_copy hmem h hloc hp)

omit hmem h in
theorem lookup_swap_none (hnone : s.index.lookup key = none) :
    (s.swapCompactSegment target).index.lookup key = none := by
  rcases lookup_foldl_relocate target.id s.nextID s.index nodup_copy_keys key with
    ⟨hsame, -⟩ | ⟨hseg, -⟩
  · exact hsame.trans hnone
  · simp [hnone] at hseg

theorem IndexPoints.swap (hi : IndexPoints s) : IndexPoints (s.swapCompactSegment target) := by
  intro key loc' hloc'
  cases hloc : s.index.lookup key with
  | none =>
    rw [lookup_swap_none hloc] at hloc'
    cases hloc'
  | some loc =>
    obtain ⟨loc'', hlookup, hpoints, -⟩ := lookup_swap hmem h hloc (hi key loc hloc)
    rw [hlookup] at hloc'
    cases hloc'
    exact hpoints

theorem readRecord_swap (hi : IndexPoints s) (key : Key) :
    (s.swapCompactSegment target).readRecord key = s.readRecord key := by
  rw [Store.readRecord, Store.readRecord]
  cases hloc : s.index.lookup key with
  | none =>
    rw [lookup_swap_none hloc]
    rfl
  | some loc =>
    obtain ⟨loc', hlookup, -, hbody⟩ := lookup_swap hmem h hloc (hi key loc hloc)
    rw [hlookup]
    exact hbody

end

theorem Layout.compactSegment (h : Layout s) (segID : Nat) : Layout (s.compactSegment segID) :=
  compactSegment_induction h fun _ hmem _ _ => layout_swap hmem h

/-! ## All segments -/

theorem layout_empty {segMax : Nat} (h : 0 < segMax) : Layout (Store.empty segMax h) :=
  ⟨⟨by simp [Store.empty], by simp [Store.empty]⟩, by simp [Store.empty], by simp [Store.empty],
    by simp [Store.empty]⟩

theorem indexPoints_empty {segMax : Nat} (h : 0 < segMax) : IndexPoints (Store.empty segMax h) := by
  intro key loc hloc
  simp [Store.empty] at hloc

section

variable {s : Store} {rs : List Record} (hfits : ∀ r ∈ rs, Record.Fits r)
include hfits

theorem Layout.putAll (h : Layout s) : Layout (s.putAll rs) :=
  foldlRecOn rs _ h fun _ h r hr => h.put (hfits r hr)

theorem IndexPoints.putAll (h : Layout s) (hi : IndexPoints s) : IndexPoints (s.putAll rs) := by
  induction rs generalizing s with
  | nil => exact hi
  | cons r rs ih =>
    have hr := hfits r (.head _)
    exact ih (fun r' hr' => hfits r' (.tail _ hr')) (h.put hr) (hi.put h r.key hr)

theorem readRecord_putAll (h : Layout s) (hi : IndexPoints s) (k : Key) :
    (s.putAll rs).readRecord k =
      (Journal.newest (rs.map fun r => (r.key, r.body)) k).or (s.readRecord k) := by
  induction rs generalizing s with
  | nil => rfl
  | cons r rs ih =>
    have hr := hfits r (.head _)
    have hrest := ih (fun r' hr' => hfits r' (.tail _ hr')) (h.put hr)
      (hi.put h r.key hr)
    rw [Store.putAll, foldl_cons, ← Store.putAll, hrest, readRecord_put h hi hr,
      map_cons, ← singleton_append, Journal.newest_append, Journal.newest_singleton]
    cases Journal.newest (rs.map fun r => (r.key, r.body)) k with
    | some body => rfl
    | none =>
      by_cases hk : k = r.key
      · simp [hk]
      · simp [hk, Ne.symm hk]

end

@[simp] theorem segMax_put (s : Store) (key : Key) (body : Bytes) :
    (s.put key body).segMax = s.segMax := by
  cases hfull : s.full with
  | true => rw [put_of_full hfull]
  | false =>
    obtain ⟨init, seg, hsegs, -⟩ := exists_active hfull
    rw [put_of_not_full hfull hsegs]

/-- Records that start below `segMax` when written behind the active segment do not need
another one. -/
theorem length_putAll_of_room {init : List Segment} (hsegs : s.segs = init ++ [seg])
    (hroom : ∀ p ∈ place Record.encode seg.data.length rs, p.1 < s.segMax) :
    (s.putAll rs).segs.length = s.segs.length := by
  induction rs generalizing s seg with
  | nil => rfl
  | cons r rs ih =>
    have hhead : seg.data.length < s.segMax := hroom _ (.head _)
    have hfull : s.full = false := by simpa [Store.full, hsegs] using hhead
    have hput : (s.put r.key r.body).segs =
        init ++ [⟨seg.id, seg.data ++ Record.encode ⟨r.key, r.body, false⟩⟩] := by
      rw [put_of_not_full hfull hsegs]
    have hlen : (seg.data ++ Record.encode ⟨r.key, r.body, false⟩).length =
        seg.data.length + r.encode.length := by simp
    have hrest := ih hput (by
      intro p hp
      rw [segMax_put]
      rw [hlen] at hp
      exact hroom p (.tail _ hp))
    rw [Store.putAll, foldl_cons, ← Store.putAll, hrest, hput, hsegs]
    simp

theorem lt_of_mem_place_of_le {pos pos' bound : Nat} (hle : pos' ≤ pos)
    (h : ∀ p ∈ place Record.encode pos rs, p.1 < bound) :
    ∀ p ∈ place Record.encode pos' rs, p.1 < bound := by
  induction rs generalizing pos pos' with
  | nil => intro p hp; cases hp
  | cons r rs ih =>
    intro p hp
    rcases mem_cons.1 hp with rfl | hp
    · exact lt_of_le_of_lt hle (h (pos, r) (.head _))
    · exact ih (Nat.add_le_add_right hle _) (fun p hp => h p (.tail _ hp)) p hp

theorem length_putAll_le (hroom : ∀ p ∈ place Record.encode 0 rs, p.1 < s.segMax) :
    (s.putAll rs).segs.length ≤ s.segs.length + 1 := by
  induction rs generalizing s with
  | nil => exact le_succ _
  | cons r rs ih =>
    have hrest : ∀ p ∈ place Record.encode r.encode.length rs, p.1 < s.segMax := by
      intro p hp
      refine hroom p (.tail _ ?_)
      rwa [Nat.zero_add]
    rw [Store.putAll, foldl_cons, ← Store.putAll]
    cases hfull : s.full with
    | true =>
      -- a new segment is started, and takes all of the rest
      have hput : (s.put r.key r.body).segs =
          s.segs ++ [⟨s.nextID, Record.encode ⟨r.key, r.body, false⟩⟩] := by
        rw [put_of_full hfull]
      have hlen : (Record.encode ⟨r.key, r.body, false⟩).length = r.encode.length := by simp
      rw [length_putAll_of_room hput (by rw [hlen, segMax_put]; exact hrest), hput]
      simp
    | false =>
      obtain ⟨init, seg, hsegs, -⟩ := exists_active hfull
      have hput : (s.put r.key r.body).segs.length = s.segs.length := by
        rw [put_of_not_full hfull hsegs, hsegs]
        simp
      rw [← hput]
      exact ih (by rw [segMax_put]; exact lt_of_mem_place_of_le (zero_le _) hrest)

@[simp] theorem segMax_putAll (s : Store) (rs : List Record) :
    (s.putAll rs).segMax = s.segMax := by
  induction rs generalizing s with
  | nil => rfl
  | cons r rs ih =>
    rw [Store.putAll, foldl_cons, ← Store.putAll, ih, segMax_put]

theorem length_putAll_pending_le {segs : List Segment} (tmp : Store)
    (hwhole : ∀ seg ∈ segs, WholeRecords seg.data)
    (hroom : ∀ seg ∈ segs, ∀ p ∈ recordsOf seg.data, p.2.isTomb = false → p.1 < tmp.segMax) :
    (tmp.putAll (segs.flatMap (pending index))).segs.length ≤ tmp.segs.length + segs.length := by
  induction segs generalizing tmp with
  | nil => exact le_rfl
  | cons seg segs ih =>
    have hpack : ∀ p ∈ place Record.encode 0 (pending index seg), p.1 < tmp.segMax := by
      intro p hp
      obtain ⟨off, hle, hrec, hi⟩ :=
        exists_of_mem_place_pending (hwhole seg (.head _)) hp
      exact lt_of_le_of_lt hle
        (hroom seg (.head _) (off, p.2) hrec (isIndexed_iff.1 hi).1)
    have hone := length_putAll_le hpack
    have hrest := ih (tmp.putAll (pending index seg)) (fun seg' h' => hwhole seg' (.tail _ h'))
      fun seg' h' => segMax_putAll tmp _ ▸ hroom seg' (.tail _ h')
    rw [flatMap_cons, Store.putAll, foldl_append, ← Store.putAll, ← Store.putAll, length_cons]
    omega

theorem nextID_putAll (h : s.nextID = s.segs.length) (rs : List Record) :
    (s.putAll rs).nextID = (s.putAll rs).segs.length := by
  induction rs generalizing s with
  | nil => exact h
  | cons r rs ih =>
    have hput : (s.put r.key r.body).nextID = (s.put r.key r.body).segs.length := by
      cases hfull : s.full with
      | true =>
        rw [put_of_full hfull]
        simp [h]
      | false =>
        obtain ⟨init, seg, hsegs, -⟩ := exists_active hfull
        rw [put_of_not_full hfull hsegs]
        simp [h, hsegs]
    exact ih hput

def IndexSound (s : Store) : Prop :=
  ∀ key loc, s.index.lookup key = some loc → (∃ seg ∈ s.segs, seg.id = loc.segID) →
    Points s.segs key loc

theorem IndexPoints.sound (h : IndexPoints s) : IndexSound s :=
  fun key loc hloc _ => h key loc hloc

theorem bodyAt_of_missing {segs : List Segment} {loc : Loc}
    (h : ∀ seg ∈ segs, seg.id ≠ loc.segID) : bodyAt segs loc = none := by
  rw [bodyAt, find?_eq_none.2 fun seg hseg => by simpa using h seg hseg]

@[elab_as_elim] theorem compact_induction {motive : Store → Prop} {s : Store} (same : motive s)
    (new : motive { s with segs := s.compactSegments.segs, index := s.compactSegments.index }) :
    motive s.compact := by
  unfold Store.compact
  split_ifs
  · exact same
  · exact same
  · exact new

theorem fits_kept (s : Store) : ∀ r ∈ s.segs.flatMap (pending s.index), r.Fits := by
  intro r hr
  obtain ⟨seg, -, hr⟩ := mem_flatMap.1 hr
  exact fits_of_mem_pending hr

theorem layout_compactSegments (s : Store) : Layout s.compactSegments :=
  (layout_empty s.segMax_pos).putAll (fits_kept s)

theorem indexPoints_compactSegments (s : Store) : IndexPoints s.compactSegments :=
  IndexPoints.putAll (fits_kept s) (layout_empty s.segMax_pos) (indexPoints_empty s.segMax_pos)

section

variable {s : Store} (h : Layout s)
include h

theorem nextID_compactSegments_le : s.compactSegments.nextID ≤ s.segs.length := by
  rw [Store.compactSegments, nextID_putAll rfl]
  exact (length_putAll_pending_le (.empty s.segMax s.segMax_pos) h.files.whole h.room).trans
    (Nat.zero_add _).le

theorem Layout.compact : Layout s.compact := by
  have htmp := layout_compactSegments s
  have hnext := (nextID_compactSegments_le h).trans h.count
  have hmax : s.compactSegments.segMax = s.segMax := segMax_putAll _ _
  exact compact_induction h ⟨htmp.files, fun seg hseg => lt_of_lt_of_le (htmp.fresh seg hseg) hnext,
    htmp.count.trans hnext, fun seg hseg p hp hlive => hmax ▸ htmp.room seg hseg p hp hlive⟩

theorem readRecord_of_mem_kept (hi : IndexSound s) {r : Record}
    (hr : r ∈ s.segs.flatMap (pending s.index)) : s.readRecord r.key = some r.body := by
  obtain ⟨seg, hseg, hr⟩ := mem_flatMap.1 hr
  obtain ⟨off, hrec, hidx⟩ := mem_pending.1 hr
  obtain ⟨hlive, loc, hloc, hid, hoff⟩ := isIndexed_iff.1 hidx
  obtain ⟨seg', hseg', hid', r', hr', -, -, hsize⟩ := hi r.key loc hloc ⟨seg, hseg, hid.symm⟩
  obtain rfl := h.files.eq_of_id hseg' hseg (hid'.trans hid)
  have hsame : (off, r) = (loc.offset, r') :=
    inj_on_of_nodup_map (nodup_offsets _) hrec hr' hoff.symm
  obtain rfl : r = r' := congrArg Prod.snd hsame
  rw [readRecord_of_lookup hloc, h.files.bodyAt_eq hseg hr' hid' rfl hsize, hlive]
  rfl

omit h in
theorem mem_kept_of_readRecord (hi : IndexSound s) {key : Key} {body : Bytes}
    (hread : s.readRecord key = some body) :
    ∃ r ∈ s.segs.flatMap (pending s.index), r.key = key := by
  obtain ⟨loc, hloc, hbody⟩ := Option.bind_eq_some_iff.1 hread
  by_cases hex : ∃ seg ∈ s.segs, seg.id = loc.segID
  · obtain ⟨seg, hseg, hid, r, hr, hkey, hlive, -⟩ := hi key loc hloc hex
    refine ⟨r, mem_flatMap.2 ⟨seg, hseg, mem_pending.2 ⟨loc.offset, hr, ?_⟩⟩, hkey⟩
    refine isIndexed_iff.2 ⟨hlive, loc, ?_, hid.symm, rfl⟩
    rw [hkey]
    exact hloc
  · rw [bodyAt_of_missing fun seg hseg hid => hex ⟨seg, hseg, hid⟩] at hbody
    cases hbody

theorem readRecord_compactSegments (hi : IndexSound s) (k : Key) :
    s.compactSegments.readRecord k = s.readRecord k := by
  rw [Store.compactSegments, readRecord_putAll (fits_kept s) (layout_empty s.segMax_pos)
    (indexPoints_empty s.segMax_pos)]
  cases hnew : Journal.newest
      ((s.segs.flatMap (pending s.index)).map fun r => (r.key, r.body)) k with
  | some body =>
    obtain ⟨r, hr, heq⟩ := mem_map.1 (Journal.mem_of_newest hnew)
    cases heq
    exact (readRecord_of_mem_kept h hi hr).symm
  | none =>
    cases hread : s.readRecord k with
    | none => rfl
    | some body =>
      obtain ⟨r, hr, hkey⟩ := mem_kept_of_readRecord hi hread
      exact absurd hkey (Journal.newest_eq_none.1 hnew _ (mem_map_of_mem hr))

theorem readRecord_compact (hi : IndexSound s) (k : Key) :
    s.compact.readRecord k = s.readRecord k :=
  compact_induction (motive := fun w => w.readRecord k = s.readRecord k) rfl
    (readRecord_compactSegments h hi k)

omit h in
theorem IndexPoints.compact (hi : IndexPoints s) : IndexPoints s.compact :=
  compact_induction hi (indexPoints_compactSegments s)

end

end Bouine.Storage.Warm
