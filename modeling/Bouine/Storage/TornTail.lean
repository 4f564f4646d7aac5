import Bouine.Storage.WarmScan

/-! # Segments with a torn record

A crash in the middle of a write leaves the beginning of a record at the end of a segment file.
`openLocked` takes the size of the file for the place of the next record, so records are written
behind the torn one; `scanSegment` goes from record to record by their lengths. The torn record's
header, or what the next record adds to it, gives a length that reaches past the torn bytes: the
scan never stops where the next record starts.
-/

namespace Bouine.Storage.Warm

open Lib Lib.Framing Lib.Transition List

/-! ## Writes to one segment -/

inductive Write where
  | put (key : Key) (body : Bytes)
  | delete (key : Key)

def Write.op : Write → Op
  | .put key body => .put key body
  | .delete key => .delete key

def Write.record : Write → Record
  | .put key body => ⟨key, body, false⟩
  | .delete key => ⟨key, [], true⟩

def Store.activeData (s : Store) : Bytes := (s.segs.getLast?.map Segment.data).getD []

def HasRoom (s : Store) (_ : Op) : Prop := s.full = false

instance (s : Store) (op : Op) : Decidable (HasRoom s op) := inferInstanceAs (Decidable (_ = _))

theorem segs_write {s : Store} (h : s.full = false) {init : List Segment} {seg : Segment}
    (hsegs : s.segs = init ++ [seg]) (w : Write) :
    (s.step w.op).segs = init ++ [⟨seg.id, seg.data ++ w.record.encode⟩] := by
  cases w with
  | put key body =>
    show (s.put key body).segs = _
    rw [put_of_not_full h hsegs]
    rfl
  | delete key =>
    show (s.newSegment.append ⟨key, [], true⟩).segs = _
    rw [newSegment_of_not_full h, append_eq hsegs]
    rfl

theorem activeData_writes {s : Store} {init : List Segment} {seg : Segment}
    (hsegs : s.segs = init ++ [seg]) (writes : List Write)
    (hroom : Along Store.step HasRoom s (writes.map Write.op)) :
    (run Store.step s (writes.map Write.op)).activeData =
      seg.data ++ encodeAll Record.encode (writes.map Write.record) := by
  induction writes generalizing s seg with
  | nil => simp [Store.activeData, hsegs]
  | cons w writes ih =>
    rw [map_cons, run_cons, ih (segs_write hroom.1 hsegs w) hroom.2, map_cons,
      encodeAll_cons, append_assoc]

/-! ## The torn record -/

section

variable {last : Record} {t : Bytes} (hlast : last.Fits) (ht : t <+: last.encode)
  (hne : t ≠ last.encode)
include hlast ht hne

theorem length_torn_lt (rest : Bytes) :
    t.length < headerLen + bodyLenOf (t ++ rest) + footerLen := by
  have hlt : t.length < last.encode.length :=
    lt_of_le_of_ne ht.length_le fun h => hne (ht.eq_of_length h)
  by_cases hhdr : t.length < headerLen
  · omega
  · -- the header is all there and gives the length of the whole record
    have h24 : 24 ≤ t.length := Nat.le_of_not_lt hhdr
    have hlen : bodyLenOf (t ++ rest) = last.body.length := by
      rw [← (fields_encode hlast []).2.2, append_nil, bodyLenOf, bodyLenOf,
        ← slice_take (t ++ rest) h24, take_left' rfl, prefix_iff_eq_take.1 ht, slice_take _ h24]
    rw [length_encode] at hlt
    rwa [hlen]

theorem offset_ne_of_torn (hnil : t ≠ []) {before : List Record} (hbefore : ∀ r ∈ before, r.Fits)
    (rest : Bytes) {p : Nat × Record}
    (hp : p ∈ recordsOf (encodeAll Record.encode before ++ (t ++ rest))) :
    p.1 ≠ (encodeAll Record.encode before).length + t.length := by
  have hpos := length_pos_of_ne_nil hnil
  rw [recordsOf, scanSegment, scan,
    recordFrames.scanFrom_append nextRecord_shortens hbefore _ (Nat.lt_succ_self _) 0, Nat.zero_add] at hp
  rcases mem_append.1 hp with hp | hp
  · have hlt := lt_of_mem_place encode_ne_nil hp
    omega
  · obtain ⟨r, rest', hnext, heq | hle⟩ := mem_scanFrom hp
    · rw [heq]
      omega
    · have hconsumed := (nextRecord_record hnext).2
      have hlong := length_torn_lt hlast ht hne rest
      omega

end

/-! ## What a scan finds -/

/-- The records that are whole in the file: those before the crash, the last one if all of it was
left, and those after the reopening, which start where the file ended. -/
def completed (before : List Record) (last : Record) (t : Bytes) (later : List Record) :
    List (Nat × Record) :=
  let start := (encodeAll Record.encode before).length
  place Record.encode 0 before ++ (if t = last.encode then [(start, last)] else []) ++
    place Record.encode (start + t.length) later

def ScansAll (data : Bytes) (records : List (Nat × Record)) : Prop :=
  (∀ p ∈ records, p ∈ recordsOf data) ∧ (scanSegment data).2 = true

theorem scansAll_of_scan {data : Bytes} {records : List (Nat × Record)}
    (h : scanSegment data = (records, true)) : ScansAll data records := by
  refine ⟨fun p hp => ?_, ?_⟩
  · rw [recordsOf, h]
    exact hp
  · rw [h]

section

variable {before later : List Record} {last : Record} {t : Bytes}

theorem fits_of_scansAll
    (h : ScansAll (encodeAll Record.encode before ++ (t ++ encodeAll Record.encode later))
      (completed before last t later)) : ∀ r ∈ before ++ later, r.Fits := by
  intro r hr
  have hplace (pos : Nat) (rs : List Record) (hmem : r ∈ rs) :
      ∃ p ∈ place Record.encode pos rs, p.2 = r := by
    have hsnd : (place Record.encode pos rs).map Prod.snd = rs := map_snd_place pos rs
    rw [← hsnd] at hmem
    obtain ⟨p, hp, heq⟩ := mem_map.1 hmem
    exact ⟨p, hp, heq⟩
  rcases mem_append.1 hr with hr | hr
  · obtain ⟨p, hp, rfl⟩ := hplace 0 before hr
    exact fits_of_mem_recordsOf (h.1 p (by simp [completed, hp]))
  · obtain ⟨p, hp, rfl⟩ := hplace ((encodeAll Record.encode before).length + t.length) later hr
    exact fits_of_mem_recordsOf (h.1 p (by simp [completed, hp]))

theorem scansAll_of_whole (hlast : last.Fits) (ht : t <+: last.encode)
    (hfits : ∀ r ∈ before ++ later, r.Fits) (hwhole : t = [] ∨ t = last.encode ∨ later = []) :
    ScansAll (encodeAll Record.encode before ++ (t ++ encodeAll Record.encode later))
      (completed before last t later) := by
  have hencode : last.encode ≠ [] := encode_ne_nil last
  by_cases hall : t = last.encode
  · subst hall
    have hfits' : ∀ r ∈ before ++ ([last] ++ later), r.Fits := by
      intro r hr
      simp only [mem_append, mem_singleton] at hr
      rcases hr with hr | rfl | hr
      · exact hfits r (mem_append_left _ hr)
      · exact hlast
      · exact hfits r (mem_append_right _ hr)
    have hscan := scanSegment_encodeAll hfits'
    rw [place_append] at hscan
    refine scansAll_of_scan ?_
    simpa [completed, place] using hscan
  · rcases hwhole with rfl | hwhole | rfl
    · have hscan := scanSegment_encodeAll hfits
      rw [place_append] at hscan
      refine scansAll_of_scan ?_
      simpa [completed, hencode.symm] using hscan
    · exact absurd hwhole hall
    · have hscan := recordFrames.scan_encodeAll (fun r hr => hfits r (mem_append_left _ hr))
        (.inr ⟨last, hlast, ht, hall⟩)
      refine scansAll_of_scan ?_
      simpa [completed, hall, place, scanSegment] using hscan

end

/-- A segment that was cut in the middle of a record, reopened and written to is scanned to its end,
every whole record included, exactly if the bodies have lengths of 32 bits and the crash left
nothing or all of the record or nothing was written behind it. -/
theorem torn_segment_scans_iff {segMax : Nat} (hmax : 0 < segMax) (id : Nat) (before : List Record)
    {last : Record} (hlast : last.Fits) {t : Bytes} (ht : t <+: last.encode) (writes : List Write)
    (hroom : Along Store.step HasRoom
      (openExisting [⟨id, encodeAll Record.encode before ++ t⟩] segMax hmax) (writes.map Write.op)) :
    ScansAll
        (run Store.step (openExisting [⟨id, encodeAll Record.encode before ++ t⟩] segMax hmax)
          (writes.map Write.op)).activeData
        (completed before last t (writes.map Write.record)) ↔
      (∀ r ∈ before ++ writes.map Write.record, r.Fits) ∧
        (t = [] ∨ t = last.encode ∨ writes = []) := by
  rw [activeData_writes (nil_append _).symm writes hroom, append_assoc]
  constructor
  · intro h
    have hfits := fits_of_scansAll h
    refine ⟨hfits, ?_⟩
    by_contra hcon
    rw [not_or, not_or] at hcon
    obtain ⟨hnil, hall, hwrites⟩ := hcon
    obtain ⟨w, writes, rfl⟩ := exists_cons_of_ne_nil hwrites
    -- the first record behind the torn bytes is not found
    have hvisited := h.1 ((encodeAll Record.encode before).length + t.length, w.record)
      (by simp [completed, place])
    exact offset_ne_of_torn hlast ht hall hnil
      (fun r hr => hfits r (mem_append_left _ hr)) _ hvisited rfl
  · rintro ⟨hfits, hwhole⟩
    refine scansAll_of_whole hlast ht hfits ?_
    simpa using hwhole

def tornRecord (length : Nat) : Record := ⟨exampleKey 2, List.replicate length 7, false⟩

/-- One record and the header of the torn one, a restart, and one more `Put`. -/
def writtenBehindTorn (length : Nat) : Store :=
  run Store.step
    (openExisting
      [⟨0, encodeAll Record.encode [⟨exampleKey 1, [1], false⟩] ++
        (tornRecord length).encode.take headerLen⟩] 1000 (by decide))
    [.put (exampleKey 3) [3]]

/-- Behind the header of a long record the scan ends early without an error; behind that of a short
one it takes the next record for a body and reports one. Either way the new record is not found. -/
theorem record_behind_torn_lost :
    (recordsOf (writtenBehindTorn 100).activeData = [(0, ⟨exampleKey 1, [1], false⟩)] ∧
      (scanSegment (writtenBehindTorn 100).activeData).2 = true) ∧
    (recordsOf (writtenBehindTorn 1).activeData = [(0, ⟨exampleKey 1, [1], false⟩)] ∧
      (scanSegment (writtenBehindTorn 1).activeData).2 = false) ∧
    (writtenBehindTorn 100).readRecord (exampleKey 3) = some [3] := by
  decide +kernel

/-- Nothing is left of the torn record, and the scan finds the others. -/
theorem untorn_segment_scans :
    ScansAll
      (run Store.step (openExisting
          [⟨0, encodeAll Record.encode [⟨exampleKey 1, [1], false⟩] ++ []⟩] 1000 (by decide))
        ([Write.put (exampleKey 3) [3], .delete (exampleKey 1)].map Write.op)).activeData
      (completed [⟨exampleKey 1, [1], false⟩] (tornRecord 1) []
        ([Write.put (exampleKey 3) [3], .delete (exampleKey 1)].map Write.record)) :=
  (torn_segment_scans_iff (by decide) 0 [⟨exampleKey 1, [1], false⟩] (by decide)
    nil_prefix [.put (exampleKey 3) [3], .delete (exampleKey 1)] (by decide)).2
    (by decide)

end Bouine.Storage.Warm
