import Bouine.Lib.ByteOrder
import Bouine.Storage.WarmRecovery

/-! # The bytes of `index.snap`

`encodeSnapshot` writes a header, the table of segments and the entries, all of fixed width, and
`LoadSnapshot` (`internal/storage/warm/snapshot.go`) reads them back. Sizes of the file are sums in a
64-bit `int`, which the count of a forged header can make wrap. A slice out of range is a panic.
-/

namespace Bouine.Storage.Warm

open Lib List Nat

def snapMagic : UInt32 := 0x49445853
def snapVersion : UInt32 := 2
def snapEndMagic : UInt32 := 0x464E4524
def snapHdrLen : Nat := 32
def snapSegEntryLen : Nat := 12
def snapEntryLen : Nat := 36
def snapFooterLen : Nat := 8

abbrev SnapEntry := (_ : Key) × Loc

def encodeSegEntry (e : Nat × Nat) : Bytes := putLE 4 e.1 ++ putLE 8 e.2

/-- The number of the segment is cut to 32 bits, once as an `int32` and once as a `uint32`. -/
def encodeEntry (e : SnapEntry) : Bytes :=
  e.1.val ++ (putLE 4 e.2.segID ++ (putLE 8 e.2.offset ++ putLE 8 e.2.size))

def encodeSnapHeader (entries totalBytes segs : Nat) : Bytes :=
  withCrc castagnoli (putUint32 snapMagic ++ (putUint32 snapVersion ++ (putLE 8 entries ++
    (putLE 8 totalBytes ++ putLE 4 segs))))

def encodeSnapshot (table : List (Nat × Nat)) (entries : List SnapEntry) (totalBytes : Nat) :
    Bytes × Bytes :=
  (encodeSnapHeader entries.length totalBytes table.length,
    table.flatMap encodeSegEntry ++ entries.flatMap encodeEntry)

def snapFooter (body : Bytes) : Bytes :=
  putUint32 (crc32 castagnoli body) ++ putUint32 snapEndMagic

def writeSnapshotFile (hdr body : Bytes) : Bytes := hdr ++ (body ++ snapFooter body)

def Snapshot.sortedTable (snap : Snapshot) : List (Nat × Nat) :=
  snap.table.insertionSort fun a b => a.1 ≤ b.1

def Snapshot.sortedEntries (snap : Snapshot) : List SnapEntry :=
  snap.entries.entries.insertionSort fun a b => bytesLE a.1.val b.1.val

def Snapshot.totalBytes (snap : Snapshot) : Nat := (snap.sortedEntries.map fun e => e.2.size).sum

def Snapshot.file (snap : Snapshot) : Bytes :=
  let parts := encodeSnapshot snap.sortedTable snap.sortedEntries snap.totalBytes
  writeSnapshotFile parts.1 parts.2

/-! ## Reading -/

inductive LoadError where
  | tooSmall (len : Nat)
  | badMagic
  | unsupportedVersion (version : UInt32)
  | headerCrc
  | sizeMismatch (got : Nat) (expected : Int)
  | segmentMissing (segID : Int)
  | segmentShrank (segID snapshot : Int) (disk : Nat)
  | footerCrc
  | badEndMagic
  /-- A slice out of range. -/
  | panic
  deriving DecidableEq

/-- `data[lo:hi]`. -/
def sliceAt (lo hi : Int) (data : Bytes) : Except LoadError Bytes :=
  if 0 ≤ lo ∧ lo ≤ hi ∧ hi ≤ data.length then .ok (slice lo.toNat hi.toNat data) else .error .panic

/-- Row `i` of a table, where the index has `bits` bits. -/
def row (bits w : Nat) (data : Bytes) (i : Nat) : Except LoadError Bytes :=
  sliceAt ((i * w % 2 ^ bits : Nat)) (((i + 1) * w % 2 ^ bits : Nat)) data

def validateSegEntry (segs : List Segment) (segID segSize : Int) : Except LoadError Unit :=
  match segs.find? fun seg => (seg.id : Int) = segID with
  | none => .error (.segmentMissing segID)
  | some seg =>
    if seg.data.length < segSize then .error (.segmentShrank segID segSize seg.data.length)
    else .ok ()

/-- `validateSegmentTable` on the bytes of the table. -/
def validateSegTbl (segs : List Segment) (segTbl : Bytes) (segCount : Nat) :
    Except LoadError Unit :=
  (range segCount).foldlM (fun _ i => do
    let se ← row 32 snapSegEntryLen segTbl i
    validateSegEntry segs (signed 32 (getLE (slice 0 4 se))) (signed 64 (getLE (slice 4 12 se)))) ()

/-- A `warmLoc`, with the signs that reading can give. -/
structure ReadLoc where
  segID : Int
  offset : Int
  size : Int
  deriving DecidableEq

def decodeEntry (ee : Bytes) : Key × ReadLoc :=
  (copyFixed 16 (slice 0 16 ee),
    { segID := signed 32 (getLE (slice 16 20 ee))
      offset := signed 64 (getLE (slice 20 28 ee))
      size := signed 64 (getLE (slice 28 36 ee)) })

/-- What `LoadSnapshot` leaves in the store: the index, and the two counters. -/
structure Loaded where
  index : AList fun _ : Key => ReadLoc
  entries : Int
  bytes : Int

/-- `LoadSnapshot`, on the contents of the file and the segments of the store. -/
def loadSnapshotFile (segs : List Segment) (data : Bytes) : Except LoadError Loaded :=
  if data.length < snapHdrLen + snapFooterLen then .error (.tooSmall data.length)
  else
    let hdr := data.take snapHdrLen
    if getUint32 (slice 0 4 hdr) ≠ snapMagic then .error .badMagic
    else if getUint32 (slice 4 8 hdr) ≠ snapVersion then
      .error (.unsupportedVersion (getUint32 (slice 4 8 hdr)))
    else if crc32 castagnoli (slice 0 28 hdr) ≠ getUint32 (slice 28 32 hdr) then .error .headerCrc
    else
      let entryCount := getLE (slice 8 16 hdr)
      let totalBytes := signed 64 (getLE (slice 16 24 hdr))
      let segCount := getLE (slice 24 28 hdr)
      let off := snapHdrLen + segCount * snapSegEntryLen
      let expectedSize := signed 64 (off + entryCount * snapEntryLen + snapFooterLen)
      if data.length ≠ expectedSize then .error (.sizeMismatch data.length expectedSize)
      else do
        let segTbl ← sliceAt snapHdrLen off data
        validateSegTbl segs segTbl segCount
        let bodyEnd := signed 64 (off + entryCount * snapEntryLen)
        let entryData ← sliceAt off bodyEnd data
        let bodyData ← sliceAt snapHdrLen bodyEnd data
        let footer ← sliceAt bodyEnd (bodyEnd + snapFooterLen) data
        if crc32 castagnoli bodyData ≠ getUint32 (slice 0 4 footer) then .error .footerCrc
        else if getUint32 (slice 4 8 footer) ≠ snapEndMagic then .error .badEndMagic
        else do
          let index ← (range entryCount).foldlM (fun index i => do
            let ee ← row 64 snapEntryLen entryData i
            return index.insert (decodeEntry ee).1 (decodeEntry ee).2) ∅
          return ⟨index, signed 64 entryCount, totalBytes⟩

/-! ## The round trip -/

def Loc.read (loc : Loc) : ReadLoc := ⟨loc.segID, loc.offset, loc.size⟩

/-- The numbers that the format has room for. -/
structure Snapshot.Fits (snap : Snapshot) : Prop where
  segs : ∀ e ∈ snap.table, e.1 < 2 ^ 31 ∧ e.2 < 2 ^ 63
  entries : ∀ e ∈ snap.entries.entries,
    e.2.segID < 2 ^ 31 ∧ e.2.offset < 2 ^ 63 ∧ e.2.size < 2 ^ 63
  table_length : snap.table.length * snapSegEntryLen < 2 ^ 32
  entries_length : snap.entries.entries.length * snapEntryLen < 2 ^ 62

@[simp] theorem length_encodeSegEntry (e : Nat × Nat) :
    (encodeSegEntry e).length = snapSegEntryLen := by
  simp [encodeSegEntry, snapSegEntryLen]

@[simp] theorem length_encodeEntry (e : SnapEntry) : (encodeEntry e).length = snapEntryLen := by
  simp [encodeEntry, e.1.property, snapEntryLen]

@[simp] theorem length_encodeSnapHeader (n total m : Nat) :
    (encodeSnapHeader n total m).length = snapHdrLen := by
  simp [encodeSnapHeader, snapHdrLen]

theorem sliceAt_append {lo hi : Int} {p m r : Bytes} (hp : (p.length : Int) = lo)
    (hm : lo + m.length = hi) : sliceAt lo hi (p ++ (m ++ r)) = .ok m := by
  subst hp hm
  rw [sliceAt, if_pos (by simp only [length_append]; omega)]
  exact congrArg _ (slice_append (by simp) (by omega))

theorem row_flatMap {α : Type} {encode : α → Bytes} {bits w : Nat}
    (hw : ∀ a, (encode a).length = w) {xs : List α} (hfits : xs.length * w < 2 ^ bits) {i : Nat}
    (hi : i < xs.length) : row bits w (xs.flatMap encode) i = .ok (encode xs[i]) := by
  have hnext : (i + 1) * w ≤ xs.length * w := Nat.mul_le_mul_right w hi
  have hle : i * w ≤ (i + 1) * w := Nat.mul_le_mul_right w (le_succ i)
  rw [row, mod_eq_of_lt (hle.trans_lt (hnext.trans_lt hfits)), mod_eq_of_lt (hnext.trans_lt hfits),
    sliceAt, if_pos (by rw [length_flatMap_rows hw]; omega)]
  exact congrArg _ (slice_row hw xs hi)

theorem foldlM_range {α β ε : Type} (xs : List α) {step : β → Nat → Except ε β}
    {f : β → α → Except ε β} (b : β)
    (h : ∀ (i : Nat) (hi : i < xs.length) (b : β), step b i = f b xs[i]) :
    (range xs.length).foldlM step b = xs.foldlM f b := by
  induction xs using reverseRecOn with
  | nil => rfl
  | append_singleton xs a ih =>
    rw [length_append, length_singleton, range_succ, foldlM_append, foldlM_append]
    rw [ih fun i hi b => by rw [h i (by simp; omega), getElem_append_left hi]]
    congr 1
    funext b
    simp only [foldlM_cons, foldlM_nil]
    rw [h xs.length (by simp) b, getElem_concat_length rfl]

theorem validateSegTbl_flatMap (segs : List Segment) {table : List (Nat × Nat)}
    (hnum : ∀ e ∈ table, e.1 < 2 ^ 31 ∧ e.2 < 2 ^ 63)
    (hlen : table.length * snapSegEntryLen < 2 ^ 32) :
    validateSegTbl segs (table.flatMap encodeSegEntry) table.length =
      table.foldlM (fun _ e => validateSegEntry segs e.1 e.2) () := by
  refine foldlM_range table () fun i hi _ => ?_
  obtain ⟨hid, hsize⟩ := hnum _ (getElem_mem hi)
  rw [row_flatMap length_encodeSegEntry hlen hi]
  show validateSegEntry segs _ _ = _
  rw [encodeSegEntry, slice_append_left (by simp), slice, drop_zero, take_of_length_le (by simp),
    getLE_putLE (hid.trans (by decide)), signed_of_lt (by omega)]
  rw [← append_nil (putLE 8 _), slice_append (by simp) (by simp),
    getLE_putLE (hsize.trans (by decide)), signed_of_lt (by omega)]

theorem decodeEntry_encodeEntry {e : SnapEntry}
    (h : e.2.segID < 2 ^ 31 ∧ e.2.offset < 2 ^ 63 ∧ e.2.size < 2 ^ 63) :
    decodeEntry (encodeEntry e) = (e.1, e.2.read) := by
  obtain ⟨hseg, hoff, hsize⟩ := h
  have h0 : At (encodeEntry e) 0 (e.1.val ++ (putLE 4 e.2.segID ++ (putLE 8 e.2.offset ++
      (putLE 8 e.2.size ++ [])))) := by
    rw [append_nil, encodeEntry]
    exact at_start _
  have h16 := h0.advance e.1.property
  have h20 := h16.advance (length_putLE 4 _)
  have h28 := h20.advance (length_putLE 8 _)
  rw [decodeEntry, h0.slice_eq e.1.property, copyFixed_val, h16.slice_eq (length_putLE 4 _),
    h20.slice_eq (length_putLE 8 _), h28.slice_eq (length_putLE 8 _),
    getLE_putLE (hseg.trans (by decide)), getLE_putLE (hoff.trans (by decide)),
    getLE_putLE (hsize.trans (by decide)), signed_of_lt (by omega), signed_of_lt (by omega),
    signed_of_lt (by omega)]
  rfl

theorem fields_encodeSnapHeader {n m : Nat} (total : Nat) (hn : n < 2 ^ 64) (hm : m < 2 ^ 32) :
    getUint32 (slice 0 4 (encodeSnapHeader n total m)) = snapMagic ∧
    getUint32 (slice 4 8 (encodeSnapHeader n total m)) = snapVersion ∧
    getLE (slice 8 16 (encodeSnapHeader n total m)) = n ∧
    getLE (slice 16 24 (encodeSnapHeader n total m)) = total % 2 ^ 64 ∧
    getLE (slice 24 28 (encodeSnapHeader n total m)) = m := by
  have h0 : At (encodeSnapHeader n total m) 0 (putUint32 snapMagic ++ (putUint32 snapVersion ++
      (putLE 8 n ++ (putLE 8 total ++ (putLE 4 m ++ putUint32 (crc32 castagnoli (putUint32 snapMagic ++
        (putUint32 snapVersion ++ (putLE 8 n ++ (putLE 8 total ++ putLE 4 m)))))))))) := by
    rw [encodeSnapHeader, withCrc]
    exact at_start _
  have h4 := h0.advance (length_putUint32 _)
  have h8 := h4.advance (length_putUint32 _)
  have h16 := h8.advance (length_putLE 8 _)
  have h24 := h16.advance (length_putLE 8 _)
  rw [h0.slice_eq (length_putUint32 _), h4.slice_eq (length_putUint32 _),
    h8.slice_eq (length_putLE 8 _), h16.slice_eq (length_putLE 8 _), h24.slice_eq (length_putLE 4 _)]
  exact ⟨getUint32_putUint32 _, getUint32_putUint32 _, getLE_putLE hn, getLE_putLE_mod 8 total,
    getLE_putLE hm⟩

/-- What is inserted in turn, with each key once, is found. -/
theorem lookup_foldl_insert {l : List SnapEntry} (hl : l.NodupKeys)
    (m : AList fun _ : Key => ReadLoc) (k : Key) :
    (l.foldl (fun m e => m.insert e.1 e.2.read) m).lookup k =
      ((l.dlookup k).map Loc.read).or (m.lookup k) := by
  induction l generalizing m with
  | nil => rfl
  | cons e l ih =>
    obtain ⟨hnot, hl⟩ := nodupKeys_cons.1 hl
    rw [foldl_cons, ih hl]
    by_cases hk : k = e.1
    · subst hk
      rw [dlookup_eq_none.2 hnot, dlookup_cons_eq, AList.lookup_insert]
      rfl
    · rw [dlookup_cons_ne l e hk, AList.lookup_insert_ne hk]

theorem crc_encodeSnapHeader (n total m : Nat) :
    crc32 castagnoli (slice 0 28 (encodeSnapHeader n total m)) =
      getUint32 (slice 28 32 (encodeSnapHeader n total m)) := by
  rw [encodeSnapHeader, slice_withCrc castagnoli (by simp), getUint32_putUint32, slice, drop_zero,
    take_withCrc castagnoli (by simp)]

theorem foldlM_entries {entries : List SnapEntry}
    (hnum : ∀ e ∈ entries, e.2.segID < 2 ^ 31 ∧ e.2.offset < 2 ^ 63 ∧ e.2.size < 2 ^ 63)
    (hlen : entries.length * snapEntryLen < 2 ^ 62) (index : AList fun _ : Key => ReadLoc) :
    ((range entries.length).foldlM (fun index i => do
        let ee ← row 64 snapEntryLen (entries.flatMap encodeEntry) i
        return index.insert (decodeEntry ee).1 (decodeEntry ee).2) index) =
      Except.ok (ε := LoadError)
        (entries.foldl (fun index e => index.insert e.1 e.2.read) index) := by
  rw [foldlM_range (f := fun index e => pure (index.insert e.1 e.2.read)), foldlM_pure]
  · rfl
  intro i hi index
  rw [row_flatMap length_encodeEntry (hlen.trans (by decide)) hi]
  show Except.ok _ = Except.ok _
  rw [decodeEntry_encodeEntry (hnum _ (getElem_mem hi))]

theorem signed_fileSize {a b : Nat} (ha : a < 2 ^ 32) (hb : b < 2 ^ 62) :
    signed 64 (snapHdrLen + a + b) = (snapHdrLen + a + b : Nat) ∧
    signed 64 (snapHdrLen + a + b + snapFooterLen) = (snapHdrLen + a + b + snapFooterLen : Nat) := by
  have hhdrLen : snapHdrLen = 32 := rfl
  have hfooterLen : snapFooterLen = 8 := rfl
  exact ⟨signed_of_lt (by omega), signed_of_lt (by omega)⟩

/-- Where the parts of a file are found. -/
theorem sliceAt_file {hdr segTbl entryData footer data : Bytes} {off bodyEnd : Nat}
    (hdata : data = hdr ++ (segTbl ++ (entryData ++ footer))) (hhdr : hdr.length = snapHdrLen)
    (hoff : off = snapHdrLen + segTbl.length) (hend : bodyEnd = off + entryData.length)
    (hfooter : footer.length = snapFooterLen) :
    sliceAt snapHdrLen off data = .ok segTbl ∧
    sliceAt off bodyEnd data = .ok entryData ∧
    sliceAt snapHdrLen bodyEnd data = .ok (segTbl ++ entryData) ∧
    sliceAt bodyEnd (bodyEnd + snapFooterLen) data = .ok footer := by
  subst hoff hend
  refine ⟨?_, ?_, ?_, ?_⟩
  · rw [hdata]
    exact sliceAt_append (by rw [hhdr]) (by rw [Int.natCast_add])
  · rw [hdata, ← append_assoc]
    exact sliceAt_append (by rw [length_append, hhdr]) (by push_cast; rfl)
  · rw [hdata, ← append_assoc segTbl]
    exact sliceAt_append (by rw [hhdr]) (by rw [length_append]; omega)
  · rw [hdata, ← append_assoc segTbl, ← append_assoc hdr, ← append_nil (_ ++ footer), append_assoc]
    apply sliceAt_append
    · rw [length_append, length_append]
      omega
    · rw [hfooter]

@[simp] theorem length_snapFooter (body : Bytes) : (snapFooter body).length = snapFooterLen := by
  simp [snapFooter, snapFooterLen]

theorem fields_snapFooter (body : Bytes) :
    getUint32 (slice 0 4 (snapFooter body)) = crc32 castagnoli body ∧
    getUint32 (slice 4 8 (snapFooter body)) = snapEndMagic := by
  have h0 : At (snapFooter body) 0 (putUint32 (crc32 castagnoli body) ++
      (putUint32 snapEndMagic ++ [])) := by
    rw [append_nil, snapFooter]
    exact at_start _
  have h4 := h0.advance (length_putUint32 _)
  rw [h0.slice_eq (length_putUint32 _), h4.slice_eq (length_putUint32 _)]
  exact ⟨getUint32_putUint32 _, getUint32_putUint32 _⟩

/-- The file that is written passes all checks but those of the segments. -/
theorem loadSnapshotFile_write (segs : List Segment) {n m : Nat} (total : Nat)
    {segTbl entryData : Bytes}
    (htbl : segTbl.length = m * snapSegEntryLen) (hents : entryData.length = n * snapEntryLen)
    (hm : m * snapSegEntryLen < 2 ^ 32) (hn : n * snapEntryLen < 2 ^ 62) :
    loadSnapshotFile segs (writeSnapshotFile (encodeSnapHeader n total m) (segTbl ++ entryData)) = do
      validateSegTbl segs segTbl m
      let index ← (range n).foldlM (fun index i => do
        let ee ← row 64 snapEntryLen entryData i
        return index.insert (decodeEntry ee).1 (decodeEntry ee).2) ∅
      return ⟨index, signed 64 n, signed 64 (total % 2 ^ 64)⟩ := by
  have hhdr := length_encodeSnapHeader n total m
  have hcrc := crc_encodeSnapHeader n total m
  obtain ⟨hmagic, hversion, hcount, htotal, hsegs⟩ := fields_encodeSnapHeader (n := n) (m := m) total
    (by unfold snapEntryLen at hn; omega) (by unfold snapSegEntryLen at hm; omega)
  rw [← htbl] at hm
  rw [← hents] at hn
  obtain ⟨hbody, hsize⟩ := signed_fileSize hm hn
  obtain ⟨hsum, hend⟩ := fields_snapFooter (segTbl ++ entryData)
  have hfooter := length_snapFooter (segTbl ++ entryData)
  rw [writeSnapshotFile, append_assoc]
  generalize encodeSnapHeader n total m = hdr at *
  generalize snapFooter (segTbl ++ entryData) = footer at *
  generalize hdata : hdr ++ (segTbl ++ (entryData ++ footer)) = data
  have hlength : data.length =
      snapHdrLen + segTbl.length + entryData.length + snapFooterLen := by
    simp only [← hdata, length_append, hhdr, hfooter]
    omega
  obtain ⟨htable, hentry, hbodyData, hlast⟩ := sliceAt_file hdata.symm hhdr rfl rfl hfooter
  have htake : data.take snapHdrLen = hdr := by rw [← hdata, take_left' hhdr]
  rw [loadSnapshotFile, if_neg (by rw [hlength]; omega), htake]
  dsimp only
  rw [hmagic, hversion, hcount, htotal, hsegs, if_neg (by simp), if_neg (by simp),
    if_neg (by simpa using hcrc), hlength, ← htbl, ← hents, hsize, if_neg (by simp), hbody]
  have hok {α β : Type} (a : α) (f : α → Except LoadError β) : (Except.ok a >>= f) = f a := rfl
  rw [htable, hok]
  refine congrArg (validateSegTbl segs segTbl m >>= ·) (funext fun _ => ?_)
  rw [hentry, hok, hbodyData, hok, hlast, hok, hsum, hend, if_neg (by simp), if_neg (by simp)]

theorem validateSegEntry_eq_ok {segs : List Segment} {id size : Nat} :
    validateSegEntry segs id size = .ok () ↔ validateSegmentTable segs [(id, size)] = true := by
  simp only [validateSegEntry, validateSegmentTable, Int.natCast_inj, all_cons, all_nil,
    Bool.and_true]
  cases segs.find? (·.id = id) with
  | none => simp
  | some seg => simp

theorem foldlM_validate {segs : List Segment} (table : List (Nat × Nat)) :
    table.foldlM (fun _ e => validateSegEntry segs e.1 e.2) () = .ok () ↔
      validateSegmentTable segs table = true := by
  induction table with
  | nil => exact ⟨fun _ => rfl, fun _ => rfl⟩
  | cons e table ih =>
    have hcons : validateSegmentTable segs (e :: table) =
        (validateSegmentTable segs [e] && validateSegmentTable segs table) := by
      simp [validateSegmentTable]
    have hhead : validateSegEntry segs e.1 e.2 = .ok () ↔ validateSegmentTable segs [e] = true :=
      validateSegEntry_eq_ok
    rw [foldlM_cons, hcons, Bool.and_eq_true, ← hhead, ← ih]
    cases validateSegEntry segs e.1 e.2 with
    | error => exact ⟨(by cases ·), (by cases ·.1)⟩
    | ok => exact ⟨fun h => ⟨rfl, h⟩, fun h => h.2⟩

theorem validateSegmentTable_perm {segs : List Segment} {table table' : List (Nat × Nat)}
    (h : table ~ table') : validateSegmentTable segs table = validateSegmentTable segs table' := by
  rw [Bool.eq_iff_iff, validateSegmentTable, validateSegmentTable, all_eq_true, all_eq_true]
  exact forall_congr' fun e => by rw [h.mem_iff]

section

variable {snap : Snapshot} (h : snap.Fits)
include h

/-- `LoadSnapshot` takes the file exactly if the segments of the table are there. -/
theorem loadSnapshotFile_file (segs : List Segment) (loaded : Loaded) :
    loadSnapshotFile segs snap.file = .ok loaded ↔
      validateSegmentTable segs snap.table = true ∧
        loaded = ⟨snap.sortedEntries.foldl (fun index e => index.insert e.1 e.2.read) ∅,
          signed 64 snap.sortedEntries.length, signed 64 (snap.totalBytes % 2 ^ 64)⟩ := by
  have htable : snap.sortedTable ~ snap.table := perm_insertionSort _ _
  have hentries : snap.sortedEntries ~ snap.entries.entries := perm_insertionSort _ _
  have hm : snap.sortedTable.length * snapSegEntryLen < 2 ^ 32 := htable.length_eq ▸ h.table_length
  have hn : snap.sortedEntries.length * snapEntryLen < 2 ^ 62 :=
    hentries.length_eq ▸ h.entries_length
  rw [Snapshot.file, encodeSnapshot,
    loadSnapshotFile_write segs _ (length_flatMap_rows length_encodeSegEntry _)
      (length_flatMap_rows length_encodeEntry _) hm hn,
    validateSegTbl_flatMap segs (fun e he => h.segs e (htable.mem_iff.1 he)) hm,
    foldlM_entries (fun e he => h.entries e (hentries.mem_iff.1 he)) hn,
    ← validateSegmentTable_perm htable, ← foldlM_validate]
  cases snap.sortedTable.foldlM (fun _ e => validateSegEntry segs e.1 e.2) () with
  | error => exact ⟨(by cases ·), (by cases ·.1)⟩
  | ok =>
    constructor
    · rintro ⟨⟩
      exact ⟨rfl, rfl⟩
    · rintro ⟨-, rfl⟩
      rfl

/-- The index that is loaded is the one that was written, tuple by tuple. -/
theorem lookup_loadSnapshotFile {segs : List Segment} {loaded : Loaded}
    (hload : loadSnapshotFile segs snap.file = .ok loaded) (k : Key) :
    loaded.index.lookup k = (snap.entries.lookup k).map Loc.read := by
  obtain ⟨-, rfl⟩ := (loadSnapshotFile_file h segs loaded).1 hload
  have hentries : snap.sortedEntries ~ snap.entries.entries := perm_insertionSort _ _
  have hnodup := (perm_nodupKeys hentries).2 snap.entries.nodupKeys
  rw [lookup_foldl_insert hnodup, perm_dlookup k hnodup hentries, AList.lookup_empty, Option.or_none]
  rfl

end

end Bouine.Storage.Warm
