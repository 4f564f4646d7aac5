import Bouine.Lib.Binary
import Bouine.Lib.Framing
import Bouine.Lib.Transition

/-! # The write-ahead log

The log (`internal/storage/wal/wal.go`) is a file of records of two widths told apart by their first
byte, each closed by a CRC. Writers append; `Replay` reads until a record is short or fails its CRC.
A crash cuts the file behind the last `Write` that returned, and `Open` goes on appending where the
file then ends.
-/

namespace Bouine.Storage.Wal

open Lib Lib.Framing Lib.Transition List

/-! ## Records -/

abbrev Key := FixedBytes 16

def opPut : UInt8 := 1
def opDelete : UInt8 := 2
def opPutV2 : UInt8 := 3

def recLen : Nat := 1 + 16 + 4 + 8 + 4
def recLenV2 : Nat := 1 + 16 + 4 + 8 + 8 + 4
def crcLen : Nat := 29
def crcLenV2 : Nat := 37

structure Entry where
  op : UInt8
  key : Key
  segID : Int32
  offset : Int64
  size : Int64
  size_eq : op ≠ opPutV2 → size = 0
  deriving DecidableEq

def putEntry (key : Key) (segID : Int32) (offset : Int64) : Entry :=
  ⟨opPut, key, segID, offset, 0, fun _ => rfl⟩

def putEntryWithSize (key : Key) (segID : Int32) (offset size : Int64) : Entry :=
  ⟨opPutV2, key, segID, offset, size, fun h => absurd rfl h⟩

def deleteEntry (key : Key) : Entry :=
  ⟨opDelete, key, 0, 0, 0, fun _ => rfl⟩

/-- `buf[:29]`, the fields that both widths have. -/
def encodeFields (e : Entry) : Bytes :=
  [e.op] ++ (e.key.val ++ (putUint32 e.segID.toUInt32 ++ putUint64 e.offset.toUInt64))

def encodeEntry (e : Entry) : Bytes :=
  if e.op = opPutV2 then
    withCrc castagnoli (encodeFields e ++ putUint64 e.size.toUInt64)
  else
    withCrc castagnoli (encodeFields e)

/-- The wide record in a buffer of `recLenV2` bytes, if its CRC is right. -/
def decodeV2 (buf : Bytes) : Option Entry :=
  if crc32 castagnoli (buf.take crcLenV2) ≠ getUint32 (slice 37 41 buf) then none
  else some (putEntryWithSize (copyFixed 16 (slice 1 17 buf)) ⟨getUint32 (slice 17 21 buf)⟩
    ⟨getUint64 (slice 21 29 buf)⟩ ⟨getUint64 (slice 29 37 buf)⟩)

/-- The base record in a buffer of `recLen` bytes, if its CRC is right. -/
def decodeBase (buf : Bytes) : Option Entry :=
  if crc32 castagnoli (buf.take crcLen) ≠ getUint32 (slice 29 33 buf) then none
  else some ⟨buf.headD 0, copyFixed 16 (slice 1 17 buf), ⟨getUint32 (slice 17 21 buf)⟩,
    ⟨getUint64 (slice 21 29 buf)⟩, 0, fun _ => rfl⟩

/-- One turn of the loop of `Replay`. A short read and a wrong CRC end it. -/
def readEntry (s : Bytes) : Next Entry :=
  if s.length < recLen then .stop
  else if s.head? = some opPutV2 then
    if s.length < recLenV2 then .stop
    else
      match decodeV2 (s.take recLenV2) with
      | none => .stop
      | some e => .record e (s.drop recLenV2)
  else
    match decodeBase (s.take recLen) with
    | none => .stop
    | some e => .record e (s.drop recLen)

/-- The entries `Replay` calls `fn` on, for an `fn` that does not fail. -/
def replay (file : Bytes) : List Entry := (scan readEntry file).1.map Prod.snd

@[simp] theorem length_encodeFields (e : Entry) : (encodeFields e).length = crcLen := by
  simp [encodeFields, crcLen, e.key.property]

theorem length_encodeEntry (e : Entry) :
    (encodeEntry e).length = if e.op = opPutV2 then recLenV2 else recLen := by
  unfold encodeEntry
  split <;> simp [recLenV2, recLen, crcLen]

theorem encodeEntry_eq_cons (e : Entry) : ∃ s, encodeEntry e = e.op :: s := by
  unfold encodeEntry
  split <;> exact ⟨_, rfl⟩

theorem slices_encodeFields (e : Entry) (s : Bytes) :
    slice 1 17 (encodeFields e ++ s) = e.key.val ∧
    slice 17 21 (encodeFields e ++ s) = putUint32 e.segID.toUInt32 ∧
    slice 21 29 (encodeFields e ++ s) = putUint64 e.offset.toUInt64 := by
  have hkey := e.key.property
  simp only [encodeFields, append_assoc]
  refine ⟨slice_append rfl (by rw [hkey]), ?_, ?_⟩
  · rw [← append_assoc]
    exact slice_append (by simp [hkey]) (by simp)
  · rw [← append_assoc, ← append_assoc]
    exact slice_append (by simp [hkey]) (by simp)

variable {e : Entry}

theorem decodeV2_encodeEntry (hop : e.op = opPutV2) :
    decodeV2 (encodeEntry e) = some e := by
  have hlen : (encodeFields e ++ putUint64 e.size.toUInt64).length = crcLenV2 := by
    simp [crcLen, crcLenV2]
  obtain ⟨hkey, hseg, hoff⟩ := slices_encodeFields e (putUint64 e.size.toUInt64 ++
    putUint32 (crc32 castagnoli (encodeFields e ++ putUint64 e.size.toUInt64)))
  have hsize : slice 29 37 (withCrc castagnoli (encodeFields e ++ putUint64 e.size.toUInt64)) =
      putUint64 e.size.toUInt64 := by
    rw [withCrc, append_assoc]
    exact slice_append (length_encodeFields e) (by simp)
  have hcrc : slice 37 41 (withCrc castagnoli (encodeFields e ++ putUint64 e.size.toUInt64)) =
      putUint32 (crc32 castagnoli (encodeFields e ++ putUint64 e.size.toUInt64)) :=
    slice_withCrc castagnoli hlen
  rw [← append_assoc] at hkey hseg hoff
  rw [encodeEntry, if_pos hop, decodeV2, take_withCrc castagnoli hlen, hcrc,
    getUint32_putUint32, if_neg (not_not.2 rfl), hsize, withCrc, hkey, hseg, hoff]
  obtain ⟨op, key, segID, offset, size, hsz⟩ := e
  subst hop
  simp [putEntryWithSize]

theorem decodeBase_encodeEntry (hop : e.op ≠ opPutV2) :
    decodeBase (encodeEntry e) = some e := by
  have hlen := length_encodeFields e
  obtain ⟨hkey, hseg, hoff⟩ := slices_encodeFields e
    (putUint32 (crc32 castagnoli (encodeFields e)))
  have hcrc : slice 29 33 (withCrc castagnoli (encodeFields e)) =
      putUint32 (crc32 castagnoli (encodeFields e)) := slice_withCrc castagnoli hlen
  have hsize := e.size_eq hop
  rw [encodeEntry, if_neg hop, decodeBase, take_withCrc castagnoli hlen, hcrc,
    getUint32_putUint32, if_neg (not_not.2 rfl)]
  obtain ⟨op, key, segID, offset, size, hsz⟩ := e
  subst hsize
  simp only [withCrc, hkey, hseg, hoff, getUint32_putUint32, getUint64_putUint64, copyFixed_val]
  rfl

theorem readEntry_encodeEntry (e : Entry) (rest : Bytes) :
    readEntry (encodeEntry e ++ rest) = .record e rest := by
  obtain ⟨s, hs⟩ := encodeEntry_eq_cons e
  have hlen := length_encodeEntry e
  have hhead : (encodeEntry e ++ rest).head? = some e.op := by rw [hs]; rfl
  rw [readEntry, hhead]
  by_cases hop : e.op = opPutV2
  · rw [if_pos hop] at hlen
    have hlong : ¬ (encodeEntry e ++ rest).length < recLenV2 := by simp [hlen]
    have hlong' : ¬ (encodeEntry e ++ rest).length < recLen :=
      fun h => hlong (lt_trans h (by decide))
    rw [if_neg hlong', if_pos (congrArg some hop), if_neg hlong, take_left' hlen,
      drop_left' hlen, decodeV2_encodeEntry hop]
  · rw [if_neg hop] at hlen
    have hlong : ¬ (encodeEntry e ++ rest).length < recLen := by simp [hlen]
    rw [if_neg hlong, if_neg (fun h => hop (Option.some.inj h)), take_left' hlen,
      drop_left' hlen, decodeBase_encodeEntry hop]

theorem readEntry_torn {t : Bytes} (hp : t <+: encodeEntry e)
    (hne : t ≠ encodeEntry e) : readEntry t = .stop := by
  have hlen := length_encodeEntry e
  have hlt : t.length < (encodeEntry e).length :=
    lt_of_le_of_ne hp.length_le (fun h => hne (hp.eq_of_length h))
  by_cases hshort : t.length < recLen
  · exact if_pos hshort
  -- only a wide record has a beginning this long, and it starts with the wide record's byte
  have hop : e.op = opPutV2 := by
    by_contra hop
    rw [hlen, if_neg hop] at hlt
    exact hshort hlt
  have hhead : t.head? = some opPutV2 := by
    obtain ⟨s, hs⟩ := encodeEntry_eq_cons e
    cases t with
    | nil => exact absurd (Nat.zero_lt_succ _) hshort
    | cons b t =>
      rw [hs, hop] at hp
      rw [(cons_prefix_cons.1 hp).1]
      rfl
  rw [hlen, if_pos hop] at hlt
  rw [readEntry, if_neg hshort, if_pos hhead, if_pos hlt]

theorem frames : Frames readEntry encodeEntry (fun _ => True) where
  encode_ne_nil e h := by
    obtain ⟨s, hs⟩ := encodeEntry_eq_cons e
    rw [hs] at h
    cases h
  next_nil := rfl
  next_encode e rest _ := readEntry_encodeEntry e rest
  next_torn _ _ _ hp hne := readEntry_torn hp hne

/-! ## Histories of a log -/

def syncChSize : Nat := 4096

/-- A log file with the bytes a returned `Write` has made durable, the channel of `OpenAsync`, and,
for the statements only, every record that is whole in the file with its offset. -/
structure Log where
  file : Bytes
  durable : Nat
  syncCh : List Entry
  records : List (Nat × Entry)

/-- A `Write` puts its bytes into the file and is durable once it has returned; a crash may come
before that. -/
inductive Step where
  /-- A `Write` of encoded entries: one in `Append` and in each turn of `AppendBatch`. -/
  | write (es : List Entry)
  /-- `Enqueue`, which drops the entry when the channel is full. -/
  | enqueue (e : Entry)
  /-- The one `Write` of `drainAndSync`. -/
  | drain
  | returned
  /-- The file keeps its first `n` bytes, or the durable ones if they are more. -/
  | crash (n : Nat)
  /-- `Open` or `OpenAsync` on the file as it is. -/
  | reopen

def Log.write (l : Log) (es : List Entry) : Log :=
  { l with
    file := l.file ++ encodeAll encodeEntry es
    records := l.records ++ place encodeEntry l.file.length es }

def Log.cut (l : Log) (n : Nat) : Log :=
  let file := l.file.take (max n l.durable)
  { l with
    file, syncCh := []
    records := l.records.filter fun r => endOf encodeEntry r ≤ file.length }

def step (l : Log) : Step → Log
  | .write es => l.write es
  | .enqueue e =>
    if l.syncCh.length < syncChSize then { l with syncCh := l.syncCh ++ [e] } else l
  | .drain => { l.write l.syncCh with syncCh := [] }
  | .returned => { l with durable := l.file.length }
  | .crash n => l.cut n
  | .reopen => { l with syncCh := [] }

def append (e : Entry) : List Step := [.write [e], .returned]

def appendBatch (es : List Entry) : List Step := es.flatMap append

def drainAndSync : List Step := [.drain, .returned]

def Log.empty : Log := ⟨[], 0, [], []⟩

def Log.recordsEnd (l : Log) : Nat := (l.records.getLast?.map (endOf encodeEntry)).getD 0

def Log.EndsWhole (l : Log) : Prop := l.file.length = l.recordsEnd

instance (l : Log) : Decidable l.EndsWhole := inferInstanceAs (Decidable (_ = _))

def StepOk (l : Log) : Step → Prop
  | .write es => es = [] ∨ l.EndsWhole
  | .drain => l.syncCh = [] ∨ l.EndsWhole
  | _ => True

instance (l : Log) : ∀ i, Decidable (StepOk l i)
  | .write _ => inferInstanceAs (Decidable (_ ∨ _))
  | .drain => inferInstanceAs (Decidable (_ ∨ _))
  | .enqueue _ | .returned | .crash _ | .reopen => inferInstanceAs (Decidable True)

def Clean (l : Log) : Prop :=
  ∃ es t, l.records = place encodeEntry 0 es ∧ l.file = encodeAll encodeEntry es ++ t ∧
    Torn encodeEntry (fun _ => True) t

theorem clean_empty : Clean Log.empty := ⟨[], [], rfl, rfl, .inl rfl⟩

variable {l : Log}

theorem recordsEnd_of_place {es : List Entry} (h : l.records = place encodeEntry 0 es) :
    l.recordsEnd = (encodeAll encodeEntry es).length := by
  rw [Log.recordsEnd, h]
  rcases eq_nil_or_concat es with rfl | ⟨init, e, rfl⟩
  · rfl
  · simp [place_append, place, endOf]

theorem Clean.write (h : Clean l) {es : List Entry} (hok : es = [] ∨ l.EndsWhole) :
    Clean (l.write es) := by
  obtain ⟨old, t, hrec, hfile, ht⟩ := h
  rcases hok with rfl | hend
  · exact ⟨old, t, by simp [Log.write, hrec, place], by simp [Log.write, hfile], ht⟩
  · have hlen : (encodeAll encodeEntry old ++ t).length = (encodeAll encodeEntry old).length := by
      rw [← hfile, ← recordsEnd_of_place hrec]
      exact hend
    obtain rfl : t = [] := by simpa using hlen
    refine ⟨old ++ es, [], ?_, ?_, .inl rfl⟩
    · simp [Log.write, hrec, hfile, place_append]
    · simp [Log.write, hfile]

theorem Clean.cut (h : Clean l) (n : Nat) : Clean (l.cut n) := by
  obtain ⟨es, t, hrec, hfile, ht⟩ := h
  obtain ⟨k, t', htake, ht', hplace⟩ := exists_cut (fun _ _ => trivial) ht (max n l.durable) 0
  refine ⟨es.take k, t', ?_, ?_, ht'⟩
  · simpa [Log.cut, hrec, hfile] using hplace
  · simpa [Log.cut, hfile] using htake

theorem Clean.step (h : Clean l) {i : Step} (hok : StepOk l i) : Clean (step l i) := by
  cases i with
  | write es => exact h.write hok
  | drain => exact h.write hok
  | crash n => exact h.cut n
  | enqueue e =>
    by_cases hroom : l.syncCh.length < syncChSize
    · rw [Wal.step, if_pos hroom]
      exact h
    · rw [Wal.step, if_neg hroom]
      exact h
  | returned => exact h
  | reopen => exact h

theorem Clean.replay (h : Clean l) : replay l.file = l.records.map Prod.snd := by
  obtain ⟨es, t, hrec, hfile, ht⟩ := h
  rw [Wal.replay, hfile, frames.scan_encodeAll (fun _ _ => trivial) ht, hrec]

/-- Replay calls its function on the entries whose records were written whole and survived every
crash, in order, as long as nothing is appended behind a torn record. -/
theorem replay_finds_surviving_entries (steps : List Step)
    (h : Along step StepOk Log.empty steps) :
    Always step (fun l => replay l.file = l.records.map Prod.snd) Log.empty steps :=
  (always_of_along (fun _ _ hl hok => hl.step hok) clean_empty h).mono fun _ hl => hl.replay

def zeroKey : Key := copyFixed 16 []

def appendBehindTorn : List Step :=
  [.write [putEntry zeroKey 0 0], .crash 10, .reopen] ++ append (deleteEntry zeroKey)

theorem torn_record_hides_later_entry :
    (run step Log.empty appendBehindTorn).records.map Prod.snd = [deleteEntry zeroKey] ∧
      replay (run step Log.empty appendBehindTorn).file = [] := by
  decide +kernel

theorem replay_after_crash_and_batches :
    Always step (fun l => replay l.file = l.records.map Prod.snd) Log.empty
      (appendBatch [putEntryWithSize zeroKey 1 28 40, deleteEntry zeroKey] ++
        [.enqueue (putEntry zeroKey 2 0)] ++ drainAndSync ++
        [.write [deleteEntry zeroKey], .crash 110, .reopen]) :=
  replay_finds_surviving_entries _ (by decide)

end Bouine.Storage.Wal
