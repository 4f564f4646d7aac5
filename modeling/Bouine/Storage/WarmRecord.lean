import Bouine.Lib.Binary
import Bouine.Lib.Framing

/-! # Records of the warm tier

A segment file of the warm tier (`internal/storage/warm/warm.go`) is a run of records, each a
header, a body and a CRC. `readRecordAt` reads the record at an offset; `scanSegment` reads a
segment from its start. No read compares the key of the record with the key that was asked for.
-/

namespace Bouine.Storage.Warm

open Lib Lib.Framing List

abbrev Key := FixedBytes 16

def magicLive : UInt32 := 0x424F5549
def magicDead : UInt32 := 0x44454144

def headerLen : Nat := 4 + 16 + 4
def footerLen : Nat := 4

structure Record where
  key : Key
  body : Bytes
  isTomb : Bool
  deriving DecidableEq

def encodeHeader (magic : UInt32) (key : Key) (bodyLen : Nat) : Bytes :=
  putUint32 magic ++ (key.val ++ putUint32 (UInt32.ofNat bodyLen))

/-- The bytes of `writeRecordAt`. The length of the body is cut to 32 bits. -/
def encodeRecord (magic : UInt32) (key : Key) (body : Bytes) : Bytes :=
  withCrc castagnoli (encodeHeader magic key body.length ++ body)

def Record.magic (r : Record) : UInt32 := if r.isTomb then magicDead else magicLive

def Record.encode (r : Record) : Bytes := encodeRecord r.magic r.key r.body

def recSize (body : Bytes) : Nat := headerLen + body.length + footerLen

def Record.Fits (r : Record) : Prop := r.body.length < 2 ^ 32

instance (r : Record) : Decidable r.Fits := inferInstanceAs (Decidable (_ < _))

def magicOf (hdr : Bytes) : UInt32 := getUint32 (slice 0 4 hdr)
def keyOf (hdr : Bytes) : Key := copyFixed 16 (slice 4 20 hdr)
def bodyLenOf (hdr : Bytes) : Nat := (getUint32 (slice 20 24 hdr)).toNat

inductive ReadError where
  /-- `ErrTornRecord`. -/
  | torn
  /-- The CRC mismatch. -/
  | crc
  deriving DecidableEq

/-- `readRecordAtSingle`. `readRecordAtMmap` makes the same checks on a mapping of the file. -/
def readRecordAtSingle (data : Bytes) (offset size : Nat) : Except ReadError Record :=
  if size < headerLen + footerLen then .error .torn
  else if data.length < offset + size then .error .torn
  else
    let buf := slice offset (offset + size) data
    if size - (headerLen + footerLen) < bodyLenOf buf then .error .torn
    else if crc32 castagnoli (buf.take (size - footerLen)) ≠
        getUint32 (slice (size - footerLen) size buf) then .error .crc
    else .ok ⟨keyOf buf, slice headerLen (headerLen + bodyLenOf buf) buf, magicOf buf == magicDead⟩

/-- `readRecordAtLegacy`: the length of the body comes from the header on disk. -/
def readRecordAtLegacy (data : Bytes) (offset : Nat) : Except ReadError Record :=
  if data.length < offset + headerLen then .error .torn
  else
    let hdr := slice offset (offset + headerLen) data
    let bodyEnd := offset + headerLen + bodyLenOf hdr
    if data.length < bodyEnd + footerLen then .error .torn
    else if crc32 castagnoli (slice offset bodyEnd data) ≠
        getUint32 (slice bodyEnd (bodyEnd + footerLen) data) then .error .crc
    else .ok ⟨keyOf hdr, slice (offset + headerLen) bodyEnd data, magicOf hdr == magicDead⟩

def readRecordAt (data : Bytes) (offset size : Nat) : Except ReadError Record :=
  if 0 < size then readRecordAtSingle data offset size else readRecordAtLegacy data offset

/-- One turn of the loop of `scanSegment`. -/
def nextRecord (s : Bytes) : Next Record :=
  if s = [] then .stop
  else
    match readRecordAtLegacy s 0 with
    | .error .torn => .stop
    | .error .crc => .corrupt
    | .ok r => .record r (s.drop (headerLen + bodyLenOf s + footerLen))

/-- The records `scanSegment` reports with their offsets, and whether it ends without an error. -/
def scanSegment (data : Bytes) : List (Nat × Record) × Bool := scan nextRecord data

@[simp] theorem length_encodeHeader (magic : UInt32) (key : Key) (n : Nat) :
    (encodeHeader magic key n).length = headerLen := by
  simp [encodeHeader, headerLen, key.property]

@[simp] theorem length_encodeRecord (magic : UInt32) (key : Key) (body : Bytes) :
    (encodeRecord magic key body).length = recSize body := by
  simp [encodeRecord, recSize, footerLen]

@[simp] theorem length_encode (r : Record) : r.encode.length = recSize r.body :=
  length_encodeRecord _ _ _

theorem encode_ne_nil (r : Record) : r.encode ≠ [] := by
  apply ne_nil_of_length_pos
  rw [length_encode]
  rw [recSize, footerLen]
  omega

theorem magic_beq_magicDead (r : Record) : (r.magic == magicDead) = r.isTomb := by
  obtain ⟨key, body, isTomb⟩ := r
  cases isTomb <;> rfl

theorem fields_encodeHeader (magic : UInt32) (key : Key) {n : Nat} (hn : n < 2 ^ 32)
    (rest : Bytes) :
    magicOf (encodeHeader magic key n ++ rest) = magic ∧
    keyOf (encodeHeader magic key n ++ rest) = key ∧
    bodyLenOf (encodeHeader magic key n ++ rest) = n := by
  have h0 : At (encodeHeader magic key n ++ rest) 0 (putUint32 magic ++ (key.val ++
      (putUint32 (UInt32.ofNat n) ++ rest))) := by
    rw [encodeHeader, append_assoc, append_assoc]
    exact at_start _
  have h4 := h0.advance (length_putUint32 _)
  have h20 := h4.advance key.property
  refine ⟨?_, ?_, ?_⟩
  · rw [magicOf, h0.slice_eq (length_putUint32 _), getUint32_putUint32]
  · rw [keyOf, h4.slice_eq key.property, copyFixed_val]
  · rw [bodyLenOf, h20.slice_eq (length_putUint32 _), getUint32_putUint32,
      UInt32.toNat_ofNat_of_lt' hn]

theorem slices_encode (r : Record) (rest : Bytes) :
    slice 0 headerLen (r.encode ++ rest) = encodeHeader r.magic r.key r.body.length ∧
    slice headerLen (headerLen + r.body.length) (r.encode ++ rest) = r.body ∧
    slice 0 (headerLen + r.body.length) (r.encode ++ rest) =
      encodeHeader r.magic r.key r.body.length ++ r.body ∧
    slice (headerLen + r.body.length) (headerLen + r.body.length + footerLen) (r.encode ++ rest) =
      putUint32 (crc32 castagnoli (encodeHeader r.magic r.key r.body.length ++ r.body)) := by
  have h0 : At (r.encode ++ rest) 0 (encodeHeader r.magic r.key r.body.length ++ r.body ++
      (putUint32 (crc32 castagnoli (encodeHeader r.magic r.key r.body.length ++ r.body)) ++ rest)) := by
    rw [← append_assoc]
    exact at_start _
  have hcovered := h0.slice_eq (n := headerLen + r.body.length) (by simp)
  have hfoot := (h0.advance (n := headerLen + r.body.length) (by simp)).slice_eq (length_putUint32 _)
  rw [append_assoc] at h0
  have hhdr := length_encodeHeader r.magic r.key r.body.length
  have hbody := (h0.advance hhdr).slice_eq rfl
  have hfirst := h0.slice_eq hhdr
  simp only [Nat.zero_add] at hcovered hfoot hbody hfirst
  exact ⟨hfirst, hbody, hcovered, hfoot⟩

theorem readRecordAtLegacy_shift (p s : Bytes) :
    readRecordAtLegacy (p ++ s) p.length = readRecordAtLegacy s 0 := by
  have hsl := slice_shift p s
  have h0 := fun b => hsl 0 b
  simp only [Nat.add_zero] at h0
  simp [readRecordAtLegacy, Nat.add_assoc, h0, hsl]

theorem readRecordAtSingle_shift (p s : Bytes) (size : Nat) :
    readRecordAtSingle (p ++ s) p.length size = readRecordAtSingle s 0 size := by
  have h0 := slice_shift p s 0
  simp only [Nat.add_zero] at h0
  simp [readRecordAtSingle, h0]

variable {r : Record}

theorem readRecordAtLegacy_encode (h : r.Fits) (p rest : Bytes) :
    readRecordAtLegacy (p ++ (r.encode ++ rest)) p.length = .ok r := by
  obtain ⟨hhdr, hbody, hcovered, hfoot⟩ := slices_encode r rest
  obtain ⟨hmagic, hkey, hlen⟩ := fields_encodeHeader r.magic r.key h []
  rw [append_nil] at hmagic hkey hlen
  have hlong : ¬ (r.encode ++ rest).length < headerLen + r.body.length + footerLen := by
    simp [recSize]
  have hlong' : ¬ (r.encode ++ rest).length < headerLen := by
    omega
  rw [readRecordAtLegacy_shift, readRecordAtLegacy]
  simp only [Nat.zero_add, hhdr, hlen, hbody, hcovered, hfoot, getUint32_putUint32, hmagic,
    hkey, magic_beq_magicDead, if_neg hlong, if_neg hlong', ne_eq, not_true, if_false]

theorem fields_encode (h : r.Fits) (rest : Bytes) :
    magicOf (r.encode ++ rest) = r.magic ∧ keyOf (r.encode ++ rest) = r.key ∧
      bodyLenOf (r.encode ++ rest) = r.body.length := by
  rw [Record.encode, encodeRecord, withCrc, append_assoc, append_assoc]
  exact fields_encodeHeader r.magic r.key h _

theorem readRecordAtSingle_encode (h : r.Fits) (p rest : Bytes) :
    readRecordAtSingle (p ++ (r.encode ++ rest)) p.length (recSize r.body) = .ok r := by
  have hbuf : slice 0 (recSize r.body) (r.encode ++ rest) = r.encode ++ [] := by
    rw [← nil_append (r.encode ++ rest), append_nil]
    exact slice_append rfl (by simp)
  obtain ⟨-, hbody, hcovered, hfoot⟩ := slices_encode r []
  obtain ⟨hmagic, hkey, hlen⟩ := fields_encode h []
  have hsize : recSize r.body - footerLen = headerLen + r.body.length := Nat.add_sub_cancel _ _
  have hroom : ¬ recSize r.body < headerLen + footerLen := by
    rw [recSize]
    omega
  have hlong : ¬ (r.encode ++ rest).length < recSize r.body := by simp
  have hfits : ¬ recSize r.body - (headerLen + footerLen) < r.body.length := by
    omega
  have htake : (r.encode ++ []).take (headerLen + r.body.length) =
      encodeHeader r.magic r.key r.body.length ++ r.body := hcovered
  rw [readRecordAtSingle_shift, readRecordAtSingle]
  simp only [Nat.zero_add, hbuf, hlen, hsize, htake, hbody, hmagic, hkey,
    magic_beq_magicDead, if_neg hroom, if_neg hlong, if_neg hfits]
  rw [show recSize r.body = headerLen + r.body.length + footerLen from rfl, hfoot,
    getUint32_putUint32, if_neg (not_not.2 rfl)]

theorem nextRecord_encode (h : r.Fits) (rest : Bytes) :
    nextRecord (r.encode ++ rest) = .record r rest := by
  have hne : r.encode ++ rest ≠ [] := by simp [encode_ne_nil]
  have hdrop : (r.encode ++ rest).drop (headerLen + r.body.length + footerLen) = rest :=
    drop_left' (length_encode r)
  have hread := readRecordAtLegacy_encode h [] rest
  rw [nil_append, length_nil] at hread
  rw [nextRecord, if_neg hne, hread, (fields_encode h rest).2.2, hdrop]

theorem nextRecord_torn (h : r.Fits) {t : Bytes} (hp : t <+: r.encode) (hne : t ≠ r.encode) :
    nextRecord t = .stop := by
  have hlt : t.length < headerLen + r.body.length + footerLen := by
    rw [← recSize, ← length_encode]
    exact lt_of_le_of_ne hp.length_le (fun heq => hne (hp.eq_of_length heq))
  have htorn : readRecordAtLegacy t 0 = .error .torn := by
    rw [readRecordAtLegacy, Nat.zero_add]
    by_cases hshort : t.length < headerLen
    · rw [if_pos hshort]
    · -- the header is all there, so it gives the length of the whole record
      have hhdr : slice 0 headerLen t = encodeHeader r.magic r.key r.body.length := by
        rw [prefix_iff_eq_take.1 hp, slice_take _ (not_lt.1 hshort), ← append_nil r.encode]
        exact (slices_encode r []).1
      have hlen := (fields_encodeHeader r.magic r.key h []).2.2
      rw [append_nil] at hlen
      simp only [hhdr, hlen, if_neg hshort]
      rw [if_pos hlt]
  rw [nextRecord, htorn]
  exact ite_self _

theorem recordFrames : Frames nextRecord Record.encode Record.Fits where
  encode_ne_nil := encode_ne_nil
  next_nil := rfl
  next_encode _ rest h := nextRecord_encode h rest
  next_torn _ _ h hp hne := nextRecord_torn h hp hne

theorem nextRecord_inv {s rest : Bytes} (h : nextRecord s = .record r rest) :
    readRecordAtLegacy s 0 = .ok r ∧ rest = s.drop (headerLen + bodyLenOf s + footerLen) := by
  rw [nextRecord] at h
  split_ifs at h
  cases hread : readRecordAtLegacy s 0 with
  | error e =>
    rw [hread] at h
    cases e <;> cases h
  | ok r' =>
    rw [hread] at h
    cases h
    exact ⟨rfl, rfl⟩

theorem nextRecord_record {s : Bytes} {rest : Bytes} (h : nextRecord s = .record r rest) :
    r.body.length ≤ bodyLenOf s ∧ rest.length + (headerLen + bodyLenOf s + footerLen) = s.length := by
  have hlen : bodyLenOf (slice 0 headerLen s) = bodyLenOf s := by
    rw [bodyLenOf, slice, slice, drop_take, take_take]
    rfl
  obtain ⟨hread, rfl⟩ := nextRecord_inv h
  rw [readRecordAtLegacy] at hread
  simp only [Nat.zero_add, hlen] at hread
  split_ifs at hread with hhdr hfoot hcrc
  refine ⟨?_, ?_⟩
  · cases hread
    simp only [slice, length_take]
    omega
  · rw [length_drop]
    omega

theorem nextRecord_suffix (s : Bytes) (r : Record) (rest : Bytes)
    (h : nextRecord s = .record r rest) : rest <:+ s := by
  rw [(nextRecord_inv h).2]
  exact drop_suffix _ _

theorem nextRecord_shortens : Shortens nextRecord := by
  intro s r rest h
  have hlen := (nextRecord_record h).2
  have hpos : 0 < headerLen := by decide
  omega

/-! ## Well-formed segments -/

def WholeRecords (data : Bytes) : Prop :=
  ∃ rs, (∀ r ∈ rs, Record.Fits r) ∧ data = encodeAll Record.encode rs

def recordsOf (data : Bytes) : List (Nat × Record) := (scanSegment data).1

theorem nodup_offsets (data : Bytes) : ((recordsOf data).map Prod.fst).Nodup :=
  nextRecord_shortens.nodup_scanFrom

theorem fits_of_mem_recordsOf {data : Bytes} {p : Nat × Record} (hp : p ∈ recordsOf data) :
    p.2.Fits := by
  obtain ⟨s, rest, hnext⟩ := exists_next_of_mem_scanFrom hp
  exact lt_of_le_of_lt (nextRecord_record hnext).1 (getUint32 (slice 20 24 s)).toNat_lt

/-! ## Reads at an offset -/

/-- The record by the header at the offset. -/
def recordAt (data : Bytes) (offset : Nat) : Record :=
  let hdr := slice offset (offset + headerLen) data
  ⟨keyOf hdr, slice (offset + headerLen) (offset + headerLen + bodyLenOf hdr) data,
    magicOf hdr == magicDead⟩

theorem readRecordAtLegacy_eq {data : Bytes} {off : Nat} (h : readRecordAtLegacy data off = .ok r) :
    r = recordAt data off := by
  unfold readRecordAtLegacy at h
  dsimp only at h
  split_ifs at h
  cases h
  rfl

theorem readRecordAtSingle_eq {data : Bytes} {off size : Nat}
    (h : readRecordAtSingle data off size = .ok r) : r = recordAt data off := by
  unfold readRecordAtSingle at h
  dsimp only at h
  split_ifs at h with hsize hlen hbody
  cases h
  have hcut : ∀ k, slice off (off + k) data = (data.drop off).take k := fun k => by
    rw [slice, Nat.add_sub_cancel_left]
  have hfields : ∀ k, headerLen ≤ k → keyOf ((data.drop off).take k) = keyOf (data.drop off) ∧
      magicOf ((data.drop off).take k) = magicOf (data.drop off) ∧
      bodyLenOf ((data.drop off).take k) = bodyLenOf (data.drop off) := by
    intro k hk
    rw [headerLen] at hk
    refine ⟨?_, ?_, ?_⟩
    · rw [keyOf, keyOf, slice_take _ (by omega)]
    · rw [magicOf, magicOf, slice_take _ (by omega)]
    · rw [bodyLenOf, bodyLenOf, slice_take _ (by omega)]
  have hbig := hfields size (by omega)
  have hhdr := hfields headerLen le_rfl
  rw [hcut, hbig.2.2] at hbody
  rw [recordAt]
  simp only [hcut, hbig, hhdr, Record.mk.injEq, true_and, and_true]
  rw [slice_take _ (by omega), slice, slice, drop_drop]
  congr 1
  omega

theorem readRecordAt_eq_recordAt {data : Bytes} {off size : Nat}
    (h : readRecordAt data off size = .ok r) : r = recordAt data off := by
  unfold readRecordAt at h
  split_ifs at h
  · exact readRecordAtSingle_eq h
  · exact readRecordAtLegacy_eq h

/-- What the scan reports at an offset is what a read finds there. -/
theorem eq_recordAt_of_mem {data : Bytes} {off : Nat} (h : (off, r) ∈ recordsOf data) :
    r = recordAt data off := by
  obtain ⟨-, rest, hnext⟩ := next_of_mem_scanFrom nextRecord_suffix h
  rw [Nat.sub_zero] at hnext
  have hle : off ≤ data.length := by
    by_contra hlt
    rw [drop_eq_nil_of_le (by omega)] at hnext
    cases hnext
  have hshift := readRecordAtLegacy_shift (data.take off) (data.drop off)
  rw [take_append_drop, length_take_of_le hle, (nextRecord_inv hnext).1] at hshift
  exact readRecordAtLegacy_eq hshift

/-- Bytes written behind a record do not change what is read of it. -/
theorem readRecordAt_append {data : Bytes} {off size : Nat}
    (h : readRecordAt data off size = .ok r) (more : Bytes) :
    readRecordAt (data ++ more) off size = .ok r := by
  unfold readRecordAt at h ⊢
  split_ifs at h ⊢
  · unfold readRecordAtSingle at h ⊢
    dsimp only at h ⊢
    split_ifs at h with hsize hlen hbody hcrc
    rw [if_neg hsize, if_neg (by rw [length_append]; omega), slice_append_left (by omega),
      if_neg hbody, if_neg hcrc]
    exact h
  · unfold readRecordAtLegacy at h ⊢
    dsimp only at h ⊢
    split_ifs at h with hlen hbody hcrc
    have hhdr : slice off (off + headerLen) (data ++ more) = slice off (off + headerLen) data :=
      slice_append_left (by omega) more
    rw [if_neg (by rw [length_append]; omega), hhdr, if_neg (by rw [length_append]; omega),
      slice_append_left (by omega), slice_append_left (by omega), if_neg hcrc,
      slice_append_left (by omega)]
    exact h

theorem scanSegment_encodeAll {rs : List Record} (h : ∀ r ∈ rs, Record.Fits r) :
    scanSegment (encodeAll Record.encode rs) = (place Record.encode 0 rs, true) := by
  have hscan := recordFrames.scan_encodeAll h (.inl rfl)
  rwa [append_nil] at hscan

theorem wholeRecords_nil : WholeRecords [] := ⟨[], by simp, rfl⟩

theorem wholeRecords_encodeAll {rs : List Record} (h : ∀ r ∈ rs, Record.Fits r) :
    WholeRecords (encodeAll Record.encode rs) := ⟨rs, h, rfl⟩

namespace WholeRecords

variable {data : Bytes} (h : WholeRecords data)
include h

theorem scan_ok : (scanSegment data).2 = true := by
  obtain ⟨rs, hrs, rfl⟩ := h
  rw [scanSegment_encodeAll hrs]

variable {r : Record}

theorem append (hr : r.Fits) : WholeRecords (data ++ r.encode) := by
  obtain ⟨rs, hrs, rfl⟩ := h
  refine ⟨rs ++ [r], ?_, by simp⟩
  intro r' hr'
  rcases mem_append.1 hr' with hr' | hr'
  · exact hrs r' hr'
  · rw [mem_singleton.1 hr']
    exact hr

theorem recordsOf_append (hr : r.Fits) :
    recordsOf (data ++ r.encode) = recordsOf data ++ [(data.length, r)] := by
  obtain ⟨rs, hrs, rfl⟩ := h
  have henc : encodeAll Record.encode rs ++ r.encode = encodeAll Record.encode (rs ++ [r]) := by
    simp
  have hfit : ∀ r' ∈ rs ++ [r], Record.Fits r' := by
    simpa [or_imp, forall_and] using ⟨hrs, hr⟩
  rw [henc, recordsOf, recordsOf, scanSegment_encodeAll hrs, scanSegment_encodeAll hfit,
    place_append, Nat.zero_add]
  rfl

theorem readRecordAt_eq {off size : Nat} (hr : (off, r) ∈ recordsOf data)
    (hsize : size = 0 ∨ size = recSize r.body) : readRecordAt data off size = .ok r := by
  have hfits : r.Fits := fits_of_mem_recordsOf hr
  obtain ⟨rs, hrs, rfl⟩ := h
  rw [recordsOf, scanSegment_encodeAll hrs] at hr
  obtain ⟨p, q, heq, hoff⟩ := exists_of_mem_place hr
  rw [Nat.zero_add] at hoff
  subst hoff
  rw [heq]
  rcases hsize with rfl | rfl
  · exact readRecordAtLegacy_encode hfits p q
  · exact readRecordAtSingle_encode hfits p q

end WholeRecords

end Bouine.Storage.Warm
