import Bouine.Lib.Binary

/-! # Frames of invalidation events

`internal/cluster/codec.go` and `codec_batch.go`: how purge and refresh events travel between nodes,
alone and in batches. A frame is written into a buffer of a computed size; here it is the
concatenation of its parts, and `BatchCodec.Lawful.put_length` says that the size was right. Times
are in nanoseconds from the zero time.
-/

namespace Bouine.Cluster

open Lib List

abbrev Key := FixedBytes 16

structure PurgeEvent where
  key : Key
  varyKey : Bytes
  issuer : Bytes
  issuedAt : Int
  seq : UInt64
  deriving DecidableEq

structure RefreshEvent where
  key : Key
  issuer : Bytes
  issuedAt : Int
  seq : UInt64
  deriving DecidableEq

def binaryMagic : UInt8 := 0x42

def binaryVersion : UInt8 := 3

def binaryHdrLen : Nat := 2

def gossipHdrLen : Nat := 3

def maxStringLen : Nat := 65535

def msgTypePurgeBatch : UInt8 := 4

def msgTypeRefreshBatch : UInt8 := 5

def batchMaxEvents : Nat := 4096

def batchCountLen : Nat := 4

def gossipFrameBudget : Int := 1300

inductive CodecError where
  | shortFrame
  | badMagic
  | unsupportedVer (got : UInt8)
  | stringTooLong
  | wrongMsgType (got want : UInt8)
  | countExceeds (kind : String) (count : Nat)
  | trailingBytes (kind : String) (n : Nat)
  deriving DecidableEq

/-! ## Fields -/

def encodeTime (t : Int) : Int64 := if t = 0 then 0 else unixNano t

def decodeTime (nano : Int64) : Int := if nano = 0 then 0 else ofUnixNano nano

/-- The instants that arrive as sent. The start of 1970 is taken for the zero time. -/
def Carried (t : Int) : Prop := t = 0 ∨ HasUnixNano t ∧ t ≠ unixEpoch

theorem decodeTime_encodeTime {t : Int} (h : Carried t) : decodeTime (encodeTime t) = t := by
  rcases h with rfl | ⟨hrange, hepoch⟩
  · rfl
  · unfold encodeTime
    split_ifs with hzero
    · exact hzero.symm
    · have hne : unixNano t ≠ 0 := by
        intro heq
        have hback := toInt_unixNano hrange
        rw [heq, Int64.toInt_zero] at hback
        omega
      rw [decodeTime, if_neg hne, ofUnixNano_unixNano_iff.2 hrange]

def putString (s : Bytes) : Except CodecError Bytes :=
  if maxStringLen < s.length then .error .stringTooLong else .ok (putLE 2 s.length ++ s)

def readString (buf : Bytes) (off : Nat) : Except CodecError (Bytes × Nat) :=
  if buf.length < off + 2 then .error .shortFrame
  else
    let n := getLE (slice off (off + 2) buf)
    let off := off + 2
    if buf.length < off + n then .error .shortFrame else .ok (slice off (off + n) buf, off + n)

theorem putString_eq_ok {s bs : Bytes} (h : putString s = .ok bs) :
    bs = putLE 2 s.length ++ s ∧ s.length < 256 ^ 2 := by
  rw [putString] at h
  split_ifs at h with hlong
  rw [maxStringLen] at hlong
  exact ⟨(Except.ok.inj h).symm, by omega⟩

theorem length_putString {s bs : Bytes} (h : putString s = .ok bs) : bs.length = 2 + s.length := by
  obtain ⟨rfl, -⟩ := putString_eq_ok h
  simp

variable {evt : RefreshEvent} {off : Nat} {bs : Bytes}

theorem getLE_slice_putString {s bs buf r : Bytes} (hput : putString s = .ok bs)
    (h : At buf off (bs ++ r)) : getLE (slice off (off + 2) buf) = s.length := by
  obtain ⟨rfl, hlen⟩ := putString_eq_ok hput
  rw [append_assoc] at h
  rw [h.slice_eq (length_putLE 2 _), getLE_putLE hlen]

theorem readString_putString {s bs buf r : Bytes} (hput : putString s = .ok bs)
    (h : At buf off (bs ++ r)) : readString buf off = .ok (s, off + 2 + s.length) := by
  have hlen := getLE_slice_putString hput h
  obtain ⟨rfl, -⟩ := putString_eq_ok hput
  rw [append_assoc] at h
  have htext := h.advance (length_putLE 2 _)
  rw [readString, if_neg (h.not_short (length_putLE 2 _)), hlen]
  rw [if_neg (htext.not_short rfl), htext.slice_eq rfl]

/-! ## One event -/

def putTail (issuedAt : Int) (seq : UInt64) : Bytes :=
  putUint64 (encodeTime issuedAt).toUInt64 ++ putUint64 seq

def readTail (buf : Bytes) (off : Nat) : Int × UInt64 :=
  (decodeTime (getUint64 (slice off (off + 8) buf)).toInt64,
    getUint64 (slice (off + 8) (off + 8 + 8) buf))

@[simp] theorem length_putTail (t : Int) (seq : UInt64) : (putTail t seq).length = 16 := by
  simp [putTail]

theorem readTail_putTail {t : Int} {seq : UInt64} {buf r : Bytes}
    (h : At buf off (putTail t seq ++ r)) :
    readTail buf off = (decodeTime (encodeTime t), seq) := by
  rw [putTail, append_assoc] at h
  have hseq := h.advance (length_putUint64 _)
  rw [readTail, h.slice_eq (length_putUint64 _), hseq.slice_eq (length_putUint64 _),
    getUint64_putUint64, getUint64_putUint64, Int64.toInt64_toUInt64]

def purgePayloadLen (evt : PurgeEvent) : Nat :=
  16 + 2 + evt.varyKey.length + 2 + evt.issuer.length + 8 + 8

def putPurgePayload (evt : PurgeEvent) : Except CodecError Bytes := do
  let varyKey ← putString evt.varyKey
  let issuer ← putString evt.issuer
  pure (evt.key.val ++ (varyKey ++ (issuer ++ putTail evt.issuedAt evt.seq)))

def decodePurgePayload (buf : Bytes) (off : Nat) : Except CodecError PurgeEvent :=
  if buf.length < off + 16 then .error .shortFrame
  else do
    let key := copyFixed 16 (slice off (off + 16) buf)
    let (varyKey, off) ← readString buf (off + 16)
    let (issuer, off) ← readString buf off
    if buf.length < off + 16 then .error .shortFrame
    else
      let tail := readTail buf off
      pure { key, varyKey, issuer, issuedAt := tail.1, seq := tail.2 }

/-- The event, and the offset past it, for which the lengths are read again. -/
def decodePurgePayloadBounded (buf : Bytes) (off : Nat) : Except CodecError (PurgeEvent × Nat) := do
  let evt ← decodePurgePayload buf off
  if buf.length < off + 16 then .error .shortFrame
  else
    let vkLen := getLE (slice (off + 16) (off + 16 + 2) buf)
    let consumed := 16 + (2 + vkLen)
    if buf.length < off + consumed + 2 then .error .shortFrame
    else
      let issuerLen := getLE (slice (off + consumed) (off + consumed + 2) buf)
      let consumed := consumed + (2 + issuerLen + 16)
      if buf.length < off + consumed then .error .shortFrame else pure (evt, off + consumed)

def refreshPayloadLen (evt : RefreshEvent) : Nat := 16 + 2 + evt.issuer.length + 8 + 8

def putRefreshPayload (evt : RefreshEvent) : Except CodecError Bytes := do
  let issuer ← putString evt.issuer
  pure (evt.key.val ++ (issuer ++ putTail evt.issuedAt evt.seq))

def decodeRefreshPayload (buf : Bytes) (off : Nat) : Except CodecError RefreshEvent :=
  if buf.length < off + 16 then .error .shortFrame
  else do
    let key := copyFixed 16 (slice off (off + 16) buf)
    let (issuer, off) ← readString buf (off + 16)
    if buf.length < off + 16 then .error .shortFrame
    else
      let tail := readTail buf off
      pure { key, issuer, issuedAt := tail.1, seq := tail.2 }

def decodeRefreshPayloadBounded (buf : Bytes) (off : Nat) :
    Except CodecError (RefreshEvent × Nat) := do
  let evt ← decodeRefreshPayload buf off
  if buf.length < off + 16 + 2 then .error .shortFrame
  else
    let issuerLen := getLE (slice (off + 16) (off + 16 + 2) buf)
    let consumed := 16 + 2 + issuerLen + 16
    if buf.length < off + consumed then .error .shortFrame else pure (evt, off + consumed)

/-! ## Batches -/

def frameHeader (msgType : UInt8) : Bytes :=
  [binaryMagic, binaryVersion] ++ if msgType ≠ 0 then [msgType] else []

def encodeFrame (msgType : UInt8) (payload : Except CodecError Bytes) : Except CodecError Bytes :=
  payload.map (frameHeader msgType ++ ·)

def decodeFrame {α : Type} (buf : Bytes) (wantType : UInt8) (decode : Nat → Except CodecError α) :
    Except CodecError α :=
  let hdrLen := if wantType ≠ 0 then gossipHdrLen else binaryHdrLen
  if buf.length < hdrLen then .error .shortFrame
  else if buf.getD 0 0 ≠ binaryMagic then .error .badMagic
  else if buf.getD 1 0 ≠ binaryVersion then .error (.unsupportedVer (buf.getD 1 0))
  else if wantType ≠ 0 ∧ buf.getD 2 0 ≠ wantType then .error (.wrongMsgType (buf.getD 2 0) wantType)
  else decode hdrLen

def frameLen (gossip : Bool) (payloadLen : Nat) : Nat :=
  if gossip then gossipHdrLen + payloadLen else binaryHdrLen + payloadLen

structure BatchCodec (E : Type) where
  payloadLen : E → Nat
  put : E → Except CodecError Bytes
  decodeOne : Bytes → Nat → Except CodecError (E × Nat)
  kind : String
  msgType : UInt8
  gossip : Bool

namespace BatchCodec

variable {E : Type}

def encode (c : BatchCodec E) (evts : List E) : Except CodecError Bytes :=
  encodeFrame c.msgType do
    let payloads ← evts.mapM c.put
    pure (putLE batchCountLen evts.length ++ payloads.flatten)

/-- The events of one frame after the other: `cur` are those of the frame being filled, of length
`frame` so far. -/
def splitBudgeted (c : BatchCodec E) (budget : Int) : Nat → List E → List E → List (List E)
  | _, cur, [] => if cur.isEmpty then [] else [cur]
  | frame, cur, evt :: evts =>
    if !cur.isEmpty ∧ budget < (frame + c.payloadLen evt : Nat) then
      cur :: splitBudgeted c budget (frameLen c.gossip batchCountLen + c.payloadLen evt) [evt] evts
    else splitBudgeted c budget (frame + c.payloadLen evt) (cur ++ [evt]) evts

def encodeBudgeted (c : BatchCodec E) (evts : List E) (budget : Int) :
    Except CodecError (List Bytes) :=
  if evts.isEmpty then .ok []
  else if budget ≤ 0 then (c.encode evts).map ([·])
  else (c.splitBudgeted budget (frameLen c.gossip batchCountLen) [] evts).mapM c.encode

/-- The loop of `decode`: so many events from the offset on, and the offset past them. -/
def decodeEvents (c : BatchCodec E) (buf : Bytes) : Nat → Nat → Except CodecError (List E × Nat)
  | 0, off => .ok ([], off)
  | n + 1, off => do
    let (evt, next) ← c.decodeOne buf off
    let (evts, off) ← c.decodeEvents buf n next
    pure (evt :: evts, off)

def decode (c : BatchCodec E) (buf : Bytes) : Except CodecError (List E) :=
  decodeFrame buf c.msgType fun off =>
    if buf.length < off + batchCountLen then .error .shortFrame
    else
      let count := getLE (slice off (off + batchCountLen) buf)
      if batchMaxEvents < count then .error (.countExceeds c.kind count)
      else do
        let (evts, off) ← c.decodeEvents buf count (off + batchCountLen)
        if off ≠ buf.length then .error (.trailingBytes c.kind (buf.length - off)) else .ok evts

end BatchCodec

def purgeBatchGossip : BatchCodec PurgeEvent where
  msgType := msgTypePurgeBatch
  gossip := true
  kind := "purge batch"
  payloadLen := purgePayloadLen
  put := putPurgePayload
  decodeOne := decodePurgePayloadBounded

def purgeBatchHTTP : BatchCodec PurgeEvent where
  msgType := 0
  gossip := false
  kind := "purge batch"
  payloadLen := purgePayloadLen
  put := putPurgePayload
  decodeOne := decodePurgePayloadBounded

def refreshBatchGossip : BatchCodec RefreshEvent where
  msgType := msgTypeRefreshBatch
  gossip := true
  kind := "refresh batch"
  payloadLen := refreshPayloadLen
  put := putRefreshPayload
  decodeOne := decodeRefreshPayloadBounded

def refreshBatchHTTP : BatchCodec RefreshEvent where
  msgType := 0
  gossip := false
  kind := "refresh batch"
  payloadLen := refreshPayloadLen
  put := putRefreshPayload
  decodeOne := decodeRefreshPayloadBounded

def decodePurgeBatchHTTP : Bytes → Except CodecError (List PurgeEvent) := purgeBatchHTTP.decode

def decodeRefreshBatchHTTP : Bytes → Except CodecError (List RefreshEvent) := refreshBatchHTTP.decode

/-! ## What a batch arrives as -/

/-- The codec reads an event back as `carry` of what was written, and knows its length. -/
structure BatchCodec.Lawful {E : Type} (c : BatchCodec E) (carry : E → E) : Prop where
  put_length : ∀ {evt bs}, c.put evt = .ok bs → bs.length = c.payloadLen evt
  decodeOne_put : ∀ {evt bs buf off r}, c.put evt = .ok bs → At buf off (bs ++ r) →
    c.decodeOne buf off = .ok (carry evt, off + bs.length)

def PurgeEvent.carry (evt : PurgeEvent) : PurgeEvent :=
  { evt with issuedAt := decodeTime (encodeTime evt.issuedAt) }

def RefreshEvent.carry (evt : RefreshEvent) : RefreshEvent :=
  { evt with issuedAt := decodeTime (encodeTime evt.issuedAt) }

theorem PurgeEvent.carry_eq {evt : PurgeEvent} (h : Carried evt.issuedAt) : evt.carry = evt := by
  rw [carry, decodeTime_encodeTime h]

theorem RefreshEvent.carry_eq (h : Carried evt.issuedAt) : evt.carry = evt := by
  rw [carry, decodeTime_encodeTime h]

theorem bind_eq_ok {ε α β : Type} {x : Except ε α} {f : α → Except ε β} {b : β}
    (h : x >>= f = .ok b) : ∃ a, x = .ok a ∧ f a = .ok b := by
  cases x with
  | error e => cases h
  | ok a => exact ⟨a, rfl, h⟩

theorem putPurgePayload_eq_ok {evt : PurgeEvent} (h : putPurgePayload evt = .ok bs) :
    ∃ varyKey issuer, putString evt.varyKey = .ok varyKey ∧ putString evt.issuer = .ok issuer ∧
      bs = evt.key.val ++ (varyKey ++ (issuer ++ putTail evt.issuedAt evt.seq)) := by
  obtain ⟨varyKey, hv, h⟩ := bind_eq_ok h
  obtain ⟨issuer, hi, h⟩ := bind_eq_ok h
  exact ⟨varyKey, issuer, hv, hi, (Except.ok.inj h).symm⟩

theorem putRefreshPayload_eq_ok (h : putRefreshPayload evt = .ok bs) :
    ∃ issuer, putString evt.issuer = .ok issuer ∧
      bs = evt.key.val ++ (issuer ++ putTail evt.issuedAt evt.seq) := by
  obtain ⟨issuer, hi, h⟩ := bind_eq_ok h
  exact ⟨issuer, hi, (Except.ok.inj h).symm⟩

theorem length_putPurgePayload {evt : PurgeEvent} (h : putPurgePayload evt = .ok bs) :
    bs.length = purgePayloadLen evt := by
  obtain ⟨varyKey, issuer, hv, hi, rfl⟩ := putPurgePayload_eq_ok h
  simp only [length_append, evt.key.property, length_putString hv, length_putString hi,
    length_putTail, purgePayloadLen]
  omega

theorem length_putRefreshPayload (h : putRefreshPayload evt = .ok bs) :
    bs.length = refreshPayloadLen evt := by
  obtain ⟨issuer, hi, rfl⟩ := putRefreshPayload_eq_ok h
  simp only [length_append, evt.key.property, length_putString hi, length_putTail,
    refreshPayloadLen]
  omega

theorem decodePurgePayload_put {evt : PurgeEvent} {varyKey issuer buf r : Bytes}
    (hv : putString evt.varyKey = .ok varyKey) (hi : putString evt.issuer = .ok issuer)
    (hat : At buf off (evt.key.val ++ (varyKey ++ (issuer ++ (putTail evt.issuedAt evt.seq ++ r)))))
    : decodePurgePayload buf off = .ok evt.carry := by
  have hkey := hat.advance evt.key.property
  have hvary := hkey.advance (length_putString hv)
  rw [← Nat.add_assoc] at hvary
  have htail := hvary.advance (length_putString hi)
  rw [← Nat.add_assoc] at htail
  rw [decodePurgePayload, if_neg (hat.not_short evt.key.property), hat.slice_eq evt.key.property,
    copyFixed_val, readString_putString hv hkey]
  show (readString buf _ >>= _) = _
  rw [readString_putString hi hvary]
  show (if _ then _ else _) = _
  rw [if_neg (htail.not_short (length_putTail _ _)), readTail_putTail htail]
  rfl

theorem decodePurgePayloadBounded_put {evt : PurgeEvent} {bs buf r : Bytes}
    (hput : putPurgePayload evt = .ok bs) (hat : At buf off (bs ++ r)) :
    decodePurgePayloadBounded buf off = .ok (evt.carry, off + bs.length) := by
  have hbs := hat.not_short rfl
  have htotal : off + bs.length =
      off + (16 + (2 + evt.varyKey.length) + (2 + evt.issuer.length + 16)) := by
    rw [length_putPurgePayload hput, purgePayloadLen]
    omega
  rw [htotal] at hbs ⊢
  obtain ⟨varyKey, issuer, hv, hi, rfl⟩ := putPurgePayload_eq_ok hput
  simp only [append_assoc] at hat
  have hkey := hat.advance evt.key.property
  have hvary := hkey.advance (length_putString hv)
  rw [Nat.add_assoc] at hvary
  rw [decodePurgePayloadBounded, decodePurgePayload_put hv hi hat]
  show (if _ then _ else _) = _
  rw [if_neg (hat.not_short evt.key.property), getLE_slice_putString hv hkey,
    getLE_slice_putString hi hvary, if_neg (by omega), if_neg hbs]
  rfl

theorem decodeRefreshPayload_put {issuer buf r : Bytes} (hi : putString evt.issuer = .ok issuer)
    (hat : At buf off (evt.key.val ++ (issuer ++ (putTail evt.issuedAt evt.seq ++ r)))) :
    decodeRefreshPayload buf off = .ok evt.carry := by
  have hkey := hat.advance evt.key.property
  have htail := hkey.advance (length_putString hi)
  rw [← Nat.add_assoc] at htail
  rw [decodeRefreshPayload, if_neg (hat.not_short evt.key.property), hat.slice_eq evt.key.property,
    copyFixed_val, readString_putString hi hkey]
  show (if _ then _ else _) = _
  rw [if_neg (htail.not_short (length_putTail _ _)), readTail_putTail htail]
  rfl

theorem decodeRefreshPayloadBounded_put {bs buf r : Bytes} (hput : putRefreshPayload evt = .ok bs)
    (hat : At buf off (bs ++ r)) :
    decodeRefreshPayloadBounded buf off = .ok (evt.carry, off + bs.length) := by
  have hbs := hat.not_short rfl
  have htotal : off + bs.length = off + (16 + 2 + evt.issuer.length + 16) := by
    rw [length_putRefreshPayload hput, refreshPayloadLen]
  rw [htotal] at hbs ⊢
  obtain ⟨issuer, hi, rfl⟩ := putRefreshPayload_eq_ok hput
  simp only [append_assoc] at hat
  rw [decodeRefreshPayloadBounded, decodeRefreshPayload_put hi hat]
  show (if _ then _ else _) = _
  rw [getLE_slice_putString hi (hat.advance evt.key.property), if_neg (by omega), if_neg hbs]
  rfl

theorem purgeBatchHTTP_lawful : purgeBatchHTTP.Lawful PurgeEvent.carry :=
  ⟨length_putPurgePayload, decodePurgePayloadBounded_put⟩

theorem refreshBatchHTTP_lawful : refreshBatchHTTP.Lawful RefreshEvent.carry :=
  ⟨length_putRefreshPayload, decodeRefreshPayloadBounded_put⟩

theorem decodeFrame_header {α : Type} (msgType : UInt8) (r : Bytes)
    (decode : Nat → Except CodecError α) :
    decodeFrame (frameHeader msgType ++ r) msgType decode = decode (frameHeader msgType).length := by
  by_cases h : msgType = 0
  · subst h
    rfl
  · have hlong : ¬ r.length + 1 + 1 + 1 < 3 := by omega
    simp [decodeFrame, frameHeader, h, gossipHdrLen, hlong]

namespace BatchCodec

variable {E : Type} {c : BatchCodec E} {carry : E → E} {evts : List E} {body : Bytes}

theorem mapM_put_cons {evt : E} {payloads : List Bytes}
    (h : (evt :: evts).mapM c.put = .ok payloads) :
    ∃ bs rest, c.put evt = .ok bs ∧ evts.mapM c.put = .ok rest ∧ payloads = bs :: rest := by
  rw [mapM_cons] at h
  obtain ⟨bs, hput, h⟩ := bind_eq_ok h
  obtain ⟨rest, hrest, h⟩ := bind_eq_ok h
  exact ⟨bs, rest, hput, hrest, (Except.ok.inj h).symm⟩

theorem encode_eq_ok (h : c.encode evts = .ok body) :
    ∃ payloads, evts.mapM c.put = .ok payloads ∧
      body = frameHeader c.msgType ++ (putLE batchCountLen evts.length ++ payloads.flatten) := by
  rw [encode] at h
  cases hp : evts.mapM c.put with
  | error e =>
    rw [hp] at h
    cases h
  | ok payloads =>
    rw [hp] at h
    exact ⟨payloads, rfl, (Except.ok.inj h).symm⟩

theorem exists_encode (h : ∀ evt ∈ evts, ∃ bs, c.put evt = .ok bs) :
    ∃ body, c.encode evts = .ok body := by
  have hput : ∃ payloads, evts.mapM c.put = .ok payloads := by
    induction evts with
    | nil => exact ⟨[], rfl⟩
    | cons evt evts ih =>
      obtain ⟨bs, hbs⟩ := h evt (.head _)
      obtain ⟨rest, hrest⟩ := ih fun x hx => h x (.tail _ hx)
      refine ⟨bs :: rest, ?_⟩
      rw [mapM_cons, hbs, hrest]
      rfl
  obtain ⟨payloads, hpayloads⟩ := hput
  rw [encode, hpayloads]
  exact ⟨_, rfl⟩

theorem decodeEvents_put (hc : c.Lawful carry) {payloads : List Bytes} {buf : Bytes} {off : Nat}
    (hput : evts.mapM c.put = .ok payloads) (hat : At buf off payloads.flatten) :
    c.decodeEvents buf evts.length off = .ok (evts.map carry, buf.length) := by
  induction evts generalizing payloads off with
  | nil =>
    cases hput
    have hlen : buf.length = off := hat.length_eq
    rw [length_nil, decodeEvents, map_nil, hlen]
  | cons evt evts ih =>
    obtain ⟨bs, rest, hbs, hrest, rfl⟩ := mapM_put_cons hput
    rw [length_cons, decodeEvents, hc.decodeOne_put hbs hat]
    show (c.decodeEvents buf evts.length (off + bs.length) >>= _) = _
    rw [ih hrest (hat.advance rfl)]
    rfl

theorem decode_encode (hc : c.Lawful carry) (hlen : evts.length ≤ batchMaxEvents)
    (h : c.encode evts = .ok body) : c.decode body = .ok (evts.map carry) := by
  obtain ⟨payloads, hput, rfl⟩ := encode_eq_ok h
  have hat := at_append (frameHeader c.msgType) (putLE batchCountLen evts.length ++ payloads.flatten)
  have hcount : evts.length < 256 ^ batchCountLen :=
    lt_of_le_of_lt hlen (by decide)
  rw [decode, decodeFrame_header, if_neg (hat.not_short (length_putLE _ _)),
    hat.slice_eq (length_putLE _ _), getLE_putLE hcount]
  rw [if_neg (not_lt.2 hlen), decodeEvents_put hc hput (hat.advance (length_putLE _ _))]
  show (if _ then _ else _) = _
  rw [if_neg (not_not_intro rfl)]

theorem decode_encode_overfull (hlow : batchMaxEvents < evts.length)
    (hhigh : evts.length < 256 ^ batchCountLen) (h : c.encode evts = .ok body) :
    c.decode body = .error (.countExceeds c.kind evts.length) := by
  obtain ⟨payloads, -, rfl⟩ := encode_eq_ok h
  have hat := at_append (frameHeader c.msgType) (putLE batchCountLen evts.length ++ payloads.flatten)
  rw [decode, decodeFrame_header, if_neg (hat.not_short (length_putLE _ _)),
    hat.slice_eq (length_putLE _ _), getLE_putLE hhigh]
  rw [if_pos hlow]

end BatchCodec

end Bouine.Cluster
