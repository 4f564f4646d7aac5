import Bouine.Lib.Decoder
import Bouine.Header.Map
import Bouine.Header.Directives

/-! # The encoding of objects

`internal/storage/codec.go`: how an object is written to the warm tier and sent to a peer, and how
the layouts 3 to 7 are read. The source's reader keeps its first error and reads nothing after it;
here that is a `Decoder`. Durations and counters have the source's width, times are nanoseconds from
the zero time.
-/

namespace Bouine.Storage.ObjectCodec

open Lib Lib.Decoder Header

structure Object where
  key : FixedBytes 16
  varyKey : Bytes
  varyValue : Bytes
  statusCode : Int64
  ttl : Int64
  staleWhileRevalidate : Int64
  staleIfError : Int64
  storedAt : Int
  lastModified : Int
  hits : UInt64
  etag : Bytes
  keepGrace : Bool
  pool : Bytes
  cacheControl : Bytes
  originAge : Int64
  hasDate : Bool
  respNoCache : Bool
  respMustRevalidate : Bool
  hasConnectionList : Bool
  hasNoCacheFields : Bool
  pairedKey : FixedBytes 16
  header : Map
  surrogateKeys : List Bytes
  body : Bytes
  bodySize : Int64
deriving DecidableEq

inductive ObjError where
  | corrupt
  | unknownVersion (ver : UInt8)
deriving DecidableEq

def objCodecVersion : UInt8 := 7
def objCodecVersionV6 : UInt8 := 6
def objCodecVersionV5 : UInt8 := 5
def objCodecVersionV4 : UInt8 := 4
def objCodecVersionV3 : UInt8 := 3

def objFlagHasDate : UInt8 := 1
def objFlagRespNoCache : UInt8 := 2
def objFlagRespMustRevalid : UInt8 := 4
def objFlagHasConnectionList : UInt8 := 8
def objFlagHasNoCacheFields : UInt8 := 16

/-! ## Writing -/

def appendTime (t : Int) : Bytes := if t = 0 then [0] else 1 :: putVarint (Lib.unixNano t)

def flagBit (flag : UInt8) (b : Bool) : UInt8 := if b then flag else 0

def encodeFlags (o : Object) : UInt8 :=
  flagBit objFlagHasDate o.hasDate ||| flagBit objFlagRespNoCache o.respNoCache |||
    flagBit objFlagRespMustRevalid o.respMustRevalidate |||
    flagBit objFlagHasConnectionList o.hasConnectionList |||
    flagBit objFlagHasNoCacheFields o.hasNoCacheFields

def encodeEntry (e : Line) : Bytes := putText e.name ++ putText e.value

def encodeFields (o : Object) : Bytes :=
  [o.key.val, putText o.varyKey, putText o.varyValue, putUvarint o.statusCode.toUInt64, putVarint o.ttl,
    putVarint o.staleWhileRevalidate, putVarint o.staleIfError, appendTime o.storedAt,
    appendTime o.lastModified, putUvarint o.hits, putText o.etag, [if o.keepGrace then 1 else 0],
    putText o.pool, putText o.cacheControl, putVarint o.originAge, [encodeFlags o], o.pairedKey.val,
    putUvarint (UInt64.ofNat o.header.entries.length) ++ o.header.entries.flatMap encodeEntry,
    putUvarint (UInt64.ofNat o.surrogateKeys.length) ++ o.surrogateKeys.flatMap putText,
    putText o.body].flatten

def encodeObject (o : Object) : Bytes := objCodecVersion :: encodeFields o

/-- The versions that `decodeObject` accepts. -/
def supportedVersions : List UInt8 :=
  [objCodecVersion, objCodecVersionV6, objCodecVersionV5, objCodecVersionV4, objCodecVersionV3]

/-- What version `ver` has of something that came with version `v`. -/
def inLayout {α : Type} (v ver : UInt8) (a absent : α) : α := if v ≤ ver then a else absent

/-- What follows the version in older layouts, which lack the fields added since. -/
def encodeFieldsAt (ver : UInt8) (o : Object) : Bytes :=
  [o.key.val, putText o.varyKey, inLayout objCodecVersionV4 ver (putText o.varyValue) [],
    putUvarint o.statusCode.toUInt64, putVarint o.ttl, putVarint o.staleWhileRevalidate,
    putVarint o.staleIfError, appendTime o.storedAt, appendTime o.lastModified, putUvarint o.hits,
    putText o.etag, inLayout objCodecVersionV5 ver [if o.keepGrace then 1 else 0] [],
    inLayout objCodecVersionV5 ver (putText o.pool) [],
    inLayout objCodecVersionV6 ver (putText o.cacheControl) [],
    inLayout objCodecVersionV6 ver (putVarint o.originAge) [],
    inLayout objCodecVersionV6 ver [encodeFlags o] [],
    inLayout objCodecVersion ver o.pairedKey.val [],
    putUvarint (UInt64.ofNat o.header.entries.length) ++ o.header.entries.flatMap encodeEntry,
    putUvarint (UInt64.ofNat o.surrogateKeys.length) ++ o.surrogateKeys.flatMap putText,
    putText o.body].flatten

def encodeObjectAt (ver : UInt8) (o : Object) : Bytes := ver :: encodeFieldsAt ver o

/-! ## Reading -/

def str : Decoder ObjError Bytes := text .corrupt

def time : Decoder ObjError Int := do
  let present ← byte .corrupt
  if present = 0 then pure 0 else ofUnixNano <$> varint .corrupt

/-- A field that layouts before `v` do not have. -/
def since {α : Type} (v ver : UInt8) (rd : Decoder ObjError α) (absent : α) : Decoder ObjError α :=
  if v ≤ ver then rd else pure absent

def entry : Decoder ObjError Line := do
  let k ← str
  let v ← str
  pure ⟨k, v⟩

def decodeHeaderMap (entries : List Line) : Map :=
  (entries.foldl (fun m e => m.appendEntry e.name e.value) Map.empty).sortEntries

def backfillPreV6Flags (o : Object) : Object :=
  let o := { o with hasDate := o.header.has (ascii "Date") }
  let cc := o.header.getAll (ascii "Cache-Control")
  if cc = [] then o
  else
    let parsed := parseCacheControl cc
    { o with
      respNoCache := parsed.noCache
      respMustRevalidate := parsed.mustRevalidate || parsed.proxyRevalidate
      hasNoCacheFields := parsed.noCacheFields != [] }

def decodeFields (ver : UInt8) : Decoder ObjError Object := do
  let key ← fixed .corrupt 16
  let varyKey ← str
  let varyValue ← since objCodecVersionV4 ver str []
  let statusCode ← uvarint .corrupt
  let ttl ← varint .corrupt
  let staleWhileRevalidate ← varint .corrupt
  let staleIfError ← varint .corrupt
  let storedAt ← time
  let lastModified ← time
  let hits ← uvarint .corrupt
  let etag ← str
  let keepGrace ← since objCodecVersionV5 ver (byte .corrupt) 0
  let pool ← since objCodecVersionV5 ver str []
  let cacheControl ← since objCodecVersionV6 ver str []
  let originAge ← since objCodecVersionV6 ver (varint .corrupt) 0
  let flags ← since objCodecVersionV6 ver (byte .corrupt) 0
  let pairedKey ← since objCodecVersion ver (fixed .corrupt 16) (copyFixed 16 [])
  let entries ← counted .corrupt entry
  let surrogateKeys ← counted .corrupt str
  let body ← text .corrupt
  let obj : Object :=
    { key, varyKey, varyValue, statusCode := statusCode.toInt64, ttl, staleWhileRevalidate
      staleIfError, storedAt, lastModified, hits, etag
      keepGrace := keepGrace == 1, pool, cacheControl, originAge
      hasDate := flags &&& objFlagHasDate != 0
      respNoCache := flags &&& objFlagRespNoCache != 0
      respMustRevalidate := flags &&& objFlagRespMustRevalid != 0
      hasConnectionList := flags &&& objFlagHasConnectionList != 0
      hasNoCacheFields := flags &&& objFlagHasNoCacheFields != 0
      pairedKey, header := decodeHeaderMap entries, surrogateKeys, body
      bodySize := Int64.ofNat body.length }
  pure (if ver < objCodecVersionV6 then backfillPreV6Flags obj else obj)

/-- `decodeObject`. Bytes after the body are not looked at. -/
def decodeObject (blob : Bytes) : Except ObjError Object :=
  match blob with
  | [] => .error .corrupt
  | ver :: rest =>
    if ver ∉ [objCodecVersion, objCodecVersionV6, objCodecVersionV5, objCodecVersionV4,
        objCodecVersionV3] then .error (.unknownVersion ver)
    else ((decodeFields ver).run rest).map (·.1)

/-! ## Reading what was written -/

/-- What the types of the source ensure: lengths are `int`s, and names in a header map are
canonical. -/
structure Valid (o : Object) : Prop where
  texts : ∀ s ∈ [o.varyKey, o.varyValue, o.etag, o.pool, o.cacheControl, o.body], s.length < 2 ^ 63
  header : o.header.entries.length < 2 ^ 63
  entries : ∀ e ∈ o.header.entries, e.name.length < 2 ^ 63 ∧ e.value.length < 2 ^ 63
  canonical : ∀ e ∈ o.header.entries, isCanonical e.name = true
  surrogates : o.surrogateKeys.length < 2 ^ 63
  surrogateKeys : ∀ s ∈ o.surrogateKeys, s.length < 2 ^ 63

def carriedTime (t : Int) : Int := if t = 0 then 0 else ofUnixNano (Lib.unixNano t)

def carried (o : Object) : Object :=
  { o with
    storedAt := carriedTime o.storedAt
    lastModified := carriedTime o.lastModified
    header := o.header.sortEntries
    bodySize := Int64.ofNat o.body.length }

/-- An object after a round trip through version `ver`: what the layout lacks is absent, flags
without a byte are filled in. -/
def carriedAt (ver : UInt8) (o : Object) : Object :=
  let obj :=
    { carried o with
      varyValue := inLayout objCodecVersionV4 ver o.varyValue []
      keepGrace := inLayout objCodecVersionV5 ver o.keepGrace false
      pool := inLayout objCodecVersionV5 ver o.pool []
      cacheControl := inLayout objCodecVersionV6 ver o.cacheControl []
      originAge := inLayout objCodecVersionV6 ver o.originAge 0
      hasDate := inLayout objCodecVersionV6 ver o.hasDate false
      respNoCache := inLayout objCodecVersionV6 ver o.respNoCache false
      respMustRevalidate := inLayout objCodecVersionV6 ver o.respMustRevalidate false
      hasConnectionList := inLayout objCodecVersionV6 ver o.hasConnectionList false
      hasNoCacheFields := inLayout objCodecVersionV6 ver o.hasNoCacheFields false
      pairedKey := inLayout objCodecVersion ver o.pairedKey (copyFixed 16 []) }
  if ver < objCodecVersionV6 then backfillPreV6Flags obj else obj

theorem reads_time (t : Int) : Reads time (appendTime t) (carriedTime t) := by
  rw [appendTime, carriedTime]
  split_ifs with hzero
  · exact (reads_byte ObjError.corrupt 0).bind_pure rfl
  · refine (reads_byte ObjError.corrupt 1).bind ?_
    exact (reads_varint ObjError.corrupt (Lib.unixNano t)).map ofUnixNano

theorem reads_since {α : Type} (v ver : UInt8) {rd : Decoder ObjError α} (absent : α) {a : α}
    {bs : Bytes} (h : Reads rd bs a) :
    Reads (since v ver rd absent) (inLayout v ver bs []) (inLayout v ver a absent) := by
  unfold since inLayout
  split_ifs
  · exact h
  · exact reads_pure absent

theorem reads_entry {e : Line} (h : e.name.length < 2 ^ 63 ∧ e.value.length < 2 ^ 63) :
    Reads entry (encodeEntry e) e :=
  (reads_text _ h.1).bind ((reads_text _ h.2).bind_pure rfl)

theorem foldl_appendEntry {entries : List Line} (h : ∀ e ∈ entries, isCanonical e.name)
    (m : Map) :
    entries.foldl (fun m e => m.appendEntry e.name e.value) m = ⟨m.entries ++ entries⟩ := by
  induction entries generalizing m with
  | nil => simp
  | cons e entries ih =>
    rw [List.foldl_cons, ih fun x hx => h x (.tail _ hx), Map.appendEntry,
      canonicalHeaderKey_of_isCanonical (h e (.head _)), List.append_assoc]
    rfl

theorem decodeHeaderMap_entries {m : Map} (h : ∀ e ∈ m.entries, isCanonical e.name) :
    decodeHeaderMap m.entries = m.sortEntries := by
  rw [decodeHeaderMap, foldl_appendEntry h]
  rfl

theorem keepGrace_byte (b : Bool) : ((if b then 1 else 0 : UInt8) == 1) = b := by
  cases b <;> rfl

theorem flags_byte (o : Object) :
    (encodeFlags o &&& objFlagHasDate != 0) = o.hasDate ∧
      (encodeFlags o &&& objFlagRespNoCache != 0) = o.respNoCache ∧
      (encodeFlags o &&& objFlagRespMustRevalid != 0) = o.respMustRevalidate ∧
      (encodeFlags o &&& objFlagHasConnectionList != 0) = o.hasConnectionList ∧
      (encodeFlags o &&& objFlagHasNoCacheFields != 0) = o.hasNoCacheFields := by
  rw [encodeFlags]
  generalize o.hasDate = a, o.respNoCache = b, o.respMustRevalidate = c, o.hasConnectionList = d,
    o.hasNoCacheFields = e
  revert a b c d e
  decide

theorem flag_inLayout (v ver flags flag : UInt8) {b : Bool} (h : (flags &&& flag != 0) = b) :
    (inLayout v ver flags 0 &&& flag != 0) = inLayout v ver b false := by
  unfold inLayout
  split_ifs
  · exact h
  · simp

theorem keepGrace_inLayout (v ver : UInt8) (b : Bool) :
    (inLayout v ver (if b then 1 else 0 : UInt8) 0 == 1) = inLayout v ver b false := by
  unfold inLayout
  by_cases hv : v ≤ ver
  · rw [if_pos hv, if_pos hv, keepGrace_byte]
  · rw [if_neg hv, if_neg hv]
    rfl

variable {o : Object}

theorem reads_fieldsAt (ver : UInt8) (h : Valid o) :
    Reads (decodeFields ver) (encodeFieldsAt ver o) (carriedAt ver o) := by
  have htexts := h.texts
  simp only [List.forall_mem_cons] at htexts
  obtain ⟨hvaryKey, hvaryValue, hetag, hpool, hcacheControl, hbody, -⟩ := htexts
  have hheader := reads_counted ObjError.corrupt (lt_trans h.header (by decide))
    (fun e he => reads_entry (h.entries e he))
    (fun e _ => List.append_ne_nil_of_left_ne_nil (putText_ne_nil e.name) _)
  have hsurrogates := reads_counted ObjError.corrupt (lt_trans h.surrogates (by decide))
    (fun s hs => reads_text ObjError.corrupt (h.surrogateKeys s hs)) (fun s _ => putText_ne_nil s)
  obtain ⟨hdate, hnoCache, hmust, hconnection, hfields⟩ := flags_byte o
  refine (reads_fixed _ _).field ((reads_text _ hvaryKey).field ?_)
  refine (reads_since _ ver _ (reads_text _ hvaryValue)).field ?_
  refine (reads_uvarint _ _).field ((reads_varint _ _).field ((reads_varint _ _).field ?_))
  refine (reads_varint _ _).field ((reads_time _).field ((reads_time _).field ?_))
  refine (reads_uvarint _ _).field ((reads_text _ hetag).field ?_)
  refine (reads_since _ ver _ (reads_byte _ _)).field ?_
  refine (reads_since _ ver _ (reads_text _ hpool)).field ?_
  refine (reads_since _ ver _ (reads_text _ hcacheControl)).field ?_
  refine (reads_since _ ver _ (reads_varint _ _)).field ?_
  refine (reads_since _ ver _ (reads_byte _ _)).field ?_
  refine (reads_since _ ver _ (reads_fixed _ _)).field (hheader.field (hsurrogates.field ?_))
  refine (reads_text _ hbody).field ?_
  rw [keepGrace_inLayout, flag_inLayout _ _ _ _ hdate, flag_inLayout _ _ _ _ hnoCache,
    flag_inLayout _ _ _ _ hmust, flag_inLayout _ _ _ _ hconnection, flag_inLayout _ _ _ _ hfields,
    decodeHeaderMap_entries h.canonical]
  exact reads_pure (carriedAt ver o)

theorem decodeObject_encodeObjectAt {ver : UInt8} (hver : ver ∈ supportedVersions)
    (h : Valid o) : decodeObject (encodeObjectAt ver o) = .ok (carriedAt ver o) := by
  have hread := reads_fieldsAt ver h []
  rw [List.append_nil] at hread
  rw [supportedVersions] at hver
  rw [encodeObjectAt, decodeObject, if_neg (not_not.2 hver), hread]
  rfl

theorem decodeObject_encodeObject (h : Valid o) :
    decodeObject (encodeObject o) = .ok (carried o) :=
  decodeObject_encodeObjectAt (by decide) h

/-- What should come back: all that is serialised, with the header sorted. -/
def restored (o : Object) : Object :=
  { o with header := o.header.sortEntries, bodySize := Int64.ofNat o.body.length }

theorem carriedTime_eq_iff {t : Int} : carriedTime t = t ↔ t = 0 ∨ HasUnixNano t := by
  rw [carriedTime]
  split_ifs with hzero
  · exact ⟨fun _ => .inl hzero, fun _ => hzero.symm⟩
  · rw [ofUnixNano_unixNano_iff]
    exact ⟨.inr, fun h => h.resolve_left hzero⟩

theorem carried_eq_restored_iff (o : Object) :
    carried o = restored o ↔
      carriedTime o.storedAt = o.storedAt ∧ carriedTime o.lastModified = o.lastModified := by
  simp [carried, restored]

/-- An object survives the round trip exactly if its times are zero or fit in 64 bits of nanoseconds. -/
theorem object_round_trip_iff (o : { o : Object // Valid o }) :
    decodeObject (encodeObject o.val) = .ok (restored o.val) ↔
      (o.val.storedAt = 0 ∨ HasUnixNano o.val.storedAt) ∧
        (o.val.lastModified = 0 ∨ HasUnixNano o.val.lastModified) := by
  rw [decodeObject_encodeObject o.property, Except.ok.injEq, carried_eq_restored_iff,
    carriedTime_eq_iff, carriedTime_eq_iff]

def distantObject : Object where
  key := copyFixed 16 []
  varyKey := []
  varyValue := []
  statusCode := 200
  ttl := 0
  staleWhileRevalidate := 0
  staleIfError := 0
  storedAt := 0
  lastModified := 72549388800 * 1000000000
  hits := 0
  etag := []
  keepGrace := false
  pool := []
  cacheControl := []
  originAge := 0
  hasDate := false
  respNoCache := false
  respMustRevalidate := false
  hasConnectionList := false
  hasNoCacheFields := false
  pairedKey := copyFixed 16 []
  header := ⟨[]⟩
  surrogateKeys := []
  body := []
  bodySize := 0

/-- It comes back as last modified in the year 1715. -/
theorem distant_date_changes :
    Valid distantObject ∧
      (decodeObject (encodeObject distantObject)).toOption.map Object.lastModified =
        some 54102644726290448384 := by
  constructor
  · constructor <;> decide
  · decide

end Bouine.Storage.ObjectCodec
