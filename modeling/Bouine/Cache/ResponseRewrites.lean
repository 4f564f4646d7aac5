import Bouine.Header.Rewrite
import Bouine.Cache.Stored

/-! # Response rewrites on the way to the client

`response.header_remove` and `response.header_set` are applied by every writer of responses on its
own (`applyResponseRewrites` in `internal/cache/handler.go`, with the writers there and in
`stream.go`, `sse.go`, `range.go`, `fastheader.go` and `fastpath.go`). A writer is the header it
drafts, whether it rewrites that, and what it sets later.
-/

namespace Bouine.Cache

open Lib Header
open List hiding splitOn

namespace Field

def contentRange : Bytes := ascii "Content-Range"
def contentType : Bytes := ascii "Content-Type"
def retryAfter : Bytes := ascii "Retry-After"
def warning : Bytes := ascii "Warning"
def xCache : Bytes := ascii "X-Cache"
def xCacheSourceLegacy : Bytes := ascii "X-Cache-Source"

def cdcFamily : List Bytes :=
  [cdnCacheControl, ascii "Cloudflare-Cdn-Cache-Control", ascii "Surrogate-Control"]

def notServed : List Bytes :=
  [ascii "X-Bouine-Path", ascii "X-Bouine-Host", ascii "X-Bouine-Route", ascii "Connection",
    ascii "Keep-Alive", ascii "Transfer-Encoding", ascii "TE", ascii "Trailer", ascii "Upgrade", age]

end Field

/-- A stored object; its names have been interned in canonical form. -/
structure ServedObject where
  obj : Stored
  canonical : ∀ e ∈ obj.header.entries, isCanonical e.name = true

structure Responder where
  /-- the names to remove are interned, those to set are as configured -/
  rewrite : Rewrite
  interned : ∀ n ∈ rewrite.remove, isCanonical n = true
  /-- `downstream_freshness: sync` -/
  sync : Bool
  /-- whether a header copied from an object's prepared one still brings names into canonical form
  -/
  copyNormalizes : Bool
  /-- the lines that the server adds when it writes a header -/
  transport : Raw → List Line

/-! ## Parts of the drafts -/

def fieldNames (s : Bytes) : List Bytes :=
  ((splitOn (byte ',') (s.map fun c => if c = byte ' ' then byte ',' else c)).filter (· ≠ [])).map
    canonicalHeaderKey

def noCacheFieldNames (cacheControl : Bytes) : List Bytes :=
  fieldNames (parseCacheControl cacheControl).noCacheFields

def connectionListed (o : Stored) : List Bytes :=
  if o.hasConnectionList then fieldNames (o.header.get Field.connection) else []

def skipStaticHeader (o : Stored) (sync : Bool) (key : Bytes) : Bool :=
  Field.notServed.contains key || (noCacheFieldNames o.cacheControl).contains key ||
    (connectionListed o).contains key || [Field.xCache, Field.warning].contains key ||
    (sync && Field.cdcFamily.contains key)

def setIf (c : Bool) (key value : Bytes) (hdr : Raw) : Raw := if c then hdr.set key value else hdr

/-- `Set` on the header of a response: Date and Transfer-Encoding are the server's, and cookies add
up. -/
def setLine (h : Raw) (l : Line) : Raw :=
  if l.name = Field.date ∨ l.name = Field.transferEncoding then h
  else if l.name = setCookie then h.add l.name l.value
  else h.set l.name l.value

def responseSet : Setter where
  set := setLine
  lines l ls :=
    if l.name = Field.date ∨ l.name = Field.transferEncoding then ls
    else if l.name = setCookie then ls ++ [l.value]
    else l.value :: ls.drop 1
  peekAll_set h l name := by
    unfold setLine
    by_cases hname : name = l.name
    · subst hname
      rw [if_pos rfl]
      split_ifs
      · rfl
      · simp [Raw.add, Raw.peekAll, valuesOf]
      · rw [Raw.peekAll_set, if_pos rfl]
    · rw [if_neg hname]
      split_ifs
      · rfl
      · simp [Raw.add, Raw.peekAll, valuesOf, Ne.symm hname]
      · exact Raw.peekAll_set_of_ne hname h l.value

def applyResponseRewrites (d : Rewrite) (hdr : Raw) : Raw := d.apply responseSet hdr

def setAll (ls : List Line) : Raw := ls.foldl setLine ⟨[]⟩

def writeToFastHTTP (m : Map) : Raw :=
  setAll (m.entries.filter fun e => !(Field.date :: Field.notServed).contains e.name)

/-- `CopyToFastHTTP` onto an empty header. -/
def HeaderLookup.copied : HeaderLookup → Raw
  | fast hdr => hdr
  | map m => writeToFastHTTP m

def fastHeader (o : Stored) : Raw :=
  let hdr := setIf (o.hasDate || o.header.has Field.date) Field.date (o.header.get Field.date)
    (writeToFastHTTP o.header)
  let hdr := (connectionListed o).foldl Raw.del hdr
  if o.hasNoCacheFields then (noCacheFieldNames o.cacheControl).foldl Raw.del hdr else hdr

def capped (r : Responder) (cap : Bytes) (hdr : Raw) : Raw :=
  if r.sync then (Field.cdcFamily.foldl Raw.del hdr).set Field.cdnCacheControl cap else hdr

def staleWarning : Bytes := ascii "110 - \"Response is Stale\""

/-- `RequestCtx.Error` starts over. -/
def errorHeader : Raw := ⟨[⟨Field.contentType, ascii "text/plain; charset=utf-8"⟩]⟩

/-! ## The writers -/

inductive CacheResult where
  | hit
  | stale
  | revalidated
deriving DecidableEq

def CacheResult.text : CacheResult → Bytes
  | hit => ascii "HIT"
  | stale => ascii "STALE"
  | revalidated => ascii "REVALIDATED"

structure OriginHeader where
  lookup : HeaderLookup
  canonical : lookup.copied.Canonical

/-- The responses of a route. Ages, dates and caps are given as texts. -/
inductive Answer where
  /-- `composeResponse` -/
  | fastHit (o : ServedObject) (stale : Bool) (date age cap connection : Bytes)
  /-- `serveObject` -/
  | object (o : ServedObject) (result : CacheResult) (age cap : Bytes)
  /-- `freshenFromHead` -/
  | freshened (o : ServedObject) (age : Bytes)
  /-- `write304Fast` -/
  | notModified (o : ServedObject) (xCache : Bytes) (stale : Bool) (cap : Bytes)
  /-- the origin's own 304, in `serveResolver304` -/
  | relayed304 (origin : OriginHeader)
  /-- `serveRange`: one range, or several -/
  | partialContent (o : ServedObject) (stale : Bool) (cap contentRange length : Bytes)
  | multipart (o : ServedObject) (stale : Bool) (cap contentType : Bytes)
  | notSatisfiable (contentRange : Bytes)
  /-- `streamMiss` and `writeAndMaybeStore`; the cap of a fill comes last -/
  | miss (origin : OriginHeader) (age : Bytes) (cap : Option Bytes)
  /-- `writeBufferedResult` -/
  | shared (origin : OriginHeader) (age : Bytes)
  /-- `streamBypass`, `handleSSE` and `invalidateAndProxy` -/
  | passed (origin : Raw) (canonical : origin.Canonical) (xCache : Bytes)
  /-- the handler of a static route, run in place -/
  | inProcess (answer : Raw) (canonical : answer.Canonical) (xCache : Bytes)
  /-- a failed fetch -/
  | failed (xCache : Bytes)
  /-- `handleBypass` on only-if-cached -/
  | gatewayTimeout
  /-- `writeShed503` -/
  | shed (xCache : Bytes)
  /-- `invalidateAndProxy` on a body that is too large -/
  | tooLarge
  /-- `invalidateAndProxy` without a client: the error comes after the rewrite -/
  | noClient

def composeResponse (r : Responder) (o : Stored) (stale : Bool) (date age cap connection : Bytes) :
    Raw :=
  ⟨(o.header.entries.filter fun e => !skipStaticHeader o r.sync e.name) ++
    (if !o.hasDate && !o.header.has Field.date then [⟨Field.date, date⟩] else []) ++
    [⟨Field.age, age⟩, ⟨Field.xCache, if stale then ascii "STALE" else ascii "HIT"⟩] ++
    (if stale then [⟨Field.warning, staleWarning⟩] else []) ++
    (if r.sync then [⟨Field.cdnCacheControl, cap⟩] else []) ++
    [⟨Field.connection, connection⟩]⟩

def rangeHeader (r : Responder) (o : Stored) (stale : Bool) (cap : Bytes) : Raw :=
  let hdr := setAll (o.header.entries.filter fun e =>
    !(e.name = Field.contentLength || (r.sync && Field.cdcFamily.contains e.name)))
  let hdr := setIf stale Field.warning staleWarning hdr
  let hdr := hdr.set Field.xCache (if stale then ascii "STALE" else ascii "HIT")
  setIf r.sync Field.cdnCacheControl cap hdr

namespace Answer

def draft (r : Responder) : Answer → Raw
  | fastHit o stale date age cap connection =>
    composeResponse r o.obj stale date age cap connection
  | object o result age cap =>
    capped r cap (setIf (result == .stale) Field.warning staleWarning
      (((fastHeader o.obj).set Field.age age).set Field.xCache result.text))
  | freshened o age =>
    ((fastHeader o.obj).set Field.age age).set Field.xCache (ascii "REVALIDATED")
  | notModified o xCache stale cap =>
    (setIf r.sync Field.cdnCacheControl cap (setIf stale Field.warning staleWarning
      (setIf (o.obj.etag != []) Field.etag o.obj.etag ⟨[]⟩))).set Field.xCache xCache
  | relayed304 origin =>
    (capped r (ascii "public, max-age=0") origin.lookup.copied).set Field.xCache
      (ascii "REVALIDATED")
  | partialContent o stale cap contentRange length =>
    ((rangeHeader r o.obj stale cap).set Field.contentRange contentRange).set
      Field.contentLength length
  | multipart o stale cap contentType =>
    (rangeHeader r o.obj stale cap).set Field.contentType contentType
  | notSatisfiable contentRange => ⟨[⟨Field.contentRange, contentRange⟩]⟩
  | miss origin age _ =>
    let hdr := origin.lookup.copied
    let hdr := if r.sync then Field.cdcFamily.foldl Raw.del hdr else hdr
    (hdr.set Field.xCache (ascii "MISS")).set Field.age age
  | shared origin age =>
    (origin.lookup.copied.set Field.xCache (ascii "MISS")).set Field.age age
  | passed origin _ xCache =>
    ((origin.del Field.xCache).del Field.xCacheSourceLegacy).set Field.xCache xCache
  | inProcess answer _ xCache => answer.set Field.xCache xCache
  | failed xCache => errorHeader.set Field.xCache xCache
  | gatewayTimeout => errorHeader.set Field.xCache (ascii "MISS")
  | shed xCache => (errorHeader.set Field.retryAfter (ascii "1")).set Field.xCache xCache
  | tooLarge => errorHeader
  | noClient => errorHeader

def isRewritten : Answer → Bool
  | fastHit .. | partialContent .. | multipart .. | notSatisfiable _ => false
  | gatewayTimeout | shed _ | tooLarge | noClient => false
  | _ => true

def normalizes (r : Responder) : Answer → Bool
  | object .. | freshened .. => r.copyNormalizes
  | _ => true

/-- The cap that is set after the rewrite. -/
def late (r : Responder) : Answer → Option Bytes
  | miss _ _ cap => if r.sync then cap else none
  | _ => none

def rewrite (r : Responder) (a : Answer) : Rewrite :=
  if a.normalizes r then r.rewrite.canonical else r.rewrite

def header (r : Responder) (a : Answer) : Raw :=
  let hdr := if a.isRewritten then applyResponseRewrites (a.rewrite r) (a.draft r) else a.draft r
  (a.late r).elim hdr (hdr.set Field.cdnCacheControl)

def added (r : Responder) (a : Answer) : List Line :=
  match a with
  | fastHit .. => []
  | a => r.transport (a.header r)

def sent (r : Responder) (a : Answer) : List Line := (a.header r).lines ++ a.added r

end Answer

/-- No removed field is left, whatever its case, and every set field has its value and no other. -/
def RewritesSeen (r : Responder) (a : Answer) : Prop :=
  (∀ n ∈ r.rewrite.remove, n ∉ r.rewrite.canonical.set.map Prod.fst →
      fieldValues n (a.sent r) = []) ∧
    ∀ e ∈ r.rewrite.set, fieldValues (canonicalHeaderKey e.1) (a.sent r) = [e.2]

/-! ## Drafts are canonical -/

section

theorem canonical_nil : Raw.Canonical ⟨[]⟩ := by simp [Raw.Canonical]

variable {hdr : Raw}

theorem canonical_foldl_del (hh : hdr.Canonical) (names : List Bytes) :
    (names.foldl Raw.del hdr).Canonical :=
  foldlRecOn names _ hh fun _ hh n _ => hh.del n

theorem canonical_setLine (hh : hdr.Canonical) {l : Line}
    (hl : isCanonical l.name) : (setLine hdr l).Canonical := by
  unfold setLine
  split_ifs
  · exact hh
  · intro l' hl'
    obtain hl' | hl' := mem_append.1 hl'
    · exact hh l' hl'
    · rw [mem_singleton.1 hl']
      exact hl
  · exact hh.set hl l.value

theorem canonical_setAll {ls : List Line} (hls : ∀ l ∈ ls, isCanonical l.name) :
    (setAll ls).Canonical :=
  foldlRecOn ls _ canonical_nil fun _ hh l hl => canonical_setLine hh (hls l hl)

theorem canonical_setIf (hh : hdr.Canonical) (c : Bool) {key : Bytes}
    (hk : isCanonical key) (value : Bytes) : (setIf c key value hdr).Canonical := by
  unfold setIf
  split_ifs
  · exact hh.set hk value
  · exact hh

theorem isCanonical_own : ∀ n ∈ [Field.age, Field.cdnCacheControl, Field.connection,
    Field.contentLength, Field.contentRange, Field.contentType, Field.date, Field.etag,
    Field.retryAfter, Field.warning, Field.xCache], isCanonical n = true := by
  decide

theorem canonical_capped (r : Responder) (hh : hdr.Canonical) (cap : Bytes) :
    (capped r cap hdr).Canonical := by
  unfold capped
  split_ifs
  · exact (canonical_foldl_del hh _).set (isCanonical_own _ (by simp)) cap
  · exact hh

theorem canonical_fastHeader (o : ServedObject) : (fastHeader o.obj).Canonical := by
  have hwritten : (writeToFastHTTP o.obj.header).Canonical :=
    canonical_setAll fun l hl => o.canonical l (mem_of_mem_filter hl)
  have hdated := canonical_setIf hwritten (o.obj.hasDate || o.obj.header.has Field.date)
    (isCanonical_own Field.date (by simp)) (o.obj.header.get Field.date)
  have hlisted := canonical_foldl_del hdated (connectionListed o.obj)
  unfold fastHeader
  split_ifs
  · exact canonical_foldl_del hlisted _
  · exact hlisted

theorem canonical_rangeHeader (r : Responder) (o : ServedObject) (stale : Bool) (cap : Bytes) :
    (rangeHeader r o.obj stale cap).Canonical := by
  have hset : (setAll (o.obj.header.entries.filter fun e =>
      !(e.name = Field.contentLength || (r.sync && Field.cdcFamily.contains e.name)))).Canonical :=
    canonical_setAll fun l hl => o.canonical l (mem_of_mem_filter hl)
  exact canonical_setIf ((canonical_setIf hset _ (isCanonical_own _ (by simp)) _).set
    (isCanonical_own _ (by simp)) _) _ (isCanonical_own _ (by simp)) _

theorem canonical_composeResponse (r : Responder) (o : ServedObject) (stale : Bool)
    (date age cap connection : Bytes) :
    (composeResponse r o.obj stale date age cap connection).Canonical := by
  have hown : ∀ {c : Prop} [Decidable c] {n v : Bytes}, isCanonical n →
      ∀ l ∈ (if c then [(⟨n, v⟩ : Line)] else []), isCanonical l.name = true := by
    intro c _ n v hn l hl
    split_ifs at hl
    · rw [mem_singleton.1 hl]
      exact hn
    · simp at hl
  intro l hl
  simp only [composeResponse, mem_append, mem_cons, not_mem_nil, or_false] at hl
  rcases hl with ((((hl | hl) | hl | hl) | hl) | hl) | hl
  · exact o.canonical l (mem_of_mem_filter hl)
  · exact hown (isCanonical_own _ (by simp)) l hl
  · exact hl ▸ isCanonical_own Field.age (by simp)
  · exact hl ▸ isCanonical_own Field.xCache (by simp)
  · exact hown (isCanonical_own _ (by simp)) l hl
  · exact hown (isCanonical_own _ (by simp)) l hl
  · exact hl ▸ isCanonical_own Field.connection (by simp)

theorem canonical_errorHeader : errorHeader.Canonical := by
  intro l hl
  rw [mem_singleton.1 hl]
  exact isCanonical_own Field.contentType (by simp)

theorem canonical_draft (r : Responder) (a : Answer) : (a.draft r).Canonical := by
  have hx : isCanonical Field.xCache = true := isCanonical_own _ (by simp)
  have hage : isCanonical Field.age = true := isCanonical_own _ (by simp)
  cases a with
  | fastHit o stale date age cap connection =>
    exact canonical_composeResponse r o stale date age cap connection
  | object o result age cap =>
    exact canonical_capped r (canonical_setIf (((canonical_fastHeader o).set hage _).set hx _) _
      (isCanonical_own _ (by simp)) _) _
  | freshened o age => exact ((canonical_fastHeader o).set hage _).set hx _
  | notModified o xCache stale cap =>
    exact (canonical_setIf (canonical_setIf (canonical_setIf canonical_nil _
      (isCanonical_own _ (by simp)) _) _ (isCanonical_own _ (by simp)) _) _
      (isCanonical_own _ (by simp)) _).set hx _
  | relayed304 origin => exact (canonical_capped r origin.canonical _).set hx _
  | partialContent o stale cap contentRange length =>
    exact ((canonical_rangeHeader r o stale cap).set (isCanonical_own _ (by simp)) _).set
      (isCanonical_own _ (by simp)) _
  | multipart o stale cap contentType =>
    exact (canonical_rangeHeader r o stale cap).set (isCanonical_own _ (by simp)) _
  | notSatisfiable contentRange =>
    intro l hl
    rw [mem_singleton.1 hl]
    exact isCanonical_own Field.contentRange (by simp)
  | miss origin age cap =>
    refine (Raw.Canonical.set ?_ hx _).set hage _
    split_ifs
    · exact canonical_foldl_del origin.canonical _
    · exact origin.canonical
  | shared origin age => exact (origin.canonical.set hx _).set hage _
  | passed origin canonical xCache => exact ((canonical.del _).del _).set hx _
  | inProcess answer canonical xCache => exact canonical.set hx _
  | failed xCache => exact canonical_errorHeader.set hx _
  | gatewayTimeout => exact canonical_errorHeader.set hx _
  | shed xCache => exact (canonical_errorHeader.set (isCanonical_own _ (by simp)) _).set hx _
  | tooLarge => exact canonical_errorHeader
  | noClient => exact canonical_errorHeader

end

/-! ## When the rewrites show -/

/-- A route whose rewrites name each field once and in canonical form. -/
structure Configured extends Responder where
  canonical : ∀ e ∈ rewrite.set, isCanonical e.1 = true
  distinct : (rewrite.set.map Prod.fst).Nodup

section

variable (r : Configured) (a : Answer)

theorem canonical_rewrite : r.rewrite.canonical = r.rewrite := by
  have hremove := map_congr_left fun n hn => canonicalHeaderKey_of_isCanonical (r.interned n hn)
  have hset : ∀ e ∈ r.rewrite.set, (canonicalHeaderKey e.1, e.2) = e :=
    fun e he => by rw [canonicalHeaderKey_of_isCanonical (r.canonical e he)]
  rw [Rewrite.canonical, hremove, map_id', map_congr_left hset, map_id']

theorem rewrite_eq : a.rewrite r.toResponder = r.rewrite := by
  rw [Answer.rewrite, canonical_rewrite, ite_self]

theorem canonical_header : (a.header r.toResponder).Canonical := by
  have hdraft := canonical_draft r.toResponder a
  have hrewritten : (applyResponseRewrites r.rewrite (a.draft r.toResponder)).Canonical :=
    foldlRecOn _ _ (canonical_foldl_del hdraft _) fun _ hh e he =>
      canonical_setLine hh (r.canonical e he)
  have hcdn := isCanonical_own Field.cdnCacheControl (by simp)
  unfold Answer.header
  rw [rewrite_eq]
  cases a.late r.toResponder <;> dsimp only [Option.elim] <;> split_ifs
  · exact hrewritten
  · exact hdraft
  · exact hrewritten.set hcdn _
  · exact hdraft.set hcdn _

/-- The drafted lines of a field that the writer does not delete. -/
def Answer.undeleted (n : Bytes) : List Bytes :=
  if a.isRewritten then r.rewrite.kept n ((a.draft r.toResponder).peekAll n)
  else (a.draft r.toResponder).peekAll n

def lateLines (n : Bytes) (ls : List Bytes) : List Bytes :=
  (a.late r.toResponder).elim ls fun cap => if n = Field.cdnCacheControl then cap :: ls.drop 1 else ls

theorem fieldValues_sent (n : Bytes) :
    fieldValues n (a.sent r.toResponder) =
      lateLines r a n (if a.isRewritten then
        r.rewrite.lines responseSet n ((a.draft r.toResponder).peekAll n)
        else (a.draft r.toResponder).peekAll n) ++ fieldValues n (a.added r.toResponder) := by
  have hspelled : fieldValues n (a.header r.toResponder).lines =
      (a.header r.toResponder).peekAll n := by
    refine congrArg (map Line.value) (filter_congr fun l hl => ?_)
    rw [canonicalHeaderKey_of_isCanonical (canonical_header r a l hl)]
  have hsplit : fieldValues n (a.sent r.toResponder) =
      fieldValues n (a.header r.toResponder).lines ++ fieldValues n (a.added r.toResponder) := by
    simp [Answer.sent, fieldValues]
  rw [hsplit, hspelled, Answer.header, rewrite_eq, lateLines, applyResponseRewrites]
  cases a.late r.toResponder with
  | none =>
    dsimp only [Option.elim]
    split_ifs
    · rw [Rewrite.peekAll_apply]
    · rfl
  | some cap =>
    dsimp only [Option.elim]
    rw [Raw.peekAll_set]
    split_ifs with hcdn hrewritten hrewritten
    · rw [hcdn, Rewrite.peekAll_apply]
    · rw [hcdn]
    · rw [Rewrite.peekAll_apply]
    · rfl

theorem lateLines_of_ne {n : Bytes} (hn : n ≠ Field.cdnCacheControl) (ls : List Bytes) :
    lateLines r a n ls = ls := by
  unfold lateLines
  cases a.late r.toResponder with
  | none => rfl
  | some cap => exact if_neg hn

theorem rewritten_of_late {cap : Bytes} (h : a.late r.toResponder = some cap) :
    a.isRewritten = true := by
  cases a <;> first | rfl | cases h

/-- Nothing of a removed field is seen exactly if the writer rewrites its draft or has no such line
in it, sets none later, and the server adds none. -/
theorem removed_seen_iff {n : Bytes} (hn : n ∈ r.rewrite.remove)
    (hset : n ∉ r.rewrite.set.map Prod.fst) :
    fieldValues n (a.sent r.toResponder) = [] ↔
      (a.isRewritten = false → (a.draft r.toResponder).peekAll n = []) ∧
        ((a.late r.toResponder).isSome → n ≠ Field.cdnCacheControl) ∧
        fieldValues n (a.added r.toResponder) = [] := by
  rw [fieldValues_sent r a n, Rewrite.lines_of_removes _ _ ⟨hn, hset⟩, lateLines,
    append_eq_nil_iff, ← and_assoc]
  refine and_congr_left' ?_
  cases hlate : a.late r.toResponder with
  | none => cases a.isRewritten <;> simp
  | some cap =>
    rw [rewritten_of_late r a hlate]
    by_cases hcdn : n = Field.cdnCacheControl <;> simp [hcdn]

/-- When a set field is seen once and with its value. The writer that sets it has at most one line
of it left, or no cookie, and neither the cap nor the server brings another; the others, and fields
that are the server's, have the value by themselves. -/
def Answer.Shows (e : Bytes × Bytes) : Prop :=
  if a.isRewritten ∧ e.1 ≠ Field.date ∧ e.1 ≠ Field.transferEncoding then
    (if e.1 = setCookie then a.undeleted r e.1 = [] else (a.undeleted r e.1).length ≤ 1) ∧
      (e.1 = Field.cdnCacheControl → ∀ cap ∈ a.late r.toResponder, cap = e.2) ∧
      fieldValues e.1 (a.added r.toResponder) = []
  else a.undeleted r e.1 ++ fieldValues e.1 (a.added r.toResponder) = [e.2]

theorem set_seen_iff {e : Bytes × Bytes} (he : e ∈ r.rewrite.set) :
    fieldValues e.1 (a.sent r.toResponder) = [e.2] ↔ a.Shows r e := by
  have hown : Field.date ≠ Field.cdnCacheControl ∧
      Field.transferEncoding ≠ Field.cdnCacheControl ∧ setCookie ≠ Field.cdnCacheControl := by decide
  rw [fieldValues_sent r a e.1, Rewrite.lines_of_mem _ _ r.distinct he,
    Answer.Shows, Answer.undeleted]
  cases hrewritten : a.isRewritten with
  | false =>
    have hlate : a.late r.toResponder = none := by
      by_contra hsome
      obtain ⟨cap, hcap⟩ := Option.ne_none_iff_exists'.1 hsome
      simp [rewritten_of_late r a hcap] at hrewritten
    simp [lateLines, hlate]
  | true =>
    simp only [if_true, responseSet, true_and, ← not_or]
    generalize r.rewrite.kept e.1 ((a.draft r.toResponder).peekAll e.1) = ls
    by_cases howned : e.1 = Field.date ∨ e.1 = Field.transferEncoding
    · have hcdn : e.1 ≠ Field.cdnCacheControl := by
        rcases howned with heq | heq <;> simp [heq, hown]
      simp only [howned, not_true, if_true, if_false, lateLines_of_ne r a hcdn]
    by_cases hcookie : e.1 = setCookie
    · have hcdn : e.1 ≠ Field.cdnCacheControl := by simp [hcookie, hown]
      simp only [if_pos hcookie, not_false_eq_true, howned, if_true, if_false,
        lateLines_of_ne r a hcdn, hcdn, false_implies, true_and]
      constructor
      · intro h
        have hlength := congrArg length h
        simp only [length_append, length_singleton] at hlength
        exact ⟨length_eq_zero_iff.1 (by omega), length_eq_zero_iff.1 (by omega)⟩
      · rintro ⟨rfl, hnone⟩
        rw [hnone]
        rfl
    simp only [if_neg hcookie, not_false_eq_true, howned, if_true, if_false, lateLines]
    have hrest : ls.tail = [] ↔ ls.length ≤ 1 := by cases ls <;> simp
    cases a.late r.toResponder with
    | none => simp [hrest]
    | some cap => by_cases hcdn : e.1 = Field.cdnCacheControl <;> simp [hcdn, hrest, and_left_comm]

end

/-! ## A removed field is served -/

def hidingRoute : Responder where
  rewrite := ⟨[ascii "X-Powered-By"], [(ascii "X-Frame-Options", ascii "DENY")]⟩
  interned := by decide
  sync := false
  copyNormalizes := true
  transport := fun _ => []

def poweredObject : ServedObject where
  obj := { key := ⟨0, 0⟩, pairedKey := none, statusCode := 200
           header := ⟨[⟨ascii "X-Powered-By", ascii "secret"⟩]⟩, body := ascii "body", bodySize := 4
           storedAt := 0, ttl := 60, originAge := 0, staleWhileRevalidate := 0, staleIfError := 0
           etag := [], lastModified := 0, cacheControl := [], varyValue := [], varyKey := []
           hasDate := false, respNoCache := false, respMustRevalidate := false
           hasConnectionList := false, hasNoCacheFields := false }
  canonical := by decide

end Bouine.Cache
