import Bouine.Cache.EffectiveVary
import Bouine.Cache.Freshness
import Bouine.Cache.Outbound
import Bouine.Cache.Key

/-! # Stored responses

`api.Object` as the handler fills, reads and refreshes it (`pkg/api/storage.go`; `buildObject` and
`refreshFrom304` in `internal/cache/handler.go`).
-/

namespace Bouine.Cache

open Lib Header

namespace Field

def connection : Bytes := ascii "Connection"
def contentEncoding : Bytes := ascii "Content-Encoding"
def contentLength : Bytes := ascii "Content-Length"
def transferEncoding : Bytes := ascii "Transfer-Encoding"
def xBouineHost : Bytes := ascii "X-Bouine-Host"
def xBouinePath : Bytes := ascii "X-Bouine-Path"

def stamped : List Bytes := [xBouinePath, xBouineHost, setCookie, setLogin, contentLength]

def notMerged : List Bytes :=
  [contentLength, contentEncoding, transferEncoding, setCookie, setLogin, vary]

end Field

/-- `api.Object`. A missing Last-Modified is the zero time, a missing `pairedKey` the zero key. -/
structure Stored where
  key : Key
  pairedKey : Option Key
  statusCode : Nat
  header : Map
  body : Bytes
  bodySize : Int
  storedAt : Int
  /-- what is left of the lifetime when the object is stored -/
  ttl : Int
  /-- the age the response had when it was stored -/
  originAge : Int
  staleWhileRevalidate : Int
  staleIfError : Int
  etag : Bytes
  lastModified : Int
  cacheControl : Bytes
  varyValue : Bytes
  varyKey : Bytes
  hasDate : Bool
  respNoCache : Bool
  respMustRevalidate : Bool
  hasConnectionList : Bool
  hasNoCacheFields : Bool
deriving DecidableEq

namespace Stored

variable (o : Stored) (now : Int)

def isVaryResolver : Bool := o.varyValue != [] && o.varyKey == []

def fresh : Bool := now < o.storedAt + o.ttl

def staleForSWR : Bool :=
  if o.fresh now || o.staleWhileRevalidate == 0 then false
  else now < o.storedAt + o.ttl + o.staleWhileRevalidate

def staleForSIE : Bool :=
  if o.fresh now || o.staleIfError == 0 then false
  else now < o.storedAt + o.ttl + o.staleIfError

def validators : Validators := ⟨o.etag, if o.lastModified = 0 then none else some o.lastModified⟩

end Stored

/-- `RequestInfo` with its header. -/
structure CapturedRequest extends RequestInfo where
  header : Map
deriving DecidableEq

/-- `headerLookup`: the lines of an origin's response, or a header map. -/
inductive HeaderLookup where
  | fast (hdr : Raw)
  | map (hdr : Map)
deriving DecidableEq

namespace HeaderLookup

def get : HeaderLookup → Bytes → Bytes
  | fast hdr, key => hdr.peek key
  | map hdr, key => hdr.get key

def toMap : HeaderLookup → Map
  | fast hdr => fromFastHTTP hdr
  | map hdr => hdr

end HeaderLookup

structure Fetched where
  statusCode : Nat
  header : HeaderLookup
  body : Bytes
  delay : Int
deriving DecidableEq

structure Filler (W : Type*) where
  lib : Stdlib W
  sum64 : Bytes → UInt64
  timeParse : TimeParse
  scale : Int → Int → Int
  policy : Option RoutePolicy
  fp : FillPolicy

def responseDirectives (hdr : Map) : Directives :=
  (cdnCacheControl hdr).getD (parseCacheControl (hdr.getAll Field.cacheControl))

section

variable {W : Type*} (h : Filler W)

def parseLastModified (old : Int) (lm : Bytes) : Int :=
  if lm = [] then old else (h.timeParse httpTimeFormat lm).getD old

def storedHeader (ri : CapturedRequest) (status : Nat) (body : Bytes) (resMap : Map) : Map :=
  let hdr := (resMap.setEntryRaw Field.xBouinePath ri.path).setEntryRaw Field.xBouineHost ri.host
  let hdr := (hdr.del setCookie).del Field.setLogin
  if hdr.get Field.contentLength = [] ∧ body ≠ [] ∧ status ≠ statusNotModified then
    hdr.set Field.contentLength ((Nat.toDigits 10 body.length).map byte)
  else hdr

/-- The grace windows: the route's bound, else the origin's directive, else the floor. -/
def windowSWR (status : Nat) (respCC : Directives) : Int :=
  if 0 < h.fp.swrOverrideFor status then h.fp.swrOverrideFor status
  else if respCC.staleWhileRevalidSet then respCC.staleWhileRevalid
  else if 0 < h.fp.defaultSWR then h.fp.defaultSWR
  else 0

def windowSIE (respCC : Directives) : Int :=
  if respCC.staleIfErrorSet then respCC.staleIfError
  else if 0 < h.fp.defaultSIE then h.fp.defaultSIE
  else 0

/-- `buildObject`. `clock` is what `FreshnessLifetimeH` reads when there is no date. -/
def buildObject (key : Key) (ri : CapturedRequest) (res : Fetched) (resMap : Map)
    (presetTTL : Option Int) (clock now : Int) : Stored :=
  let respCC := responseDirectives resMap
  let originAge := correctedInitialAge h.timeParse (parseOriginAge resMap.get) res.delay
    (resMap.get Field.date) now
  let hdr := storedHeader ri res.statusCode res.body resMap
  let varyValue := effectiveVary h.lib resMap h.policy
  { key, pairedKey := none, statusCode := res.statusCode, header := hdr, body := res.body
    bodySize := res.body.length, storedAt := now
    ttl := presetTTL.getD
      (h.fp.fillFinalTTL h.timeParse h.scale resMap res.statusCode respCC originAge clock now)
    originAge
    staleWhileRevalidate := windowSWR h res.statusCode respCC
    staleIfError := windowSIE h respCC
    etag := resMap.get Field.etag
    lastModified := parseLastModified h 0 (hdr.get Field.lastModified)
    cacheControl :=
      if (cdnCacheControl resMap).isSome then resMap.getAll Field.cdnCacheControl
      else resMap.getAll Field.cacheControl
    varyValue
    varyKey := buildVaryKey h.lib h.sum64 varyValue ri.header (keyPolicy h.policy)
    hasDate := resMap.get Field.date != []
    respNoCache := respCC.noCache
    respMustRevalidate := respCC.mustRevalidate || respCC.proxyRevalidate
    hasConnectionList := hdr.get Field.connection != []
    hasNoCacheFields := respCC.noCacheFields != [] }

/-! ## Refreshing -/

/-- The loop that deletes every line of Vary; `del` takes one at a time. -/
def withoutVary (m : Map) : Map := ⟨m.entries.filter fun e => e.name ≠ Field.vary⟩

/-- `MergeHeaders304`: the Vary list is replaced as a whole, other fields line by line. -/
def mergeHeaders304 (stored resp304 : Map) : Map :=
  let stored :=
    if resp304.has Field.vary then
      (valuesOf Field.vary resp304.entries).foldl (·.appendEntry Field.vary) (withoutVary stored)
    else stored
  (resp304.entries.filter fun e => !Field.notMerged.contains e.name).foldl
    (fun m e => m.set e.name e.value) stored

def refreshFrom304 (stale : Stored) (res : Fetched) (ri : CapturedRequest) (now : Int) : Stored :=
  let hdr := mergeHeaders304 stale.header res.header.toMap
  let varyValue := effectiveVary h.lib hdr h.policy
  let newCC := parseCacheControl (hdr.get Field.cacheControl)
  let ladder := (freshnessLifetime h.timeParse newCC hdr.get).getD stale.ttl
  { stale with
    storedAt := now
    header := hdr
    hasDate := hdr.has Field.date
    varyValue
    varyKey :=
      if varyValue ≠ [] ∧ !varyContainsStar varyValue then
        buildVaryKey h.lib h.sum64 varyValue ri.header (keyPolicy h.policy)
      else []
    cacheControl := hdr.get Field.cacheControl
    respNoCache := newCC.noCache
    respMustRevalidate := newCC.mustRevalidate || newCC.proxyRevalidate
    ttl :=
      if 0 < h.fp.overrideTTLFor h.scale stale.statusCode then
        h.fp.overrideTTLFor h.scale stale.statusCode
      else ladder
    staleWhileRevalidate :=
      if 0 < h.fp.swrOverrideFor stale.statusCode then h.fp.swrOverrideFor stale.statusCode
      else stale.staleWhileRevalidate
    originAge := correctedInitialAge h.timeParse (parseOriginAge hdr.get) res.delay
      (hdr.get Field.date) now
    etag := if res.header.get Field.etag ≠ [] then res.header.get Field.etag else stale.etag
    lastModified := parseLastModified h stale.lastModified (hdr.get Field.lastModified) }

end

end Bouine.Cache
