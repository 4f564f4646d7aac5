import Bouine.Header.Map
import Bouine.Header.Directives
import Bouine.Cache.Vary

/-! # May a response be stored?

The storage gates of `internal/cache/cacheable.go` over a stored header, and their copies in
`internal/cache/stream.go` over the lines as they arrive.
-/

namespace Bouine.Cache

open Lib Header

/-! ## Field names -/

namespace Field

def authorization : Bytes := ascii "Authorization"
def cacheControl : Bytes := ascii "Cache-Control"
def cdnCacheControl : Bytes := ascii "Cdn-Cache-Control"
def contentLocation : Bytes := ascii "Content-Location"
def etag : Bytes := ascii "Etag"
def expires : Bytes := ascii "Expires"
def lastModified : Bytes := ascii "Last-Modified"
def pragma : Bytes := ascii "Pragma"
def setLogin : Bytes := ascii "Set-Login"
def vary : Bytes := ascii "Vary"

end Field

/-! ## Dates -/

/-- `time.Parse`: the time of a value under a layout, in nanoseconds since the zero time. -/
abbrev TimeParse := Bytes → Bytes → Option Int

def validHTTPTimeField (s : Bytes) : Bool :=
  let idx := s.findIdx (· == byte ':')
  if idx = s.length ∨ idx < 2 then true else isDigit (s.getD (idx - 2) 0)

def normalizeTZ (s : Bytes) : Bytes :=
  if 3 ≤ s.length ∧ equalFold (s.drop (s.length - 3)) (ascii "gmt") then
    s.take (s.length - 3) ++ ascii "GMT"
  else s

def httpTimeFormat : Bytes := ascii "Mon, 02 Jan 2006 15:04:05 GMT"

def dateLayouts : List Bytes :=
  [httpTimeFormat, ascii "Monday, 02-Jan-06 15:04:05 MST", ascii "Mon Jan  2 15:04:05 2006",
    ascii "Mon, 2 Jan 2006 15:04:05 GMT", ascii "Mon,  2 Jan 2006 15:04:05 GMT"]

/-- `parseHTTPDate`; a failure is the zero time. -/
def parseHTTPDate (timeParse : TimeParse) (s : Bytes) : Int :=
  let s := trimSpace s
  if s = [] then 0
  else if !validHTTPTimeField s then 0
  else if byte ',' ∈ s ∧ ascii "  " <:+: s then 0
  else (dateLayouts.findSome? (timeParse · (normalizeTZ s))).getD 0

/-! ## Statuses -/

def isUnderstoodStatus (status : Nat) : Bool :=
  [200, 203, 204, 206, 300, 301, 302, 303, 304, 307, 308, 400, 401, 403, 404, 405, 406, 408, 409,
    410, 411, 412, 413, 414, 415, 416, 500, 501, 502, 503, 504].contains status

def isHeuristicStatus (status : Nat) : Bool :=
  [200, 203, 204, 206, 300, 301, 308, 404, 405, 410, 414, 501].contains status

def statusNotModified : Nat := 304

/-- `api.StatusTTLPolicy`: lifetimes by status and by class. -/
structure StatusTTL where
  exact : Nat → Option Int
  classes : Nat → Option Int

def StatusTTL.ttl (neg : Option StatusTTL) (status : Nat) : Int :=
  match neg with
  | none => 0
  | some s => (s.exact status).getD ((s.classes (status / 100)).getD 0)

def StatusTTL.cacheable (neg : Option StatusTTL) (status : Nat) : Bool := 0 < StatusTTL.ttl neg status

/-! ## Gates over a stored header -/

def isCDNCCCharForbidden (b : UInt8) : Bool :=
  [byte '&', byte '@', byte '[', byte ']', 0x7b, 0x7d, byte '"'].contains b

def hasMeaningfulCDNCCDirective (d : Directives) : Bool :=
  d.maxAgeSet || d.sMaxAgeSet || d.noStore || d.isPrivate || d.noCache

/-- `cdnCacheControl`: the targeted directives, unless the field is absent or does not parse. -/
def cdnCacheControl (respHeader : Map) : Option Directives :=
  let v := respHeader.getAll Field.cdnCacheControl
  if v = [] then none
  else if v.any isCDNCCCharForbidden then none
  else
    let d := parseCacheControl v
    if hasMeaningfulCDNCCDirective d then some d else none

/-- The line that the directives are taken from. -/
def effectiveLine (respHeader : Map) : Bytes :=
  if (cdnCacheControl respHeader).isSome then respHeader.getAll Field.cdnCacheControl
  else respHeader.getAll Field.cacheControl

theorem parseCacheControl_effectiveLine (respHeader : Map) :
    (cdnCacheControl respHeader).getD (parseCacheControl (respHeader.getAll Field.cacheControl)) =
      parseCacheControl (effectiveLine respHeader) := by
  unfold effectiveLine
  cases hcdn : cdnCacheControl respHeader with
  | none => rfl
  | some d =>
    unfold cdnCacheControl at hcdn
    dsimp only at hcdn
    split_ifs at hcdn
    cases hcdn
    rfl

def isBlockedByPragma (respCC : Directives) (h : Map) : Bool :=
  h.get Field.pragma == ascii "no-cache" && !respCC.maxAgeSet && !respCC.sMaxAgeSet &&
    h.get Field.expires == [] && h.get Field.lastModified == []

def hasVaryStar (h : Map) : Bool := varyContainsStar (h.getAll Field.vary)

def clientStateInMap (m : Map) : Bool := m.get setCookie != [] || m.get Field.setLogin != []

def isBlockedByClientState (respCC : Directives) (h : Map) : Bool :=
  clientStateInMap h && !respCC.maxAgeSet && !respCC.sMaxAgeSet

/-- `no-store`, unless the origin wants an understood status stored all the same. -/
def blockedByNoStore (status : Nat) (respCC : Directives) : Bool :=
  respCC.noStore && (!respCC.mustUnderstand || !isUnderstoodStatus status)

def blockedByAuthorization (respCC : Directives) (reqHeader : Map) : Bool :=
  reqHeader.get Field.authorization != [] && !respCC.isPublic && !respCC.mustRevalidate &&
    !respCC.sMaxAgeSet

def isCacheBlocked (status : Nat) (respCC : Directives) (hasCDN : Bool) (reqHeader respHeader : Map) :
    Bool :=
  blockedByNoStore status respCC || respCC.isPrivate ||
    (!hasCDN && isBlockedByPragma respCC respHeader) || hasVaryStar respHeader ||
    isBlockedByClientState respCC respHeader || blockedByAuthorization respCC reqHeader

/-- `parsedResponse`. -/
structure ParsedResponse where
  reqHeader : Map
  respHeader : Map
  respCC : Directives
  status : Nat
  hasCDN : Bool

def newParsedResponse (status : Nat) (reqHeader respHeader : Map) : ParsedResponse :=
  match cdnCacheControl respHeader with
  | some d => ⟨reqHeader, respHeader, d, status, true⟩
  | none =>
    ⟨reqHeader, respHeader, parseCacheControl (respHeader.getAll Field.cacheControl), status, false⟩

namespace ParsedResponse

def blocked (p : ParsedResponse) : Bool :=
  isCacheBlocked p.status p.respCC p.hasCDN p.reqHeader p.respHeader

def isCacheable (timeParse : TimeParse) (p : ParsedResponse) (neg : Option StatusTTL) : Bool :=
  if p.status = statusNotModified then false
  else if p.blocked then false
  else if p.respCC.maxAgeSet || p.respCC.sMaxAgeSet then true
  else if p.respHeader.get Field.expires ≠ [] ∧
      parseHTTPDate timeParse (p.respHeader.get Field.expires) ≠ 0 then true
  else if p.respHeader.get Field.lastModified ≠ [] ∧
      (isHeuristicStatus p.status || p.respCC.isPublic) then
    !(!p.hasCDN && isBlockedByPragma p.respCC p.respHeader)
  else if p.respCC.noCache ∧ p.respHeader.get Field.etag ≠ [] ∧ isHeuristicStatus p.status then true
  else StatusTTL.cacheable neg p.status

def isCacheableWithDefault (timeParse : TimeParse) (p : ParsedResponse) (neg : Option StatusTTL)
    (defaultTTL : Int) : Bool :=
  if p.isCacheable timeParse neg then true
  else if defaultTTL ≤ 0 then false
  else if p.blocked then false
  else isHeuristicStatus p.status

end ParsedResponse

/-- `IsCacheableWithDefault`, which the background refresh calls: it parses for itself what
`ParsedResponse` has at hand, and looks at Pragma whatever the targeted field says. -/
def isCacheableWithDefault (timeParse : TimeParse) (status : Nat) (reqHeader respHeader : Map)
    (neg : Option StatusTTL) (defaultTTL : Int) : Bool :=
  let p := newParsedResponse status reqHeader respHeader
  let isCacheable :=
    if status = statusNotModified then false
    else if p.blocked then false
    else if p.respCC.maxAgeSet || p.respCC.sMaxAgeSet then true
    else if respHeader.get Field.expires ≠ [] ∧
        parseHTTPDate timeParse (respHeader.get Field.expires) ≠ 0 then true
    else if respHeader.get Field.lastModified ≠ [] ∧
        (isHeuristicStatus status || p.respCC.isPublic) then
      !isBlockedByPragma p.respCC respHeader
    else if p.respCC.noCache ∧ respHeader.get Field.etag ≠ [] ∧ isHeuristicStatus status then true
    else StatusTTL.cacheable neg status
  if isCacheable then true
  else if defaultTTL ≤ 0 then false
  else if p.blocked then false
  else isHeuristicStatus status

/-! ## Gates over a response as it arrives -/

structure Route where
  disabled : Bool
  allowSetCookie : Bool
  neg : Option StatusTTL
  defaultTTL : Int
  maxObjectSize : Int
  maxResponseBytes : Int
  maxStreamingBufferBytes : Int

/-- A response of the origin. `contentLength` is what `fasthttp` reports, negative if undeclared. -/
structure Response where
  status : Nat
  header : Raw
  contentLength : Int
  body : Bytes

def Response.map (r : Response) : Map := fromFastHTTP r.header

def parsed (reqHeader : Map) (r : Response) : ParsedResponse :=
  newParsedResponse r.status reqHeader r.map

def Route.declaredTooLarge (h : Route) (r : Response) : Bool :=
  0 < h.maxObjectSize && 0 < r.contentLength && h.maxObjectSize < r.contentLength

/-- `isResponseCacheable`; `none` is the nil dereference that asks an in-process response for its
declared length. -/
def isResponseCacheable (timeParse : TimeParse) (h : Route) (reqHeader : Map) (r : Response)
    (hasResp : Bool) : Option Bool :=
  if !(parsed reqHeader r).isCacheableWithDefault timeParse h.neg h.defaultTTL then some false
  else if !h.allowSetCookie && clientStateInMap r.map then some false
  else if h.maxObjectSize ≤ 0 then some true
  else if hasResp then some (!h.declaredTooLarge r)
  else none

def clientStateInFastHTTP (hdr : Raw) : Bool := hdr.peek setCookie != [] || hdr.peek Field.setLogin != []

def joinedLines (hdr : Raw) (key : Bytes) : Bytes := List.intercalate comma (hdr.peekAll key)

def joinedCacheControlBytes (hdr : Raw) : Bytes := joinedLines hdr Field.cacheControl

def joinedVaryBytes (hdr : Raw) : Bytes := joinedLines hdr Field.vary

/-- `varyContainsStarBytes`: only spaces and tabs are trimmed. -/
def varyContainsStarBytes (vary : Bytes) : Bool :=
  (pieces (byte ',') vary).any fun token => trimOWS token == ascii "*"

def isBlockedByDirectives (h : Route) (hdr : Raw) (respCC : Directives) (status : Nat) : Bool :=
  blockedByNoStore status respCC || respCC.isPrivate ||
    varyContainsStarBytes (joinedVaryBytes hdr) || (!h.allowSetCookie && clientStateInFastHTTP hdr)

def isBlockedByPragmaBytes (hdr : Raw) (respCC : Directives) : Bool :=
  hdr.peek Field.pragma == ascii "no-cache" && !respCC.maxAgeSet && !respCC.sMaxAgeSet &&
    hdr.peek Field.expires == [] && hdr.peek Field.lastModified == []

def isBytesBlocked (h : Route) (hdr : Raw) (respCC : Directives) (reqHeader : Map) (status : Nat) :
    Bool :=
  isBlockedByDirectives h hdr respCC status || blockedByAuthorization respCC reqHeader ||
    isBlockedByPragmaBytes hdr respCC

def hasBytesFreshness (timeParse : TimeParse) (h : Route) (hdr : Raw) (respCC : Directives)
    (status : Nat) : Bool :=
  respCC.maxAgeSet || respCC.sMaxAgeSet ||
    (hdr.peek Field.expires != [] && parseHTTPDate timeParse (hdr.peek Field.expires) != 0) ||
    (hdr.peek Field.lastModified != [] && (isHeuristicStatus status || respCC.isPublic)) ||
    (respCC.noCache && hdr.peek Field.etag != [] && isHeuristicStatus status) ||
    StatusTTL.cacheable h.neg status || (0 < h.defaultTTL && isHeuristicStatus status)

def isResponseCacheableBytes (timeParse : TimeParse) (h : Route) (reqHeader : Map) (r : Response) :
    Bool :=
  if r.status = statusNotModified then false
  else if r.header.peek Field.cdnCacheControl ≠ [] then
    (isResponseCacheable timeParse h reqHeader r true).getD false
  else
    let respCC := parseCacheControl (joinedCacheControlBytes r.header)
    if isBytesBlocked h r.header respCC reqHeader r.status then false
    else if !hasBytesFreshness timeParse h r.header respCC r.status then false
    else !h.declaredTooLarge r

/-! ## What the two views have in common -/

section

variable (r : Response) {key : Bytes}

theorem get_map (hk : isCanonical key) (hne : key ≠ []) :
    r.map.get key = (((r.header.peekAll key).filter (· ≠ [])).head?).getD [] := by
  rw [Map.get_of_isCanonical hk, Map.first?, Response.map, valuesOf_fromFastHTTP hne]

theorem getAll_map (hk : isCanonical key) (hne : key ≠ []) :
    r.map.getAll key = List.intercalate comma ((r.header.peekAll key).filter (· ≠ [])) := by
  rw [Map.getAll_of_isCanonical hk, Response.map, valuesOf_fromFastHTTP hne]
  rfl

/-- The map has the first line that is not empty, where the other gate reads the first. -/
theorem get_eq_peek_iff (hk : isCanonical key) (hne : key ≠ []) (hcookie : key ≠ setCookie) :
    r.map.get key = r.header.peek key ↔
      r.header.peek key ≠ [] ∨ ∀ v ∈ r.header.peekAll key, v = [] := by
  rw [get_map r hk hne, Raw.peek, if_neg hcookie]
  cases hall : r.header.peekAll key with
  | nil => simp
  | cons v vs =>
    by_cases hv : v = []
    · rw [List.filter_cons_of_neg (by simp [hv]), hv]
      cases hrest : vs.filter (· ≠ []) with
      | nil => simpa using List.filter_eq_nil_iff.1 hrest
      | cons w ws =>
        have hw := List.mem_filter.1 (hrest ▸ List.mem_cons_self : w ∈ vs.filter (· ≠ []))
        have hw' : w ≠ [] := by simpa using hw.2
        simpa [hw'] using ⟨w, hw.1, hw'⟩
    · simp [hv]

theorem get_map_of_peek (hk : isCanonical key) (hne : key ≠ []) (hcookie : key ≠ setCookie)
    (hpeek : r.header.peek key ≠ []) : r.map.get key = r.header.peek key :=
  (get_eq_peek_iff r hk hne hcookie).2 (.inl hpeek)

theorem agrees_cacheControl : Agrees (parseCacheControl (joinedCacheControlBytes r.header))
    (parseCacheControl (r.map.getAll Field.cacheControl)) := by
  rw [getAll_map r (by decide) (by decide)]
  exact agrees_joined_lines _

end

/-! ## The gate -/

@[simp] theorem newParsedResponse_status (status : Nat) (reqHeader respHeader : Map) :
    (newParsedResponse status reqHeader respHeader).status = status := by
  unfold newParsedResponse
  split <;> rfl

@[simp] theorem newParsedResponse_respHeader (status : Nat) (reqHeader respHeader : Map) :
    (newParsedResponse status reqHeader respHeader).respHeader = respHeader := by
  unfold newParsedResponse
  split <;> rfl

variable {neg : Option StatusTTL} {timeParse : TimeParse} {p : ParsedResponse}

theorem not_blocked_of_isCacheableWithDefault {defaultTTL : Int}
    (h : p.isCacheableWithDefault timeParse neg defaultTTL) : p.blocked = false := by
  by_contra hb
  simp [ParsedResponse.isCacheableWithDefault, ParsedResponse.isCacheable, hb] at h

theorem not_isBlockedByPragma {h : Map} (hlm : h.get Field.lastModified ≠ []) (respCC : Directives) :
    isBlockedByPragma respCC h = false := by
  simp [isBlockedByPragma, hlm]

theorem isCacheableWithDefault_eq (timeParse : TimeParse) (status : Nat) (reqHeader respHeader : Map)
    (neg : Option StatusTTL) (defaultTTL : Int) :
    isCacheableWithDefault timeParse status reqHeader respHeader neg defaultTTL =
      (newParsedResponse status reqHeader respHeader).isCacheableWithDefault timeParse neg
        defaultTTL := by
  unfold isCacheableWithDefault ParsedResponse.isCacheableWithDefault ParsedResponse.isCacheable
  by_cases hlm : respHeader.get Field.lastModified = []
  · simp [hlm]
  · simp [not_isBlockedByPragma hlm]

/-- Freshness of any kind: by a directive, Expires, Last-Modified, for revalidation only, or by the
policy for error statuses. -/
def ParsedResponse.fresh (timeParse : TimeParse) (p : ParsedResponse) (neg : Option StatusTTL) : Bool :=
  p.respCC.maxAgeSet || p.respCC.sMaxAgeSet ||
    (p.respHeader.get Field.expires != [] &&
      parseHTTPDate timeParse (p.respHeader.get Field.expires) != 0) ||
    (p.respHeader.get Field.lastModified != [] && (isHeuristicStatus p.status || p.respCC.isPublic)) ||
    (p.respCC.noCache && p.respHeader.get Field.etag != [] && isHeuristicStatus p.status) ||
    StatusTTL.cacheable neg p.status

theorem isCacheable_eq_fresh (hstatus : p.status ≠ statusNotModified) (hblocked : p.blocked = false)
    : p.isCacheable timeParse neg = p.fresh timeParse neg := by
  rw [ParsedResponse.isCacheable, if_neg hstatus, hblocked, if_neg (by simp)]
  unfold ParsedResponse.fresh
  split_ifs with hage hexpires hlm hnocache
  · simp [hage]
  · simp [hexpires]
  · simp [not_isBlockedByPragma hlm.1, hlm]
  · simp [hnocache]
  · simp_all

theorem isCacheableWithDefault_of_fresh {defaultTTL : Int} (hstatus : p.status ≠ statusNotModified)
    (hblocked : p.blocked = false)
    (hfresh : p.fresh timeParse neg ∨ (0 < defaultTTL ∧ isHeuristicStatus p.status)) :
    p.isCacheableWithDefault timeParse neg defaultTTL = true := by
  rw [ParsedResponse.isCacheableWithDefault, isCacheable_eq_fresh hstatus hblocked]
  rcases hfresh with hfresh | ⟨hpos, hheuristic⟩
  · rw [hfresh, if_pos rfl]
  · rw [if_neg (not_le.2 hpos), hblocked, hheuristic]
    simp

end Bouine.Cache
