import Bouine.Cache.Cacheable
import Bouine.Cache.TeeFill

/-! # What the fill paths let into the store

Every path that may store what it fetches has a gate: the streaming miss (over the lines as they
arrive), the buffered miss of an in-process origin, `writeAndMaybeStore`, the background
revalidation, the refill after a shed request, the proactive refresh, and the response to an unsafe
request. The file says which admit only what `isCacheBlocked` and `isCacheableWithDefault` admit.
-/

namespace Bouine.Cache.FillGates

open Lib Header

/-! ## The paths -/

inductive Path where
  /-- `streamMiss`: whether the origin is behind `fasthttp` (else in process), whether the body came
  buffered, the bytes all streams hold, and the rounds of the copying loop -/
  | stream (hasResp buffered : Bool) (level : Int) (rounds : List TeeFill.Round)
  /-- `writeAndMaybeStore` -/
  | writeThrough
  /-- `doBackgroundRevalidate`: whether the stale object is a resolver -/
  | background (isResolver : Bool)
  /-- `doShedRefill` -/
  | shedRefill
  /-- `doBackgroundRefresh` -/
  | refresh
  /-- `invalidateAndProxy` -/
  | invalidating

/-- A fetched response with its request. `slotFree`: the response does not vary or
`reserveVariantSlot` finds room; `owned`: this node stores the key. -/
structure Fill where
  path : Path
  method : Bytes
  reqHeader : Map
  resp : Response
  slotFree : Bool
  owned : Bool

def Fill.isHEAD (f : Fill) : Bool := f.method = ascii "HEAD"

def isInvalidating (method : Bytes) : Bool :=
  method != ascii "GET" && method != ascii "HEAD" && method != ascii "OPTIONS"

def isEventStreamContentType (ct : Bytes) : Bool :=
  let mt := ascii "text/event-stream"
  let ct := ct.dropWhile isOWS
  let rest := (ct.drop mt.length).dropWhile isOWS
  (ct.take mt.length).map (· ||| 0x20) == mt && (rest == [] || rest.head? == some (byte ';'))

def limits (h : Route) : TeeFill.Limits :=
  ⟨h.maxResponseBytes, h.maxObjectSize, h.maxStreamingBufferBytes⟩

def tooLarge (h : Route) (r : Response) : Bool :=
  0 < h.maxObjectSize && h.maxObjectSize < r.body.length

def overLimit (h : Route) (r : Response) : Bool :=
  0 < h.maxResponseBytes && h.maxResponseBytes < r.body.length

def skips (h : Route) (r : Response) : Bool :=
  (!h.allowSetCookie && clientStateInMap r.map) || tooLarge h r

section

variable (timeParse : TimeParse) (h : Route) (f : Fill)

/-- The gate of `writeAndMaybeStore`, `doBackgroundRevalidate` and `doShedRefill`. -/
def mapGate : Bool :=
  (parsed f.reqHeader f.resp).isCacheableWithDefault timeParse h.neg h.defaultTTL && !skips h f.resp

def bufferedStores (hasResp cacheable : Bool) : Bool :=
  !(hasResp && overLimit h f.resp) && cacheable && !f.isHEAD && !tooLarge h f.resp && f.slotFree

def teeStores (rounds : List TeeFill.Round) : Bool :=
  f.slotFree &&
    match TeeFill.teeStreamToClient (limits h) TeeFill.soloHandler ⟨(), "", ()⟩ f.resp.status
        f.resp.map rounds with
    | some s => !s.puts.isEmpty
    | none => false

/-- The verdict of `streamMiss`; `none` if it does not come to one. -/
def streamGate (hasResp : Bool) : Option Bool :=
  if hasResp then some (isResponseCacheableBytes timeParse h f.reqHeader f.resp)
  else isResponseCacheable timeParse h f.reqHeader f.resp false

def streamStores (hasResp buffered : Bool) (level : Int) (rounds : List TeeFill.Round) : Bool :=
  if !buffered && !f.isHEAD &&
      isEventStreamContentType (f.resp.header.peek (ascii "Content-Type")) then false
  else
    match streamGate timeParse h f hasResp with
    | none => false
    | some cacheable =>
      if buffered || f.isHEAD || !cacheable then bufferedStores h f hasResp cacheable
      else if 0 < h.maxStreamingBufferBytes && h.maxStreamingBufferBytes ≤ level then
        bufferedStores h f hasResp cacheable
      else teeStores h f rounds

def postStores : Bool :=
  !h.disabled && f.resp.status != statusNotModified && !clientStateInFastHTTP f.resp.header &&
    f.resp.header.peek Field.contentLocation != []

def stores : Bool :=
  f.owned &&
    match f.path with
    | .stream hasResp buffered level rounds =>
      streamStores timeParse h f hasResp buffered level rounds
    | .writeThrough => !f.isHEAD && mapGate timeParse h f && f.slotFree
    | .background isResolver =>
      !isResolver && f.resp.status != statusNotModified && mapGate timeParse h f
    | .shedRefill => mapGate timeParse h f
    | .refresh =>
      f.resp.status != statusNotModified &&
        isCacheableWithDefault timeParse f.resp.status f.reqHeader f.resp.map h.neg h.defaultTTL &&
        !skips h f.resp
    | .invalidating =>
      isInvalidating f.method && !overLimit h f.resp && 200 ≤ f.resp.status && f.resp.status < 400 &&
        postStores h f

end

/-! ## What may be stored -/

def Allowed (timeParse : TimeParse) (h : Route) (f : Fill) : Prop :=
  (parsed f.reqHeader f.resp).blocked = false ∧
    (parsed f.reqHeader f.resp).isCacheableWithDefault timeParse h.neg h.defaultTTL = true

/-- What a response says of its storing, by its lines, besides its status and its client state: the
effective Cache-Control, Pragma, Vary, and a lifetime of its own or of the route. -/
structure SaysStorable (timeParse : TimeParse) (h : Route) (f : Fill) : Prop where
  noStore : Says (effectiveLine f.resp.map) (ascii "no-store") →
    Says (effectiveLine f.resp.map) (ascii "must-understand") ∧ isUnderstoodStatus f.resp.status
  shared : ¬ Says (effectiveLine f.resp.map) (ascii "private")
  pragma : cdnCacheControl f.resp.map = none →
    isBlockedByPragma (parsed f.reqHeader f.resp).respCC f.resp.map = false
  vary : hasVaryStar f.resp.map = false
  authorization : blockedByAuthorization (parsed f.reqHeader f.resp).respCC f.reqHeader = false
  lifetime : (parsed f.reqHeader f.resp).fresh timeParse h.neg ∨
    (0 < h.defaultTTL ∧ isHeuristicStatus f.resp.status)

/-- Where a response is judged by its lines, these must not hide what the map shows: a targeted
field behind an empty line, or a reason that the first line of Pragma, the trimming of Vary or
`allow_set_cookie` passes over. -/
def LinesTell (timeParse : TimeParse) (h : Route) (f : Fill) : Prop :=
  f.resp.header.peek Field.cdnCacheControl ≠ [] ∨
    if (parsed f.reqHeader f.resp).hasCDN then
      SaysStorable timeParse h f ∧
        isBlockedByClientState (parsed f.reqHeader f.resp).respCC f.resp.map = false
    else
      isBlockedByPragma (parsed f.reqHeader f.resp).respCC f.resp.map = false ∧
        hasVaryStar f.resp.map = false ∧
        isBlockedByClientState (parsed f.reqHeader f.resp).respCC f.resp.map = false

/-- `maybeStorePostResponseFast` looks at the status and at client state only, there at the first
line of Set-Login. -/
def GateTells (timeParse : TimeParse) (h : Route) (f : Fill) : Prop :=
  match f.path with
  | .stream true _ _ _ => LinesTell timeParse h f
  | .invalidating =>
    SaysStorable timeParse h f ∧
      (f.resp.map.get Field.setLogin = [] ∨ (parsed f.reqHeader f.resp).respCC.maxAgeSet ∨
        (parsed f.reqHeader f.resp).respCC.sMaxAgeSet)
  | _ => True

/-! ## The map gates -/

section

variable {timeParse : TimeParse} {h : Route} {f : Fill}

theorem allowed_of_isCacheableWithDefault
    (hgate : (parsed f.reqHeader f.resp).isCacheableWithDefault timeParse h.neg h.defaultTTL) :
    Allowed timeParse h f :=
  ⟨not_blocked_of_isCacheableWithDefault hgate, hgate⟩

theorem allowed_of_mapGate (hgate : mapGate timeParse h f) : Allowed timeParse h f := by
  rw [mapGate, Bool.and_eq_true] at hgate
  exact allowed_of_isCacheableWithDefault hgate.1

theorem allowed_of_isResponseCacheable {hasResp : Bool}
    (hgate : isResponseCacheable timeParse h f.reqHeader f.resp hasResp = some true) :
    Allowed timeParse h f := by
  refine allowed_of_isCacheableWithDefault ?_
  by_contra hno
  rw [isResponseCacheable, if_pos (by simp [hno])] at hgate
  cases hgate

theorem respCC_parsed : (parsed f.reqHeader f.resp).respCC =
    parseCacheControl (effectiveLine f.resp.map) := by
  rw [← parseCacheControl_effectiveLine, parsed, newParsedResponse]
  cases cdnCacheControl f.resp.map <;> rfl

theorem hasCDN_parsed :
    (parsed f.reqHeader f.resp).hasCDN = (cdnCacheControl f.resp.map).isSome := by
  rw [parsed, newParsedResponse]
  cases cdnCacheControl f.resp.map <;> rfl

theorem blocked_parsed : (parsed f.reqHeader f.resp).blocked =
    isCacheBlocked f.resp.status (parsed f.reqHeader f.resp).respCC
      (cdnCacheControl f.resp.map).isSome f.reqHeader f.resp.map := by
  rw [ParsedResponse.blocked, hasCDN_parsed]
  unfold parsed newParsedResponse
  cases cdnCacheControl f.resp.map <;> rfl

theorem allowed_iff (hstatus : f.resp.status ≠ statusNotModified) :
    Allowed timeParse h f ↔ SaysStorable timeParse h f ∧
      isBlockedByClientState (parsed f.reqHeader f.resp).respCC f.resp.map = false := by
  have hstatus' : (parsed f.reqHeader f.resp).status ≠ statusNotModified := by simpa [parsed]
  have hstore : blockedByNoStore f.resp.status (parsed f.reqHeader f.resp).respCC = false ↔
      (Says (effectiveLine f.resp.map) (ascii "no-store") →
        Says (effectiveLine f.resp.map) (ascii "must-understand") ∧
          isUnderstoodStatus f.resp.status) := by
    rw [← noStore_parseCacheControl, ← mustUnderstand_parseCacheControl, ← respCC_parsed]
    simp [blockedByNoStore]
  have hprivate : (parsed f.reqHeader f.resp).respCC.isPrivate = false ↔
      ¬ Says (effectiveLine f.resp.map) (ascii "private") := by
    rw [← isPrivate_parseCacheControl, ← respCC_parsed]
    simp
  have hblocked : (parsed f.reqHeader f.resp).blocked = false ↔
      (((((Says (effectiveLine f.resp.map) (ascii "no-store") →
        Says (effectiveLine f.resp.map) (ascii "must-understand") ∧
          isUnderstoodStatus f.resp.status) ∧
        ¬ Says (effectiveLine f.resp.map) (ascii "private")) ∧
        (cdnCacheControl f.resp.map = none →
          isBlockedByPragma (parsed f.reqHeader f.resp).respCC f.resp.map = false)) ∧
        hasVaryStar f.resp.map = false) ∧
        isBlockedByClientState (parsed f.reqHeader f.resp).respCC f.resp.map = false) ∧
        blockedByAuthorization (parsed f.reqHeader f.resp).respCC f.reqHeader = false := by
    rw [blocked_parsed, ← hstore, ← hprivate]
    simp only [isCacheBlocked, Bool.or_eq_false_iff]
    cases cdnCacheControl f.resp.map <;> simp
  constructor
  · rintro ⟨hno, hcacheable⟩
    obtain ⟨⟨⟨⟨⟨hns, hpr⟩, hpragma⟩, hvary⟩, hclient⟩, hauth⟩ := hblocked.1 hno
    refine ⟨⟨hns, hpr, hpragma, hvary, hauth, ?_⟩, hclient⟩
    rw [ParsedResponse.isCacheableWithDefault, isCacheable_eq_fresh hstatus' hno] at hcacheable
    split_ifs at hcacheable with hfresh hdefault
    · exact .inl hfresh
    · exact .inr ⟨not_le.1 hdefault, by simpa [parsed] using hcacheable⟩
  · rintro ⟨⟨hns, hpr, hpragma, hvary, hauth, hlife⟩, hclient⟩
    have hno := hblocked.2 ⟨⟨⟨⟨⟨hns, hpr⟩, hpragma⟩, hvary⟩, hclient⟩, hauth⟩
    exact ⟨hno, isCacheableWithDefault_of_fresh hstatus' hno (by simpa [parsed] using hlife)⟩

/-! ## The gate of an unsafe request -/

theorem get_setCookie_of_peek (hpeek : f.resp.header.peek setCookie = []) :
    f.resp.map.get setCookie = [] := by
  rw [get_map f.resp (by decide) (by decide)]
  rw [Raw.peek, if_pos rfl] at hpeek
  rcases hall : f.resp.header.peekAll setCookie with _ | ⟨v, _ | ⟨w, vs⟩⟩
  · rfl
  · have hv : v = [] := by simpa [hall] using hpeek
    simp [hv]
  · simp [hall, List.intercalate, ascii] at hpeek

theorem allowed_of_postStores_iff (hpost : postStores h f) : Allowed timeParse h f ↔
    SaysStorable timeParse h f ∧
      (f.resp.map.get Field.setLogin = [] ∨ (parsed f.reqHeader f.resp).respCC.maxAgeSet ∨
        (parsed f.reqHeader f.resp).respCC.sMaxAgeSet) := by
  simp only [postStores, clientStateInFastHTTP, Bool.and_eq_true, Bool.not_eq_true', bne_iff_ne,
    Bool.or_eq_false_iff, bne_eq_false_iff_eq] at hpost
  obtain ⟨⟨⟨-, hstatus⟩, hcookie, -⟩, -⟩ := hpost
  rw [allowed_iff hstatus, isBlockedByClientState, clientStateInMap,
    get_setCookie_of_peek hcookie]
  refine and_congr_right fun _ => ?_
  grind

/-! ## The gate over the lines -/

section

variable (hgate : isResponseCacheableBytes timeParse h f.reqHeader f.resp = true)
include hgate

theorem lines_checked (hpeek : f.resp.header.peek Field.cdnCacheControl = []) :
    f.resp.status ≠ statusNotModified ∧
      isBytesBlocked h f.resp.header
        (parseCacheControl (joinedCacheControlBytes f.resp.header)) f.reqHeader f.resp.status = false ∧
      hasBytesFreshness timeParse h f.resp.header
        (parseCacheControl (joinedCacheControlBytes f.resp.header)) f.resp.status = true := by
  unfold isResponseCacheableBytes at hgate
  rw [if_neg (not_not.2 hpeek)] at hgate
  dsimp only at hgate
  split_ifs at hgate with hstatus hblocked hfresh
  exact ⟨hstatus, by simpa using hblocked, by simpa using hfresh⟩

omit hgate in
theorem respCC_of_not_hasCDN (hcdn : (parsed f.reqHeader f.resp).hasCDN = false) :
    parsed f.reqHeader f.resp = ⟨f.reqHeader, f.resp.map,
      parseCacheControl (f.resp.map.getAll Field.cacheControl), f.resp.status, false⟩ := by
  unfold parsed newParsedResponse at hcdn ⊢
  cases hd : cdnCacheControl f.resp.map with
  | none => rfl
  | some d => simp [hd] at hcdn

/-- What passes the gate over the lines without a targeted field is blocked for one of three
reasons, if at all. -/
theorem blocked_of_lines (hpeek : f.resp.header.peek Field.cdnCacheControl = [])
    (hcdn : (parsed f.reqHeader f.resp).hasCDN = false) :
    (parsed f.reqHeader f.resp).blocked =
      (isBlockedByPragma (parsed f.reqHeader f.resp).respCC f.resp.map || hasVaryStar f.resp.map ||
        isBlockedByClientState (parsed f.reqHeader f.resp).respCC f.resp.map) := by
  obtain ⟨-, hblocked, -⟩ := lines_checked hgate hpeek
  have hagree := agrees_cacheControl f.resp
  simp only [isBytesBlocked, isBlockedByDirectives, Bool.or_eq_false_iff] at hblocked
  obtain ⟨⟨⟨⟨⟨hstore, hprivate⟩, -⟩, -⟩, hauth⟩, -⟩ := hblocked
  rw [respCC_of_not_hasCDN hcdn]
  have hstore' : blockedByNoStore f.resp.status
      (parseCacheControl (f.resp.map.getAll Field.cacheControl)) = false := by
    rw [← hstore, blockedByNoStore, blockedByNoStore, hagree.noStore, hagree.mustUnderstand]
  have hauth' : blockedByAuthorization
      (parseCacheControl (f.resp.map.getAll Field.cacheControl)) f.reqHeader = false := by
    rw [← hauth, blockedByAuthorization, blockedByAuthorization, hagree.isPublic,
      hagree.mustRevalidate, hagree.sMaxAgeSet]
  rw [hagree.isPrivate] at hprivate
  simp [ParsedResponse.blocked, isCacheBlocked, hstore', hauth', hprivate]

theorem fresh_of_lines (hpeek : f.resp.header.peek Field.cdnCacheControl = [])
    (hcdn : (parsed f.reqHeader f.resp).hasCDN = false) :
    (parsed f.reqHeader f.resp).fresh timeParse h.neg ∨
      (0 < h.defaultTTL ∧ isHeuristicStatus (parsed f.reqHeader f.resp).status) := by
  obtain ⟨-, -, hfresh⟩ := lines_checked hgate hpeek
  have hagree := agrees_cacheControl f.resp
  have hplain : ∀ key ∈ [Field.expires, Field.lastModified, Field.etag],
      isCanonical key ∧ key ≠ [] ∧ key ≠ setCookie := by decide
  have hget : ∀ key ∈ [Field.expires, Field.lastModified, Field.etag],
      f.resp.header.peek key ≠ [] → f.resp.map.get key = f.resp.header.peek key := by
    intro key hmem hkey
    obtain ⟨hk, hne, hcookie⟩ := hplain key hmem
    exact get_map_of_peek f.resp hk hne hcookie hkey
  rw [respCC_of_not_hasCDN hcdn]
  simp only [hasBytesFreshness, ParsedResponse.fresh, Bool.or_eq_true, Bool.and_eq_true, bne_iff_ne,
    decide_eq_true_eq] at hfresh ⊢
  rcases hfresh with (((((hage | hage) | ⟨hne, hdate⟩) | ⟨hne, hstatus⟩) | ⟨⟨hcache, hne⟩, hstatus⟩) |
    hneg) | hdefault
  · exact .inl (by rw [← hagree.maxAgeSet]; simp [hage])
  · exact .inl (by rw [← hagree.sMaxAgeSet]; simp [hage])
  · have hsame := hget _ (by simp) hne
    exact .inl (by rw [hsame]; simp [hne, hdate])
  · have hsame := hget _ (by simp) hne
    rw [hagree.isPublic] at hstatus
    exact .inl (by rw [hsame]; simp [hne, hstatus])
  · have hsame := hget _ (by simp) hne
    have hcache' := hagree.noCache hcache
    exact .inl (by rw [hsame]; simp [hne, hcache', hstatus])
  · exact .inl (by simp [hneg])
  · exact .inr hdefault

theorem allowed_of_lines_iff : Allowed timeParse h f ↔ LinesTell timeParse h f := by
  by_cases hpeek : f.resp.header.peek Field.cdnCacheControl = []
  · unfold LinesTell
    rw [or_iff_right (not_not.2 hpeek)]
    split_ifs with hcdn
    · exact allowed_iff (lines_checked hgate hpeek).1
    · rw [Bool.not_eq_true] at hcdn
      have hblocked := blocked_of_lines hgate hpeek hcdn
      have hreasons : (parsed f.reqHeader f.resp).blocked = false ↔
          isBlockedByPragma (parsed f.reqHeader f.resp).respCC f.resp.map = false ∧
            hasVaryStar f.resp.map = false ∧
            isBlockedByClientState (parsed f.reqHeader f.resp).respCC f.resp.map = false := by
        rw [hblocked, Bool.or_eq_false_iff, Bool.or_eq_false_iff, and_assoc]
      rw [← hreasons]
      refine ⟨And.left, fun hno => ⟨hno, ?_⟩⟩
      have hstatus := (lines_checked hgate hpeek).1
      exact isCacheableWithDefault_of_fresh (by simpa [parsed] using hstatus) hno
        (fresh_of_lines hgate hpeek hcdn)
  · refine iff_of_true ?_ (.inl hpeek)
    unfold isResponseCacheableBytes at hgate
    split_ifs at hgate
    cases hmap : isResponseCacheable timeParse h f.reqHeader f.resp true with
    | none => simp [hmap] at hgate
    | some cacheable =>
      obtain rfl : cacheable = true := by simpa [hmap] using hgate
      exact allowed_of_isResponseCacheable hmap

end

end

/-! ## The theorem -/

theorem gate_of_streamStores {timeParse : TimeParse} {h : Route} {f : Fill} {hasResp buffered : Bool}
    {level : Int} {rounds : List TeeFill.Round}
    (hstores : streamStores timeParse h f hasResp buffered level rounds) :
    streamGate timeParse h f hasResp = some true := by
  unfold streamStores at hstores
  cases hgate : streamGate timeParse h f hasResp with
  | none => simp [hgate] at hstores
  | some cacheable =>
    cases cacheable with
    | true => rfl
    | false => simp [hgate, bufferedStores] at hstores

/-- A fill stores only what may be stored exactly if its gate tells. -/
theorem stored_only_if_allowed_iff (timeParse : TimeParse) (h : Route) (f : Fill) :
    (stores timeParse h f = true → Allowed timeParse h f) ↔
      (stores timeParse h f = true → GateTells timeParse h f) := by
  refine forall_congr' fun hstores => ?_
  rw [stores, Bool.and_eq_true] at hstores
  replace hstores := hstores.2
  unfold GateTells
  cases hpath : f.path with
  | stream hasResp buffered level rounds =>
    rw [hpath] at hstores
    have hgate := gate_of_streamStores hstores
    cases hasResp with
    | true => exact allowed_of_lines_iff (by simpa [streamGate] using hgate)
    | false =>
      have hmap : isResponseCacheable timeParse h f.reqHeader f.resp false = some true := by
        simpa [streamGate] using hgate
      exact iff_of_true (allowed_of_isResponseCacheable hmap) trivial
  | writeThrough =>
    simp only [hpath, Bool.and_eq_true] at hstores
    exact iff_of_true (allowed_of_mapGate hstores.1.2) trivial
  | background isResolver =>
    simp only [hpath, Bool.and_eq_true] at hstores
    exact iff_of_true (allowed_of_mapGate hstores.2) trivial
  | shedRefill =>
    simp only [hpath] at hstores
    exact iff_of_true (allowed_of_mapGate hstores) trivial
  | refresh =>
    simp only [hpath, Bool.and_eq_true, isCacheableWithDefault_eq] at hstores
    exact iff_of_true (allowed_of_isCacheableWithDefault hstores.1.2) trivial
  | invalidating =>
    simp only [hpath, Bool.and_eq_true] at hstores
    exact allowed_of_postStores_iff hstores.2

def plainRoute (allowSetCookie : Bool) : Route where
  disabled := false
  allowSetCookie := allowSetCookie
  neg := none
  defaultTTL := 0
  maxObjectSize := 0
  maxResponseBytes := 0
  maxStreamingBufferBytes := 0

/-- The response to a POST is stored with `no-store`, and one with a cookie and no lifetime where
cookies are allowed. -/
theorem stored_although_blocked :
    let timeParse : TimeParse := fun _ _ => none
    let post : Fill :=
      ⟨.invalidating, ascii "POST", Map.empty,
        ⟨200, ⟨[⟨Field.cacheControl, ascii "no-store"⟩, ⟨Field.contentLocation, ascii "/res"⟩]⟩, 4,
          ascii "body"⟩, true, true⟩
    let login : Fill :=
      ⟨.stream true true 0 [], ascii "GET", Map.empty,
        ⟨200, ⟨[⟨setCookie, ascii "id=1"⟩,
          ⟨Field.lastModified, ascii "Mon, 02 Jan 2006 15:04:05 GMT"⟩]⟩, 4, ascii "body"⟩, true, true⟩
    (stores timeParse (plainRoute false) post = true ∧
        (parsed post.reqHeader post.resp).blocked = true) ∧
      stores timeParse (plainRoute true) login = true ∧
        (parsed login.reqHeader login.resp).blocked = true := by
  decide

end Bouine.Cache.FillGates
