import Bouine.Header.Rewrite
import Bouine.Cache.Captured
import Bouine.Cache.Engine
import Bouine.Cache.FillGates
import Bouine.Cache.OriginTarget

/-! # Hits of the fast path and of the slow path

A request is answered by `TryHit` (`internal/cache/fastpath.go`) from the parsed bytes, or by
`ServeRequest` (`internal/cache/handler.go`) from what fasthttp makes of them, with header readers,
gates and key inputs of their own. Here are both, up to the decision.
-/

namespace Bouine.Cache

open Lib Header Server
open FillGates (isInvalidating)

def Field.userAgent : Bytes := ascii "User-Agent"

/-! ## The gates of a route -/

/-- What a route brings to a hit. `bypassCookieNames` are the names of the compiled scanner,
`uaBypass` the compiled matcher. -/
structure HitRoute (W : Type*) where
  lib : Stdlib W
  policy : Option KeyPolicy := none
  bypassOnCookie : Bool := false
  bypassCookieNames : List Bytes := []
  uaBypass : Option (Bytes → Bool) := none
  rewrite : Rewrite := ⟨[], []⟩

def nameListed (names : List Bytes) (rawName : Bytes) : Bool :=
  trimOWS rawName ≠ [] && names.any (equalFold (trimOWS rawName))

def hasCookieName (names : List Bytes) (cookieValue : Bytes) : Bool :=
  (names ≠ [] && cookieValue ≠ []) &&
    (splitOn (byte ';') cookieValue).any fun pair => nameListed names (cutAt (byte '=') pair).1

section

variable {W : Type*} (route : HitRoute W)

def cookieGate (lines : List Bytes) : Bool :=
  (route.bypassOnCookie || route.bypassCookieNames ≠ []) &&
    lines.any fun line =>
      line ≠ [] && (route.bypassOnCookie || hasCookieName route.bypassCookieNames line)

def cookieBypassTriggered (hdr : Raw) : Bool := cookieGate route (hdr.peekAll Field.cookie)

def cookieBypassTriggeredRaw (req : RawRequest) : Bool :=
  cookieGate route ((req.headers.filter fun l => equalFold l.key Field.cookie).map RawHeader.value)

/-- `uaBypass.matchString`, and `matchBytes`. -/
def uaMatches (ua : Bytes) : Bool :=
  match route.uaBypass with
  | none => false
  | some matchUA => matchUA ua

def requestBypass (hdr : Raw) : Bool :=
  cookieBypassTriggered route hdr || uaMatches route (hdr.peek Field.userAgent)

end

/-! ## Two readings of a request -/

def rawHeader (req : RawRequest) (key : Bytes) : Bytes :=
  ((req.headers.find? fun l => equalFold l.key key).map RawHeader.value).getD []

def reqHeaderMapFromRaw (req : RawRequest) : Map :=
  Map.sortEntries ⟨req.headers.map fun l => ⟨canonicalHeaderKey l.key, l.value.rdropWhile isOWS⟩⟩

def rawVarySrc (req : RawRequest) : VarySource :=
  ⟨⟨rawHeader req, cookieValue req⟩, mapView (reqHeaderMapFromRaw req)⟩

/-- The cookies that `presenceCookieValue` finds in a fasthttp header. -/
def peekCookies (hdr : Raw) : Bytes :=
  let lines := hdr.peekAll Field.cookie
  if 1 < lines.length then List.intercalate (ascii "; ") (lines.filter (· ≠ []))
  else hdr.peek Field.cookie

def fastVarySrc (hdr : Raw) : VarySource :=
  ⟨⟨fun key => hdr.peek (canonicalHeaderKey key), peekCookies hdr⟩, mapView (headerFromCtx hdr)⟩

/-- What `buildKeyFromRaw` reads; the three key builders write the same bytes. -/
def rawInfo (tls : Bool) (req : RawRequest) : RequestInfo :=
  { method := req.method, uri := byte '?' :: req.query, host := req.host, path := req.path, tls }

def qualifiesForFastPath (req : RawRequest) : Option Directives :=
  if req.method ≠ ascii "GET" ∧ req.method ≠ ascii "HEAD" then none
  else if req.scanFlags.disqualifyFastPath then none
  else if pathNeedsNormalization req.path then none
  else if req.cacheControlRaw ≠ [] ∧ ((parseCacheControl req.cacheControlRaw).noCache ∨
      (parseCacheControl req.cacheControlRaw).noStore) then none
  else if req.scanFlags.pragmaNoCache then none
  else some (if req.cacheControlRaw ≠ [] then parseCacheControl req.cacheControlRaw else {})

structure Live where
  info : RequestInfo
  header : Raw

def liveDirectives (hdr : Raw) : Directives :=
  let reqCC :=
    if hdr.peek Field.cacheControl ≠ [] then parseCacheControl (hdr.peek Field.cacheControl) else {}
  if reqCC.noCache = false ∧ hdr.peek Field.pragma = ascii "no-cache" then
    { reqCC with noCache := true }
  else reqCC

def evaluateFast (method : Bytes) (hdr : Raw) (obj : Option Stored) (now : Int) : Disposition :=
  if method ≠ ascii "GET" ∧ method ≠ ascii "HEAD" then ⟨.bypass, none⟩
  else evaluate obj (liveDirectives hdr) (respGateFromObject obj) now

/-! ## The two paths -/

/-- The hashes, the store, and whether the head of an answer fits the buffer of the fast path. -/
structure Surroundings where
  sum128 : Bytes → Key
  sum64 : Bytes → UInt64
  store : Key → Option Stored
  composes : Stored → Int → Bool

structure Lookup where
  key : Key
  obj : Option Stored
  resolver : Option Stored
deriving DecidableEq

/-- `lookup`. `tryHit` has the same steps, and goes on only with an object. -/
def lookup (store : Key → Option Stored) (primaryKey : Key) (variantKey : Bytes → Key) : Lookup :=
  match store primaryKey with
  | none => ⟨primaryKey, none, none⟩
  | some obj =>
    if obj.varyValue = [] then ⟨primaryKey, some obj, none⟩
    else if variantKey obj.varyValue = primaryKey then ⟨primaryKey, some obj, none⟩
    else
      match store (variantKey obj.varyValue) with
      | some vobj => ⟨variantKey obj.varyValue, some vobj, none⟩
      | none => ⟨variantKey obj.varyValue, none, some obj⟩

section

variable {W : Type*} (route : HitRoute W) (around : Surroundings)

def lookupRaw (tls : Bool) (req : RawRequest) : Lookup :=
  let key := buildKey around.sum128 (rawInfo tls req) route.policy
  lookup around.store key fun vary =>
    variantKeyCore route.lib around.sum64 key route.policy vary (rawVarySrc req)

def lookupLive (info : RequestInfo) (hdr : Raw) : Lookup :=
  let key := buildKey around.sum128 info route.policy
  lookup around.store key fun vary =>
    variantKeyCore route.lib around.sum64 key route.policy vary (fastVarySrc hdr)

/-- The gates of `TryHit`, and the directives that it goes on with. -/
def admits (req : RawRequest) : Option Directives :=
  if cookieBypassTriggeredRaw route req || uaMatches route (rawHeader req Field.userAgent) then none
  else qualifiesForFastPath req

/-- `TryHit` on a node without peers: the object it answers from. -/
def tryHit (tls : Bool) (req : RawRequest) (now : Int) : Option Stored :=
  match admits route req with
  | none => none
  | some reqCC =>
    match (lookupRaw route around tls req).obj with
    | none => none
    | some obj =>
      if (evaluate (some obj) reqCC (respGateFromObject (some obj)) now).decision.serves &&
        around.composes obj now then some obj
      else none

/-- What `ServeRequest` of a caching route comes to. -/
inductive Dispatch where
  | invalidate
  | bypass
  | decide (found : Lookup) (disp : Disposition)
deriving DecidableEq

def serveRequest (live : Live) (now : Int) : Dispatch :=
  if isInvalidating live.info.method then .invalidate
  else
    let hdr := route.rewrite.rewriteRequestCtx live.header
    if requestBypass route hdr then .bypass
    else
      let found := lookupLive route around live.info hdr
      .decide found (evaluateFast live.info.method hdr found.obj now)

end

/-! ## What a hit depends on -/

section

variable {W : Type*} (route : HitRoute W) (tls : Bool) (req : RawRequest)

variable {store : Key → Option Stored} {obj : Stored} {key : Key}

theorem lookup_of_plain (h : store key = some obj) (hvary : obj.varyValue = [])
    (variantKey : Bytes → Key) : (lookup store key variantKey).obj = some obj := by
  rw [lookup, h]
  simp [hvary]

theorem lookup_of_none (h : store key = none) (variantKey : Bytes → Key) :
    (lookup store key variantKey).obj = none := by
  rw [lookup, h]

theorem lookup_of_varying {resolver : Stored} (h : store key = some resolver)
    (hvary : resolver.varyValue ≠ []) (variantKey : Bytes → Key) :
    (lookup store key variantKey).obj =
      if variantKey resolver.varyValue = key then some resolver
      else store (variantKey resolver.varyValue) := by
  rw [lookup, h]
  simp only [hvary, if_false]
  split_ifs
  · rfl
  · cases store (variantKey resolver.varyValue) <;> rfl

theorem tryHit_inv {around : Surroundings} {now : Int}
    (h : tryHit route around tls req now = some obj) :
    ∃ cc, admits route req = some cc ∧ (lookupRaw route around tls req).obj = some obj ∧
      (evaluate (some obj) cc (respGateFromObject (some obj)) now).decision.serves = true := by
  unfold tryHit at h
  cases hadmits : admits route req with
  | none => simp [hadmits] at h
  | some cc =>
    cases hfound : (lookupRaw route around tls req).obj with
    | none => simp [hadmits, hfound] at h
    | some found =>
      simp only [hadmits, hfound, Bool.and_eq_true] at h
      split_ifs at h with hserves
      cases h
      exact ⟨cc, rfl, rfl, hserves.1⟩

end

/-! ## Concrete requests -/

def asRead (req : RawRequest) : Live :=
  ⟨rawInfo false req, ⟨req.headers.map fun l => ⟨canonicalHeaderKey l.key, l.value⟩⟩⟩

def pageGet : RawRequest :=
  { method := ascii "GET", path := ascii "/page", query := [], host := ascii "example.com"
    httpVersion := ascii "HTTP/1.1", headers := [], scanFlags := {}, cacheControlRaw := []
    connectionClose := false }

end Bouine.Cache
