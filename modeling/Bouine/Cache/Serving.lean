import Bouine.Cache.HandOff
import Bouine.Cache.Range
import Bouine.Cache.ResolverPair

/-! # A node at work

Every way through `ServeRequest` (`internal/cache/handler.go`, `internal/cache/stream.go`) on one
node: hits, misses that fetch alone, lead a flight or wait for one, collapsed fetches and
revalidations, requests for a variant that is not stored, for no cached answer, unsafe requests, and
the fetches in the background. The origin answers when it likes; requests, answers and background
work interleave in any order.
-/

namespace Bouine.Cache.Serving

open Lib Header Bouine.Server
open TeeFill (FetchResult carriesClientState publishFillVerdict)
open FillGates (Fill isInvalidating isEventStreamContentType overLimit)
open HandOff (Miss noKey moveKey collapseDenied collapseFlightKey fetchFlightKey)

/-! ## The route -/

structure Server (W : Type*) extends Config W where
  disabled : Bool
  allowSetCookie : Bool
  stayinAlive : Bool
  maxObjectSize : Int
  maxResponseBytes : Int
  maxStreamingBufferBytes : Int
  forwarding : Forwarding
  formatTime : Int → Bytes

namespace Server

variable {W : Type*} (c : Server W)

def gate : Route where
  disabled := c.disabled
  allowSetCookie := c.allowSetCookie
  neg := c.filler.fp.neg
  defaultTTL := c.filler.fp.defaultTTL
  maxObjectSize := c.maxObjectSize
  maxResponseBytes := c.maxResponseBytes
  maxStreamingBufferBytes := c.maxStreamingBufferBytes

def out : Outbound W := ⟨c.filler.lib, c.policy, c.forwarding, c.formatTime⟩

/-- The fields of a request behind the rewrites; an unsafe one is not rewritten. -/
def header (live : Live) : Raw :=
  if isInvalidating live.info.method then live.header else c.gates.rewrite.rewriteRequestCtx live.header

def info (live : Live) : CapturedRequest := ⟨live.info, headerFromCtx (c.header live)⟩

def stores (f : Fill) : Bool := FillGates.stores c.filler.timeParse c.gate f

end Server

def isHead (live : Live) : Bool := live.info.method == ascii "HEAD"

def acceptsEventStream (accept : Bytes) : Bool :=
  (pieces (byte ',') accept).any isEventStreamContentType

def sseIntent (hdr : Raw) : Bool := acceptsEventStream (hdr.peek (ascii "Accept"))

def staleFallbackAllowed (obj : Stored) : Bool :=
  let cc := objDirectives obj
  !cc.mustRevalidate && !cc.proxyRevalidate && !cc.noCache && !cc.sMaxAgeSet

/-! ## Fetches -/

inductive FetchError where
  /-- `ErrFetchShed` -/
  | shed
  | timeout
  | failed
deriving DecidableEq

def FetchError.status : FetchError → Nat
  | shed => 503
  | timeout => 504
  | failed => 502

structure Arrival where
  resp : Response
  delay : Int

def Arrival.fetched (a : Arrival) : Fetched := ⟨a.resp.status, .map a.resp.map, a.resp.body, a.delay⟩

def Arrival.result (a : Arrival) : FetchResult := ⟨a.resp.status, a.resp.map, a.resp.body⟩

abbrev Result := Except FetchError Arrival

structure Fetch where
  sent : Raw
  result : Option Result

/-- How a streamed response comes in: whether its body is there, the bytes all streams hold, the
rounds of the copying loop, and whether its variant has a slot. -/
structure Stream where
  buffered : Bool
  level : Int
  rounds : List TeeFill.Round
  slotFree : Bool

/-- What a step finds besides the state: the time, the clock behind it, a lifetime computed before,
a slot for the variant, and what `unstorableMemo` remembers. -/
structure Moment where
  now : Int
  clock : Int
  ttl : Option Int
  slotFree : Bool
  memo : Bool

structure Keys where
  primary : Key
  lookup : Key

inductive Purpose where
  /-- `streamBypass` and `handleSSE` -/
  | relay
  /-- `invalidateAndProxy` -/
  | proxy
  /-- `streamMiss`, as the leader of a flight or alone -/
  | stream (flight : Option Nat) (primary : Key)
  /-- `fetchAndStoreStayinAlive` -/
  | alive (keys : Keys) (stale : Stored) (now : Int)
  | revalidate (keys : Keys) (stale : Stored) (now : Int)
  /-- `revalidateResolverMiss` -/
  | resolve (keys : Keys) (resolver : Stored) (now : Int)

inductive Stage where
  | start
  /-- for a fetch, perhaps one that other callers of the singleflight group share -/
  | waiting (fetch : Nat) (call : Option Nat) (p : Purpose)
  /-- the head is sent, the body is on its way -/
  | filling (a : Arrival) (st : Stream) (flight : Option Nat) (primary : Key)
  /-- the verdict is out, the store is next -/
  | storing (a : Arrival) (st : Stream) (flight : Option Nat) (primary : Key)
  /-- a follower in `fetchAndStore` -/
  | parked (flight : Nat) (isFill : Bool) (keys : Keys)
  | done

structure Task where
  live : Live
  reentry : Bool
  stage : Stage

inductive FlightError where
  /-- `ErrStreamUnshareable` -/
  | unshareable
  | fetch (e : FetchError)

/-- An `inflightStream`: `verdict` once `done` is closed, `settled` once `stored` is. -/
structure Flight where
  key : Key
  fetch : Nat
  verdict : Option (Except FlightError FetchResult)
  settled : Bool

/-- A call of the singleflight group, with the number of callers. -/
structure Call where
  key : Key
  fetch : Nat
  dups : Nat

inductive JobKind where
  /-- `doBackgroundRevalidate` -/
  | revalidate
  /-- `doBackgroundRefresh` -/
  | refresh
  /-- `doShedRefill` -/
  | refill
deriving DecidableEq

structure Job where
  kind : JobKind
  ri : CapturedRequest
  key : Key
  stale : Option Stored
  fetch : Nat

inductive Client where
  | fast (req : RawRequest)
  | slow (live : Live)

structure Answer where
  client : Client
  status : Nat

structure System where
  store : Key → Option Stored
  fetches : List Fetch
  flights : List Flight
  table : Key → Option Nat
  calls : List Call
  single : Key → Option Nat
  tasks : List Task
  jobs : List Job
  answers : List Answer

def System.init : System :=
  ⟨fun _ => none, [], [], fun _ => none, [], fun _ => none, [], [], []⟩

/-! ## What a request does next -/

inductive Plan where
  | answer (status : Nat)
  | fetch (sent : Raw) (p : Purpose)
  /-- `flight.Do` -/
  | join (key : Key) (sent : Raw) (p : Purpose)
  | lead (key : Key) (sent : Raw) (primary : Key)
  | park (flight : Nat) (isFill : Bool) (keys : Keys)

def revalKeySuffix : UInt64 := 0x726576616c

def headRevalKeySuffix : UInt64 := 0x68656164

section

variable {W : Type*} (c : Server W) (s : System) (live : Live) (reentry memo : Bool) (now : Int)

/-- `streamMiss` outside of every flight. -/
def solo (primary : Key) : Plan := .fetch (streamRequest c.out (c.header live)) (.stream none primary)

def fetchAndStore (keys : Keys) (stored : Bool) : Plan :=
  if reentry then solo c live keys.primary
  else
    let k := fetchFlightKey c.filler ⟨c.info live, keys.primary, keys.lookup, stored, reentry⟩
    if k.1 = noKey then solo c live keys.primary
    else if k.2 && memo then solo c live keys.primary
    else
      match s.table k.1 with
      | some id => .park id k.2 keys
      | none => .lead k.1 (streamRequest c.out (c.header live)) keys.primary

/-- `collapsedFetch` and `collapsedRevalidateBg`: alone if the fetch cannot be shared. -/
def collapsed (keys : Keys) (suffix : UInt64) (sent : Raw) (p : Purpose) : Plan :=
  let sfKey :=
    if collapseDenied (c.info live) then noKey
    else collapseFlightKey c.filler ⟨c.info live, keys.primary, keys.lookup, true, reentry⟩
  if sfKey = noKey then .fetch sent p
  else .join (moveKey sfKey (if isHead live then headRevalKeySuffix else suffix)) sent p

def fetchMiss (keys : Keys) (obj : Option Stored) : Plan :=
  match obj with
  | none => fetchAndStore c s live reentry memo keys false
  | some stale =>
    if c.stayinAlive || stale.staleForSIE now || staleFallbackAllowed stale then
      collapsed c live reentry keys 0 (fetchRequest c.out (c.header live)) (.alive keys stale now)
    else fetchAndStore c s live reentry memo keys true

def handleCacheMiss (primary : Key) (found : Lookup) : Plan :=
  let keys : Keys := ⟨primary, found.key⟩
  match found.resolver with
  | none => fetchMiss c s live reentry memo now keys found.obj
  | some resolver =>
    if resolver.etag ≠ [] && !collapseDenied (c.info live) then
      .fetch (resolverRequest c.out (c.header live) resolver.validators) (.resolve keys resolver now)
    else fetchMiss c s live reentry memo now keys found.obj

def hitStatus (obj : Stored) : Nat :=
  if tryConditional304Fast c.filler.timeParse (c.header live) obj then statusNotModified
  else if (c.header live).peek Field.range ≠ [] then
    ((serveRange (c.info live).header obj).map RangeAnswer.status).getD obj.statusCode
  else obj.statusCode

def handleBypass : Plan :=
  if (parseCacheControl ((c.header live).peek Field.cacheControl)).onlyIfCached then .answer 504
  else .fetch (streamRequest c.out (c.header live)) .relay

def serveCacheBypass : Plan :=
  if sseIntent (c.header live) then .fetch (streamRequest c.out (c.header live)) .relay
  else handleBypass c live

def serveInvalidating : Plan :=
  if sseIntent (c.header live) then .fetch (streamRequest c.out (c.header live)) .relay
  else .fetch (proxyRequest c.out (c.header live)) .proxy

/-- The `switch` of `ServeRequest`. -/
def decided (found : Lookup) (disp : Disposition) : Plan :=
  let primary := c.primaryKey live.info
  if !disp.decision.serves && sseIntent (c.header live) then
    .fetch (streamRequest c.out (c.header live)) .relay
  else
    match disp.decision, disp.object with
    | .hit, some obj | .staleHit, some obj => .answer (hitStatus c live obj)
    | .revalidate, some stale =>
      let keys : Keys := ⟨primary, found.key⟩
      collapsed c live reentry keys revalKeySuffix
        (revalidateRequest c.out (c.header live) stale.validators) (.revalidate keys stale now)
    | .bypass, _ => handleBypass c live
    | _, _ => handleCacheMiss c s live reentry memo now primary found

def plan : Plan :=
  if c.disabled then
    if isInvalidating live.info.method then serveInvalidating c live else serveCacheBypass c live
  else
    match serveRequest c.route (c.around s.store) live now with
    | .invalidate => serveInvalidating c live
    | .bypass => serveCacheBypass c live
    | .decide found disp => decided c s live reentry memo now found disp

end

/-! ## What a response leads to -/

structure Outcome where
  writes : List (Key × Stored)
  plan : Plan

section

variable {W : Type*} (c : Server W) (s : System) (t : Task) (m : Moment)

def bounded (r : Result) : Result :=
  match r with
  | .error e => .error e
  | .ok a => if overLimit c.gate a.resp then .error .failed else .ok a

def throughFill (live : Live) (a : Arrival) (slotFree : Bool) : Fill :=
  ⟨.writeThrough, live.info.method, (c.info live).header, a.resp, slotFree, true⟩

def writeAndMaybeStore (primary : Key) (a : Arrival) : Outcome where
  writes :=
    if c.stores (throughFill c t.live a m.slotFree) then
      fillWrites c.filler primary (c.info t.live) a.fetched m.ttl m.clock m.now
    else []
  plan := .answer a.resp.status

def headFreshenAllowed (timeParse : TimeParse) (stale : Stored) (hdr : Map) : Bool :=
  let tag := hdr.get Field.etag
  let lm := hdr.get Field.lastModified
  let cl := hdr.get Field.contentLength
  (tag = [] || etagMatch tag stale.etag) &&
    (lm = [] || (parseHTTPDate timeParse lm ≠ 0 && stale.lastModified ≠ 0 &&
      stale.lastModified = parseHTTPDate timeParse lm)) &&
    (cl = [] || parseInt64 cl = some stale.bodySize)

/-- `freshenFromHead` handles the response. -/
def freshens (stale : Stored) (a : Arrival) : Bool :=
  (a.resp.status == 200 || a.resp.status == 410) && a.resp.body == [] &&
    headFreshenAllowed c.filler.timeParse stale a.resp.map

def renewAndServe (keys : Keys) (stale : Stored) (a : Arrival) (now : Int) (status : Nat) : Outcome :=
  let refreshed := refreshFrom304 c.filler stale a.fetched (c.info t.live) now
  ⟨[(keys.lookup, refreshed)], .answer
    (if tryConditional304Fast c.filler.timeParse (c.header t.live) refreshed then statusNotModified
      else status)⟩

/-- The end of `fetchAndStoreStayinAlive` and of `revalidate`. -/
def throughOrFreshen (keys : Keys) (stale : Stored) (a : Arrival) (now : Int) : Outcome :=
  if isHead t.live && freshens c stale a then renewAndServe c t keys stale a now a.resp.status
  else writeAndMaybeStore c t m keys.primary a

/-- `fetchAndStoreStayinAlive` behind its fetch. -/
def aliveOutcome (shared : Bool) (keys : Keys) (stale : Stored) (now : Int) (r : Result) : Outcome :=
  match bounded c r with
  | .error _ => ⟨[], .answer stale.statusCode⟩
  | .ok a =>
    if shared && carriesClientState a.resp.map then
      ⟨[], .fetch (fetchRequest c.out (c.header t.live)) (.alive keys stale now)⟩
    else if 500 ≤ a.resp.status then ⟨[], .answer stale.statusCode⟩
    else throughOrFreshen c t m keys stale a now

/-- `revalidate` behind its fetch. -/
def revalidateOutcome (shared : Bool) (keys : Keys) (stale : Stored) (now : Int) (r : Result) :
    Outcome :=
  match bounded c r with
  | .error e =>
    if c.stayinAlive || staleFallbackAllowed stale then ⟨[], .answer stale.statusCode⟩
    else ⟨[], .answer e.status⟩
  | .ok a =>
    if shared && a.resp.status != statusNotModified && carriesClientState a.resp.map then
      ⟨[], .fetch (revalidateRequest c.out (c.header t.live) stale.validators)
        (.revalidate keys stale now)⟩
    else if 500 ≤ a.resp.status ∧ (c.stayinAlive || staleFallbackAllowed stale) then
      ⟨[], .answer stale.statusCode⟩
    else if a.resp.status = statusNotModified then
      renewAndServe c t keys stale a now stale.statusCode
    else throughOrFreshen c t m keys stale a now

/-- The status of `serveResolver304`; `none` if the 304 proves nothing. -/
def resolver304Status (resolver : Stored) (a : Arrival) (now : Int) : Option Nat :=
  let hdr := c.header t.live
  let tag304 := a.resp.map.get Field.etag
  let inm := hdr.peek Field.ifNoneMatch
  if Pairs.confirms hdr resolver a.fetched = false then
    if tag304 ≠ [] && inm ≠ [] && etagMatch inm tag304 then some statusNotModified else none
  else if (resolver.pairedKey.map fun k => (s.store k).isNone).getD false then none
  else
    let refreshed := refreshFrom304 c.filler resolver a.fetched (c.info t.live) now
    if tryConditional304Fast c.filler.timeParse hdr refreshed then some statusNotModified
    else some resolver.statusCode

/-- `revalidateResolverMiss` behind its fetch; what it does not handle is a miss. -/
def resolveOutcome (keys : Keys) (resolver : Stored) (now : Int) (r : Result) : Outcome :=
  let miss : Outcome := ⟨[], fetchMiss c s t.live t.reentry m.memo now keys none⟩
  match bounded c r with
  | .error _ => miss
  | .ok a =>
    if a.resp.status = statusNotModified then
      match resolver304Status c s t resolver a now with
      | some status => ⟨[], .answer status⟩
      | none => miss
    else writeAndMaybeStore c t m keys.primary a

def postFill (live : Live) (a : Arrival) : Fill :=
  ⟨.invalidating, live.info.method, (c.info live).header, a.resp, true, true⟩

def proxyOutcome (r : Result) : Outcome :=
  match r with
  | .error e => ⟨[], .answer e.status⟩
  | .ok a =>
    if overLimit c.gate a.resp then ⟨[], .answer 502⟩
    else
      let getRI : CapturedRequest := { c.info t.live with method := ascii "GET" }
      let key := c.primaryKey getRI.toRequestInfo
      ⟨if c.stores (postFill c t.live a) then
          [(key, buildObject c.filler key getRI a.fetched a.resp.map none m.clock m.now)]
        else [], .answer a.resp.status⟩

/-- The declared length is over the limit of `doFetchStream`. -/
def declaredTooLong (a : Arrival) : Bool :=
  0 < c.maxResponseBytes && 0 < a.resp.contentLength && c.maxResponseBytes < a.resp.contentLength

def relayOutcome (r : Result) : Outcome :=
  match r with
  | .error e => ⟨[], .answer e.status⟩
  | .ok a => ⟨[], .answer (if declaredTooLong c a then 502 else a.resp.status)⟩

end

/-! ## Streamed fills -/

section

variable {W : Type*} (c : Server W) (live : Live) (a : Arrival) (st : Stream)

def streamFill : Fill :=
  ⟨.stream true st.buffered st.level st.rounds, live.info.method, (c.info live).header, a.resp,
    st.slotFree, true⟩

/-- The response goes through `streamMissBuffered`. -/
def takesBuffer : Bool :=
  st.buffered || isHead live ||
    !isResponseCacheableBytes c.filler.timeParse c.gate (c.info live).header a.resp ||
    (0 < c.maxStreamingBufferBytes && c.maxStreamingBufferBytes ≤ st.level)

def liveStream : Bool :=
  !st.buffered && !isHead live &&
    isEventStreamContentType (a.resp.header.peek (ascii "Content-Type"))

def tooLong : Bool :=
  declaredTooLong c a ||
    (!liveStream live a st && takesBuffer c live a st && overLimit c.gate a.resp)

def bodyComplete : Bool :=
  match TeeFill.loop (FillGates.limits c.gate) .start st.rounds with
  | some (_, complete) => complete
  | none => false

def fillVerdict : Except FlightError FetchResult :=
  if liveStream live a st || (!takesBuffer c live a st && (!st.slotFree || !bodyComplete c st)) then
    .error .unshareable
  else
    match publishFillVerdict a.result with
    | .ok res => .ok res
    | .error _ => .error .unshareable

end

/-! ## Background work -/

section

variable {W : Type*} (c : Server W) (m : Moment)

def jobRequest (kind : JobKind) (ri : CapturedRequest) (stale : Option Stored) : Raw :=
  match kind, stale with
  | .refill, _ | _, none => refillRequest c.out ri.header
  | _, some stale => backgroundRequest c.out ri.header stale.validators

def jobFill (j : Job) (a : Arrival) : Fill :=
  ⟨match j.kind with
    | .revalidate => .background ((j.stale.map Stored.isVaryResolver).getD false)
    | .refresh => .refresh
    | .refill => .shedRefill, j.ri.method, j.ri.header, a.resp, true, true⟩

def jobWrites (j : Job) (r : Result) : List (Key × Stored) :=
  match bounded c r with
  | .error _ => []
  | .ok a =>
    match j.kind, j.stale with
    | .revalidate, some stale | .refresh, some stale =>
      if a.resp.status = statusNotModified then
        [(j.key, refreshFrom304 c.filler stale a.fetched j.ri m.now)]
      else if c.stores (jobFill j a) then
        let obj := buildObject c.filler j.key j.ri a.fetched a.resp.map none m.clock m.now
        [(j.key, { obj with
          pairedKey := if j.kind = .revalidate ∧ obj.varyKey ≠ [] then stale.pairedKey else none })]
      else []
    | .refill, _ =>
      if c.stores (jobFill j a) then
        [(j.key, buildObject c.filler j.key j.ri a.fetched a.resp.map none m.clock m.now)]
      else []
    | _, none => []

end

/-! ## Steps -/

inductive Act where
  | ask (live : Live) (m : Moment)
  | askFast (tls : Bool) (req : RawRequest) (now : Int)
  /-- the origin answers, or the fetch fails -/
  | respond (fetch : Nat) (r : Result)
  | resume (task : Nat) (st : Stream) (m : Moment)
  /-- the leader's body is complete, or its stream is over -/
  | publish (task : Nat)
  | keep (task : Nat) (m : Moment)
  /-- a follower goes on -/
  | unpark (task : Nat) (m : Moment)
  /-- a call of the singleflight group is over -/
  | forget (call : Nat)
  /-- a flight leaves the table -/
  | remove (flight : Nat)
  | startJob (kind : JobKind) (ri : CapturedRequest) (key : Key)
  | finishJob (job : Nat) (m : Moment)
  /-- evictions and purges -/
  | evict (gone : Key → Bool)

namespace System

variable {W : Type*} (c : Server W) (s : System)

def put (w : Key × Stored) : System := { s with store := Function.update s.store w.1 (some w.2) }

def setTask (i : Nat) (t : Task) (stage : Stage) : System :=
  { s with tasks := s.tasks.set i { t with stage } }

def answer (live : Live) (status : Nat) : System :=
  { s with answers := ⟨.slow live, status⟩ :: s.answers }

/-- `flight.Do` up to the wait: the call and its fetch. -/
def join (key : Key) (sent : Raw) : System × Nat × Nat :=
  match (s.single key).bind fun id => (s.calls[id]?).map (id, ·) with
  | some (id, call) =>
    ({ s with calls := s.calls.set id { call with dups := call.dups + 1 } }, id, call.fetch)
  | none =>
    ({ s with
        fetches := s.fetches ++ [⟨sent, none⟩]
        calls := s.calls ++ [⟨key, s.fetches.length, 0⟩]
        single := Function.update s.single key (some s.calls.length) },
      s.calls.length, s.fetches.length)

def enact (i : Nat) (t : Task) : Plan → System
  | .answer status => (s.answer t.live status).setTask i t .done
  | .fetch sent p =>
    setTask { s with fetches := s.fetches ++ [⟨sent, none⟩] } i t (.waiting s.fetches.length none p)
  | .join key sent p =>
    let r := s.join key sent
    r.1.setTask i t (.waiting r.2.2 (some r.2.1) p)
  | .lead key sent primary =>
    setTask
      { s with
        fetches := s.fetches ++ [⟨sent, none⟩]
        flights := s.flights ++ [⟨key, s.fetches.length, none, false⟩]
        table := Function.update s.table key (some s.flights.length) }
      i t (.waiting s.fetches.length none (.stream (some s.flights.length) primary))
  | .park flight isFill keys => s.setTask i t (.parked flight isFill keys)

def conclude (i : Nat) (t : Task) (o : Outcome) : System :=
  (o.writes.foldl put s).enact i t o.plan

def settle (flight : Option Nat) (v : Option (Except FlightError FetchResult)) (settled : Bool) :
    System :=
  match flight with
  | none => s
  | some id =>
    { s with flights := s.flights.modify id fun f =>
        { f with verdict := f.verdict.or v, settled := f.settled || settled } }

def arrived (i : Nat) (t : Task) (st : Stream) (flight : Option Nat) (primary : Key) (r : Result) :
    System :=
  let refuse (e : FetchError) :=
    ((s.settle flight (some (.error (.fetch e))) true).answer t.live e.status).setTask i t .done
  match r with
  | .error e => refuse e
  | .ok a =>
    if tooLong c t.live a st then refuse .failed
    else (s.answer t.live a.resp.status).setTask i t (.filling a st flight primary)

def resultOf (f : Nat) : Option Result := (s.fetches[f]?).bind Fetch.result

def shared (call : Option Nat) : Bool :=
  ((call.bind (s.calls[·]?)).map fun call => decide (0 < call.dups)).getD false

def outcome (t : Task) (call : Option Nat) (m : Moment) (r : Result) : Purpose → Option Outcome
  | .relay => some (relayOutcome c r)
  | .proxy => some (proxyOutcome c t m r)
  | .stream .. => none
  | .alive keys stale now => some (aliveOutcome c t m (s.shared call) keys stale now r)
  | .revalidate keys stale now => some (revalidateOutcome c t m (s.shared call) keys stale now r)
  | .resolve keys resolver now => some (resolveOutcome c s t m keys resolver now r)

def resume (i : Nat) (t : Task) (fetch : Nat) (call : Option Nat) (p : Purpose) (st : Stream)
    (m : Moment) : System :=
  match s.resultOf fetch with
  | none => s
  | some r =>
    match p with
    | .stream flight primary => s.arrived c i t st flight primary r
    | p =>
      match s.outcome c t call m r p with
      | some o => s.conclude i t o
      | none => s

def followerPlan (live : Live) (m : Moment) (isFill : Bool) (keys : Keys) (f : Flight) : Option Plan :=
  if isFill then
    if f.settled then
      match f.verdict with
      | some (.error (.fetch .shed)) => some (.answer 503)
      | _ => some (plan c s live true m.memo m.now)
    else none
  else
    match f.verdict with
    | none => none
    | some (.ok res) => some (.answer res.statusCode)
    | some (.error .unshareable) => some (solo c live keys.primary)
    | some (.error (.fetch e)) => some (.answer e.status)

def startJob (kind : JobKind) (ri : CapturedRequest) (key : Key) (stale : Option Stored) : System :=
  let sent := jobRequest c kind ri stale
  if collapseDenied ri then
    { s with
      fetches := s.fetches ++ [⟨sent, none⟩]
      jobs := s.jobs ++ [⟨kind, ri, key, stale, s.fetches.length⟩] }
  else
    let r := s.join (moveKey key 0) sent
    { r.1 with jobs := r.1.jobs ++ [⟨kind, ri, key, stale, r.2.2⟩] }

def step (s : System) : Act → System
  | .ask live m =>
    let t : Task := ⟨live, false, .start⟩
    enact { s with tasks := s.tasks ++ [t] } s.tasks.length t (plan c s live false m.memo m.now)
  | .askFast tls req now =>
    match tryHit c.route (c.around s.store) tls req now with
    | some obj => { s with answers := ⟨.fast req, obj.statusCode⟩ :: s.answers }
    | none => s
  | .respond f r =>
    { s with fetches := s.fetches.modify f fun fetch =>
        { fetch with result := fetch.result.or (some r) } }
  | .resume i st m =>
    match s.tasks[i]? with
    | some t =>
      match t.stage with
      | .waiting fetch call p => s.resume c i t fetch call p st m
      | _ => s
    | none => s
  | .publish i =>
    match s.tasks[i]? with
    | some t =>
      match t.stage with
      | .filling a st flight primary =>
        (s.settle flight (some (fillVerdict c t.live a st)) false).setTask i t
          (.storing a st flight primary)
      | _ => s
    | none => s
  | .keep i m =>
    match s.tasks[i]? with
    | some t =>
      match t.stage with
      | .storing a st flight primary =>
        let writes :=
          if c.stores (streamFill c t.live a st) then
            fillWrites c.filler primary (c.info t.live) a.fetched m.ttl m.clock m.now
          else []
        ((writes.foldl put s).settle flight none true).setTask i t .done
      | _ => s
    | none => s
  | .unpark i m =>
    match s.tasks[i]? with
    | some t =>
      match t.stage with
      | .parked flight isFill keys =>
        match (s.flights[flight]?).bind (s.followerPlan c t.live m isFill keys) with
        | some plan => s.enact i { t with reentry := t.reentry || isFill } plan
        | none => s
      | _ => s
    | none => s
  | .forget id =>
    match s.calls[id]? with
    | some call =>
      if (s.resultOf call.fetch).isSome ∧ s.single call.key = some id then
        { s with single := Function.update s.single call.key none }
      else s
    | none => s
  | .remove id =>
    match s.flights[id]? with
    | some f =>
      if (s.resultOf f.fetch).isSome then { s with table := Function.update s.table f.key none } else s
    | none => s
  | .startJob kind ri key =>
    match kind, s.store key with
    | .refill, _ => s.startJob c .refill ri key none
    | .revalidate, some stale =>
      if stale.isVaryResolver then s else s.startJob c .revalidate ri key (some stale)
    | .refresh, some stale => s.startJob c .refresh ri key (some stale)
    | _, none => s
  | .finishJob j m =>
    match s.jobs[j]? with
    | some job =>
      match s.resultOf job.fetch with
      | some r => { (jobWrites c m job r).foldl put s with jobs := s.jobs.eraseIdx j }
      | none => s
    | none => s
  | .evict gone => { s with store := fun k => if gone k then none else s.store k }

end System

end Bouine.Cache.Serving
