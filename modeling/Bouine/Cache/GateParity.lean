import Bouine.Lib.WhiteSpace
import Bouine.Cache.Cacheable

/-! # The two storage gates against each other

`isResponseCacheableBytes` judges a response by its lines and is meant to mirror
`isResponseCacheable`, which judges the header map made of them. Both are one rule over what they
read: the directives that count, a star, client state, a date and so on. The file says for which
lines they agree under every status, request and setting.
-/

namespace Bouine.Cache

open Lib Header

/-- `IsCacheable`, which parses for itself and looks at Pragma whatever the targeted field says. -/
def isCacheable (timeParse : TimeParse) (status : Nat) (reqHeader respHeader : Map)
    (neg : Option StatusTTL) : Bool :=
  if status = statusNotModified then false
  else
    let (respCC, hasCDN) :=
      match cdnCacheControl respHeader with
      | some cdnCC => (cdnCC, true)
      | none => (parseCacheControl (respHeader.getAll Field.cacheControl), false)
    if isCacheBlocked status respCC hasCDN reqHeader respHeader then false
    else if respCC.maxAgeSet || respCC.sMaxAgeSet then true
    else if respHeader.get Field.expires ≠ [] ∧
        parseHTTPDate timeParse (respHeader.get Field.expires) ≠ 0 then true
    else if respHeader.get Field.lastModified ≠ [] ∧ (isHeuristicStatus status || respCC.isPublic) then
      !isBlockedByPragma respCC respHeader
    else if respCC.noCache ∧ respHeader.get Field.etag ≠ [] ∧ isHeuristicStatus status then true
    else StatusTTL.cacheable neg status

theorem isCacheable_eq (timeParse : TimeParse) (status : Nat) (reqHeader respHeader : Map)
    (neg : Option StatusTTL) : isCacheable timeParse status reqHeader respHeader neg =
      (newParsedResponse status reqHeader respHeader).isCacheable timeParse neg := by
  have hpragma (respCC : Directives) (hlm : respHeader.get Field.lastModified ≠ []) :=
    not_isBlockedByPragma hlm respCC
  unfold isCacheable ParsedResponse.isCacheable ParsedResponse.blocked newParsedResponse
  cases cdnCacheControl respHeader with
  | none => by_cases hlm : respHeader.get Field.lastModified = [] <;> simp
  | some d => by_cases hlm : respHeader.get Field.lastModified = [] <;> simp [hlm, hpragma]

/-! ## Views -/

structure GateView where
  respCC : Directives
  /-- a star among the fields of Vary -/
  star : Bool
  /-- Pragma blocks -/
  pragma : Bool
  /-- Set-Cookie or Set-Login -/
  clientState : Bool
  /-- Expires is a date -/
  dated : Bool
  /-- there is a Last-Modified -/
  modified : Bool
  /-- there is an ETag -/
  tagged : Bool

namespace GateView

section

variable (v : GateView)

def explicit : Bool := v.respCC.maxAgeSet || v.respCC.sMaxAgeSet

def opened : Bool := v.respCC.isPublic || v.respCC.mustRevalidate || v.respCC.sMaxAgeSet

def closed : Bool :=
  (v.respCC.noStore && !v.respCC.mustUnderstand) || v.respCC.isPrivate || v.star || v.pragma

/-- The response itself says that it may be reused; its status may be cacheable by a guess or not.
-/
def reusable (heuristic : Bool) : Bool :=
  v.explicit || v.dated || (v.modified && (heuristic || v.respCC.isPublic)) ||
    (v.respCC.noCache && v.tagged && heuristic)

def blocked (state : Bool) (status : Nat) (authorized : Bool) : Bool :=
  blockedByNoStore status v.respCC || v.respCC.isPrivate || v.star || v.pragma || state ||
    (authorized && !v.opened)

def admits (state : Bool) (status : Nat) (authorized : Bool) (neg : Option StatusTTL)
    (defaultTTL : Int) : Bool :=
  !v.blocked state status authorized &&
    (v.reusable (isHeuristicStatus status) || StatusTTL.cacheable neg status ||
      (0 < defaultTTL && isHeuristicStatus status))

end

end GateView

section

variable (timeParse : TimeParse)

/-- The response as the gate over the lines reads it, if the first targeted line is empty. -/
def viewOfLines (hdr : Raw) : GateView :=
  let respCC := parseCacheControl (joinedCacheControlBytes hdr)
  { respCC
    star := varyContainsStarBytes (joinedVaryBytes hdr)
    pragma := isBlockedByPragmaBytes hdr respCC
    clientState := clientStateInFastHTTP hdr
    dated := hdr.peek Field.expires != [] && parseHTTPDate timeParse (hdr.peek Field.expires) != 0
    modified := hdr.peek Field.lastModified != []
    tagged := hdr.peek Field.etag != [] }

def viewOfMap (m : Map) : GateView :=
  let cdn := cdnCacheControl m
  let respCC := cdn.getD (parseCacheControl (m.getAll Field.cacheControl))
  { respCC
    star := hasVaryStar m
    pragma := cdn.isNone && isBlockedByPragma respCC m
    clientState := clientStateInMap m
    dated := m.get Field.expires != [] && parseHTTPDate timeParse (m.get Field.expires) != 0
    modified := m.get Field.lastModified != []
    tagged := m.get Field.etag != [] }

end

def authorized (reqHeader : Map) : Bool := reqHeader.get Field.authorization != []

/-! ## The gates by their views -/

theorem GateView.blockedByAuthorization_eq (v : GateView) (reqHeader : Map) :
    blockedByAuthorization v.respCC reqHeader = (authorized reqHeader && !v.opened) := by
  simp [blockedByAuthorization, authorized, GateView.opened, Bool.and_assoc]

theorem GateView.admits_or (v : GateView) (state state' : Bool) (status : Nat) (authorized : Bool)
    (neg : Option StatusTTL) (defaultTTL : Int) :
    v.admits (state || state') status authorized neg defaultTTL =
      (v.admits state status authorized neg defaultTTL && !state') := by
  unfold GateView.admits GateView.blocked
  cases state' with
  | true => simp
  | false => rw [Bool.or_false, Bool.not_false, Bool.and_true]

section

variable (timeParse : TimeParse) (h : Route) (reqHeader : Map) (r : Response)

theorem isBytesBlocked_eq : isBytesBlocked h r.header (viewOfLines timeParse r.header).respCC reqHeader
    r.status = (viewOfLines timeParse r.header).blocked
      (!h.allowSetCookie && (viewOfLines timeParse r.header).clientState) r.status
      (authorized reqHeader) := by
  unfold isBytesBlocked isBlockedByDirectives GateView.blocked
  rw [GateView.blockedByAuthorization_eq]
  show (_ || _ || (viewOfLines timeParse r.header).star ||
    (!h.allowSetCookie && (viewOfLines timeParse r.header).clientState) || _ ||
    (viewOfLines timeParse r.header).pragma) = _
  ac_rfl

theorem isResponseCacheableBytes_eq (hpeek : r.header.peek Field.cdnCacheControl = []) :
    isResponseCacheableBytes timeParse h reqHeader r =
      (r.status != statusNotModified &&
        (viewOfLines timeParse r.header).admits
          (!h.allowSetCookie && (viewOfLines timeParse r.header).clientState) r.status
          (authorized reqHeader) h.neg h.defaultTTL && !h.declaredTooLarge r) := by
  have hfresh : hasBytesFreshness timeParse h r.header (viewOfLines timeParse r.header).respCC r.status =
      ((viewOfLines timeParse r.header).reusable (isHeuristicStatus r.status) ||
        StatusTTL.cacheable h.neg r.status || (0 < h.defaultTTL && isHeuristicStatus r.status)) := rfl
  unfold isResponseCacheableBytes GateView.admits
  rw [if_neg (not_not.2 hpeek), ← isBytesBlocked_eq, ← hfresh]
  by_cases hstatus : r.status = statusNotModified
  · rw [hstatus]
    rfl
  · rw [if_neg hstatus, bne_iff_ne.2 hstatus]
    show (if isBytesBlocked h r.header (viewOfLines timeParse r.header).respCC reqHeader r.status then false
      else if !hasBytesFreshness timeParse h r.header (viewOfLines timeParse r.header).respCC r.status
        then false else !h.declaredTooLarge r) = _
    cases isBytesBlocked h r.header (viewOfLines timeParse r.header).respCC reqHeader r.status <;>
      cases hasBytesFreshness timeParse h r.header (viewOfLines timeParse r.header).respCC r.status <;> rfl

theorem ParsedResponse.isCacheableWithDefault_eq_fresh (p : ParsedResponse) (neg : Option StatusTTL)
    (defaultTTL : Int) : p.isCacheableWithDefault timeParse neg defaultTTL =
      (p.status != statusNotModified && (!p.blocked &&
        (p.fresh timeParse neg || (0 < defaultTTL && isHeuristicStatus p.status)))) := by
  by_cases hstatus : p.status = statusNotModified
  · have hheuristic : isHeuristicStatus statusNotModified = false := by decide
    simp [ParsedResponse.isCacheableWithDefault, ParsedResponse.isCacheable, hstatus, hheuristic]
  · rw [bne_iff_ne.2 hstatus]
    cases hblocked : p.blocked with
    | true =>
      simp [ParsedResponse.isCacheableWithDefault, ParsedResponse.isCacheable, hblocked]
    | false =>
      rw [ParsedResponse.isCacheableWithDefault, isCacheable_eq_fresh hstatus hblocked, hblocked]
      by_cases hpos : defaultTTL ≤ 0
      · simp [hpos]
      · simp [hpos, not_le.1 hpos]

theorem parsed_eq_viewOfMap : parsed reqHeader r = ⟨reqHeader, r.map, (viewOfMap timeParse r.map).respCC,
    r.status, (cdnCacheControl r.map).isSome⟩ := by
  unfold parsed newParsedResponse viewOfMap
  cases cdnCacheControl r.map <;> rfl

theorem parsed_blocked_eq : (parsed reqHeader r).blocked =
    (viewOfMap timeParse r.map).blocked
      ((viewOfMap timeParse r.map).clientState && !(viewOfMap timeParse r.map).explicit) r.status
      (authorized reqHeader) := by
  have hpragma : (viewOfMap timeParse r.map).pragma = (!(cdnCacheControl r.map).isSome &&
      isBlockedByPragma (viewOfMap timeParse r.map).respCC r.map) := by
    rw [Option.not_isSome]
    rfl
  have hstate : isBlockedByClientState (viewOfMap timeParse r.map).respCC r.map =
      ((viewOfMap timeParse r.map).clientState && !(viewOfMap timeParse r.map).explicit) := by
    rw [GateView.explicit, Bool.not_or, ← Bool.and_assoc]
    rfl
  rw [parsed_eq_viewOfMap timeParse, ParsedResponse.blocked]
  unfold isCacheBlocked GateView.blocked
  rw [← hpragma, hstate, GateView.blockedByAuthorization_eq]
  ac_rfl

theorem parsed_isCacheableWithDefault_eq (neg : Option StatusTTL) (defaultTTL : Int) :
    (parsed reqHeader r).isCacheableWithDefault timeParse neg defaultTTL =
      (r.status != statusNotModified && (viewOfMap timeParse r.map).admits
        ((viewOfMap timeParse r.map).clientState && !(viewOfMap timeParse r.map).explicit) r.status
        (authorized reqHeader) neg defaultTTL) := by
  have hfresh : ((parsed reqHeader r).fresh timeParse neg ||
      (0 < defaultTTL && isHeuristicStatus (parsed reqHeader r).status)) =
      ((viewOfMap timeParse r.map).reusable (isHeuristicStatus r.status) ||
        StatusTTL.cacheable neg r.status || (0 < defaultTTL && isHeuristicStatus r.status)) := by
    rw [parsed_eq_viewOfMap timeParse]
    rfl
  have hstatus : (parsed reqHeader r).status = r.status := newParsedResponse_status _ _ _
  rw [ParsedResponse.isCacheableWithDefault_eq_fresh, hfresh, hstatus, parsed_blocked_eq timeParse]
  rfl

theorem isResponseCacheable_eq :
    isResponseCacheable timeParse h reqHeader r true =
      some (r.status != statusNotModified &&
        (viewOfMap timeParse r.map).admits
          ((viewOfMap timeParse r.map).clientState &&
            (!h.allowSetCookie || !(viewOfMap timeParse r.map).explicit)) r.status
          (authorized reqHeader) h.neg h.defaultTTL && !h.declaredTooLarge r) := by
  have hsize : (if h.maxObjectSize ≤ 0 then some true
      else if true then some (!h.declaredTooLarge r) else none) = some (!h.declaredTooLarge r) := by
    by_cases hle : h.maxObjectSize ≤ 0
    · simp [Route.declaredTooLarge, hle]
    · rw [if_neg hle]
      rfl
  have hstate : ((viewOfMap timeParse r.map).clientState &&
      (!h.allowSetCookie || !(viewOfMap timeParse r.map).explicit)) =
      ((viewOfMap timeParse r.map).clientState && !(viewOfMap timeParse r.map).explicit ||
        !h.allowSetCookie && (viewOfMap timeParse r.map).clientState) := by
    rw [Bool.and_or_distrib_left, Bool.or_comm, Bool.and_comm _ (!h.allowSetCookie)]
  rw [hstate, GateView.admits_or, ← Bool.and_assoc, ← parsed_isCacheableWithDefault_eq]
  unfold isResponseCacheable
  rw [hsize]
  show (if _ then some false
    else if !h.allowSetCookie && (viewOfMap timeParse r.map).clientState then some false else _) = _
  cases (parsed reqHeader r).isCacheableWithDefault timeParse h.neg h.defaultTTL <;>
    cases (!h.allowSetCookie && (viewOfMap timeParse r.map).clientState) <;> rfl

end

/-! ## Parity -/

/-- The views give one verdict under every setting: client state and the other reasons block both or
neither, with cookies allowed and without; and past them, what depends on the status, the request
and the settings is the same. -/
@[mk_iff] structure Parity (b m : GateView) : Prop where
  closed : b.closed = (m.closed || (m.clientState && !m.explicit))
  state : (b.closed || b.clientState) = (m.closed || m.clientState)
  rest : b.closed = false → b.respCC.noStore = m.respCC.noStore ∧ b.opened = m.opened ∧
    ∀ heuristic, b.reusable heuristic = m.reusable heuristic

instance (b m : GateView) : Decidable (Parity b m) := decidable_of_iff _ (parity_iff b m).symm

theorem GateView.blocked_of_closed {v : GateView} (hv : v.closed) (state : Bool) (status : Nat)
    (authorized : Bool) : v.blocked state status authorized = true := by
  unfold GateView.closed at hv
  unfold GateView.blocked blockedByNoStore
  grind

/-- What is not closed is blocked by client state, a status the cache does not understand, or
authorization. -/
theorem GateView.blocked_of_not_closed {v : GateView} (hv : v.closed = false) (state : Bool)
    (status : Nat) (authorized : Bool) : v.blocked state status authorized =
      ((v.respCC.noStore && !isUnderstoodStatus status) || state || (authorized && !v.opened)) := by
  unfold GateView.closed at hv
  unfold GateView.blocked blockedByNoStore
  grind

theorem Parity.admits_eq {b m : GateView} (h : Parity b m) (allow : Bool) (status : Nat)
    (authorized : Bool) (neg : Option StatusTTL) (defaultTTL : Int) :
    b.admits (!allow && b.clientState) status authorized neg defaultTTL =
      m.admits (m.clientState && (!allow || !m.explicit)) status authorized neg defaultTTL := by
  unfold GateView.admits
  cases hb : b.closed with
  | true =>
    have hm : m.closed ∨ (m.clientState && !m.explicit) = true := by
      rw [← Bool.or_eq_true, ← h.closed, hb]
    have hblocked : m.blocked (m.clientState && (!allow || !m.explicit)) status authorized = true := by
      rcases hm with hm | hm
      · exact GateView.blocked_of_closed hm _ _ _
      · rw [Bool.and_eq_true] at hm
        simp [GateView.blocked, hm.1, hm.2]
    rw [GateView.blocked_of_closed hb, hblocked]
    rfl
  | false =>
    obtain ⟨hstore, hopened, hreusable⟩ := h.rest hb
    have hclosed := h.closed
    have hstate := h.state
    rw [hb, eq_comm, Bool.or_eq_false_iff] at hclosed
    rw [hb, hclosed.1, Bool.false_or, Bool.false_or] at hstate
    have hblocks : (m.clientState && (!allow || !m.explicit)) = (!allow && b.clientState) := by
      rw [hstate, Bool.and_or_distrib_left, hclosed.2, Bool.or_false, Bool.and_comm]
    rw [GateView.blocked_of_not_closed hb, GateView.blocked_of_not_closed hclosed.1, hblocks, hstore,
      hopened, hreusable]

/-! ## Settings that tell the views apart -/

def everyStatus : StatusTTL := ⟨fun _ => some 1, fun _ => none⟩

theorem GateView.admits_default (v : GateView) (state authorized : Bool) :
    v.admits state 200 authorized none 1 = !v.blocked state 200 authorized := by
  have hheuristic : isHeuristicStatus 200 = true := by decide
  simp [GateView.admits, hheuristic]

theorem GateView.blocked_200 (v : GateView) (state : Bool) :
    v.blocked state 200 false = (v.closed || state) := by
  have hunderstood : isUnderstoodStatus 200 = true := by decide
  simp [GateView.blocked, GateView.closed, blockedByNoStore, hunderstood]

theorem parity_of_admits_eq {b m : GateView}
    (h : ∀ (allow : Bool) (status : Nat) (authorized : Bool) (neg : Option StatusTTL) (defaultTTL : Int),
      status ≠ statusNotModified →
      b.admits (!allow && b.clientState) status authorized neg defaultTTL =
        m.admits (m.clientState && (!allow || !m.explicit)) status authorized neg defaultTTL) :
    Parity b m := by
  have hallowed := h true 200 false none 1 (by decide)
  have hforbidden := h false 200 false none 1 (by decide)
  simp only [GateView.admits_default, GateView.blocked_200, Bool.not_true, Bool.not_false,
    Bool.false_and, Bool.false_or, Bool.true_or, Bool.or_false, Bool.and_true,
    Bool.not_inj_iff] at hallowed hforbidden
  refine ⟨hallowed, hforbidden, fun hb => ?_⟩
  -- with cookies allowed neither view is blocked, so the rest of the rule shows
  rw [hb, eq_comm, Bool.or_eq_false_iff] at hallowed
  obtain ⟨hm, hstate⟩ := hallowed
  have hrest (status : Nat) (authorized : Bool) (neg : Option StatusTTL) (defaultTTL : Int)
      (hstatus : status ≠ statusNotModified) :
      b.admits false status authorized neg defaultTTL =
        m.admits false status authorized neg defaultTTL := by
    have := h true status authorized neg defaultTTL hstatus
    rwa [Bool.not_true, Bool.false_or, hstate] at this
  have hblocked (v : GateView) (hv : v.closed = false) := GateView.blocked_of_not_closed hv false
  refine ⟨?_, ?_, fun heuristic => ?_⟩
  · have hstore := hrest 599 false (some everyStatus) 0 (by decide)
    have hneg : StatusTTL.cacheable (some everyStatus) 599 = true := by decide
    have hunknown : isUnderstoodStatus 599 = false := by decide
    simpa [GateView.admits, hblocked, hb, hm, hneg, hunknown] using hstore
  · have hopened := hrest 200 true none 1 (by decide)
    have hunderstood : isUnderstoodStatus 200 = true := by decide
    simpa [GateView.admits_default, hblocked, hb, hm, hunderstood] using hopened
  · have hneg (status : Nat) : StatusTTL.cacheable none status = false := rfl
    have hguess (status : Nat) (hstatus : status ≠ statusNotModified)
        (hunderstood : isUnderstoodStatus status) :
        b.reusable (isHeuristicStatus status) = m.reusable (isHeuristicStatus status) := by
      have hfresh := hrest status false none 0 hstatus
      simpa [GateView.admits, hblocked, hb, hm, hunderstood, hneg] using hfresh
    cases heuristic
    · exact hguess 302 (by decide) (by decide)
    · exact hguess 200 (by decide) (by decide)

def routeWith (allowSetCookie : Bool) (neg : Option StatusTTL) (defaultTTL : Int) : Route where
  disabled := false
  allowSetCookie := allowSetCookie
  neg := neg
  defaultTTL := defaultTTL
  maxObjectSize := 0
  maxResponseBytes := 0
  maxStreamingBufferBytes := 0

def requestWith (authorized : Bool) : Map :=
  if authorized then ⟨[⟨Field.authorization, ascii "Basic YQ=="⟩]⟩ else Map.empty

theorem authorized_requestWith : ∀ a, authorized (requestWith a) = a := by decide

variable {timeParse : TimeParse}

theorem gates_agree_of_peek {r : Response}
    (hpeek : r.header.peek Field.cdnCacheControl ≠ []) (h : Route) (reqHeader : Map) :
    isResponseCacheable timeParse h reqHeader r true =
      some (isResponseCacheableBytes timeParse h reqHeader r) := by
  unfold isResponseCacheableBytes
  rw [isResponseCacheable_eq]
  split_ifs with hstatus
  · rw [hstatus]
    rfl
  · rfl

theorem gates_agree_of_parity {r : Response}
    (hparity : Parity (viewOfLines timeParse r.header) (viewOfMap timeParse r.map)) (h : Route)
    (reqHeader : Map) :
    isResponseCacheable timeParse h reqHeader r true =
      some (isResponseCacheableBytes timeParse h reqHeader r) := by
  by_cases hpeek : r.header.peek Field.cdnCacheControl = []
  · rw [isResponseCacheable_eq, isResponseCacheableBytes_eq timeParse h reqHeader r hpeek,
      hparity.admits_eq]
  · exact gates_agree_of_peek hpeek h reqHeader

theorem parity_of_gates_agree {hdr : Raw}
    (hpeek : hdr.peek Field.cdnCacheControl = [])
    (hagree : ∀ (allow : Bool) (neg : Option StatusTTL) (defaultTTL : Int) (auth : Bool) (status : Nat),
      isResponseCacheable timeParse (routeWith allow neg defaultTTL) (requestWith auth)
          ⟨status, hdr, 0, []⟩ true =
        some (isResponseCacheableBytes timeParse (routeWith allow neg defaultTTL) (requestWith auth)
          ⟨status, hdr, 0, []⟩)) :
    Parity (viewOfLines timeParse hdr) (viewOfMap timeParse (fromFastHTTP hdr)) := by
  refine parity_of_admits_eq fun allow status auth neg defaultTTL hstatus => ?_
  have hsame := hagree allow neg defaultTTL auth status
  have hlength : (routeWith allow neg defaultTTL).declaredTooLarge ⟨status, hdr, 0, []⟩ = false := rfl
  rw [isResponseCacheable_eq, isResponseCacheableBytes_eq _ _ _ _ hpeek, authorized_requestWith,
    Option.some_inj, bne_iff_ne.2 hstatus, hlength, Bool.not_false,
    Bool.and_true, Bool.and_true] at hsame
  exact hsame.symm

/-- For lines whose first targeted one is not empty the gates are one. Others get the same verdict
under every status, request, length and setting exactly if the views are on a par. And the gate that
parses for itself is the one over what is parsed. -/
theorem gates_agree_iff (timeParse : TimeParse) (hdr : Raw) :
    ((∀ (h : Route) (reqHeader : Map) (status : Nat) (contentLength : Int) (body : Bytes),
        isResponseCacheable timeParse h reqHeader ⟨status, hdr, contentLength, body⟩ true =
          some (isResponseCacheableBytes timeParse h reqHeader ⟨status, hdr, contentLength, body⟩)) ↔
      hdr.peek Field.cdnCacheControl ≠ [] ∨
        Parity (viewOfLines timeParse hdr) (viewOfMap timeParse (fromFastHTTP hdr))) ∧
    ∀ (status : Nat) (reqHeader respHeader : Map) (neg : Option StatusTTL),
      isCacheable timeParse status reqHeader respHeader neg =
        (newParsedResponse status reqHeader respHeader).isCacheable timeParse neg := by
  refine ⟨⟨fun hagree => ?_, fun hcond h reqHeader status contentLength body => ?_⟩,
    isCacheable_eq timeParse⟩
  · by_cases hpeek : hdr.peek Field.cdnCacheControl = []
    · exact .inr (parity_of_gates_agree hpeek fun allow neg defaultTTL auth status =>
        hagree (routeWith allow neg defaultTTL) (requestWith auth) status 0 [])
    · exact .inl hpeek
  · rcases hcond with hpeek | hparity
    · exact gates_agree_of_peek hpeek h reqHeader
    · exact gates_agree_of_parity hparity h reqHeader

/-! ## Lines that are read alike -/

section

variable {hdr : Raw} {key : Bytes}

/-- Of the white space around a star, the gate over the lines trims spaces and tabs only. -/
theorem varyContainsStarBytes_eq_iff (v : Bytes) : varyContainsStarBytes v = varyContainsStar v ↔
    (varyContainsStar v → ∃ f ∈ splitOn (byte ',') v, trimOWS f = ascii "*") := by
  have hbytes : varyContainsStarBytes v = (splitOn (byte ',') v).any (trimOWS · == ascii "*") := by
    obtain ⟨n, hn⟩ := splitOn_eq_pieces (byte ',') v
    have hempty : (List.replicate n []).any (trimOWS · == ascii "*") = false := by
      simp [trimOWS, ascii]
    rw [hn, List.any_append, hempty, Bool.or_false]
    rfl
  have hstar : trimSpace (ascii "*") = ascii "*" := by decide
  rw [Bool.eq_iff_iff, hbytes, List.any_eq_true]
  refine ⟨fun h hv => by simpa using h.2 hv, fun h => ⟨?_, by simpa using h⟩⟩
  rintro ⟨f, hf, htrim⟩
  refine List.any_eq_true.2 ⟨f, hf, ?_⟩
  rw [← trimSpace_trimOWS, beq_iff_eq.1 htrim, hstar, beq_self_eq_true]

/-- If no line is empty, none is targeted and a star has only spaces and tabs around it, the gates
read the same. -/
theorem viewOfLines_eq (hlines : ∀ l ∈ hdr.lines, l.value ≠ [])
    (htarget : hdr.peekAll Field.cdnCacheControl = [])
    (hstar : varyContainsStar (joinedVaryBytes hdr) →
      ∃ f ∈ splitOn (byte ',') (joinedVaryBytes hdr), trimOWS f = ascii "*") :
    viewOfLines timeParse hdr = viewOfMap timeParse (fromFastHTTP hdr) := by
  have hvalue : ∀ key, ∀ v ∈ hdr.peekAll key, v ≠ [] := by
    intro key v hv
    obtain ⟨l, hl, rfl⟩ := List.mem_map.1 hv
    exact hlines l (List.mem_filter.1 hl).1
  have hfull : ∀ key, (hdr.peekAll key).filter (· ≠ []) = hdr.peekAll key := fun key =>
    List.filter_eq_self.2 fun v hv => decide_eq_true (hvalue key v hv)
  have hall : ∀ {key}, isCanonical key → key ≠ [] →
      (fromFastHTTP hdr).getAll key = joinedLines hdr key := by
    intro key hk hne
    rw [Map.getAll_of_isCanonical hk, valuesOf_fromFastHTTP hne, hfull]
    rfl
  have hget : ∀ {key}, isCanonical key → key ≠ [] → key ≠ setCookie →
      (fromFastHTTP hdr).get key = hdr.peek key := by
    intro key hk hne hcookie
    rw [Map.get_of_isCanonical hk, Map.first?, valuesOf_fromFastHTTP hne, hfull, Raw.peek,
      if_neg hcookie]
  have hcookie : ((fromFastHTTP hdr).get setCookie != []) = (hdr.peek setCookie != []) := by
    rw [Map.get_of_isCanonical (by decide), Map.first?, valuesOf_fromFastHTTP (by decide), hfull,
      Raw.peek, if_pos rfl]
    cases hcookies : hdr.peekAll setCookie with
    | nil => rfl
    | cons v vs =>
      obtain ⟨c, v, rfl⟩ := List.exists_cons_of_ne_nil (hvalue setCookie v (hcookies ▸ .head _))
      cases vs <;> rfl
  have hcdn : cdnCacheControl (fromFastHTTP hdr) = none := by
    rw [cdnCacheControl, hall (by decide) (by decide), joinedLines, htarget]
    rfl
  unfold viewOfLines viewOfMap hasVaryStar isBlockedByPragma isBlockedByPragmaBytes clientStateInMap
    clientStateInFastHTTP
  rw [hcdn, hcookie, (varyContainsStarBytes_eq_iff _).2 hstar, hall, hall, hget, hget, hget, hget, hget]
  · rfl
  all_goals decide

theorem parity_self_iff (v : GateView) : Parity v v ↔ v.closed ∨ (v.clientState → v.explicit) := by
  rw [parity_iff]
  cases v.closed <;> cases v.clientState <;> cases v.explicit <;> simp

end

/-- A cookie with a lifetime is read alike. -/
example : Parity
    (viewOfLines (fun _ _ => none)
      ⟨[⟨Field.cacheControl, ascii "max-age=60"⟩, ⟨setCookie, ascii "id=1"⟩, ⟨Field.vary, ascii "Accept"⟩]⟩)
    (viewOfMap (fun _ _ => none) (fromFastHTTP
      ⟨[⟨Field.cacheControl, ascii "max-age=60"⟩, ⟨setCookie, ascii "id=1"⟩,
        ⟨Field.vary, ascii "Accept"⟩]⟩)) := by
  decide

/-- Where the gates differ: client state without a lifetime where cookies are allowed, a targeted
field, a date and a pragma behind an empty line, and a star before a form feed. -/
def unlikeLines : List Raw :=
  [⟨[⟨setCookie, ascii "id=1"⟩]⟩,
    ⟨[⟨Field.cdnCacheControl, []⟩, ⟨Field.cdnCacheControl, ascii "no-store"⟩]⟩,
    ⟨[⟨Field.lastModified, []⟩, ⟨Field.lastModified, ascii "Mon, 02 Jan 2006 15:04:05 GMT"⟩]⟩,
    ⟨[⟨Field.pragma, []⟩, ⟨Field.pragma, ascii "no-cache"⟩]⟩,
    ⟨[⟨Field.vary, byte '*' :: [0x0c]⟩]⟩]

theorem gates_differ :
    (unlikeLines.all fun hdr => [(0 : Int), 1].any fun defaultTTL =>
      isResponseCacheable (fun _ _ => none) (routeWith true none defaultTTL) Map.empty
          ⟨200, hdr, 0, []⟩ true !=
        some (isResponseCacheableBytes (fun _ _ => none) (routeWith true none defaultTTL) Map.empty
          ⟨200, hdr, 0, []⟩)) = true := by
  decide

end Bouine.Cache
