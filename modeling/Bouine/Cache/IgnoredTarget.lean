import Bouine.Cache.DownstreamCap
import Bouine.Cache.Engine
import Bouine.Cache.GateParity
import Bouine.Cache.Lifetime

/-! # A targeted field that is ignored

`cdnCacheControl` ignores a `CDN-Cache-Control` that is empty, malformed or says nothing (RFC 9213
§2.1), but the lifetime is read from any, and the gate over the lines turns to the map when it sees
one. The file says for which lines an ignored field is as good as none.
-/

namespace Bouine.Cache

open Lib Header List

def respGateFromDirectives (respCC : Directives) : RespGate :=
  ⟨respCC.noCache, respCC.mustRevalidate || respCC.proxyRevalidate⟩

theorem newParsedResponse_respCC (status : Nat) (reqHeader respHeader : Map) :
    (newParsedResponse status reqHeader respHeader).respCC = responseDirectives respHeader := by
  unfold newParsedResponse responseDirectives
  cases cdnCacheControl respHeader <;> rfl

/-- The route, the request, the clock and what is not a header of the response. -/
structure FillSetting where
  fp : FillPolicy
  scale : Int → Int → Int
  allowSetCookie : Bool
  maxObjectSize : Int
  syncCDC : Bool
  reqHeader : Map
  status : Nat
  contentLength : Int
  body : Bytes
  delay : Int
  originAge : Int
  clock : Int
  now : Int

def FillSetting.route (s : FillSetting) : Route :=
  { routeWith s.allowSetCookie s.fp.neg s.fp.defaultTTL with maxObjectSize := s.maxObjectSize }

structure Treatment where
  storable : Bool
  cacheable : Bool
  ttl : Int
  gate : RespGate
  cap : Option Bytes
deriving DecidableEq

section

variable (timeParse : TimeParse)

def treatment (s : FillSetting) (hdr : Raw) : Treatment :=
  let resMap := fromFastHTTP hdr
  let parsed := newParsedResponse s.status s.reqHeader resMap
  { storable := isResponseCacheableBytes timeParse s.route s.reqHeader
      ⟨s.status, hdr, s.contentLength, s.body⟩
    cacheable := parsed.isCacheableWithDefault timeParse s.fp.neg s.fp.defaultTTL
    ttl := s.fp.computeTTL timeParse s.scale resMap s.status parsed.respCC s.originAge s.clock s.now
    gate := respGateFromDirectives parsed.respCC
    cap := fillCap timeParse s.scale s.fp s.syncCDC parsed resMap s.delay s.clock s.now }

def untargeted (hdr : Raw) : Raw := hdr.del Field.cdnCacheControl

/-- The explicit lifetime of the rest is the one that the field is read to grant. -/
def SameLifetime (hdr : Raw) : Prop :=
  ∀ clock, freshnessLifetimeH timeParse clock (responseDirectives (fromFastHTTP (untargeted hdr)))
    (fromFastHTTP (untargeted hdr)) = some (cdnLifetime ((fromFastHTTP hdr).getAll Field.cdnCacheControl))

def GoodAsNone (hdr : Raw) : Prop :=
  (fromFastHTTP hdr).getAll Field.cdnCacheControl = [] ∨
    (SameLifetime timeParse hdr ∧ (hdr.peek Field.cdnCacheControl = [] ∨
      Parity (viewOfLines timeParse (untargeted hdr))
        (viewOfMap timeParse (fromFastHTTP (untargeted hdr)))))

end

/-! ## What the targeted field leaves alone -/

def otherFields : List Bytes :=
  [Field.cacheControl, Field.expires, Field.date, Field.age, Field.lastModified, Field.etag,
    Field.pragma, Field.vary, setCookie, Field.setLogin]

theorem otherFields_plain : ∀ f ∈ otherFields,
    isCanonical f ∧ f ≠ [] ∧ f ≠ Field.cdnCacheControl := by
  decide

section

variable (hdr : Raw) {f : Bytes}

section

variable (hf : f ∈ otherFields)
include hf

theorem peekAll_untargeted : (untargeted hdr).peekAll f = hdr.peekAll f :=
  Raw.peekAll_del_of_ne hdr (otherFields_plain f hf).2.2

theorem peek_untargeted : (untargeted hdr).peek f = hdr.peek f := by
  unfold Raw.peek
  rw [peekAll_untargeted hdr hf]

theorem valuesOf_untargeted :
    valuesOf f (fromFastHTTP (untargeted hdr)).entries = valuesOf f (fromFastHTTP hdr).entries := by
  have hne := (otherFields_plain f hf).2.1
  rw [valuesOf_fromFastHTTP hne, valuesOf_fromFastHTTP hne, peekAll_untargeted hdr hf]

theorem getAll_untargeted :
    (fromFastHTTP (untargeted hdr)).getAll f = (fromFastHTTP hdr).getAll f :=
  Map.getAll_congr (otherFields_plain f hf).1 (valuesOf_untargeted hdr hf)

theorem get_untargeted :
    (fromFastHTTP (untargeted hdr)).get f = (fromFastHTTP hdr).get f :=
  Map.get_congr (otherFields_plain f hf).1 (valuesOf_untargeted hdr hf)

end

theorem peek_cdnCacheControl :
    hdr.peek Field.cdnCacheControl = (hdr.peekAll Field.cdnCacheControl).head?.getD [] := by
  rw [Raw.peek, if_neg (by decide)]

theorem getAll_cdnCacheControl :
    (fromFastHTTP hdr).getAll Field.cdnCacheControl =
      List.intercalate (ascii ", ") ((hdr.peekAll Field.cdnCacheControl).filter (· ≠ [])) := by
  rw [Map.getAll_of_isCanonical (by decide), valuesOf_fromFastHTTP (by decide)]

theorem peek_untargeted_self : (untargeted hdr).peek Field.cdnCacheControl = [] := by
  rw [peek_cdnCacheControl, untargeted, Raw.peekAll_del_self]
  rfl

theorem getAll_untargeted_self : (fromFastHTTP (untargeted hdr)).getAll Field.cdnCacheControl = [] := by
  rw [getAll_cdnCacheControl, untargeted, Raw.peekAll_del_self]
  rfl

theorem cdnCacheControl_untargeted : cdnCacheControl (fromFastHTTP (untargeted hdr)) = none :=
  if_pos (getAll_untargeted_self hdr)

theorem peek_eq_nil_of_getAll (h : (fromFastHTTP hdr).getAll Field.cdnCacheControl = []) :
    hdr.peek Field.cdnCacheControl = [] := by
  rw [getAll_cdnCacheControl] at h
  rw [peek_cdnCacheControl]
  cases hall : hdr.peekAll Field.cdnCacheControl with
  | nil => rfl
  | cons v vs =>
    by_contra hv
    rw [hall, filter_cons_of_pos (by simpa using hv)] at h
    cases hvs : vs.filter (· ≠ []) with
    | nil =>
      rw [hvs, intercalate_singleton] at h
      exact hv h
    | cons w ws =>
      rw [hvs, intercalate_cons_cons] at h
      exact hv (append_eq_nil_iff.1 (append_eq_nil_iff.1 h).1).1

variable (timeParse : TimeParse)

theorem viewOfLines_untargeted : viewOfLines timeParse (untargeted hdr) = viewOfLines timeParse hdr := by
  have hpeek (f) (hf : f ∈ otherFields) := peek_untargeted hdr hf
  have hall (f) (hf : f ∈ otherFields) := peekAll_untargeted hdr hf
  simp only [otherFields] at hpeek hall
  unfold viewOfLines joinedCacheControlBytes joinedVaryBytes joinedLines isBlockedByPragmaBytes
    clientStateInFastHTTP
  simp [hpeek, hall]

variable {hdr} (hignored : cdnCacheControl (fromFastHTTP hdr) = none)
include hignored

theorem responseDirectives_untargeted :
    responseDirectives (fromFastHTTP (untargeted hdr)) = responseDirectives (fromFastHTTP hdr) := by
  unfold responseDirectives
  rw [cdnCacheControl_untargeted, hignored, getAll_untargeted hdr (by simp [otherFields])]

theorem viewOfMap_untargeted (status : Nat) (contentLength : Int) (body : Bytes) :
    viewOfMap timeParse (Response.mk status (untargeted hdr) contentLength body).map =
      viewOfMap timeParse (Response.mk status hdr contentLength body).map := by
  have hget (f) (hf : f ∈ otherFields) := get_untargeted hdr hf
  have hall (f) (hf : f ∈ otherFields) := getAll_untargeted hdr hf
  simp only [otherFields] at hget hall
  unfold viewOfMap hasVaryStar isBlockedByPragma clientStateInMap
  simp [Response.map, cdnCacheControl_untargeted, hignored, hget, hall]

end

/-! ## Lifetimes -/

section

variable (timeParse : TimeParse) {hdr : Raw} (fp : FillPolicy) (status : Nat) (respCC : Directives)
  (clock now : Int)

theorem lifetime_targeted (hv : (fromFastHTTP hdr).getAll Field.cdnCacheControl ≠ []) :
    fp.lifetime timeParse (fromFastHTTP hdr) status respCC clock now =
      cdnLifetime ((fromFastHTTP hdr).getAll Field.cdnCacheControl) := by
  unfold FillPolicy.lifetime freshnessLifetimeH
  rw [if_pos hv]

theorem lifetime_untargeted (hv : (fromFastHTTP hdr).getAll Field.cdnCacheControl = []) :
    fp.lifetime timeParse (fromFastHTTP (untargeted hdr)) status respCC clock now =
      fp.lifetime timeParse (fromFastHTTP hdr) status respCC clock now := by
  have hget (f) (hf : f ∈ otherFields) := get_untargeted hdr hf
  simp only [otherFields] at hget
  unfold FillPolicy.lifetime freshnessLifetimeH heuristicTTL
  simp [getAll_untargeted_self, hv, hget]

def statusPolicy (ttl : Int) : FillPolicy :=
  ⟨some ⟨fun _ => some ttl, fun _ => none⟩, 0, 0, 0, 0, 0, 0⟩

theorem computeTTL_statusPolicy (ttl : Int) (scale : Int → Int → Int) (m : Map) (originAge : Int) :
    (statusPolicy ttl).computeTTL timeParse scale m status respCC originAge clock now =
      max 0 (wrap64 ((statusPolicy ttl).lifetime timeParse m status respCC clock now - originAge)) := by
  unfold FillPolicy.computeTTL FillPolicy.jitterTTL
  rw [if_pos (.inl (le_rfl))]

theorem eq_of_forall_age {x c : Int} (hx : minDuration ≤ x ∧ x ≤ maxDuration)
    (hc : minDuration ≤ c ∧ c ≤ maxDuration)
    (h : ∀ originAge, max 0 (wrap64 (c - originAge)) = max 0 (wrap64 (x - originAge))) : x = c := by
  have hage := h (c - 1)
  unfold minDuration maxDuration at *
  have hone : wrap64 (c - (c - 1)) = 1 := by
    rw [wrap64, Int.bmod_def]
    split_ifs <;> omega
  rw [hone, wrap64, Int.bmod_def] at hage
  split_ifs at hage <;> omega

theorem sameLifetime_of_computeTTL (hignored : cdnCacheControl (fromFastHTTP hdr) = none)
    (hv : (fromFastHTTP hdr).getAll Field.cdnCacheControl ≠ [])
    (h : ∀ (ttl originAge clock : Int),
      (statusPolicy ttl).computeTTL timeParse (fun _ d => d) (fromFastHTTP hdr) 200
          (responseDirectives (fromFastHTTP hdr)) originAge clock 0 =
        (statusPolicy ttl).computeTTL timeParse (fun _ d => d) (fromFastHTTP (untargeted hdr)) 200
          (responseDirectives (fromFastHTTP hdr)) originAge clock 0) :
    SameLifetime timeParse hdr := by
  intro clock
  have hc := cdnLifetime_range ((fromFastHTTP hdr).getAll Field.cdnCacheControl)
  simp only [computeTTL_statusPolicy, lifetime_targeted _ _ _ _ _ _ hv] at h
  rw [responseDirectives_untargeted hignored]
  cases hfresh : freshnessLifetimeH timeParse clock (responseDirectives (fromFastHTTP hdr))
      (fromFastHTTP (untargeted hdr)) with
  | some x =>
    have hx := freshnessLifetimeH_range (ranged_responseDirectives _) hfresh
    refine congrArg some (eq_of_forall_age hx hc fun originAge => ?_)
    have hage := h 1 originAge clock
    unfold FillPolicy.lifetime at hage
    rwa [hfresh] at hage
  | none =>
    -- the policy's lifetime for the status counts then, which may be one or two
    have hpolicy (ttl : Int) (hpos : 0 < ttl) : (statusPolicy ttl).lifetime timeParse
        (fromFastHTTP (untargeted hdr)) 200 (responseDirectives (fromFastHTTP hdr)) clock 0 = ttl := by
      unfold FillPolicy.lifetime
      rw [hfresh]
      exact if_pos hpos
    have hone := h 1 0 clock
    have htwo := h 2 0 clock
    rw [hpolicy 1 (by decide), Int.sub_zero, wrap64_of_range hc] at hone
    rw [hpolicy 2 (by decide), Int.sub_zero, wrap64_of_range hc, hone] at htwo
    exact absurd htwo (by decide)

end

/-! ## The gate over the lines -/

section

variable {timeParse : TimeParse} {hdr : Raw} (h : Route) (reqHeader : Map) (status : Nat)
  (contentLength : Int) (body : Bytes)

theorem storable_untargeted (hpeek : hdr.peek Field.cdnCacheControl = []) :
    isResponseCacheableBytes timeParse h reqHeader ⟨status, untargeted hdr, contentLength, body⟩ =
      isResponseCacheableBytes timeParse h reqHeader ⟨status, hdr, contentLength, body⟩ := by
  rw [isResponseCacheableBytes_eq _ _ _ _ (peek_untargeted_self hdr),
    isResponseCacheableBytes_eq _ _ _ _ hpeek, viewOfLines_untargeted]
  rfl

theorem isResponseCacheable_untargeted (hignored : cdnCacheControl (fromFastHTTP hdr) = none) :
    isResponseCacheable timeParse h reqHeader ⟨status, untargeted hdr, contentLength, body⟩ true =
      isResponseCacheable timeParse h reqHeader ⟨status, hdr, contentLength, body⟩ true := by
  rw [isResponseCacheable_eq, isResponseCacheable_eq, viewOfMap_untargeted timeParse hignored]
  rfl

end

/-! ## The theorem -/

section

variable (timeParse : TimeParse) {hdr : Raw} (hignored : cdnCacheControl (fromFastHTTP hdr) = none)
include hignored

theorem cacheable_untargeted (reqHeader : Map) (status : Nat) (neg : Option StatusTTL)
    (defaultTTL : Int) :
    (newParsedResponse status reqHeader (fromFastHTTP (untargeted hdr))).isCacheableWithDefault timeParse
        neg defaultTTL =
      (newParsedResponse status reqHeader (fromFastHTTP hdr)).isCacheableWithDefault timeParse neg
        defaultTTL := by
  have hgate := parsed_isCacheableWithDefault_eq timeParse reqHeader
    ⟨status, untargeted hdr, 0, []⟩ neg defaultTTL
  rw [viewOfMap_untargeted timeParse hignored] at hgate
  exact hgate.trans (parsed_isCacheableWithDefault_eq timeParse reqHeader ⟨status, hdr, 0, []⟩ neg
    defaultTTL).symm

theorem fillCap_untargeted (s : FillSetting)
    (hlifetime : ∀ clock now, s.fp.lifetime timeParse (fromFastHTTP (untargeted hdr)) s.status
        (responseDirectives (fromFastHTTP hdr)) clock now =
      s.fp.lifetime timeParse (fromFastHTTP hdr) s.status (responseDirectives (fromFastHTTP hdr))
        clock now) :
    (treatment timeParse s (untargeted hdr)).cap = (treatment timeParse s hdr).cap := by
  have hget (f) (hf : f ∈ otherFields) := get_untargeted hdr hf
  simp only [otherFields] at hget
  unfold treatment fillCap fillFinalTTLFor originEffectiveMaxAge FillPolicy.fillFinalTTL
    FillPolicy.computeTTL parseOriginAge
  simp [cacheable_untargeted timeParse hignored, newParsedResponse_respCC,
    responseDirectives_untargeted hignored, hget, hlifetime]

theorem goodAsNone_of_treatments
    (h : ∀ s, treatment timeParse s hdr = treatment timeParse s (untargeted hdr)) :
    GoodAsNone timeParse hdr := by
  by_cases hv : (fromFastHTTP hdr).getAll Field.cdnCacheControl = []
  · exact .inl hv
  refine .inr ⟨sameLifetime_of_computeTTL timeParse hignored hv fun ttl originAge clock => ?_, ?_⟩
  · have httl := congrArg Treatment.ttl (h ⟨statusPolicy ttl, fun _ d => d, true, 0, false, Map.empty,
      200, 0, [], 0, originAge, clock, 0⟩)
    simpa [treatment, newParsedResponse_respCC, responseDirectives_untargeted hignored] using httl
  · by_cases hpeek : hdr.peek Field.cdnCacheControl = []
    · exact .inl hpeek
    refine .inr (parity_of_gates_agree (peek_untargeted_self hdr)
      fun allow neg defaultTTL auth status => ?_)
    have hstorable : isResponseCacheableBytes timeParse (routeWith allow neg defaultTTL)
        (requestWith auth) ⟨status, hdr, 0, []⟩ =
        isResponseCacheableBytes timeParse (routeWith allow neg defaultTTL) (requestWith auth)
          ⟨status, untargeted hdr, 0, []⟩ :=
      congrArg Treatment.storable (h ⟨⟨neg, defaultTTL, 0, 0, 0, 0, 0⟩, fun _ d => d, allow, 0, false,
        requestWith auth, status, 0, [], 0, 0, 0, 0⟩)
    rw [isResponseCacheable_untargeted _ _ _ _ _ hignored, gates_agree_of_peek hpeek, hstorable]

theorem GoodAsNone.lifetime_eq (h : GoodAsNone timeParse hdr) (fp : FillPolicy) (status : Nat)
    (clock now : Int) :
    fp.lifetime timeParse (fromFastHTTP (untargeted hdr)) status
        (responseDirectives (fromFastHTTP hdr)) clock now =
      fp.lifetime timeParse (fromFastHTTP hdr) status (responseDirectives (fromFastHTTP hdr))
        clock now := by
  by_cases hv : (fromFastHTTP hdr).getAll Field.cdnCacheControl = []
  · exact lifetime_untargeted timeParse fp status _ clock now hv
  · obtain ⟨hsame, -⟩ := h.resolve_left hv
    have hclock := hsame clock
    rw [responseDirectives_untargeted hignored] at hclock
    rw [lifetime_targeted _ _ _ _ _ _ hv, FillPolicy.lifetime, hclock]

theorem GoodAsNone.storable_eq (h : GoodAsNone timeParse hdr) (s : FillSetting) :
    (treatment timeParse s hdr).storable = (treatment timeParse s (untargeted hdr)).storable := by
  by_cases hpeek : hdr.peek Field.cdnCacheControl = []
  · exact (storable_untargeted s.route s.reqHeader s.status s.contentLength s.body hpeek).symm
  · rcases h with hv | ⟨-, hempty | hparity⟩
    · exact absurd (peek_eq_nil_of_getAll hdr hv) hpeek
    · exact absurd hempty hpeek
    · have hseen : isResponseCacheable timeParse s.route s.reqHeader
          ⟨s.status, hdr, s.contentLength, s.body⟩ true = _ := gates_agree_of_peek hpeek _ _
      have hunseen : isResponseCacheable timeParse s.route s.reqHeader
          ⟨s.status, untargeted hdr, s.contentLength, s.body⟩ true = _ :=
        gates_agree_of_parity hparity _ _
      rw [isResponseCacheable_untargeted _ _ _ _ _ hignored, hseen] at hunseen
      exact Option.some_inj.1 hunseen

/-- An ignored targeted field is as good as none, under every route, request, status and clock, exactly
for lines that meet the condition. -/
theorem ignored_target_iff :
    (∀ s, treatment timeParse s hdr = treatment timeParse s (untargeted hdr)) ↔ GoodAsNone timeParse hdr := by
  refine ⟨goodAsNone_of_treatments timeParse hignored, fun h s => ?_⟩
  have hlifetime := h.lifetime_eq timeParse hignored s.fp s.status
  have hstorable := h.storable_eq timeParse hignored s
  have hcap := fillCap_untargeted timeParse hignored s hlifetime
  unfold treatment at hstorable hcap ⊢
  dsimp only at hstorable hcap ⊢
  rw [hstorable, hcap, cacheable_untargeted timeParse hignored]
  simp [FillPolicy.computeTTL, newParsedResponse_respCC, responseDirectives_untargeted hignored,
    hlifetime]

end

def targetedLines (cc : String) : Raw :=
  ⟨[⟨Field.cdnCacheControl, ascii "foo"⟩, ⟨Field.cacheControl, ascii cc⟩]⟩

def syncSetting : FillSetting :=
  ⟨⟨none, 0, 0, 0, 0, 0, 0⟩, fun _ d => d, true, 0, true, Map.empty, 200, 0, [], 0, 0, 0, 0⟩

/-- Where the rest has expired anyway the field does no harm. -/
theorem ignored_target_harmless :
    cdnCacheControl (fromFastHTTP (targetedLines "max-age=0")) = none ∧
      treatment (fun _ _ => none) syncSetting (targetedLines "max-age=0") =
        treatment (fun _ _ => none) syncSetting (untargeted (targetedLines "max-age=0")) := by
  have hignored : cdnCacheControl (fromFastHTTP (targetedLines "max-age=0")) = none := by decide
  have hsame : SameLifetime (fun _ _ => none) (targetedLines "max-age=0") := by
    intro clock
    have hset : (responseDirectives (fromFastHTTP (untargeted (targetedLines "max-age=0")))).sMaxAgeSet =
        false ∧ (responseDirectives (fromFastHTTP (untargeted (targetedLines "max-age=0")))).maxAgeSet =
        true := by decide
    unfold freshnessLifetimeH
    rw [hset.2, if_pos rfl]
    decide
  exact ⟨hignored, (ignored_target_iff _ hignored).2 (.inr ⟨hsame, .inr (by decide)⟩) syncSetting⟩

/-- The field is ignored and still costs the response its lifetime, in the store and downstream; and
it keeps a response with a cookie out. -/
theorem ignored_target_counts :
    cdnCacheControl (fromFastHTTP (targetedLines "max-age=60")) = none ∧
      (treatment (fun _ _ => none) syncSetting (targetedLines "max-age=60")).ttl = 0 ∧
      (treatment (fun _ _ => none) syncSetting (targetedLines "max-age=60")).cap =
        some (ascii "public, max-age=0") ∧
      (treatment (fun _ _ => none) syncSetting (untargeted (targetedLines "max-age=60"))).ttl =
        60 * second ∧
      (treatment (fun _ _ => none) syncSetting (untargeted (targetedLines "max-age=60"))).cap =
        some (ascii "public, max-age=60") ∧
      let cookie : Raw := ⟨[⟨Field.cdnCacheControl, ascii "foo"⟩, ⟨setCookie, ascii "id=1"⟩]⟩
      let s := { syncSetting with fp := ⟨none, 1, 0, 0, 0, 0, 0⟩ }
      cdnCacheControl (fromFastHTTP cookie) = none ∧
        (treatment (fun _ _ => none) s cookie).storable = false ∧
        (treatment (fun _ _ => none) s (untargeted cookie)).storable = true := by
  decide

end Bouine.Cache
