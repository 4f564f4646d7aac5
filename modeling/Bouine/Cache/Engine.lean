import Bouine.Cache.Stored

/-! # The decision about a stored response

`internal/cache/engine.go`: whether a stored response answers a request, from its directives, the
flags kept with the object and the time. The last part says what the directives of a request keep
back.
-/

namespace Bouine.Cache

open Lib Header

/-! ## The code -/

inductive Decision where
  | hit
  | miss
  | revalidate
  | staleHit
  | bypass
deriving DecidableEq

def Decision.serves : Decision → Bool
  | hit | staleHit => true
  | miss | revalidate | bypass => false

structure Disposition where
  decision : Decision
  object : Option Stored
deriving DecidableEq

structure RespGate where
  noCache : Bool := false
  mustRevalidate : Bool := false
deriving DecidableEq

def respGateFromObject : Option Stored → RespGate
  | none => {}
  | some obj => ⟨obj.respNoCache, obj.respMustRevalidate⟩

def objDirectives (obj : Stored) : Directives :=
  parseCacheControl (if obj.cacheControl = [] then obj.header.get Field.cacheControl
    else obj.cacheControl)

def effectiveOriginAge (obj : Stored) : Int :=
  if obj.originAge ≠ 0 then obj.originAge else parseOriginAge obj.header.get

def evalMiss (reqCC : Directives) : Disposition :=
  if reqCC.onlyIfCached then ⟨.bypass, none⟩ else ⟨.miss, none⟩

def currentAge (obj : Stored) (now : Int) : Int :=
  wrap64 (timeSub now obj.storedAt + effectiveOriginAge obj)

def staleAge (obj : Stored) (now : Int) : Int :=
  wrap64 (currentAge obj now - wrap64 (obj.ttl + effectiveOriginAge obj))

def freshWithRequestCC (obj : Stored) (reqCC : Directives) (now : Int) : Bool :=
  if obj.fresh now = false then false
  else if reqCC.maxAgeSet ∧ reqCC.maxAge < currentAge obj now then false
  else if reqCC.minFreshSet ∧ timeSub (obj.storedAt + obj.ttl) now < reqCC.minFresh then false
  else true

def revalidateOrMiss (obj : Stored) : Disposition :=
  if obj.etag ≠ [] ∨ obj.lastModified ≠ 0 then ⟨.revalidate, some obj⟩ else ⟨.miss, none⟩

def heuristic (obj : Stored) : Bool :=
  !(objDirectives obj).maxAgeSet && !(objDirectives obj).sMaxAgeSet &&
    obj.header.get Field.expires == []

def evalStale (reqCC : Directives) (obj : Stored) (now : Int) : Disposition :=
  if reqCC.maxStaleSet ∧ staleAge obj now ≤ reqCC.maxStale then ⟨.staleHit, some obj⟩
  else if obj.staleForSWR now then ⟨.staleHit, some obj⟩
  else if obj.staleForSIE now then revalidateOrMiss obj
  else if heuristic obj then ⟨.staleHit, some obj⟩
  else revalidateOrMiss obj

def evaluate (obj : Option Stored) (reqCC : Directives) (rg : RespGate) (now : Int) : Disposition :=
  if reqCC.noStore then ⟨.bypass, none⟩
  else
    match obj with
    | none => evalMiss reqCC
    | some obj =>
      if rg.noCache || reqCC.noCache then revalidateOrMiss obj
      else if freshWithRequestCC obj reqCC now then ⟨.hit, some obj⟩
      else if rg.mustRevalidate then revalidateOrMiss obj
      else evalStale reqCC obj now

/-! ## When the object is served -/

section

variable (obj : Stored) (cc : Directives) (now : Int)

@[simp]
theorem revalidateOrMiss_serves : (revalidateOrMiss obj).decision.serves = false := by
  unfold revalidateOrMiss
  split_ifs <;> rfl

theorem freshWithRequestCC_iff :
    freshWithRequestCC obj cc now ↔
      obj.fresh now ∧ (cc.maxAgeSet → currentAge obj now ≤ cc.maxAge) ∧
        (cc.minFreshSet → cc.minFresh ≤ timeSub (obj.storedAt + obj.ttl) now) := by
  unfold freshWithRequestCC
  split_ifs with hfresh hage hmin
  · simp [hfresh]
  · simp [hage.1, not_le.2 hage.2]
  · simp [hmin.1, not_le.2 hmin.2]
  · simp only [not_and, not_lt] at hage hmin
    simp only [hfresh, true_and, true_iff]
    exact ⟨hage, hmin⟩

/-- A stale object is served to a request that accepts it, while it is revalidated, or when its
lifetime was a guess. -/
theorem evalStale_serves_iff :
    (evalStale cc obj now).decision.serves ↔
      (cc.maxStaleSet ∧ staleAge obj now ≤ cc.maxStale) ∨ obj.staleForSWR now ∨
        (obj.staleForSIE now = false ∧ heuristic obj) := by
  unfold evalStale
  split_ifs with hmax hswr hsie hheur
  · simp [Decision.serves, hmax]
  · simp [Decision.serves, hswr]
  · simp [hmax, hswr, hsie]
  · simp [Decision.serves, hheur, hsie]
  · simp [hmax, hswr, hheur]

theorem evaluate_gate_serves_iff (rg : RespGate) :
    (evaluate (some obj) cc rg now).decision.serves ↔
      (cc.noStore = false ∧ cc.noCache = false) ∧ rg.noCache = false ∧
        (freshWithRequestCC obj cc now ∨
          (rg.mustRevalidate = false ∧ (evalStale cc obj now).decision.serves)) := by
  unfold evaluate
  dsimp only
  split_ifs with hstore hcache hfresh hmust
  · simp [Decision.serves, hstore]
  · rw [Bool.or_eq_true] at hcache
    rcases hcache with hcache | hcache <;> simp [hcache]
  · simp_all [Decision.serves]
  · simp_all
  · simp_all

/-- A disposition has the object it is about, or none and serves nothing. -/
def Disposition.About (d : Disposition) (o : Option Stored) : Prop :=
  d.object = o ∨ d.object = none ∧ d.decision.serves = false

theorem about_revalidateOrMiss : (revalidateOrMiss obj).About (some obj) := by
  unfold revalidateOrMiss
  split_ifs
  · exact .inl rfl
  · exact .inr ⟨rfl, rfl⟩

theorem about_evalStale : (evalStale cc obj now).About (some obj) := by
  unfold evalStale
  split_ifs
  · exact .inl rfl
  · exact .inl rfl
  · exact about_revalidateOrMiss obj
  · exact .inl rfl
  · exact about_revalidateOrMiss obj

theorem about_evaluate (o : Option Stored) (rg : RespGate) : (evaluate o cc rg now).About o := by
  unfold evaluate
  by_cases hstore : cc.noStore = true
  · rw [if_pos hstore]
    exact .inr ⟨rfl, rfl⟩
  cases o with
  | none =>
    unfold evalMiss
    dsimp only
    split_ifs
    · exact .inl rfl
    · exact .inl rfl
  | some obj =>
    dsimp only
    split_ifs
    · exact about_revalidateOrMiss obj
    · exact .inl rfl
    · exact about_revalidateOrMiss obj
    · exact about_evalStale obj cc now

theorem object_of_serves {o : Option Stored} {rg : RespGate}
    (h : (evaluate o cc rg now).decision.serves) : (evaluate o cc rg now).object = o := by
  rcases about_evaluate cc now o rg with hobj | ⟨-, hnone⟩
  · exact hobj
  · rw [hnone] at h
    cases h

end

def testObject (varyValue : Bytes) (ttl originAge : Int) (mustRevalidate : Bool) : Stored :=
  { key := ⟨0, 0⟩, pairedKey := none, statusCode := 200, header := Map.empty, body := []
    bodySize := 0, storedAt := 0, ttl, originAge, staleWhileRevalidate := 0, staleIfError := 0
    etag := [], lastModified := 0, cacheControl := ascii "max-age=0", varyValue, varyKey := []
    hasDate := false, respNoCache := false, respMustRevalidate := mustRevalidate
    hasConnectionList := false, hasNoCacheFields := false }

/-! ## Directives that narrow -/

variable {obj : Stored} {now : Int}

/-- RFC 9111's current age, without the bounds of `int64`. -/
def exactAge (obj : Stored) (now : Int) : Int := now - obj.storedAt + effectiveOriginAge obj

def Exceeded (obj : Stored) (cc : Directives) (now : Int) : Prop :=
  (cc.maxAgeSet = true ∧ cc.maxAge < exactAge obj now) ∨
    (cc.minFreshSet = true ∧ obj.storedAt + obj.ttl - now < cc.minFresh)

instance (obj : Stored) (cc : Directives) (now : Int) : Decidable (Exceeded obj cc now) :=
  inferInstanceAs (Decidable (_ ∨ _))

theorem revalidateOrMiss_ne_staleHit (obj : Stored) : (revalidateOrMiss obj).decision ≠ .staleHit := by
  unfold revalidateOrMiss
  split_ifs <;> exact Decision.noConfusion

theorem not_fresh_of_exceeded {cc : Directives}
    (hsub : minDuration ≤ now - obj.storedAt ∧ now - obj.storedAt ≤ maxDuration)
    (hage : minDuration ≤ exactAge obj now ∧ exactAge obj now ≤ maxDuration)
    (h : Exceeded obj cc now) : freshWithRequestCC obj cc now = false := by
  have hcurrent : currentAge obj now = exactAge obj now := by
    have hdiff : timeSub now obj.storedAt = now - obj.storedAt := by
      unfold timeSub
      omega
    rw [currentAge, hdiff]
    exact wrap64_of_range hage
  rw [Bool.eq_false_iff, ne_eq, freshWithRequestCC_iff, hcurrent]
  rintro ⟨hfresh, hmax, hmin⟩
  rcases h with ⟨hset, hlt⟩ | ⟨hset, hlt⟩
  · exact absurd (hmax hset) (not_le.2 hlt)
  · -- what is left of a fresh object is positive, so it can only have been cut off
    have hmin := hmin hset
    simp only [Stored.fresh, decide_eq_true_eq] at hfresh
    unfold timeSub minDuration at hmin
    omega

/-- A directive that forbids reuse, of the response or the request, is obeyed, and so are
`must-revalidate` and `proxy-revalidate`. An object over `max-age` or `min-fresh` of the request is
kept back exactly if the stale path has no other reason to serve it. -/
theorem request_directives_narrow_iff (obj : Stored) (cc : Directives) (rg : RespGate) (now : Int) :
    (rg.noCache = true ∨ cc.noCache = true ∨ cc.noStore = true →
      (evaluate (some obj) cc rg now).decision.serves = false) ∧
    (rg.mustRevalidate = true → obj.fresh now = false →
      (evaluate (some obj) cc rg now).decision ≠ .staleHit) ∧
    (Exceeded obj cc now → cc.maxStaleSet = false →
      ((evaluate (some obj) cc rg now).decision.serves = false ↔
        rg.noCache = true ∨ cc.noCache = true ∨ cc.noStore = true ∨
          (freshWithRequestCC obj cc now = false ∧ (rg.mustRevalidate = true ∨
            (obj.staleForSWR now = false ∧ (obj.staleForSIE now = true ∨ heuristic obj = false)))))) ∧
    (minDuration ≤ now - obj.storedAt ∧ now - obj.storedAt ≤ maxDuration →
      minDuration ≤ exactAge obj now ∧ exactAge obj now ≤ maxDuration →
      Exceeded obj cc now → freshWithRequestCC obj cc now = false) := by
  have hserves := evaluate_gate_serves_iff obj cc now rg
  refine ⟨fun h => ?_, fun hmust _ => ?_, fun _ hmax => ?_, not_fresh_of_exceeded⟩
  · rw [Bool.eq_false_iff, ne_eq, hserves]
    rintro ⟨⟨hstore, hcache⟩, hresp, -⟩
    simp [hstore, hcache, hresp] at h
  · unfold evaluate
    dsimp only
    split_ifs
    · exact Decision.noConfusion
    · exact revalidateOrMiss_ne_staleHit obj
    · exact Decision.noConfusion
    · exact revalidateOrMiss_ne_staleHit obj
  · rw [Bool.eq_false_iff, ne_eq, hserves, evalStale_serves_iff, hmax]
    simp only [Bool.false_eq_true, false_and, false_or, ← Bool.not_eq_true, not_and_or, not_or, not_not]
    rw [or_left_comm, or_comm (a := cc.noStore = true), or_assoc]

def guessedObject : Stored := { testObject [] (60 * second) 0 false with cacheControl := [] }

/-- A request for nothing older than five seconds gets a response of ten: as a guessed lifetime may
be stretched, or within the grace of `stale-while-revalidate`. -/
theorem old_response_served :
    let cc := parseCacheControl (ascii "max-age=5")
    let graced := { testObject [] (8 * second) 0 false with staleWhileRevalidate := 30 * second }
    (Exceeded guessedObject cc (10 * second) ∧ cc.maxStaleSet = false ∧
      guessedObject.fresh (10 * second) = true ∧
      (evaluate (some guessedObject) cc {} (10 * second)).decision = .staleHit) ∧
    Exceeded graced cc (10 * second) ∧
      (evaluate (some graced) cc {} (10 * second)).decision = .staleHit := by
  decide

theorem old_response_kept_back :
    let cc := parseCacheControl (ascii "max-age=5")
    let obj := testObject [] (60 * second) 0 false
    Exceeded obj cc (10 * second) ∧ (evaluate (some obj) cc {} (10 * second)).decision.serves = false := by
  have hexceeded : Exceeded (testObject [] (60 * second) 0 false) (parseCacheControl (ascii "max-age=5"))
      (10 * second) := by decide
  obtain ⟨-, -, hkept, hfresh⟩ := request_directives_narrow_iff (testObject [] (60 * second) 0 false)
    (parseCacheControl (ascii "max-age=5")) {} (10 * second)
  refine ⟨hexceeded, (hkept hexceeded (by decide)).2 (.inr (.inr (.inr ⟨?_, ?_⟩)))⟩
  · exact hfresh (by decide) (by decide) hexceeded
  · decide

end Bouine.Cache
