import Bouine.Cache.Cacheable

/-! # Freshness lifetimes

How long a response stays fresh and how old it arrives (`internal/cache/directives.go`,
`internal/cache/httpdate.go`, `fillPolicy` in `internal/cache/handler.go`). Times are nanoseconds
since the zero time; durations are `int64` nanoseconds, so sums wrap around and the difference of
two times is cut off at the ends.
-/

namespace Bouine.Cache

open Lib Header

namespace Field

def age : Bytes := ascii "Age"
def date : Bytes := ascii "Date"

def freshness : List Bytes := [cdnCacheControl, cacheControl, expires, date, lastModified]

end Field

/-! ## Durations -/

def maxDuration : Int := 2 ^ 63 - 1

def minDuration : Int := -2 ^ 63

/-- `Time.Sub`. -/
def timeSub (t u : Int) : Int := max minDuration (min maxDuration (t - u))

def truncateSecond (d : Int) : Int := d - d.tmod second

/-! ## Lifetimes -/

section

variable (timeParse : TimeParse)

/-- The lifetime under a targeted field; without `max-age` it has expired. -/
def cdnLifetime (cdnCC : Bytes) : Int :=
  let d := parseCacheControl cdnCC
  if d.maxAgeSet then d.maxAge else 0

/-- `FreshnessLifetime`: the explicit lifetime, if there is one. -/
def freshnessLifetime (respCC : Directives) (getHdr : Bytes → Bytes) : Option Int :=
  if getHdr Field.cdnCacheControl ≠ [] then some (cdnLifetime (getHdr Field.cdnCacheControl))
  else if respCC.sMaxAgeSet then some respCC.sMaxAge
  else if respCC.maxAgeSet then some respCC.maxAge
  else if getHdr Field.expires = [] then none
  else
    let expTime := parseHTTPDate timeParse (getHdr Field.expires)
    let dateTime := parseHTTPDate timeParse (getHdr Field.date)
    if expTime = 0 ∨ dateTime = 0 then none else some (timeSub expTime dateTime)

/-- `FreshnessLifetimeH`: the lines of the targeted field are joined; without a date the clock is
read. -/
def freshnessLifetimeH (clock : Int) (respCC : Directives) (h : Map) : Option Int :=
  if h.getAll Field.cdnCacheControl ≠ [] then some (cdnLifetime (h.getAll Field.cdnCacheControl))
  else if respCC.sMaxAgeSet then some respCC.sMaxAge
  else if respCC.maxAgeSet then some respCC.maxAge
  else if h.get Field.expires = [] then none
  else
    let expTime := parseHTTPDate timeParse (h.get Field.expires)
    let dateTime := parseHTTPDate timeParse (h.get Field.date)
    if expTime = 0 then none else some (timeSub expTime (if dateTime = 0 then clock else dateTime))

/-- `HeuristicTTL`: a tenth of the time since the last change. -/
def heuristicTTL (h : Map) (now : Int) : Int :=
  let lmTime := parseHTTPDate timeParse (h.get Field.lastModified)
  if h.get Field.lastModified = [] ∨ lmTime = 0 then 0
  else
    let dateTime := parseHTTPDate timeParse (h.get Field.date)
    let age := timeSub (if dateTime = 0 then now else dateTime) lmTime
    if age ≤ 0 then 0 else age / 10

/-! ## Age on arrival -/

def parseOriginAge (getHdr : Bytes → Bytes) : Int :=
  let ageStr := trimSpace (getHdr Field.age)
  if byte '.' ∈ ageStr then 0
  else
    match parseIntNoAlloc ageStr with
    | none => 0
    | some secs => if secs < 0 then 0 else min secs 2147483648 * second

def apparentAge (dateStr : Bytes) (received : Int) : Option Int :=
  let dt := parseHTTPDate timeParse dateStr
  if dt = 0 ∨ received < dt then none else some (timeSub received dt)

def correctedInitialAge (originAge responseDelay : Int) (dateStr : Bytes) (received : Int) : Int :=
  let corrected := wrap64 (originAge + responseDelay)
  truncateSecond (max corrected ((apparentAge timeParse dateStr received).getD corrected))

end

/-! ## The policy of a route -/

structure FillPolicy where
  neg : Option StatusTTL
  defaultTTL : Int
  overrideTTL : Int
  defaultSWR : Int
  swrOverride : Int
  defaultSIE : Int
  jitterPct : Int

namespace FillPolicy

variable (fp : FillPolicy)

/-- `JitterTTL`; `scale` is the random change by so many percent at most. -/
def jitterTTL (scale : Int → Int → Int) (ttl : Int) : Int :=
  if fp.jitterPct ≤ 0 ∨ ttl ≤ 0 then ttl else max 0 (scale (min fp.jitterPct 50) ttl)

/-- The ladder of `computeTTL` before jitter and age: explicit, by status, heuristic, default. -/
def lifetime (timeParse : TimeParse) (hdr : Map) (status : Nat) (respCC : Directives)
    (clock now : Int) : Int :=
  match freshnessLifetimeH timeParse clock respCC hdr with
  | some ttl => ttl
  | none =>
    if 0 < StatusTTL.ttl fp.neg status then StatusTTL.ttl fp.neg status
    else if heuristicTTL timeParse hdr now = 0 ∧ 0 < fp.defaultTTL then fp.defaultTTL
    else heuristicTTL timeParse hdr now

def computeTTL (timeParse : TimeParse) (scale : Int → Int → Int) (hdr : Map) (status : Nat)
    (respCC : Directives) (originAge clock now : Int) : Int :=
  max 0 (wrap64 (fp.jitterTTL scale (fp.lifetime timeParse hdr status respCC clock now) - originAge))

/-- `overrideTTLFor`: the route's own lifetime for content; none is zero. -/
def overrideTTLFor (scale : Int → Int → Int) (status : Nat) : Int :=
  if fp.overrideTTL ≤ 0 ∨ 400 ≤ status then 0 else fp.jitterTTL scale fp.overrideTTL

def fillFinalTTL (timeParse : TimeParse) (scale : Int → Int → Int) (hdr : Map) (status : Nat)
    (respCC : Directives) (originAge clock now : Int) : Int :=
  if 0 < fp.overrideTTLFor scale status then fp.overrideTTLFor scale status
  else fp.computeTTL timeParse scale hdr status respCC originAge clock now

def swrOverrideFor (status : Nat) : Int :=
  if fp.swrOverride ≤ 0 ∨ 400 ≤ status then 0 else fp.swrOverride

def Plain : Prop := fp.overrideTTL ≤ 0 ∧ fp.jitterPct ≤ 0

instance : Decidable fp.Plain := inferInstanceAs (Decidable (_ ∧ _))

end FillPolicy

/-! ## Ranges -/

theorem wrap64_range (n : Int) : minDuration ≤ wrap64 n ∧ wrap64 n ≤ maxDuration := by
  unfold wrap64 minDuration maxDuration
  rw [Int.bmod_def]
  split_ifs <;> omega

variable {timeParse : TimeParse} {n : Int}

theorem wrap64_of_lt (h : n < minDuration) (hlow : minDuration - maxDuration ≤ n) :
    wrap64 n = n + 2 ^ 64 := by
  unfold minDuration maxDuration at *
  rw [wrap64, Int.bmod_def]
  split_ifs <;> omega

theorem wrap64_le (h : minDuration ≤ n) : wrap64 n ≤ n := by
  unfold minDuration at h
  rw [wrap64, Int.bmod_def]
  split_ifs <;> omega

theorem wrap64_of_range (h : minDuration ≤ n ∧ n ≤ maxDuration) : wrap64 n = n := by
  unfold minDuration maxDuration at h
  rw [wrap64, Int.bmod_def]
  split_ifs <;> omega

theorem wrap64_eq (hlow : 0 ≤ n) (hhigh : n < 2 ^ 63) : wrap64 n = n :=
  wrap64_of_range (by unfold minDuration maxDuration; omega)

theorem wrap64_of_gt (h : maxDuration < n) (hhigh : n ≤ 3 * maxDuration) :
    wrap64 n = n - 2 ^ 64 := by
  unfold maxDuration at *
  rw [wrap64, Int.bmod_def]
  split_ifs <;> omega

theorem timeSub_range (t u : Int) : minDuration ≤ timeSub t u ∧ timeSub t u ≤ maxDuration := by
  unfold timeSub minDuration maxDuration
  omega

/-- Durations as directives are in the range of `int64`. -/
def Ranged (d : Directives) : Prop :=
  (minDuration ≤ d.maxAge ∧ d.maxAge ≤ maxDuration) ∧
    (minDuration ≤ d.sMaxAge ∧ d.sMaxAge ≤ maxDuration)

theorem parseDurStr_range {cur : Int} (isSet : Bool) (h : minDuration ≤ cur ∧ cur ≤ maxDuration)
    (val : Bytes) : minDuration ≤ (parseDurStr cur isSet val).1 ∧
      (parseDurStr cur isSet val).1 ≤ maxDuration := by
  unfold parseDurStr
  cases parseIntNoAlloc val with
  | none => exact h
  | some n =>
    dsimp only
    split_ifs
    · exact wrap64_range _
    · exact h

theorem ranged_parseCacheControl (s : Bytes) : Ranged (parseCacheControl s) := by
  have hzero : minDuration ≤ 0 ∧ (0 : Int) ≤ maxDuration := by decide
  refine parseCacheControl_induction (fun d val h => h) (fun d h => ?_) (fun d val h => ?_)
    ⟨hzero, hzero⟩ s
  · simp only [boolDirectives, List.forall_mem_cons]
    exact ⟨h, h, h, h, h, h, h, h, h, h, by simp⟩
  · simp only [durDirectives, List.forall_mem_cons]
    exact ⟨⟨parseDurStr_range d.maxAgeSet h.1 val, h.2⟩,
      ⟨h.1, parseDurStr_range d.sMaxAgeSet h.2 val⟩, h, h, h, h, by simp⟩

theorem cdnLifetime_range (cdnCC : Bytes) :
    minDuration ≤ cdnLifetime cdnCC ∧ cdnLifetime cdnCC ≤ maxDuration := by
  unfold cdnLifetime
  dsimp only
  split_ifs
  · exact (ranged_parseCacheControl _).1
  · decide

theorem freshnessLifetimeH_range {clock : Int} {respCC : Directives} {hdr : Map} (h : Ranged respCC)
    {ttl : Int} (httl : freshnessLifetimeH timeParse clock respCC hdr = some ttl) :
    minDuration ≤ ttl ∧ ttl ≤ maxDuration := by
  unfold freshnessLifetimeH at httl
  dsimp only at httl
  split_ifs at httl <;> cases httl
  · exact cdnLifetime_range _
  · exact h.2
  · exact h.1
  · exact timeSub_range _ _
  · exact timeSub_range _ _

theorem minDuration_le_lifetime {fp : FillPolicy} {hdr : Map} {status : Nat} {respCC : Directives}
    {clock now : Int} (h : Ranged respCC) :
    minDuration ≤ fp.lifetime timeParse hdr status respCC clock now := by
  have hmin : minDuration ≤ 0 := by decide
  have hheuristic : 0 ≤ heuristicTTL timeParse hdr now := by
    unfold heuristicTTL
    dsimp only
    split_ifs <;> omega
  unfold FillPolicy.lifetime
  cases hfresh : freshnessLifetimeH timeParse clock respCC hdr with
  | some ttl => exact (freshnessLifetimeH_range h hfresh).1
  | none =>
    dsimp only
    split_ifs <;> omega

theorem correctedInitialAge_le (timeParse : TimeParse) (originAge responseDelay : Int)
    (dateStr : Bytes) (received : Int) :
    correctedInitialAge timeParse originAge responseDelay dateStr received ≤ maxDuration := by
  have htrunc : ∀ d, d ≤ maxDuration → truncateSecond d ≤ maxDuration := by
    intro d hd
    unfold truncateSecond
    by_cases hneg : 0 ≤ d
    · have := Int.tmod_nonneg second hneg
      omega
    · have hmod : (-d).tmod second = -d % second := Int.tmod_eq_emod_of_nonneg (by omega)
      rw [Int.neg_tmod, second] at hmod
      unfold second maxDuration
      omega
  have happ : ∀ a ∈ apparentAge timeParse dateStr received, a ≤ maxDuration := by
    intro a ha
    unfold apparentAge at ha
    dsimp only at ha
    split_ifs at ha
    · exact absurd ha (by simp)
    · cases ha
      exact (timeSub_range _ _).2
  refine htrunc _ (max_le (wrap64_range _).2 ?_)
  cases hage : apparentAge timeParse dateStr received with
  | none => exact (wrap64_range _).2
  | some a => exact happ a hage

/-! ## What a lifetime depends on -/

theorem lifetime_congr {fp : FillPolicy} {hdr hdr' : Map}
    (h : ∀ f ∈ Field.freshness, valuesOf f hdr.entries = valuesOf f hdr'.entries) (status : Nat)
    (respCC : Directives) (clock now : Int) :
    fp.lifetime timeParse hdr status respCC clock now =
      fp.lifetime timeParse hdr' status respCC clock now := by
  have hcanonical : ∀ f ∈ Field.freshness, isCanonical f = true := by decide
  have hget : ∀ f ∈ Field.freshness, hdr.get f = hdr'.get f :=
    fun f hf => Map.get_congr (hcanonical f hf) (h f hf)
  have hgetAll : ∀ f ∈ Field.freshness, hdr.getAll f = hdr'.getAll f :=
    fun f hf => Map.getAll_congr (hcanonical f hf) (h f hf)
  unfold FillPolicy.lifetime freshnessLifetimeH heuristicTTL
  rw [hgetAll Field.cdnCacheControl (by simp [Field.freshness]),
    hget Field.expires (by simp [Field.freshness]), hget Field.date (by simp [Field.freshness]),
    hget Field.lastModified (by simp [Field.freshness])]

end Bouine.Cache
