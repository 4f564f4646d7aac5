import Bouine.Lib.Transition
import Bouine.Cache.Stored

/-! # Fresh means younger than the lifetime

`Object.Fresh` compares the time since storing with the TTL alone, so the TTL has to be what was
left of the lifetime at that time. The file follows an object from the fill through its refreshes
and says when it is.
-/

namespace Bouine.Cache

open Lib Lib.Transition Header

/-! ## What a fill leaves alone -/

theorem valuesOf_storedHeader {name : Bytes} (hname : name ∉ Field.stamped) (ri : CapturedRequest)
    (status : Nat) (body : Bytes) (resMap : Map) :
    valuesOf name (storedHeader ri status body resMap).entries = valuesOf name resMap.entries := by
  have hcanonical : ∀ f ∈ Field.stamped, canonicalHeaderKey f = f := by decide
  have hne : ∀ f ∈ Field.stamped, name ≠ f ∧ name ≠ canonicalHeaderKey f := by
    intro f hf
    have : name ≠ f := fun h => hname (h ▸ hf)
    exact ⟨this, by rwa [hcanonical f hf]⟩
  simp only [Field.stamped, List.forall_mem_cons] at hne
  obtain ⟨hpath, hhost, hcookie, hlogin, hlen, -⟩ := hne
  have hdel : ∀ m : Map, valuesOf name
      ((((m.setEntryRaw Field.xBouinePath ri.path).setEntryRaw Field.xBouineHost ri.host).del
        setCookie).del Field.setLogin).entries = valuesOf name m.entries := by
    intro m
    rw [Map.valuesOf_del_of_ne _ hlogin.2, Map.valuesOf_del_of_ne _ hcookie.2,
      Map.valuesOf_setEntryRaw_of_ne _ _ hhost.1, Map.valuesOf_setEntryRaw_of_ne _ _ hpath.1]
  unfold storedHeader
  dsimp only
  split_ifs
  · rw [Map.valuesOf_set_of_ne _ _ hlen.2, hdel]
  · exact hdel resMap

section

variable {W : Type*} (h : Filler W)

/-- The lifetime that a header grants, as `computeTTL` selects it. -/
def grantedBy (hdr : Map) (status : Nat) (clock now : Int) : Int :=
  h.fp.lifetime h.timeParse hdr status (responseDirectives hdr) clock now

theorem grantedBy_congr {hdr hdr' : Map}
    (heq : ∀ f ∈ Field.freshness, valuesOf f hdr.entries = valuesOf f hdr'.entries) (status : Nat)
    (clock now : Int) : grantedBy h hdr status clock now = grantedBy h hdr' status clock now := by
  have hgetAll : ∀ f ∈ Field.freshness, isCanonical f → hdr.getAll f = hdr'.getAll f :=
    fun f hf hc => Map.getAll_congr hc (heq f hf)
  have hcc : responseDirectives hdr = responseDirectives hdr' := by
    unfold responseDirectives cdnCacheControl
    rw [hgetAll Field.cdnCacheControl (by simp [Field.freshness]) (by decide),
      hgetAll Field.cacheControl (by simp [Field.freshness]) (by decide)]
  rw [grantedBy, hcc, lifetime_congr heq]
  rfl

theorem ranged_responseDirectives (hdr : Map) : Ranged (responseDirectives hdr) := by
  unfold responseDirectives cdnCacheControl
  dsimp only
  split_ifs
  all_goals exact ranged_parseCacheControl _

/-! ## Younger than the lifetime -/

/-- An object with the clock reading that stood in for a missing date. -/
structure Kept where
  obj : Stored
  clock : Int

def Kept.granted (s : Kept) : Int :=
  grantedBy h s.obj.header s.obj.statusCode s.clock s.obj.storedAt

/-- Whenever the object counts as fresh, its age is below its lifetime. -/
def FreshIsYoung (s : Kept) : Prop :=
  ∀ now, s.obj.storedAt ≤ now → s.obj.fresh now = true →
    now - s.obj.storedAt + s.obj.originAge < s.granted h

theorem freshIsYoung_iff (s : Kept) :
    FreshIsYoung h s ↔ s.obj.ttl ≤ 0 ∨ s.obj.ttl + s.obj.originAge ≤ s.granted h := by
  constructor
  · intro hyoung
    by_cases hpos : s.obj.ttl ≤ 0
    · exact .inl hpos
    · have := hyoung (s.obj.storedAt + s.obj.ttl - 1) (by omega) (decide_eq_true (by omega))
      exact .inr (by omega)
  · intro hle now hnow hfresh
    have := of_decide_eq_true hfresh
    omega

/-! ## The fill -/

/-- Nothing is lost below the smallest duration when the age is taken off. -/
def FillFits (res : Fetched) (resMap : Map) (clock now : Int) : Prop :=
  minDuration ≤ grantedBy h resMap res.statusCode clock now -
    correctedInitialAge h.timeParse (parseOriginAge resMap.get) res.delay (resMap.get Field.date) now

instance (res : Fetched) (resMap : Map) (clock now : Int) :
    Decidable (FillFits h res resMap clock now) :=
  inferInstanceAs (Decidable (_ ≤ _))

theorem overrideTTLFor_plain {fp : FillPolicy} (hplain : fp.Plain) (scale : Int → Int → Int)
    (status : Nat) : fp.overrideTTLFor scale status = 0 := by
  rw [FillPolicy.overrideTTLFor, if_pos (.inl hplain.1)]

theorem fillFinalTTL_plain {fp : FillPolicy} (hplain : fp.Plain) (timeParse : TimeParse)
    (scale : Int → Int → Int) (hdr : Map) (status : Nat) (respCC : Directives)
    (originAge clock now : Int) :
    fp.fillFinalTTL timeParse scale hdr status respCC originAge clock now =
      max 0 (wrap64 (fp.lifetime timeParse hdr status respCC clock now - originAge)) := by
  rw [FillPolicy.fillFinalTTL, overrideTTLFor_plain hplain, if_neg (lt_irrefl 0),
    FillPolicy.computeTTL, FillPolicy.jitterTTL, if_pos (.inl hplain.2)]

theorem freshIsYoung_buildObject_iff (hplain : h.fp.Plain) (key : Key) (ri : CapturedRequest)
    (res : Fetched) (resMap : Map) (clock now : Int) :
    FreshIsYoung h ⟨buildObject h key ri res resMap none clock now, clock⟩ ↔
      FillFits h res resMap clock now := by
  have hgranted : Kept.granted h ⟨buildObject h key ri res resMap none clock now, clock⟩ =
      grantedBy h resMap res.statusCode clock now := by
    have hstamped : ∀ f ∈ Field.freshness, f ∉ Field.stamped := by decide
    exact grantedBy_congr h (fun f hf => valuesOf_storedHeader (hstamped f hf) ri _ _ resMap) _ _ _
  have hage := correctedInitialAge_le h.timeParse (parseOriginAge resMap.get) res.delay
    (resMap.get Field.date) now
  have hlow : minDuration ≤ grantedBy h resMap res.statusCode clock now :=
    minDuration_le_lifetime (ranged_responseDirectives resMap)
  rw [freshIsYoung_iff, hgranted, FillFits]
  simp only [buildObject, Option.getD_none, fillFinalTTL_plain hplain]
  rw [← grantedBy]
  generalize grantedBy h resMap res.statusCode clock now = granted at hlow ⊢
  generalize correctedInitialAge h.timeParse (parseOriginAge resMap.get) res.delay
    (resMap.get Field.date) now = age at hage ⊢
  by_cases hfits : minDuration ≤ granted - age
  · have := wrap64_le hfits
    refine iff_of_true ?_ hfits
    omega
  · have hwrap := wrap64_of_lt (not_le.1 hfits) (by unfold minDuration maxDuration at *; omega)
    unfold minDuration maxDuration at *
    omega

/-! ## Refreshes -/

structure Refresh where
  res : Fetched
  ri : CapturedRequest
  clock : Int
  now : Int

def refreshStep (s : Kept) (i : Refresh) : Kept := ⟨refreshFrom304 h s.obj i.res i.ri i.now, i.clock⟩

/-- What the merged header states, or else the old TTL, leaves room for the age of the refreshed
object. -/
def RefreshFits (s : Kept) (i : Refresh) : Prop :=
  let hdr := mergeHeaders304 s.obj.header i.res.header.toMap
  let stated := (freshnessLifetime h.timeParse (parseCacheControl (hdr.get Field.cacheControl))
    hdr.get).getD s.obj.ttl
  let age := correctedInitialAge h.timeParse (parseOriginAge hdr.get) i.res.delay
    (hdr.get Field.date) i.now
  stated ≤ 0 ∨ stated + age ≤ grantedBy h hdr s.obj.statusCode i.clock i.now

instance (s : Kept) (i : Refresh) : Decidable (RefreshFits h s i) :=
  inferInstanceAs (Decidable (_ ∨ _))

theorem freshIsYoung_refreshStep_iff (hplain : h.fp.Plain) (s : Kept) (i : Refresh) :
    FreshIsYoung h (refreshStep h s i) ↔ RefreshFits h s i := by
  rw [freshIsYoung_iff]
  simp only [refreshStep, refreshFrom304, overrideTTLFor_plain hplain]
  rfl

/-- An object is younger than its lifetime whenever it counts as fresh, exactly if the fill and
every refresh leave room for the age. -/
theorem fresh_is_young_along_iff (hplain : h.fp.Plain) (key : Key) (ri : CapturedRequest)
    (res : Fetched) (resMap : Map) (clock now : Int) (refreshes : List Refresh) :
    Always (refreshStep h) (FreshIsYoung h)
        ⟨buildObject h key ri res resMap none clock now, clock⟩ refreshes ↔
      FillFits h res resMap clock now ∧
        Along (refreshStep h) (RefreshFits h)
          ⟨buildObject h key ri res resMap none clock now, clock⟩ refreshes := by
  have hfill := freshIsYoung_buildObject_iff h hplain key ri res resMap clock now
  have hrun : FreshIsYoung h ⟨buildObject h key ri res resMap none clock now, clock⟩ →
      (Always (refreshStep h) (FreshIsYoung h)
          ⟨buildObject h key ri res resMap none clock now, clock⟩ refreshes ↔
        Along (refreshStep h) (RefreshFits h)
          ⟨buildObject h key ri res resMap none clock now, clock⟩ refreshes) :=
    always_iff_along (W := fun _ => True) (fun _ _ => id)
      (fun s i _ _ => freshIsYoung_refreshStep_iff h hplain s i) trivial
  constructor
  · intro hall
    exact ⟨hfill.1 hall.head, (hrun hall.head).1 hall⟩
  · intro hfits
    exact (hrun (hfill.2 hfits.1)).2 hfits.2

end

/-! ## Two objects that stay fresh too long -/

def plainFiller : Filler Int where
  lib := asciiLib
  sum64 _ := 0
  timeParse _ s :=
    if s = ascii "Mon, 01 Jan 1601 00:00:00 GMT" then some (50491123200 * second)
    else if s = ascii "Thu, 01 Jan 2026 00:00:00 GMT" then some (63902822400 * second)
    else none
  scale _ ttl := ttl
  policy := none
  fp := ⟨none, 0, 0, 0, 0, 0, 0⟩

def plainRequest : CapturedRequest where
  method := ascii "GET"
  uri := ascii "/"
  host := ascii "a"
  path := ascii "/"
  tls := false
  header := Map.empty

def fetchedWith (status : Nat) (hdr : Map) : Fetched := ⟨status, .map hdr, ascii "body", 0⟩

def minuteHeader : Map := ⟨[⟨Field.cacheControl, ascii "max-age=60"⟩]⟩

def agedRefresh : Refresh where
  res := fetchedWith 304 ⟨[⟨Field.age, ascii "30"⟩]⟩
  ri := plainRequest
  clock := 0
  now := 0

def ancientHeader : Map :=
  ⟨[⟨Field.age, ascii "1"⟩, ⟨Field.date, ascii "Thu, 01 Jan 2026 00:00:00 GMT"⟩,
    ⟨Field.expires, ascii "Mon, 01 Jan 1601 00:00:00 GMT"⟩]⟩

def filled (hdr : Map) (now : Int) : Kept :=
  ⟨buildObject plainFiller ⟨0, 0⟩ plainRequest (fetchedWith 200 hdr) hdr none now now, now⟩

/-- After a 304 of age 30 the minute starts anew, and a second off the smallest duration gives
almost the largest one. -/
theorem fresh_beyond_lifetime :
    (∃ s, s = refreshStep plainFiller (filled minuteHeader 0) agedRefresh ∧
      s.obj.fresh (59 * second) = true ∧ 59 * second + s.obj.originAge = 89 * second ∧
        s.granted plainFiller = 60 * second) ∧
    (∃ s, s = filled ancientHeader (63902822400 * second) ∧
      s.granted plainFiller = minDuration ∧ s.obj.ttl = maxDuration - (second - 1)) :=
  ⟨⟨_, rfl, by decide⟩, ⟨_, rfl, by decide⟩⟩

theorem fresh_is_young_without_age :
    Always (refreshStep plainFiller) (FreshIsYoung plainFiller) (filled minuteHeader 0)
      [⟨fetchedWith 304 Map.empty, plainRequest, 0, 0⟩] :=
  (fresh_is_young_along_iff plainFiller (by decide) ⟨0, 0⟩ plainRequest _ _ 0 0 _).2
    ⟨by decide, by decide⟩

end Bouine.Cache
