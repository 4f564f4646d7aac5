import Bouine.Cache.Lifetime
import Bouine.Cache.FillGates

/-! # Sharing a fetch

Concurrent misses wait for one of them to fetch (`fetchAndStore` in `internal/cache/handler.go`),
under a key chosen before the response is known (`internal/cache/collapse.go`). On a fill flight the
others then look into the store; on any other they are handed the response. The file says when that
is theirs.
-/

namespace Bouine.Cache.HandOff

open Lib Lib.Transition Header Option List
open TeeFill (FetchResult carriesClientState publishFillVerdict)
open FillGates (isInvalidating)

/-! ## Flight keys -/

def noKey : Key := ⟨0, 0⟩

/-- A request in `fetchAndStore`; `stored`: the lookup found an object; `reentry`: the request has
waited for a fill before. -/
structure Miss where
  ri : CapturedRequest
  primaryKey : Key
  lookupKey : Key
  stored : Bool
  reentry : Bool

def Miss.isHead (m : Miss) : Bool := m.ri.method == ascii "HEAD"

def collapseDenied (ri : CapturedRequest) : Bool :=
  (ri.method != [] && isInvalidating ri.method) || ri.header.get Field.authorization != [] ||
    ri.header.get (ascii "Cookie") != []

/-- `flightHeaders`: the fields that the route keys on. -/
def flightHeaders (p : RoutePolicy) (ri : CapturedRequest) : Map :=
  let m := p.includeHeaders.foldl (fun m f => m.set f (ri.header.get f)) Map.empty
  if p.cookiePresence ≠ [] ∨ p.cookieValues ≠ [] then m.set (ascii "Cookie") ri.header.cookieAll
  else m

def moveKey (k : Key) (suffix : UInt64) : Key := ⟨k.hi ^^^ suffix, k.lo⟩

def fillFlightKey (k : Key) : Key := moveKey k 0x66696c6c

def headFlightKey (k : Key) : Key := moveKey k 0x68656164

section

variable {W : Type*} (h : Filler W)

/-- `collapseFlightKey`: with an object or a variant the key looked up; else that of the declared
fields, if any. -/
def collapseFlightKey (m : Miss) : Key :=
  if m.stored ∨ m.primaryKey ≠ m.lookupKey then m.lookupKey
  else
    match h.policy with
    | none => noKey
    | some p =>
      if p.keysVariants then
        variantKeyCore h.lib h.sum64 m.primaryKey (keyPolicy h.policy) (derivedVary h.policy)
          (mapVarySrc (flightHeaders p m.ri))
      else noKey

def fetchFlightKey (m : Miss) : Key × Bool :=
  if collapseDenied m.ri then (noKey, false)
  else if collapseFlightKey h m ≠ noKey then
    (if m.isHead then headFlightKey (collapseFlightKey h m) else collapseFlightKey h m, false)
  else (fillFlightKey m.primaryKey, true)

/-! ## Flights -/

inductive FlightError where
  /-- `ErrStreamUnshareable` -/
  | unshareable
  /-- `ErrFetchShed` -/
  | shed
  | failed

abbrev Verdict := Except FlightError FetchResult

def verdictOfFill (res : FetchResult) : Verdict :=
  match publishFillVerdict res with
  | .ok res => .ok res
  | .error _ => .error .unshareable

structure Flight where
  key : Key
  leader : Miss
  verdict : Option Verdict

inductive Outcome where
  | handed (res : FetchResult)
  | ownFetch
  | shed503
  | upstreamError
  /-- a fill follower looks into the store as a new request -/
  | reenters

/-- The branches of `fetchAndStore` and of `serveFillFollower` behind the wait. -/
def outcomeOf (fillFlight : Bool) : Verdict → Outcome
  | .error .shed => .shed503
  | .ok res => if fillFlight then .reenters else .handed res
  | .error .unshareable => if fillFlight then .reenters else .ownFetch
  | .error .failed => if fillFlight then .reenters else .upstreamError

structure Answer where
  leader : Miss
  follower : Miss
  outcome : Outcome

/-- `inflightStreams` with every flight so far: a follower holds on to a flight that has left the
table. -/
structure Flights where
  flights : List Flight
  table : Key → Option Nat
  parked : List (Nat × Miss)
  answers : List Answer

def Flights.init : Flights := ⟨[], fun _ => none, [], []⟩

inductive Act where
  /-- a request misses: it leads a flight, parks, or fetches alone -/
  | miss (m : Miss)
  /-- the leader's fill is complete -/
  | publish (id : Nat) (res : FetchResult)
  /-- the leader publishes an error -/
  | fail (id : Nat) (e : FlightError)
  /-- the leader returns -/
  | remove (id : Nat)
  /-- the `i`-th parked follower goes on -/
  | release (i : Nat)

namespace Flights

variable (s : Flights)

def settle (id : Nat) (v : Verdict) : Flights :=
  { s with flights := s.flights.modify id fun f => { f with verdict := f.verdict.or (some v) } }

def park (k : Key) (m : Miss) : Flights :=
  match s.table k with
  | some id => { s with parked := s.parked ++ [(id, m)] }
  | none =>
    { s with flights := s.flights ++ [⟨k, m, none⟩]
             table := Function.update s.table k (some s.flights.length) }

def enter (m : Miss) : Flights :=
  if m.reentry ∨ (fetchFlightKey h m).1 = noKey then s else s.park (fetchFlightKey h m).1 m

def remove (id : Nat) : Flights :=
  match s.flights[id]? with
  | none => s
  | some f => { s with table := Function.update s.table f.key none }

def answerTo (p : Nat × Miss) : Option Answer :=
  match s.flights[p.1]? with
  | none => none
  | some f => f.verdict.map fun v => ⟨f.leader, p.2, outcomeOf (fetchFlightKey h p.2).2 v⟩

def release (i : Nat) : Flights :=
  { s with answers := s.answers ++ (s.parked[i]?.bind (answerTo h s)).toList }

end Flights

def step (s : Flights) : Act → Flights
  | .miss m => s.enter h m
  | .publish id res => s.settle id (verdictOfFill res)
  | .fail id e => s.settle id (.error e)
  | .remove id => s.remove id
  | .release i => s.release h i

/-! ## What is shareable -/

def variantOf (m : Miss) (res : FetchResult) : Key :=
  variantKeyCore h.lib h.sum64 m.primaryKey (keyPolicy h.policy)
    (effectiveVary h.lib res.header h.policy) (mapVarySrc m.ri.header)

def reusable (res : FetchResult) : Bool :=
  !(responseDirectives res.header).isPrivate && !(responseDirectives res.header).noStore

def Shareable (leader follower : Miss) (res : FetchResult) : Prop :=
  variantOf h follower res = variantOf h leader res ∧ carriesClientState res.header = false ∧
    reusable res = true

def HandedShareable (s : Flights) : Prop :=
  ∀ a ∈ s.answers, ∀ res, a.outcome = .handed res → Shareable h a.leader a.follower res

/-! ## What the flight key proves -/

/-- The key looked up or declared is the request's variant key under `vary`. -/
def Miss.Declares (m : Miss) (vary : Bytes) : Prop :=
  collapseFlightKey h m =
    variantKeyCore h.lib h.sum64 m.primaryKey (keyPolicy h.policy) vary (mapVarySrc m.ri.header)

/-- No hash brings a HEAD to a GET, or one that hands over to a fill. -/
def Miss.Alike (m m' : Miss) : Prop :=
  m.isHead = m'.isHead ∧ (fetchFlightKey h m).2 = (fetchFlightKey h m').2

theorem moveKey_injective (suffix : UInt64) {k k' : Key} (hk : moveKey k suffix = moveKey k' suffix) :
    k = k' := by
  obtain ⟨hhi, hlo⟩ := Key.mk.inj hk
  obtain ⟨hi, lo⟩ := k
  obtain ⟨hi', lo'⟩ := k'
  obtain rfl := (UInt64.xor_left_inj suffix).1 hhi
  obtain rfl : lo = lo' := hlo
  rfl

theorem fetchFlightKey_of_handOff {m : Miss} (hfill : (fetchFlightKey h m).2 = false)
    (hkey : (fetchFlightKey h m).1 ≠ noKey) : (fetchFlightKey h m).1 =
      if m.isHead then headFlightKey (collapseFlightKey h m) else collapseFlightKey h m := by
  unfold fetchFlightKey at hfill hkey ⊢
  by_cases hdenied : collapseDenied m.ri = true
  · rw [if_pos hdenied] at hkey
    cases hkey rfl
  · rw [if_neg hdenied] at hfill ⊢
    by_cases hproven : collapseFlightKey h m ≠ noKey
    · rw [if_pos hproven]
    · rw [if_neg hproven] at hfill
      cases hfill

/-- Requests of one kind under one key want the same variant of a response that varies on what their
keys declare. -/
theorem variantOf_eq_of_declares {leader follower : Miss} {res : FetchResult}
    (hkey : (fetchFlightKey h follower).1 = (fetchFlightKey h leader).1)
    (hflight : (fetchFlightKey h leader).1 ≠ noKey) (hfill : (fetchFlightKey h follower).2 = false)
    (halike : leader.Alike h follower)
    (hleader : leader.Declares h (effectiveVary h.lib res.header h.policy))
    (hfollower : follower.Declares h (effectiveVary h.lib res.header h.policy)) :
    variantOf h follower res = variantOf h leader res := by
  have heq := fetchFlightKey_of_handOff h hfill (by rwa [hkey])
  rw [hkey, fetchFlightKey_of_handOff h (halike.2.trans hfill) hflight, halike.1] at heq
  have hcollapse : collapseFlightKey h follower = collapseFlightKey h leader := by
    split_ifs at heq
    · exact (moveKey_injective _ heq).symm
    · exact heq.symm
  rwa [hleader, hfollower] at hcollapse

/-! ## Runs -/

/-- What comes in: the responses to those that hand over name neither `private` nor `no-store`, and
the requests on both sides of one declare what it varies on. -/
def Declared (s : Flights) : Act → Prop
  | .publish id res =>
    ∀ f ∈ s.flights[id]?, (fetchFlightKey h f.leader).2 = false →
      ¬ Says (effectiveLine res.header) (ascii "private") ∧
        ¬ Says (effectiveLine res.header) (ascii "no-store")
  | .release i =>
    ∀ p ∈ s.parked[i]?, (fetchFlightKey h p.2).2 = false → ∀ f ∈ s.flights[p.1]?,
      f.leader.Alike h p.2 ∧ ∀ res, f.verdict = some (.ok res) →
        f.leader.Declares h (effectiveVary h.lib res.header h.policy) ∧
          p.2.Declares h (effectiveVary h.lib res.header h.policy)
  | _ => True

/-- A flight is under its leader's key, and what it hands over may be reused. -/
structure Flight.Ok (f : Flight) : Prop where
  key : f.key = (fetchFlightKey h f.leader).1
  shared : f.key ≠ noKey
  stateless : ∀ res, f.verdict = some (.ok res) → carriesClientState res.header = false
  reuse : (fetchFlightKey h f.leader).2 = false →
    ∀ res, f.verdict = some (.ok res) → reusable res = true

def Flights.KeyAt (s : Flights) (id : Nat) (k : Key) : Prop := ∃ f ∈ s.flights[id]?, f.key = k

/-- The table and the parked requests go by the keys of the flights. -/
structure Flights.Ok (s : Flights) : Prop where
  flights : ∀ f ∈ s.flights, f.Ok h
  table : ∀ k, ∀ id ∈ s.table k, s.KeyAt id k
  parked : ∀ p ∈ s.parked, s.KeyAt p.1 (fetchFlightKey h p.2).1

theorem reusable_of_not_says {res : FetchResult}
    (hprivate : ¬ Says (effectiveLine res.header) (ascii "private"))
    (hstore : ¬ Says (effectiveLine res.header) (ascii "no-store")) : reusable res = true := by
  rw [← isPrivate_parseCacheControl] at hprivate
  rw [← noStore_parseCacheControl] at hstore
  rw [reusable, responseDirectives, parseCacheControl_effectiveLine]
  simp [hprivate, hstore]

theorem verdictOfFill_eq_ok {res res' : FetchResult} (hv : verdictOfFill res = .ok res') :
    res' = res ∧ carriesClientState res.header = false := by
  unfold verdictOfFill publishFillVerdict at hv
  split_ifs at hv with hstate
  exact ⟨by simpa using hv.symm, by simpa using hstate⟩

variable {s : Flights}

theorem Flights.Ok.settle (hs : s.Ok h) (id : Nat) {v : Verdict}
    (hstate : ∀ res, v = .ok res → carriesClientState res.header = false)
    (hreuse : ∀ f ∈ s.flights[id]?, (fetchFlightKey h f.leader).2 = false →
      ∀ res, v = .ok res → reusable res = true) : (s.settle id v).Ok h := by
  have hat : ∀ i k, s.KeyAt i k → (s.settle id v).KeyAt i k := by
    rintro i k ⟨f, hf, rfl⟩
    rw [Option.mem_def] at hf
    by_cases hid : id = i
    · exact ⟨{ f with verdict := f.verdict.or (some v) },
        by simp [Flights.settle, hf, hid], rfl⟩
    · exact ⟨f, by simp [Flights.settle, hf, hid], rfl⟩
  refine ⟨fun f hf => ?_, fun k i hi => hat i k (hs.table k i hi), fun p hp => hat _ _ (hs.parked p hp)⟩
  obtain ⟨i, hi⟩ := mem_iff_getElem?.1 hf
  rw [Flights.settle, getElem?_modify] at hi
  obtain ⟨old, hold, rfl⟩ := Option.map_eq_some_iff.1 hi
  have hok := hs.flights old (mem_of_getElem? hold)
  split_ifs with hid
  · subst hid
    -- the first verdict stands
    have hfirst (res : FetchResult) (hres : old.verdict.or (some v) = some (.ok res)) :
        old.verdict = some (.ok res) ∨ v = .ok res := by
      cases hverdict : old.verdict <;> simp_all
    exact ⟨hok.key, hok.shared, fun res hres => (hfirst res hres).elim (hok.stateless res) (hstate res),
      fun hfill res hres => (hfirst res hres).elim (hok.reuse hfill res) (hreuse old hold hfill res)⟩
  · exact hok

theorem Flights.Ok.park (hs : s.Ok h) {m : Miss} (hkey : (fetchFlightKey h m).1 ≠ noKey) :
    (s.park (fetchFlightKey h m).1 m).Ok h := by
  unfold Flights.park
  split
  · next id hid =>
    refine ⟨hs.flights, hs.table, fun p hp => ?_⟩
    rcases mem_append.1 hp with hp | hp
    · exact hs.parked p hp
    · obtain rfl := List.mem_singleton.1 hp
      exact hs.table _ id hid
  · have hat : ∀ i k, s.KeyAt i k → ∃ f ∈ (s.flights ++ [⟨(fetchFlightKey h m).1, m, none⟩])[i]?,
        f.key = k := by
      rintro i k ⟨f, hf, hk⟩
      exact ⟨f, List.getElem?_append_left (List.getElem?_eq_some_iff.1 hf).1 ▸ hf, hk⟩
    refine ⟨fun f hf => ?_, fun k i hi => ?_, fun p hp => hat _ _ (hs.parked p hp)⟩
    · rcases List.mem_append.1 hf with hf | hf
      · exact hs.flights f hf
      · obtain rfl := List.mem_singleton.1 hf
        exact ⟨rfl, hkey, by simp, by simp⟩
    · dsimp only at hi
      by_cases hk : k = (fetchFlightKey h m).1
      · rw [hk, Function.update_self, Option.mem_def, some.injEq] at hi
        exact ⟨⟨(fetchFlightKey h m).1, m, none⟩, by simp [← hi], hk.symm⟩
      · rw [Function.update_of_ne hk] at hi
        exact hat i k (hs.table k i hi)

theorem Flights.Ok.remove (hs : s.Ok h) (id : Nat) : (s.remove id).Ok h := by
  unfold Flights.remove
  split
  · exact hs
  · refine ⟨hs.flights, fun k i hi => ?_, hs.parked⟩
    dsimp only at hi
    by_cases hk : k = (‹Flight›).key
    · simp [hk] at hi
    · rw [Function.update_of_ne hk] at hi
      exact hs.table k i hi

theorem ok_step (hs : s.Ok h) {a : Act} (ha : Declared h s a) : (step h s a).Ok h := by
  cases a with
  | miss m =>
    show (s.enter h m).Ok h
    unfold Flights.enter
    split_ifs with hkey
    · exact hs
    · exact hs.park h (not_or.1 hkey).2
  | publish id res =>
    refine hs.settle h id (fun res' hres => ?_) fun f hf hfill res' hres => ?_
    · obtain ⟨rfl, hstate⟩ := verdictOfFill_eq_ok hres
      exact hstate
    · obtain ⟨rfl, -⟩ := verdictOfFill_eq_ok hres
      exact reusable_of_not_says (ha f hf hfill).1 (ha f hf hfill).2
  | fail id e => exact hs.settle h id (by simp) (by simp)
  | remove id => exact hs.remove h id
  | release i => exact ⟨hs.flights, hs.table, hs.parked⟩

theorem handed_outcomeOf {fillFlight : Bool} {v : Verdict} {res : FetchResult}
    (hv : outcomeOf fillFlight v = .handed res) : fillFlight = false ∧ v = .ok res := by
  cases fillFlight <;> rcases v with (_ | _ | _) | r <;> simp_all [outcomeOf]

theorem handedShareable_release (hs : s.Ok h) (hq : HandedShareable h s) {i : Nat}
    (ha : Declared h s (.release i)) : HandedShareable h (s.release h i) := by
  intro a hmem res hres
  rcases mem_append.1 hmem with hmem | hmem
  · exact hq a hmem res hres
  · obtain ⟨p, hp, hanswer⟩ := Option.bind_eq_some_iff.1 (Option.mem_toList.1 hmem)
    unfold Flights.answerTo at hanswer
    cases hf : s.flights[p.1]? with
    | none => simp [hf] at hanswer
    | some f =>
      rw [hf] at hanswer
      obtain ⟨v, hverdict, rfl⟩ := Option.map_eq_some_iff.1 hanswer
      obtain ⟨hfill, rfl⟩ := handed_outcomeOf hres
      have hok := hs.flights f (mem_of_getElem? hf)
      obtain ⟨halike, hdeclared⟩ := ha p hp hfill f hf
      obtain ⟨hleader, hfollower⟩ := hdeclared res hverdict
      obtain ⟨f', hf', hkey⟩ := hs.parked p (mem_of_getElem? hp)
      obtain rfl : f' = f := Option.some.inj (hf'.symm.trans hf)
      rw [hok.key] at hkey
      refine ⟨?_, hok.stateless res hverdict, hok.reuse (halike.2.trans hfill) res hverdict⟩
      exact variantOf_eq_of_declares h hkey.symm (hok.key ▸ hok.shared) hfill halike hleader hfollower

end

/-! ## Responses in the wrong hands -/

def hashedFiller : Filler Int :=
  { plainFiller with sum64 := fun s => s.foldl (fun n c => n * 31 + c.toUInt64) 0 }

def languageMiss (lang : String) : Miss where
  ri := { plainRequest with header := ⟨[⟨Field.acceptLanguage, ascii lang⟩]⟩ }
  primaryKey := ⟨1, 1⟩
  lookupKey := ⟨2, 2⟩
  stored := false
  reentry := false

def handOver (res : FetchResult) : List Act :=
  [.miss (languageMiss "en"), .miss (languageMiss "de"), .publish 0 res, .release 0]

def privateResult : FetchResult :=
  ⟨200, ⟨[⟨Field.cacheControl, ascii "private"⟩]⟩, ascii "for one"⟩

def varyingResult : FetchResult := ⟨200, ⟨[⟨Field.vary, ascii "Accept-Language"⟩]⟩, ascii "english"⟩

def Answer.handedBody (a : Answer) : Option (Bytes × Bytes) :=
  match a.outcome with
  | .handed res => some (a.follower.ri.header.get Field.acceptLanguage, res.body)
  | _ => none

/-- A request that looks up the key of the variant it wants. -/
def declaring : Miss :=
  { languageMiss "en" with
    stored := true
    lookupKey := variantOf hashedFiller (languageMiss "en") varyingResult }

end Bouine.Cache.HandOff
