import Bouine.Cache.Lifetime

/-! # What a 304 has validated

A revalidation carries the client's conditional lines along with the validators of the stored object
(`revalidate` and `doBackgroundRevalidate` in `internal/cache/handler.go`), and may share the answer
of another on its flight. The file says when a 304 that refreshes an object was given for its
validator.
-/

namespace Bouine.Cache

open Lib Header

section

variable {W : Type*} (h : Outbound W)

/-! ## The requests of a flight -/

/-- The fetches that can lead a flight a revalidation shares. -/
inductive Ask where
  /-- `revalidate` -/
  | revalidate (client : Raw) (stale : Validators)
  /-- `doBackgroundRevalidate` or `doBackgroundRefresh` -/
  | background (header : Map) (stale : Validators)
  /-- the fetch of a stale object without validators -/
  | fetch (client : Raw)
  /-- the refill of a shed miss -/
  | refill (header : Map)

def Ask.request : Ask → Raw
  | revalidate client stale => revalidateRequest h client stale
  | background header stale => backgroundRequest h header stale
  | fetch client => fetchRequest h client
  | refill header => refillRequest h header

def Ask.passedOn (name : Bytes) : Ask → List Bytes
  | revalidate client _ => client.peekAll name
  | background header _ => ((valuesOf name header.entries).getLast?).toList
  | fetch client => client.peekAll name
  | refill header => ((valuesOf name header.entries).getLast?).toList

def Ask.validators : Ask → Validators
  | revalidate _ stale => stale
  | background _ stale => stale
  | fetch _ => ⟨[], none⟩
  | refill _ => ⟨[], none⟩

def Ask.tags (a : Ask) : List Bytes :=
  if a.validators.etag = [] then a.passedOn Field.ifNoneMatch
  else quoteETag a.validators.etag :: (a.passedOn Field.ifNoneMatch).drop 1

def Ask.dates (a : Ask) : List Bytes :=
  match a.validators.lastModified with
  | none => a.passedOn Field.ifModifiedSince
  | some t => h.formatTime t :: (a.passedOn Field.ifModifiedSince).drop 1

theorem peekAll_conditionals_request (a : Ask) :
    (a.request h).peekAll Field.ifNoneMatch = a.tags ∧
      (a.request h).peekAll Field.ifModifiedSince = a.dates h := by
  have htag : Field.ifNoneMatch ∈ Field.partialRequest := by simp [Field.partialRequest]
  have hdate : Field.ifModifiedSince ∈ Field.partialRequest := by simp [Field.partialRequest]
  cases a with
  | revalidate client stale =>
    rw [Ask.request, revalidateRequest, ifNoneMatch_setConditionalHeaders,
      ifModifiedSince_setConditionalHeaders, peekAll_fetchRequest h htag client,
      peekAll_fetchRequest h hdate client]
    exact ⟨rfl, rfl⟩
  | background header stale =>
    rw [Ask.request, backgroundRequest, ifNoneMatch_setConditionalHeaders,
      ifModifiedSince_setConditionalHeaders, peekAll_refillRequest h htag header,
      peekAll_refillRequest h hdate header]
    exact ⟨rfl, rfl⟩
  | fetch client => exact ⟨peekAll_fetchRequest h htag client, peekAll_fetchRequest h hdate client⟩
  | refill header => exact ⟨peekAll_refillRequest h htag header, peekAll_refillRequest h hdate header⟩

/-! ## Origins -/

/-- The validators of the current representation, as lines that match them. -/
structure Representation where
  noneMatch : List Bytes → Bool
  since : List Bytes → Bool

def Representation.notModified (r : Representation) (tags dates : List Bytes) : Bool :=
  if tags ≠ [] then r.noneMatch tags else if dates ≠ [] then r.since dates else false

def Representation.has (r : Representation) (v : Validators) : Bool :=
  if v.etag ≠ [] then r.noneMatch [quoteETag v.etag]
  else
    match v.lastModified with
    | some t => r.since [h.formatTime t]
    | none => false

/-- An origin that answers 304 exactly if the conditional lines match. -/
structure Origin where
  current : Representation
  respond : Raw → Fetched
  honest : ∀ req, (respond req).statusCode = statusNotModified ↔
    current.notModified (req.peekAll Field.ifNoneMatch) (req.peekAll Field.ifModifiedSince) = true

def Origin.of (r : Representation) : Origin where
  current := r
  respond req :=
    fetchedWith
      (if r.notModified (req.peekAll Field.ifNoneMatch) (req.peekAll Field.ifModifiedSince) then 304
        else 200)
      Map.empty
  honest req := by
    unfold fetchedWith
    split_ifs with hnot
    · exact iff_of_true rfl hnot
    · exact iff_of_false (by decide) hnot

theorem Origin.status_request_iff (o : Origin) (a : Ask) :
    (o.respond (a.request h)).statusCode = statusNotModified ↔
      o.current.notModified a.tags (a.dates h) = true := by
  rw [o.honest, (peekAll_conditionals_request h a).1, (peekAll_conditionals_request h a).2]

/-! ## Refreshed objects -/

inductive Refresher where
  | foreground
  | background
deriving DecidableEq

/-- The refreshed object that `revalidate` or `doBackgroundRevalidate` stores; the latter leaves
resolvers alone. -/
def Refresher.refreshed (f : Filler W) (r : Refresher) (stale : Stored) (res : Fetched)
    (ri : CapturedRequest) (now : Int) : Option Stored :=
  if r = .background ∧ stale.isVaryResolver then none
  else if res.statusCode = statusNotModified then some (refreshFrom304 f stale res ri now)
  else none

/-- The lines ask for the object's own validator only, or for none at all. -/
def AsksOwn (v : Validators) (tags dates : List Bytes) : Prop :=
  (tags = [] ∧ dates = []) ∨ (v.etag ≠ [] ∧ tags = [quoteETag v.etag]) ∨
    (v.etag = [] ∧ ∃ t, v.lastModified = some t ∧ tags = [] ∧ dates = [h.formatTime t])

theorem asksOwn_iff (v : Validators) (tags dates : List Bytes) :
    (∀ r : Representation, r.notModified tags dates → r.has h v) ↔
      AsksOwn h v tags dates := by
  constructor
  · intro hall
    by_cases htags : tags = []
    · by_cases hdates : dates = []
      · exact .inl ⟨htags, hdates⟩
      · -- an origin that matches these dates and nothing else
        have hhas := hall ⟨fun _ => false, fun ls => ls = dates⟩
          (by simp [Representation.notModified, htags, hdates])
        obtain ⟨etag, lm⟩ := v
        simp only [Representation.has] at hhas
        cases lm with
        | none => simp at hhas
        | some t =>
          have : etag = [] ∧ [h.formatTime t] = dates := by simpa using hhas
          exact .inr (.inr ⟨this.1, t, rfl, htags, this.2.symm⟩)
    · have hhas := hall ⟨fun ls => ls = tags, fun _ => false⟩
        (by simp [Representation.notModified, htags])
      by_cases hetag : v.etag = []
      · exfalso
        rw [Representation.has, if_neg (by simpa using hetag)] at hhas
        cases hlm : v.lastModified <;> simp [hlm] at hhas
      · rw [Representation.has, if_pos hetag] at hhas
        have : [quoteETag v.etag] = tags := by simpa using hhas
        exact .inr (.inl ⟨hetag, this.symm⟩)
  · intro hown r hnot
    rcases hown with ⟨htags, hdates⟩ | ⟨hetag, htags⟩ | ⟨hetag, t, hlm, htags, hdates⟩
    · simp [Representation.notModified, htags, hdates] at hnot
    · simpa [Representation.notModified, Representation.has, htags, hetag] using hnot
    · simpa [Representation.notModified, Representation.has, htags, hdates, hetag, hlm] using hnot

/-- Whatever the origin, a 304 of the flight refreshes only an object whose validator the current
representation has, exactly if it is a resolver that the background leaves alone or the flight's
leader asked for that validator alone, or for none. -/
theorem refreshed_only_if_validated_iff (f : Filler W) (r : Refresher) (leader : Ask)
    (stale : Stored) :
    (∀ (o : Origin) (ri : CapturedRequest) (now : Int),
        (r.refreshed f stale (o.respond (leader.request h)) ri now).isSome = true →
          o.current.has h stale.validators = true) ↔
      (r = .background ∧ stale.isVaryResolver = true) ∨
        AsksOwn h stale.validators leader.tags (leader.dates h) := by
  by_cases hskip : r = .background ∧ stale.isVaryResolver = true
  · refine iff_of_true (fun o ri now hsome => ?_) (.inl hskip)
    rw [Refresher.refreshed, if_pos hskip] at hsome
    simp at hsome
  · rw [or_iff_right hskip, ← asksOwn_iff]
    have hrefresh : ∀ (o : Origin) ri now,
        (r.refreshed f stale (o.respond (leader.request h)) ri now).isSome ↔
          o.current.notModified leader.tags (leader.dates h) = true := by
      intro o ri now
      rw [Refresher.refreshed, ← o.status_request_iff]
      split_ifs with hstatus <;> simp [hstatus]
    constructor
    · intro hall rep hnot
      exact hall (Origin.of rep) plainRequest 0 ((hrefresh _ _ _).2 hnot)
    · intro hall o ri now hsome
      exact hall o.current ((hrefresh o ri now).1 hsome)

end

/-! ## A client's tag revives an old body -/

def plainOutbound : Outbound Int := ⟨asciiLib, none, ⟨id, peekAll_id⟩, fun _ => ascii "old"⟩

def datedObject : Stored :=
  { (filled minuteHeader 0).obj with lastModified := 1 }

def currentClient : Raw := ⟨[⟨Field.ifNoneMatch, ascii "\"new\""⟩]⟩

def newRepresentation : Representation :=
  ⟨fun tags => tags = [ascii "\"new\""], fun dates => dates = [ascii "new"]⟩

theorem client_tag_refreshes_old_object :
    ∃ res, res = (Origin.of newRepresentation).respond
        ((Ask.revalidate currentClient datedObject.validators).request plainOutbound) ∧
      (Refresher.foreground.refreshed plainFiller datedObject res plainRequest 60).map
        (fun o => (o.body, o.fresh 60)) = some (ascii "body", true) ∧
      newRepresentation.has plainOutbound datedObject.validators = false :=
  ⟨_, rfl, by decide⟩

end Bouine.Cache
