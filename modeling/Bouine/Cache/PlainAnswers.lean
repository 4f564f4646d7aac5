import Bouine.Cache.Serving

/-! # Answers to plain requests

A request with a Range line may be answered with a part of the body, and one with If-None-Match or
If-Modified-Since with no body. These lines go on to the origin, and are part of no key. The file
says when a request without them is never answered with 206 or 304, from the store or from what
another has fetched.
-/

namespace Bouine.Cache.Serving

open Lib Lib.Transition Header Bouine.Server List Option Bool
open TeeFill (FetchResult publishFillVerdict)
open FillGates (Fill isInvalidating)

def statusPartialContent : Nat := 206

/-! ## The statement -/

def Full (hdr : Raw) : Prop := ∀ name ∈ Field.partialRequest, hdr.peekAll name = []

def Whole (hdr : Raw) : Prop := hdr.peekAll Field.range = []

def Unconditional (hdr : Raw) : Prop :=
  hdr.peekAll Field.ifNoneMatch = [] ∧ hdr.peekAll Field.ifModifiedSince = []

instance (hdr : Raw) : Decidable (Full hdr) := inferInstanceAs (Decidable (∀ name ∈ _, _))
instance (hdr : Raw) : Decidable (Whole hdr) := inferInstanceAs (Decidable (_ = _))
instance (hdr : Raw) : Decidable (Unconditional hdr) := inferInstanceAs (Decidable (_ ∧ _))

def Client.Plain : Client → Prop
  | fast req => ∀ name ∈ Field.partialRequest, ∀ l ∈ req.headers, equalFold l.key name = false
  | slow live => Full live.header

instance : DecidablePred Client.Plain
  | .fast req => inferInstanceAs (Decidable (∀ name ∈ Field.partialRequest, ∀ l ∈ req.headers, _))
  | .slow live => inferInstanceAs (Decidable (Full live.header))

def Complete (status : Nat) : Prop := status ≠ statusPartialContent ∧ status ≠ statusNotModified

instance (status : Nat) : Decidable (Complete status) := inferInstanceAs (Decidable (_ ∧ _))

def System.AnsweredInFull (s : System) : Prop := ∀ a ∈ s.answers, a.client.Plain → Complete a.status

def HonestTo (sent : Raw) (status : Nat) : Prop :=
  (status = statusPartialContent → ¬ Whole sent) ∧ (status = statusNotModified → ¬ Unconditional sent)

instance (sent : Raw) (status : Nat) : Decidable (HonestTo sent status) :=
  inferInstanceAs (Decidable (_ ∧ _))

def System.Honest (s : System) : Act → Prop
  | .respond f (.ok a) => ∀ fetch ∈ s.fetches[f]?, HonestTo fetch.sent a.resp.status
  | _ => True

instance (s : System) : ∀ a, Decidable (s.Honest a)
  | .respond f (.ok _) => inferInstanceAs (Decidable (∀ fetch ∈ s.fetches[f]?, _))
  | .respond _ (.error _) | .ask .. | .askFast .. | .resume .. | .publish _ | .keep .. | .unpark ..
  | .forget _ | .remove _ | .startJob .. | .finishJob .. | .evict _ => inferInstanceAs (Decidable True)

/-! ## The condition -/

/-- What the origin must have been asked, for a plain request to use the response. A revalidation
deals with the 304 itself. -/
def Purpose.Accepts : Purpose → Raw → Prop
  | .revalidate .., sent | .resolve .., sent => Whole sent
  | .relay, sent | .proxy, sent | .stream .., sent | .alive .., sent => Full sent

instance (p : Purpose) (sent : Raw) : Decidable (p.Accepts sent) := by
  cases p <;> unfold Purpose.Accepts <;> infer_instance

namespace System

variable {W : Type*} (c : Server W) (s : System)

def PlanFits (live : Live) : Plan → Prop
  | .join key _ p => Full live.header → ∀ id ∈ s.single key, ∀ call ∈ s.calls[id]?,
    ∀ f ∈ s.fetches[call.fetch]?, p.Accepts f.sent
  | .park id false _ => Full live.header → ∀ fl ∈ s.flights[id]?,
    ∀ f ∈ s.fetches[fl.fetch]?, Full f.sent
  | .park _ true _ | .answer _ | .fetch .. | .lead .. => True

instance (live : Live) : ∀ plan, Decidable (s.PlanFits live plan)
  | .join key _ p => inferInstanceAs (Decidable (Full live.header → ∀ id ∈ s.single key,
      ∀ call ∈ s.calls[id]?, ∀ f ∈ s.fetches[call.fetch]?, p.Accepts f.sent))
  | .park id false _ => inferInstanceAs (Decidable (Full live.header → ∀ fl ∈ s.flights[id]?,
      ∀ f ∈ s.fetches[fl.fetch]?, Full f.sent))
  | .park _ true _ | .answer _ | .fetch .. | .lead .. => inferInstanceAs (Decidable True)

def planOf : Act → Option (Live × Plan)
  | .ask live m => some (live, plan c s live false m.memo m.now)
  | .resume i _ m => do
    let t ← s.tasks[i]?
    match t.stage with
    | .waiting fetch call p => do
      let r ← s.resultOf fetch
      let o ← s.outcome c t call m r p
      pure (t.live, o.plan)
    | _ => none
  | .unpark i m => do
    let t ← s.tasks[i]?
    match t.stage with
    | .parked flight isFill keys => do
      let f ← s.flights[flight]?
      let p ← s.followerPlan c t.live m isFill keys f
      pure (t.live, p)
    | _ => none
  | .askFast .. | .respond .. | .publish _ | .keep .. | .forget _ | .remove _ | .startJob ..
  | .finishJob .. | .evict _ => none

def fillOf : Act → Option Fill
  | .resume i _ m => do
    let t ← s.tasks[i]?
    match t.stage with
    | .waiting fetch _ p =>
      match s.resultOf fetch, p with
      | some (.ok a), .proxy => some (postFill c t.live a)
      | some (.ok a), .alive .. | some (.ok a), .revalidate .. | some (.ok a), .resolve .. =>
        some (throughFill c t.live a m.slotFree)
      | _, _ => none
    | _ => none
  | .keep i _ => do
    let t ← s.tasks[i]?
    match t.stage with
    | .storing a st _ _ => some (streamFill c t.live a st)
    | _ => none
  | .finishJob j _ => do
    let job ← s.jobs[j]?
    match s.resultOf job.fetch with
    | some (.ok a) => some (jobFill job a)
    | _ => none
  | .ask .. | .askFast .. | .respond .. | .publish _ | .unpark .. | .forget _ | .remove _
  | .startJob .. | .evict _ => none

/-- The condition on an act: a plain request shares only what it can use, and no part of a body
passes a gate. -/
def Fits (a : Act) : Prop :=
  (∀ p ∈ s.planOf c a, s.PlanFits p.1 p.2) ∧
    ∀ f ∈ s.fillOf c a, f.resp.status = statusPartialContent → c.stores f = false

instance (a : Act) : Decidable (s.Fits c a) := inferInstanceAs (Decidable (_ ∧ _))

end System

def Server.KeepsPlain {W : Type*} (c : Server W) : Prop :=
  ∀ name ∈ Field.partialRequest, name ∉ c.gates.rewrite.set.map Prod.fst

instance {W : Type*} (c : Server W) : Decidable c.KeepsPlain :=
  inferInstanceAs (Decidable (∀ name ∈ Field.partialRequest, _))

/-! ## Requests to the origin -/

theorem range_mem : Field.range ∈ Field.partialRequest := by simp [Field.partialRequest]

theorem ifNoneMatch_mem : Field.ifNoneMatch ∈ Field.partialRequest := by simp [Field.partialRequest]

theorem ifModifiedSince_mem : Field.ifModifiedSince ∈ Field.partialRequest := by
  simp [Field.partialRequest]

theorem Full.whole {hdr : Raw} (h : Full hdr) : Whole hdr := h _ range_mem

theorem Full.complete {sent : Raw} {status : Nat} (h : Full sent) (hs : HonestTo sent status) :
    Complete status :=
  ⟨fun he => hs.1 he h.whole, fun he => hs.2 he ⟨h _ ifNoneMatch_mem, h _ ifModifiedSince_mem⟩⟩

section

variable {W : Type*} {c : Server W} {live : Live}

theorem full_header (hc : c.KeepsPlain) (h : Full live.header) : Full (c.header live) := by
  intro name hname
  unfold Server.header
  split_ifs
  · exact h name hname
  · rw [Rewrite.rewriteRequestCtx, Rewrite.peekAll_apply, h name hname]
    exact (Rewrite.lines_of_not_set _ _ (hc name hname) []).trans (ite_self [])

variable {hdr : Raw}

variable (h : Full hdr)
include h

theorem full_streamRequest : Full (streamRequest c.out hdr) := by
  intro name hname
  rw [peekAll_streamRequest c.out hname hdr, h name hname]

theorem full_fetchRequest : Full (fetchRequest c.out hdr) := by
  intro name hname
  rw [peekAll_fetchRequest c.out hname hdr, h name hname]

theorem full_proxyRequest : Full (proxyRequest c.out hdr) := by
  intro name hname
  rw [peekAll_proxyRequest c.out hname hdr, h name hname]

theorem whole_revalidateRequest (v : Validators) :
    Whole (revalidateRequest c.out hdr v) := by
  rw [Whole, revalidateRequest, range_setConditionalHeaders]
  exact (full_fetchRequest h).whole

theorem whole_resolverRequest (v : Validators) :
    Whole (resolverRequest c.out hdr v) := by
  rw [Whole, range_resolverRequest]
  exact h.whole

theorem peek_of_full {name : Bytes} (hname : name ∈ Field.partialRequest) :
    hdr.peek name = [] := by
  have hne : ∀ f ∈ Field.partialRequest, f ≠ setCookie := by decide
  rw [peek_eq (hne name hname), h name hname]
  rfl

theorem not_conditional_of_full (timeParse : TimeParse) (obj : Stored) :
    tryConditional304Fast timeParse hdr obj = false := by
  unfold tryConditional304Fast
  simp [peek_of_full h ifNoneMatch_mem, peek_of_full h ifModifiedSince_mem]

end

/-! ## What is stored -/

section

variable {timeParse : TimeParse} {h : Route} {f : Fill}

theorem ne_304_of_allowed (hallowed : FillGates.Allowed timeParse h f) :
    f.resp.status ≠ statusNotModified := by
  intro h304
  have hgate := hallowed.2
  simp [ParsedResponse.isCacheableWithDefault, ParsedResponse.isCacheable, parsed, h304, isHeuristicStatus, statusNotModified] at hgate

theorem ne_304_of_streamGate {hasResp : Bool}
    (hgate : FillGates.streamGate timeParse h f hasResp = some true) :
    f.resp.status ≠ statusNotModified := by
  unfold FillGates.streamGate at hgate
  split_ifs at hgate
  · have hbytes := some.inj hgate
    unfold isResponseCacheableBytes at hbytes
    intro h304
    simp [h304] at hbytes
  · exact ne_304_of_allowed (FillGates.allowed_of_isResponseCacheable hgate)

theorem ne_304_of_stores (hstores : FillGates.stores timeParse h f) :
    f.resp.status ≠ statusNotModified := by
  have hmap : FillGates.mapGate timeParse h f → f.resp.status ≠ statusNotModified := by
    intro hgate
    exact ne_304_of_allowed (FillGates.allowed_of_mapGate hgate)
  rw [FillGates.stores, and_eq_true] at hstores
  replace hstores := hstores.2
  split at hstores
  · exact ne_304_of_streamGate (FillGates.gate_of_streamStores hstores)
  · simp only [and_eq_true] at hstores
    exact hmap hstores.1.2
  · simp only [and_eq_true] at hstores
    exact hmap hstores.2
  · exact hmap hstores
  · simp only [and_eq_true, bne_iff_ne] at hstores
    exact hstores.1.1
  · simp only [and_eq_true, FillGates.postStores, bne_iff_ne] at hstores
    exact hstores.2.1.1.2

end

section

variable {W : Type*} (h : Filler W)

theorem status_of_fillWrites {primaryKey : Key} {ri : CapturedRequest} {res : Fetched}
    {ttl : Option Int} {clock now : Int} {w : Key × Stored}
    (hw : w ∈ fillWrites h primaryKey ri res ttl clock now) : w.2.statusCode = res.statusCode := by
  unfold fillWrites at hw
  dsimp only at hw
  split_ifs at hw
  · rw [mem_singleton.1 hw]
    rfl
  · rcases mem_cons.1 hw with rfl | hw
    · rfl
    · rw [mem_singleton.1 hw]
      rfl

theorem complete_of_stores {c : Server W} {f : Fill} (hstores : c.stores f)
    (hpart : f.resp.status = statusPartialContent → c.stores f = false) : Complete f.resp.status := by
  refine ⟨fun h206 => ?_, ne_304_of_stores hstores⟩
  rw [hpart h206] at hstores
  cases hstores

end

/-! ## What is found -/

variable {obj : Stored}

theorem lookup_stored {store : Key → Option Stored} {primary : Key} {vk : Bytes → Key}
    (h : (lookup store primary vk).obj = some obj ∨ (lookup store primary vk).resolver = some obj) :
    ∃ k, store k = some obj := by
  unfold lookup at h
  repeat' split at h
  all_goals simp at h
  all_goals
    subst h
    exact ⟨_, ‹_›⟩

theorem evaluate_object {o : Option Stored} {cc : Directives} {rg : RespGate} {now : Int}
    (h : (evaluate o cc rg now).object = some obj) : o = some obj := by
  rcases about_evaluate cc now o rg with hobj | ⟨hnone, -⟩
  · exact hobj.symm.trans h
  · rw [hnone] at h
    cases h

/-! ## The invariant -/

def Purpose.Keeps : Purpose → Prop
  | .alive _ obj _ | .revalidate _ obj _ | .resolve _ obj _ => Complete obj.statusCode
  | .relay | .proxy | .stream .. => True

def Purpose.leads : Purpose → Option Nat
  | .stream flight _ => flight
  | .relay | .proxy | .alive .. | .revalidate .. | .resolve .. => none

namespace System

section

variable (s : System)

def sentAt (f : Nat) : Option Raw := (s.fetches[f]?).map Fetch.sent

def fetchAt (id : Nat) : Option Nat := (s.flights[id]?).map Flight.fetch

def FlightSent (id : Nat) (p : Raw → Prop) : Prop :=
  ∃ f sent, s.fetchAt id = some f ∧ s.sentAt f = some sent ∧ p sent

def StageOk (live : Live) : Stage → Prop
  | .waiting f _ p => p.Keeps ∧ (∀ id, p.leads = some id → s.fetchAt id = some f) ∧
    ∃ sent, s.sentAt f = some sent ∧ (Full live.header → p.Accepts sent)
  | .filling a _ flight _ | .storing a _ flight _ =>
    ∀ id ∈ flight, s.FlightSent id (HonestTo · a.resp.status)
  | .parked id isFill _ => isFill = false → s.FlightSent id fun sent => Full live.header → Full sent
  | .start | .done => True

structure Sound : Prop where
  store : ∀ k obj, s.store k = some obj → Complete obj.statusCode
  fetches : ∀ f ∈ s.fetches, ∀ a, f.result = some (.ok a) → HonestTo f.sent a.resp.status
  flights : ∀ id fl, s.flights[id]? = some fl → s.FlightSent id fun sent =>
    ∀ res, fl.verdict = some (.ok res) → HonestTo sent res.statusCode
  table : ∀ k id, s.table k = some id → (s.fetchAt id).isSome
  calls : ∀ call ∈ s.calls, (s.sentAt call.fetch).isSome
  tasks : ∀ t ∈ s.tasks, s.StageOk t.live t.stage
  jobs : ∀ j ∈ s.jobs, ∀ stale ∈ j.stale, Complete stale.statusCode
  answers : s.AnsweredInFull

structure Later (s t : System) : Prop where
  sent : ∀ f r, s.sentAt f = some r → t.sentAt f = some r
  fetch : ∀ id f, s.fetchAt id = some f → t.fetchAt id = some f

end

variable {s t : System}

theorem later_of_eq (hf : t.fetches = s.fetches) (hfl : t.flights = s.flights) : s.Later t :=
  ⟨fun f r h => by rwa [sentAt, hf], fun id f h => by rwa [fetchAt, hfl]⟩

theorem Later.sent_isSome (hst : s.Later t) {f : Nat} (h : (s.sentAt f).isSome) :
    (t.sentAt f).isSome := by
  obtain ⟨r, hr⟩ := isSome_iff_exists.1 h
  exact isSome_iff_exists.2 ⟨r, hst.sent f r hr⟩

theorem Later.fetch_isSome (hst : s.Later t) {id : Nat} (h : (s.fetchAt id).isSome) :
    (t.fetchAt id).isSome := by
  obtain ⟨f, hf⟩ := isSome_iff_exists.1 h
  exact isSome_iff_exists.2 ⟨f, hst.fetch id f hf⟩

theorem FlightSent.mono {id : Nat} {p q : Raw → Prop} (h : s.FlightSent id p) (hst : s.Later t)
    (hpq : ∀ sent, p sent → q sent) : t.FlightSent id q := by
  obtain ⟨f, sent, hf, hsent, hp⟩ := h
  exact ⟨f, sent, hst.fetch id f hf, hst.sent f sent hsent, hpq sent hp⟩

theorem StageOk.mono {live : Live} {stage : Stage} (h : s.StageOk live stage) (hst : s.Later t) :
    t.StageOk live stage := by
  cases stage with
  | start | done => trivial
  | waiting f call p =>
    obtain ⟨hkeeps, hleads, sent, hsent, haccepts⟩ := h
    exact ⟨hkeeps, fun id hid => hst.fetch id f (hleads id hid), sent, hst.sent f sent hsent, haccepts⟩
  | filling a st flight primary | storing a st flight primary =>
    exact fun id hid => (h id hid).mono hst fun _ h => h
  | parked id isFill keys => exact fun hfill => (h hfill).mono hst fun _ h => h

/-! ### Parts of the steps -/

def PlanOk (s : System) (live : Live) : Plan → Prop
  | .answer status => Full live.header → Complete status
  | .fetch sent p | .join _ sent p =>
    p.Keeps ∧ p.leads = none ∧ (Full live.header → p.Accepts sent)
  | .lead _ sent _ => Full live.header → Full sent
  | .park id _ _ => (s.fetchAt id).isSome

theorem foldl_put_rest (ws : List (Key × Stored)) :
    ∃ store tasks, ws.foldl System.put s = { s with store, tasks } := by
  induction ws generalizing s with
  | nil => exact ⟨s.store, s.tasks, rfl⟩
  | cons w ws ih => exact ih (s := s.put w)

theorem later_of_append {fs : List Fetch} (fls : List Flight) (hf : t.fetches = s.fetches ++ fs)
    (hfl : t.flights = s.flights ++ fls) : s.Later t := by
  refine ⟨fun f r h => ?_, fun id f h => ?_⟩
  · obtain ⟨fetch, hfetch, rfl⟩ := map_eq_some_iff.1 h
    rw [sentAt, hf, getElem?_append_left (List.getElem?_eq_some_iff.1 hfetch).1, hfetch]
    rfl
  · obtain ⟨fl, hflight, rfl⟩ := map_eq_some_iff.1 h
    rw [fetchAt, hfl, getElem?_append_left (List.getElem?_eq_some_iff.1 hflight).1, hflight]
    rfl

theorem sentAt_append {fs : List Fetch} {sent : Raw} (hf : t.fetches = fs ++ [⟨sent, none⟩]) :
    t.sentAt fs.length = some sent := by
  rw [sentAt, hf, getElem?_concat_length]
  rfl

theorem later_settle (id : Nat) (v : Option (Except FlightError FetchResult)) (settled : Bool) :
    s.Later (s.settle (some id) v settled) := by
  refine ⟨fun f r h => h, fun j f h => ?_⟩
  obtain ⟨fl, hfl, rfl⟩ := map_eq_some_iff.1 h
  simp only [fetchAt, System.settle, getElem?_modify, hfl]
  split_ifs <;> rfl

section

variable (hs : s.Sound)
include hs

theorem Sound.put {w : Key × Stored} (hw : Complete w.2.statusCode) : (s.put w).Sound := by
  refine { hs with store := fun k obj hobj => ?_ }
  rcases update_eq_some hobj with ⟨-, rfl⟩ | ⟨-, hobj⟩
  · exact hw
  · exact hs.store k obj hobj

theorem Sound.foldl_put {ws : List (Key × Stored)}
    (hws : ∀ w ∈ ws, Complete w.2.statusCode) : (ws.foldl System.put s).Sound := by
  exact foldlRecOn ws _ hs fun _ hs w hw => hs.put (hws w hw)

theorem Sound.setTask {i : Nat} {t : Task} {stage : Stage}
    (ht : s.StageOk t.live stage) : (s.setTask i t stage).Sound := by
  refine { hs with tasks := fun u hu => ?_ }
  rcases mem_or_eq_of_mem_set hu with hu | rfl
  · exact hs.tasks u hu
  · exact ht

theorem Sound.answer {live : Live} {status : Nat}
    (hst : Full live.header → Complete status) : (s.answer live status).Sound :=
  { hs with answers := forall_mem_cons.2 ⟨hst, hs.answers⟩ }

theorem Sound.grow (hst : s.Later t) (hstore : t.store = s.store)
    (hanswers : t.answers = s.answers) (hjobs : t.jobs = s.jobs) (htasks : t.tasks = s.tasks)
    (hfetches : ∀ f ∈ t.fetches, ∀ a, f.result = some (.ok a) → HonestTo f.sent a.resp.status)
    (hflights : ∀ id fl, t.flights[id]? = some fl → t.FlightSent id fun sent =>
      ∀ res, fl.verdict = some (.ok res) → HonestTo sent res.statusCode)
    (htable : ∀ k id, t.table k = some id → (t.fetchAt id).isSome)
    (hcalls : ∀ call ∈ t.calls, (t.sentAt call.fetch).isSome) : t.Sound where
  store := by rw [hstore]; exact hs.store
  fetches := hfetches
  flights := hflights
  table := htable
  calls := hcalls
  tasks := by rw [htasks]; exact fun u hu => (hs.tasks u hu).mono hst
  jobs := by rw [hjobs]; exact hs.jobs
  answers := by unfold AnsweredInFull; rw [hanswers]; exact hs.answers

theorem Sound.grow_fetch {sent : Raw} (fls : List Flight)
    (hf : t.fetches = s.fetches ++ [⟨sent, none⟩]) (hfl : t.flights = s.flights ++ fls)
    (hstore : t.store = s.store) (hanswers : t.answers = s.answers) (hjobs : t.jobs = s.jobs)
    (htasks : t.tasks = s.tasks)
    (hnew : ∀ fl ∈ fls, fl.verdict = none ∧ (t.sentAt fl.fetch).isSome)
    (htable : ∀ k id, t.table k = some id → (t.fetchAt id).isSome)
    (hcalls : ∀ call ∈ t.calls, call ∈ s.calls ∨ (t.sentAt call.fetch).isSome) : t.Sound := by
  have hst : s.Later t := later_of_append fls hf hfl
  refine hs.grow hst hstore hanswers hjobs htasks (fun f hmem a ha => ?_) (fun id fl hid => ?_) htable
    fun call hcall => ?_
  · rw [hf] at hmem
    exact forall_mem_concat.2 ⟨hs.fetches, fun _ h => by cases h⟩ f hmem a ha
  · by_cases hlt : id < s.flights.length
    · rw [hfl, getElem?_append_left hlt] at hid
      exact (hs.flights id fl hid).mono hst fun _ h => h
    · have hmem : fl ∈ fls := by
        rw [hfl, getElem?_append_right (not_lt.1 hlt)] at hid
        exact mem_of_getElem? hid
      obtain ⟨hverdict, hsome⟩ := hnew fl hmem
      obtain ⟨r, hr⟩ := isSome_iff_exists.1 hsome
      refine ⟨fl.fetch, r, ?_, hr, fun res hres => ?_⟩
      · rw [fetchAt, hid]
        rfl
      · rw [hverdict] at hres
        cases hres
  · rcases hcalls call hcall with hcall | hcall
    · exact hst.sent_isSome (hs.calls call hcall)
    · exact hcall

theorem Sound.addFetch (sent : Raw) : Sound { s with fetches := s.fetches ++ [⟨sent, none⟩] } := by
  refine hs.grow_fetch [] rfl (append_nil _).symm rfl rfl rfl rfl (by simp) hs.table
    fun call hcall => .inl hcall

theorem Sound.join (key : Key) (sent : Raw) : (s.join key sent).1.Sound := by
  unfold System.join
  split
  · next id call hcall =>
    refine { hs with calls := fun d hd => ?_ }
    rcases mem_or_eq_of_mem_set hd with hd | rfl
    · exact hs.calls d hd
    · obtain ⟨id', -, hid'⟩ := bind_eq_some_iff.1 hcall
      obtain ⟨call', hcall', heq⟩ := map_eq_some_iff.1 hid'
      cases heq
      exact hs.calls call (mem_of_getElem? hcall')
  · refine hs.grow_fetch [] rfl (append_nil _).symm rfl rfl rfl rfl (by simp) hs.table
      fun call hcall => ?_
    rcases mem_append.1 hcall with hcall | hcall
    · exact .inl hcall
    · rw [mem_singleton.1 hcall]
      right
      rw [sentAt_append rfl]
      rfl

theorem join_sent (key : Key) (sent : Raw) :
    s.Later (s.join key sent).1 ∧ ∃ r, (s.join key sent).1.sentAt (s.join key sent).2.2 = some r ∧
      (r = sent ∨ ∃ id ∈ s.single key, ∃ call ∈ s.calls[id]?, ∃ f ∈ s.fetches[call.fetch]?,
        f.sent = r) := by
  unfold System.join
  split
  · next id call hcall =>
    obtain ⟨id', hid, hid'⟩ := bind_eq_some_iff.1 hcall
    obtain ⟨call', hcall', heq⟩ := map_eq_some_iff.1 hid'
    cases heq
    obtain ⟨r, hr⟩ := isSome_iff_exists.1 (hs.calls call (mem_of_getElem? hcall'))
    obtain ⟨f, hf, hsent⟩ := map_eq_some_iff.1 hr
    exact ⟨later_of_eq rfl rfl, r, hr, .inr ⟨id, hid, call, hcall', f, hf, hsent⟩⟩
  · exact ⟨later_of_append [] rfl (append_nil _).symm, sent, sentAt_append rfl, .inl rfl⟩

theorem Sound.settle {flight : Option Nat}
    {v : Option (Except FlightError FetchResult)} {settled : Bool}
    (hv : ∀ id ∈ flight, ∀ res, v = some (.ok res) → s.FlightSent id (HonestTo · res.statusCode)) :
    (s.settle flight v settled).Sound := by
  cases flight with
  | none => exact hs
  | some id =>
    have hst : s.Later (s.settle (some id) v settled) := later_settle id v settled
    refine hs.grow hst rfl rfl rfl rfl hs.fetches (fun j fl hj => ?_) (fun k j hj => ?_) hs.calls
    · obtain ⟨old, hold, -, hverdict⟩ : ∃ old, s.flights[j]? = some old ∧ fl.fetch = old.fetch ∧
          (fl.verdict = old.verdict ∨ (j = id ∧ fl.verdict = old.verdict.or v)) := by
        simp only [System.settle, getElem?_modify] at hj
        obtain ⟨old, hold, rfl⟩ := map_eq_some_iff.1 hj
        refine ⟨old, hold, ?_⟩
        split_ifs with hid
        · exact ⟨rfl, .inr ⟨hid.symm, rfl⟩⟩
        · exact ⟨rfl, .inl rfl⟩
      have hsent := (hs.flights j old hold).mono hst fun _ h => h
      rcases hverdict with hverdict | ⟨rfl, hverdict⟩
      · rwa [hverdict]
      · -- a flight keeps its first verdict
        cases hov : old.verdict with
        | some w =>
          rw [hverdict, hov]
          rwa [hov] at hsent
        | none =>
          rw [hverdict, hov]
          obtain ⟨f, sent, hf, hsent, -⟩ := hsent
          refine ⟨f, sent, hf, hsent, fun res hres => ?_⟩
          obtain ⟨f', sent', hf', hsent', hhonest⟩ := (hv j rfl res hres).mono hst fun _ => id
          cases hf.symm.trans hf'
          cases hsent.symm.trans hsent'
          exact hhonest
    · exact hst.fetch_isSome (hs.table k j hj)

/-! ### Plans -/

theorem Sound.fetchAt_sent {id : Nat} (h : (s.fetchAt id).isSome) :
    ∃ f sent, s.fetchAt id = some f ∧ s.sentAt f = some sent := by
  obtain ⟨f, hf⟩ := isSome_iff_exists.1 h
  obtain ⟨fl, hfl, rfl⟩ := map_eq_some_iff.1 hf
  obtain ⟨f', sent, hf', hsent, -⟩ := hs.flights id fl hfl
  cases hf.symm.trans hf'
  exact ⟨fl.fetch, sent, hf, hsent⟩

theorem Sound.lead {i : Nat} {t : Task} {key primary : Key} {sent : Raw}
    (hplan : Full t.live.header → Full sent) : (s.enact i t (.lead key sent primary)).Sound := by
  have hfl : ∀ t : System, t.flights = s.flights ++ [⟨key, s.fetches.length, none, false⟩] →
      t.fetchAt s.flights.length = some s.fetches.length := by
    intro t ht
    rw [fetchAt, ht, getElem?_concat_length]
    rfl
  refine Sound.setTask ?_ ⟨trivial, fun id hid => ?_, sent, sentAt_append rfl, hplan⟩
  · refine hs.grow_fetch [⟨key, s.fetches.length, none, false⟩] rfl rfl rfl rfl rfl rfl
      (fun fl hmem => ?_) (fun k id hid => ?_) fun call hcall => .inl hcall
    · rw [mem_singleton.1 hmem]
      refine ⟨rfl, ?_⟩
      rw [sentAt_append rfl]
      rfl
    · rcases update_eq_some hid with ⟨-, rfl⟩ | ⟨-, hid⟩
      · rw [hfl _ rfl]
        rfl
      · exact Later.fetch_isSome (later_of_append _ rfl rfl) (hs.table k id hid)
  · cases hid
    exact hfl _ rfl

theorem Sound.enact {i : Nat} {t : Task} {plan : Plan} (hplan : s.PlanOk t.live plan)
    (hfits : s.PlanFits t.live plan) : (s.enact i t plan).Sound := by
  cases plan with
  | answer status => exact (hs.answer hplan).setTask trivial
  | fetch sent p =>
    obtain ⟨hkeeps, hleads, haccepts⟩ := hplan
    exact (hs.addFetch sent).setTask ⟨hkeeps, by simp [hleads], sent, sentAt_append rfl, haccepts⟩
  | join key sent p =>
    obtain ⟨hkeeps, hleads, haccepts⟩ := hplan
    obtain ⟨-, r, hr, hsent⟩ := join_sent hs key sent
    refine (hs.join key sent).setTask ⟨hkeeps, by simp [hleads], r, hr, fun hplain => ?_⟩
    rcases hsent with rfl | ⟨id, hid, call, hcall, f, hf, rfl⟩
    · exact haccepts hplain
    · exact hfits hplain id hid call hcall f hf
  | lead key sent primary => exact hs.lead hplan
  | park id isFill keys =>
    refine hs.setTask fun hfill => ?_
    obtain ⟨f, sent, hf, hsent⟩ := hs.fetchAt_sent hplan
    refine ⟨f, sent, hf, hsent, fun hplain => ?_⟩
    obtain ⟨fl, hfl, rfl⟩ := map_eq_some_iff.1 hf
    obtain ⟨fetch, hfetch, rfl⟩ := map_eq_some_iff.1 hsent
    subst hfill
    exact hfits hplain fl hfl fetch hfetch

end

section

variable {W : Type*} {c : Server W} {live : Live} {reentry memo : Bool} {now : Int}

theorem complete_of_error (e : FetchError) : Complete e.status := by
  cases e <;> decide

theorem planOk_collapsed {keys : Keys} {suffix : UInt64} {sent : Raw} {p : Purpose}
    (hkeeps : p.Keeps) (hleads : p.leads = none) (haccepts : Full live.header → p.Accepts sent) :
    s.PlanOk live (collapsed c live reentry keys suffix sent p) := by
  unfold collapsed
  dsimp only
  split_ifs <;> exact ⟨hkeeps, hleads, haccepts⟩

variable (hc : c.KeepsPlain)
include hc

theorem planOk_solo (primary : Key) : s.PlanOk live (solo c live primary) :=
  ⟨trivial, rfl, fun h => full_streamRequest (full_header hc h)⟩

theorem planOk_relay : s.PlanOk live (.fetch (streamRequest c.out (c.header live)) .relay) :=
  ⟨trivial, rfl, fun h => full_streamRequest (full_header hc h)⟩

theorem planOk_hit {obj : Stored} (hobj : Complete obj.statusCode) :
    s.PlanOk live (.answer (hitStatus c live obj)) := by
  intro h
  have hfull := full_header hc h
  unfold hitStatus
  rw [not_conditional_of_full hfull, if_neg (by simp), if_neg (by simp [peek_of_full hfull range_mem])]
  exact hobj

theorem planOk_handleBypass : s.PlanOk live (handleBypass c live) := by
  unfold handleBypass
  split_ifs
  · exact fun _ => by decide
  · exact planOk_relay hc

theorem planOk_serveCacheBypass : s.PlanOk live (serveCacheBypass c live) := by
  unfold serveCacheBypass
  split_ifs
  · exact planOk_relay hc
  · exact planOk_handleBypass hc

theorem planOk_serveInvalidating : s.PlanOk live (serveInvalidating c live) := by
  unfold serveInvalidating
  split_ifs
  · exact planOk_relay hc
  · exact ⟨trivial, rfl, fun h => full_proxyRequest (full_header hc h)⟩

variable (hs : s.Sound)
include hs

theorem planOk_fetchAndStore (keys : Keys) (stored : Bool) :
    s.PlanOk live (fetchAndStore c s live reentry memo keys stored) := by
  unfold fetchAndStore
  dsimp only
  split_ifs
  · exact planOk_solo hc _
  · exact planOk_solo hc _
  · exact planOk_solo hc _
  · split
    · next id hid => exact hs.table _ id hid
    · exact fun h => full_streamRequest (full_header hc h)

theorem planOk_fetchMiss (keys : Keys) {obj : Option Stored}
    (hobj : ∀ o ∈ obj, Complete o.statusCode) :
    s.PlanOk live (fetchMiss c s live reentry memo now keys obj) := by
  unfold fetchMiss
  cases obj with
  | none => exact planOk_fetchAndStore hc hs keys false
  | some stale =>
    dsimp only
    split_ifs
    · exact planOk_collapsed (hobj stale rfl) rfl fun h => full_fetchRequest (full_header hc h)
    · exact planOk_fetchAndStore hc hs keys true

theorem planOk_handleCacheMiss (primary : Key) {found : Lookup}
    (hobj : ∀ o ∈ found.obj, Complete o.statusCode)
    (hresolver : ∀ o ∈ found.resolver, Complete o.statusCode) :
    s.PlanOk live (handleCacheMiss c s live reentry memo now primary found) := by
  unfold handleCacheMiss
  split
  · exact planOk_fetchMiss hc hs _ hobj
  · next resolver hr =>
    split_ifs
    · exact ⟨hresolver resolver hr, rfl, fun h => whole_resolverRequest (full_header hc h) _⟩
    · exact planOk_fetchMiss hc hs _ hobj

theorem planOk_decided {found : Lookup} {disp : Disposition}
    (hobj : ∀ o ∈ found.obj, Complete o.statusCode)
    (hresolver : ∀ o ∈ found.resolver, Complete o.statusCode)
    (hdisp : ∀ o ∈ disp.object, Complete o.statusCode) :
    s.PlanOk live (decided c s live reentry memo now found disp) := by
  unfold decided
  split_ifs
  · exact planOk_relay hc
  · split
    · next obj _ hobject => exact planOk_hit hc (hdisp obj hobject)
    · next obj _ hobject => exact planOk_hit hc (hdisp obj hobject)
    · next stale _ hobject =>
      exact planOk_collapsed (hdisp stale hobject) rfl
        fun h => whole_revalidateRequest (full_header hc h) _
    · exact planOk_handleBypass hc
    · exact planOk_handleCacheMiss hc hs _ hobj hresolver

theorem planOk_plan : s.PlanOk live (plan c s live reentry memo now) := by
  unfold plan
  split_ifs
  · exact planOk_serveInvalidating hc
  · exact planOk_serveCacheBypass hc
  · split
    · exact planOk_serveInvalidating hc
    · exact planOk_serveCacheBypass hc
    · next found disp hdispatch =>
      unfold serveRequest at hdispatch
      dsimp only at hdispatch
      split_ifs at hdispatch
      obtain ⟨rfl, rfl⟩ := Dispatch.decide.inj hdispatch
      have hstored : ∀ o, (∃ k, s.store k = some o) → Complete o.statusCode :=
        fun o ⟨k, hk⟩ => hs.store k o hk
      have hobj : ∀ o ∈ (lookupLive c.route (c.around s.store) live.info
          (c.route.rewrite.rewriteRequestCtx live.header)).obj, Complete o.statusCode :=
        fun o ho => hstored o (lookup_stored (.inl ho))
      refine planOk_decided hc hs hobj (fun o ho => hstored o (lookup_stored (.inr ho))) ?_
      intro o ho
      unfold evaluateFast at ho
      split_ifs at ho
      · cases ho
      · exact hobj o (evaluate_object ho)

end

/-! ### Outcomes -/

section

variable {W : Type*} {c : Server W} {u : Task} {m : Moment} {a : Arrival} {r : Result} {sent : Raw}

structure OutcomeOk (s : System) (live : Live) (o : Outcome) : Prop where
  writes : ∀ w ∈ o.writes, Complete w.2.statusCode
  plan : s.PlanOk live o.plan

variable {now : Int} {keys : Keys} {stale : Stored} {status : Nat}

theorem outcomeOk_answer {live : Live} (h : Full live.header → Complete status) :
    s.OutcomeOk live ⟨[], .answer status⟩ :=
  ⟨fun _ hw => absurd hw not_mem_nil, h⟩

theorem ok_of_bounded (h : bounded c r = .ok a) : r = .ok a := by
  unfold bounded at h
  split at h
  · cases h
  · split_ifs at h
    exact h

def ThroughFits (c : Server W) (u : Task) (m : Moment) (r : Result) : Prop :=
  ∀ a, r = .ok a → a.resp.status = statusPartialContent →
    c.stores (throughFill c u.live a m.slotFree) = false

theorem outcomeOk_writeThrough (hfits : ThroughFits c u m (.ok a)) (primary : Key)
    (hstatus : Full u.live.header → Complete a.resp.status) :
    s.OutcomeOk u.live (writeAndMaybeStore c u m primary a) := by
  refine ⟨fun w hw => ?_, hstatus⟩
  simp only [writeAndMaybeStore] at hw
  split_ifs at hw with hstores
  · rw [status_of_fillWrites c.filler hw]
    exact complete_of_stores hstores (hfits a rfl)
  · cases hw

theorem outcomeOk_proxy (hfits : ∀ a, r = .ok a → a.resp.status = statusPartialContent →
      c.stores (postFill c u.live a) = false)
    (hsent : Full u.live.header → Full sent)
    (hhonest : ∀ a, r = .ok a → HonestTo sent a.resp.status) :
    s.OutcomeOk u.live (proxyOutcome c u m r) := by
  unfold proxyOutcome
  split
  · next e => exact outcomeOk_answer fun _ => complete_of_error e
  · next a =>
    split_ifs with hlimit hstores
    · exact outcomeOk_answer fun _ => by decide
    · refine ⟨fun w hw => ?_, fun h => (hsent h).complete (hhonest a rfl)⟩
      rw [mem_singleton.1 hw]
      exact complete_of_stores hstores (hfits a rfl)
    · exact outcomeOk_answer fun h => (hsent h).complete (hhonest a rfl)

theorem outcomeOk_relay (hsent : Full u.live.header → Full sent)
    (hhonest : ∀ a, r = .ok a → HonestTo sent a.resp.status) :
    s.OutcomeOk u.live (relayOutcome c r) := by
  unfold relayOutcome
  split
  · next e => exact outcomeOk_answer fun _ => complete_of_error e
  · next a =>
    refine outcomeOk_answer fun h => ?_
    split_ifs
    · decide
    · exact (hsent h).complete (hhonest a rfl)

theorem complete_of_whole (hsent : Full u.live.header → Whole sent)
    (hhonest : HonestTo sent a.resp.status) (h304 : a.resp.status ≠ statusNotModified) :
    Full u.live.header → Complete a.resp.status :=
  fun h => ⟨fun h206 => hhonest.1 h206 (hsent h), h304⟩

variable (hc : c.KeepsPlain)
include hc

theorem outcomeOk_renew (hstale : Complete stale.statusCode)
    (hstatus : Full u.live.header → Complete status) :
    s.OutcomeOk u.live (renewAndServe c u keys stale a now status) := by
  refine ⟨fun w hw => ?_, fun hplain => ?_⟩
  · rw [mem_singleton.1 hw]
    exact hstale
  · rw [not_conditional_of_full (full_header hc hplain)]
    exact hstatus hplain

theorem outcomeOk_throughOrFreshen (hfits : ThroughFits c u m (.ok a))
    (hstale : Complete stale.statusCode) (hstatus : Full u.live.header → Complete a.resp.status) :
    s.OutcomeOk u.live (throughOrFreshen c u m keys stale a now) := by
  unfold throughOrFreshen
  split_ifs
  · exact outcomeOk_renew hc hstale hstatus
  · exact outcomeOk_writeThrough hfits keys.primary hstatus

theorem resolver304Status_complete {resolver : Stored}
    (hresolver : Complete resolver.statusCode) (hplain : Full u.live.header)
    (h : resolver304Status c s u resolver a now = some status) : Complete status := by
  have hfull := full_header hc hplain
  unfold resolver304Status at h
  dsimp only at h
  split_ifs at h with hconfirms hown hgone hcond
  · simp [peek_of_full hfull ifNoneMatch_mem] at hown
  · rw [not_conditional_of_full hfull] at hcond
    cases hcond
  · cases h
    exact hresolver

variable (hhonest : ∀ a, r = .ok a → HonestTo sent a.resp.status) (hfits : ThroughFits c u m r)
include hhonest hfits

theorem outcomeOk_alive {shared : Bool}
    (hstale : Complete stale.statusCode) (hsent : Full u.live.header → Full sent) :
    s.OutcomeOk u.live (aliveOutcome c u m shared keys stale now r) := by
  unfold aliveOutcome
  split
  · exact outcomeOk_answer fun _ => hstale
  · next a hr =>
    obtain rfl := ok_of_bounded hr
    split_ifs
    · exact ⟨fun _ hw => absurd hw not_mem_nil, hstale, rfl,
        fun h => full_fetchRequest (full_header hc h)⟩
    · exact outcomeOk_answer fun _ => hstale
    · exact outcomeOk_throughOrFreshen hc hfits hstale fun h => (hsent h).complete (hhonest a rfl)

theorem outcomeOk_revalidate {shared : Bool}
    (hstale : Complete stale.statusCode) (hsent : Full u.live.header → Whole sent) :
    s.OutcomeOk u.live (revalidateOutcome c u m shared keys stale now r) := by
  unfold revalidateOutcome
  split
  · next e _ =>
    split_ifs
    · exact outcomeOk_answer fun _ => hstale
    · exact outcomeOk_answer fun _ => complete_of_error e
  · next a hr =>
    obtain rfl := ok_of_bounded hr
    split_ifs with _ _ h304
    · exact ⟨fun _ hw => absurd hw not_mem_nil, hstale, rfl,
        fun h => whole_revalidateRequest (full_header hc h) _⟩
    · exact outcomeOk_answer fun _ => hstale
    · exact outcomeOk_renew hc hstale fun _ => hstale
    · exact outcomeOk_throughOrFreshen hc hfits hstale (complete_of_whole hsent (hhonest a rfl) h304)

theorem outcomeOk_resolve (hs : s.Sound)
    {resolver : Stored} (hresolver : Complete resolver.statusCode)
    (hsent : Full u.live.header → Whole sent) :
    s.OutcomeOk u.live (resolveOutcome c s u m keys resolver now r) := by
  have hplan : s.PlanOk u.live (fetchMiss c s u.live u.reentry m.memo now keys none) :=
    planOk_fetchMiss hc hs keys (by simp)
  have hmiss : s.OutcomeOk u.live ⟨[], fetchMiss c s u.live u.reentry m.memo now keys none⟩ :=
    ⟨fun _ hw => absurd hw not_mem_nil, hplan⟩
  unfold resolveOutcome
  split
  · exact hmiss
  · next a hr =>
    obtain rfl := ok_of_bounded hr
    split_ifs with h304
    · split
      · next status hstatus =>
        exact outcomeOk_answer fun h => resolver304Status_complete hc hresolver h hstatus
      · exact hmiss
    · exact outcomeOk_writeThrough hfits keys.primary (complete_of_whole hsent (hhonest a rfl) h304)

end

/-! ### Steps -/

section

variable {W : Type*} {c : Server W}

variable {m : Moment} {i : Nat} {flight : Option Nat} {r : Result} {live : Live} {st : Stream}
  {primary : Key} {f : Nat}

variable {t : Task}

theorem complete_of_jobWrites {j : Job} (hstale : ∀ o ∈ j.stale, Complete o.statusCode)
    (hpart : ∀ a, r = .ok a → a.resp.status = statusPartialContent → c.stores (jobFill j a) = false)
    {w : Key × Stored} (hw : w ∈ jobWrites c m j r) : Complete w.2.statusCode := by
  unfold jobWrites at hw
  split at hw
  · cases hw
  · next a hr =>
    obtain rfl := ok_of_bounded hr
    have hbuilt : c.stores (jobFill j a) → Complete a.resp.status :=
      fun hstores => complete_of_stores hstores (hpart a rfl)
    have hrenewed : ∀ stale built, j.stale = some stale → built.statusCode = a.resp.status →
        w ∈ (if a.resp.status = statusNotModified then
            [(j.key, refreshFrom304 c.filler stale a.fetched j.ri m.now)]
          else if c.stores (jobFill j a) then [(j.key, built)] else []) → Complete w.2.statusCode := by
      intro stale built hst hcode hw
      split_ifs at hw with h304 hstores
      · rw [mem_singleton.1 hw]
        exact hstale stale hst
      · rw [mem_singleton.1 hw, hcode]
        exact hbuilt hstores
      · cases hw
    split at hw
    · next stale _ hst => exact hrenewed stale _ hst rfl hw
    · next stale _ hst => exact hrenewed stale _ hst rfl hw
    · split_ifs at hw with hstores
      · rw [mem_singleton.1 hw]
        exact hbuilt hstores
      · cases hw
    · cases hw

theorem sound_init : System.init.Sound where
  store _ _ h := by cases h
  fetches _ h := nomatch h
  flights _ _ h := by cases h
  table _ _ h := by cases h
  calls _ h := nomatch h
  tasks _ h := nomatch h
  jobs _ h := nomatch h
  answers _ h := nomatch h

/-- Neither stored objects nor tasks matter to a plan. -/
theorem Sound.enact_with {s' : System} {plan : Plan} (hs : s'.Sound)
    (heq : ∃ store tasks, s' = { s with store, tasks }) (hplan : s.PlanOk t.live plan)
    (hfits : s.PlanFits t.live plan) : (s'.enact i t plan).Sound := by
  obtain ⟨store, tasks, rfl⟩ := heq
  cases plan with
  | park id isFill keys => cases isFill <;> exact hs.enact hplan hfits
  | _ => exact hs.enact hplan hfits

variable (hs : s.Sound)
include hs

theorem Sound.conclude {o : Outcome} (ho : s.OutcomeOk t.live o)
    (hfits : s.PlanFits t.live o.plan) : (s.conclude i t o).Sound :=
  (hs.foldl_put ho.writes).enact_with (foldl_put_rest _) ho.plan hfits

theorem Sound.honest_of_resultOf {sent : Raw} (hsent : s.sentAt f = some sent)
    (hr : s.resultOf f = some r) : ∀ a, r = .ok a → HonestTo sent a.resp.status := by
  intro a ha
  obtain ⟨fetch, hfetch, rfl⟩ := map_eq_some_iff.1 hsent
  rw [resultOf, hfetch, ha] at hr
  exact hs.fetches fetch (mem_of_getElem? hfetch) a hr

theorem Sound.arrived {call : Option Nat}
    (hstage : s.StageOk t.live (.waiting f call (.stream flight primary)))
    (hr : s.resultOf f = some r) : (s.arrived c i t st flight primary r).Sound := by
  obtain ⟨-, hleads, sent, hsent, haccepts⟩ := hstage
  have hhonest := hs.honest_of_resultOf hsent hr
  have hrefuse : ∀ e : FetchError, (((s.settle flight (some (.error (.fetch e))) true).answer t.live
      e.status).setTask i t .done).Sound := by
    intro e
    refine ((hs.settle fun id hid res hres => ?_).answer fun _ => complete_of_error e).setTask trivial
    cases hres
  unfold System.arrived
  split
  · next e => exact hrefuse e
  · next a =>
    split_ifs
    · exact hrefuse .failed
    · refine (hs.answer fun h => (haccepts h).complete (hhonest a rfl)).setTask ?_
      exact fun id hid => ⟨f, sent, hleads id hid, hsent, hhonest a rfl⟩

theorem Sound.publish (ht : t ∈ s.tasks) {a : Arrival}
    (hstage : t.stage = .filling a st flight primary) :
    ((s.settle flight (some (fillVerdict c t.live a st)) false).setTask i t
      (.storing a st flight primary)).Sound := by
  have hflight := hs.tasks t ht
  rw [hstage] at hflight
  have hverdict : ∀ res, some (fillVerdict c t.live a st) = some (.ok res) →
      res.statusCode = a.resp.status := by
    intro res hres
    have hres := some.inj hres
    unfold fillVerdict at hres
    split_ifs at hres
    split at hres
    · next res' hok =>
      cases hres
      unfold publishFillVerdict at hok
      split_ifs at hok
      cases hok
      rfl
    · cases hres
  refine (hs.settle fun id hid res hres => ?_).setTask fun id hid => ?_
  · rw [hverdict res hres]
    exact hflight id hid
  · obtain rfl := mem_def.1 hid
    exact (hflight id rfl).mono (later_settle id _ _) fun _ h => h

theorem Sound.keep {a : Arrival}
    (hpart : a.resp.status = statusPartialContent → c.stores (streamFill c t.live a st) = false) :
    ((((if c.stores (streamFill c t.live a st) then
        fillWrites c.filler primary (c.info t.live) a.fetched m.ttl m.clock m.now
      else []).foldl System.put s).settle flight none true).setTask i t .done).Sound := by
  refine Sound.setTask (Sound.settle (hs.foldl_put fun w hw => ?_) fun id hid res hres => ?_) trivial
  · split_ifs at hw with hstores
    · rw [status_of_fillWrites c.filler hw]
      exact complete_of_stores hstores hpart
    · cases hw
  · cases hres

theorem Sound.askFast (tls : Bool) (req : RawRequest) (now : Int) :
    (s.step c (.askFast tls req now)).Sound := by
  dsimp only [System.step]
  split
  · next obj hobj =>
    obtain ⟨-, -, hfound, -⟩ := tryHit_inv _ _ _ hobj
    obtain ⟨k, hk⟩ := lookup_stored (.inl hfound)
    exact { hs with answers := forall_mem_cons.2 ⟨fun _ => hs.store k obj hk, hs.answers⟩ }
  · exact hs

theorem Sound.respond (hhonest : s.Honest (.respond f r)) : (s.step c (.respond f r)).Sound := by
  have hst : s.Later (s.step c (.respond f r)) := by
    refine ⟨fun g raw h => ?_, fun id g h => h⟩
    obtain ⟨fetch, hfetch, rfl⟩ := map_eq_some_iff.1 h
    simp only [sentAt, System.step, getElem?_modify, hfetch]
    split_ifs <;> rfl
  refine hs.grow hst rfl rfl rfl rfl (fun g hg a ha => ?_)
    (fun id fl hid => (hs.flights id fl hid).mono hst fun _ h => h) hs.table fun call hcall => ?_
  · obtain ⟨j, hj⟩ := mem_iff_getElem?.1 hg
    simp only [System.step, getElem?_modify] at hj
    obtain ⟨old, hold, rfl⟩ := map_eq_some_iff.1 hj
    split_ifs at ha ⊢ with hjf
    · subst hjf
      -- the first answer stays; a second one is not looked at
      cases hres : old.result with
      | some r' =>
        rw [hres] at ha
        exact hs.fetches old (mem_of_getElem? hold) a (hres.trans ha)
      | none =>
        rw [hres] at ha
        cases ha
        exact hhonest old hold
    · exact hs.fetches old (mem_of_getElem? hold) a ha
  · exact hst.sent_isSome (hs.calls call hcall)

theorem Sound.untable (key : Key) : Sound { s with table := Function.update s.table key none } := by
  refine { hs with table := fun k j hj => ?_ }
  dsimp only at hj
  rw [Function.update_apply] at hj
  split_ifs at hj
  exact hs.table k j hj

theorem Sound.startJob {kind : JobKind} {ri : CapturedRequest} {key : Key}
    {stale : Option Stored} (hstale : ∀ o ∈ stale, Complete o.statusCode) :
    (s.startJob c kind ri key stale).Sound := by
  have hjobs : ∀ {t : System}, t.Sound → ∀ f, Sound { t with jobs := t.jobs ++ [⟨kind, ri, key, stale, f⟩] } := by
    intro t ht f
    exact { ht with jobs := forall_mem_concat.2 ⟨ht.jobs, hstale⟩ }
  unfold System.startJob
  split_ifs
  · exact hjobs (hs.addFetch _) _
  · exact hjobs (hs.join _ _) _

theorem Sound.finishJob {j : Job} (hj : s.jobs[i]? = some j)
    (hr : s.resultOf j.fetch = some r) (hfits : s.Fits c (.finishJob i m)) :
    Sound { (jobWrites c m j r).foldl System.put s with jobs := s.jobs.eraseIdx i } := by
  have hputs : ((jobWrites c m j r).foldl System.put s).Sound := by
    refine hs.foldl_put fun w hw => ?_
    refine complete_of_jobWrites (hs.jobs j (mem_of_getElem? hj)) (fun a ha => ?_) hw
    exact hfits.2 (jobFill j a) (by simp [fillOf, hj, hr, ha])
  exact { hputs with jobs := fun k hk => hs.jobs k (mem_of_mem_eraseIdx hk) }

variable (hc : c.KeepsPlain)
include hc

theorem Sound.resume (ht : s.tasks[i]? = some t)
    {call : Option Nat} {p : Purpose} (hstage : t.stage = .waiting f call p)
    (hfits : s.Fits c (.resume i st m)) : (s.resume c i t f call p st m).Sound := by
  have hok := hs.tasks t (mem_of_getElem? ht)
  rw [hstage] at hok
  unfold System.resume
  cases hr : s.resultOf f with
  | none => exact hs
  | some r =>
    have hplan : ∀ o, s.outcome c t call m r p = some o → s.PlanFits t.live o.plan := by
      intro o ho
      refine hfits.1 (t.live, o.plan) ?_
      simp [planOf, ht, hstage, hr, ho]
    obtain ⟨hkeeps, -, sent, hsent, haccepts⟩ := hok
    have hhonest := hs.honest_of_resultOf hsent hr
    have hfill : ∀ g, s.fillOf c (.resume i st m) = some g → g.resp.status = statusPartialContent →
        c.stores g = false := fun g hg => hfits.2 g hg
    cases p with
    | stream flight primary =>
      exact hs.arrived (hstage ▸ hs.tasks t (mem_of_getElem? ht)) hr
    | relay => exact hs.conclude (outcomeOk_relay haccepts hhonest) (hplan _ rfl)
    | proxy =>
      refine hs.conclude (outcomeOk_proxy (fun a ha => ?_) haccepts hhonest) (hplan _ rfl)
      exact hfill (postFill c t.live a) (by simp [fillOf, ht, hstage, hr, ha])
    | alive keys stale now =>
      refine hs.conclude (outcomeOk_alive hc hhonest (fun a ha => ?_) hkeeps haccepts) (hplan _ rfl)
      exact hfill (throughFill c t.live a m.slotFree) (by simp [fillOf, ht, hstage, hr, ha])
    | revalidate keys stale now =>
      refine hs.conclude (outcomeOk_revalidate hc hhonest (fun a ha => ?_) hkeeps haccepts)
        (hplan _ rfl)
      exact hfill (throughFill c t.live a m.slotFree) (by simp [fillOf, ht, hstage, hr, ha])
    | resolve keys resolver now =>
      refine hs.conclude (outcomeOk_resolve hc hhonest (fun a ha => ?_) hs hkeeps haccepts)
        (hplan _ rfl)
      exact hfill (throughFill c t.live a m.slotFree) (by simp [fillOf, ht, hstage, hr, ha])

theorem planOk_followerPlan {id : Nat} {isFill : Bool}
    {keys : Keys} {fl : Flight} {p : Plan} (hfl : s.flights[id]? = some fl)
    (hstage : s.StageOk live (.parked id isFill keys))
    (hp : s.followerPlan c live m isFill keys fl = some p) : s.PlanOk live p := by
  unfold followerPlan at hp
  split_ifs at hp with hfill
  · split at hp
    · cases hp
      exact fun _ => complete_of_error .shed
    · cases hp
      exact planOk_plan hc hs
  · split at hp
    · cases hp
    · next res hres =>
      cases hp
      intro hplain
      -- the follower has looked at the request of the very fetch whose result it is handed
      obtain ⟨f, sent, hf, hsent, hfull⟩ := hstage (eq_false_iff.2 hfill)
      obtain ⟨f', sent', hf', hsent', hhonest⟩ := hs.flights id fl hfl
      cases hf.symm.trans hf'
      cases hsent.symm.trans hsent'
      exact (hfull hplain).complete (hhonest res hres)
    · cases hp
      exact planOk_solo hc _
    · next e _ =>
      cases hp
      exact fun _ => complete_of_error e

theorem Sound.unpark (ht : s.tasks[i]? = some t)
    {id : Nat} {isFill : Bool} {keys : Keys} {p : Plan} (hstage : t.stage = .parked id isFill keys)
    (hp : (s.flights[id]?).bind (s.followerPlan c t.live m isFill keys) = some p)
    (hfits : s.Fits c (.unpark i m)) :
    (s.enact i { t with reentry := t.reentry || isFill } p).Sound := by
  have hparked := hs.tasks t (mem_of_getElem? ht)
  rw [hstage] at hparked
  obtain ⟨fl, hfl, hplan⟩ := bind_eq_some_iff.1 hp
  refine hs.enact (planOk_followerPlan hs hc hfl hparked hplan) (hfits.1 (t.live, p) ?_)
  simp [planOf, ht, hstage, hfl, hplan]

theorem Sound.ask (hfits : s.Fits c (.ask live m)) : (s.step c (.ask live m)).Sound := by
  have hplan : s.PlanOk live (plan c s live false m.memo m.now) := planOk_plan hc hs
  have hfit : s.PlanFits live (plan c s live false m.memo m.now) := hfits.1 _ rfl
  have hadded : Sound { s with tasks := s.tasks ++ [⟨live, false, .start⟩] } :=
    { hs with tasks := forall_mem_concat.2 ⟨hs.tasks, trivial⟩ }
  exact hadded.enact_with (t := ⟨live, false, .start⟩) ⟨_, _, rfl⟩ hplan hfit

theorem Sound.step {a : Act} (hhonest : s.Honest a) (hfits : s.Fits c a) : (s.step c a).Sound := by
  cases a with
  | ask live m => exact hs.ask hc hfits
  | askFast tls req now => exact hs.askFast tls req now
  | respond f r => exact hs.respond hhonest
  | resume i st m =>
    dsimp only [System.step]
    repeat' split
    any_goals exact hs
    next ht _ _ _ _ hstage => exact hs.resume hc ht hstage hfits
  | publish i =>
    dsimp only [System.step]
    repeat' split
    any_goals exact hs
    next ht _ _ _ _ _ hstage => exact hs.publish (mem_of_getElem? ht) hstage
  | keep i m =>
    dsimp only [System.step]
    split
    · next t ht =>
      split
      · next a st flight primary hstage =>
        exact hs.keep (hfits.2 (streamFill c t.live a st) (by simp [fillOf, ht, hstage]))
      · exact hs
    · exact hs
  | unpark i m =>
    dsimp only [System.step]
    repeat' split
    any_goals exact hs
    next ht _ _ _ _ hstage _ _ hp => exact hs.unpark hc ht hstage hp hfits
  | forget id =>
    dsimp only [System.step]
    repeat' split
    all_goals exact { hs with }
  | remove id =>
    dsimp only [System.step]
    repeat' split
    any_goals exact hs
    exact hs.untable _
  | startJob kind ri key =>
    have hstored : ∀ stale, s.store key = some stale → ∀ o ∈ some stale, Complete o.statusCode := by
      intro stale hstale o ho
      cases ho
      exact hs.store key stale hstale
    dsimp only [System.step]
    split
    · exact hs.startJob (by simp)
    · next stale hstale =>
      split_ifs
      · exact hs
      · exact hs.startJob (hstored stale hstale)
    · next stale hstale => exact hs.startJob (hstored stale hstale)
    · exact hs
  | finishJob j m =>
    dsimp only [System.step]
    repeat' split
    any_goals exact hs
    next hjob _ _ hr => exact hs.finishJob hjob hr hfits
  | evict gone =>
    refine { hs with store := fun k obj hobj => ?_ }
    dsimp only [System.step] at hobj
    split_ifs at hobj
    exact hs.store k obj hobj

end

end System

/-- With rewrites that leave the fields alone, plain requests that share only what was asked for in
full, and no part of a body in the store, every answer to a plain request is whole. -/
theorem plain_requests_answered_in_full {W : Type*} (c : Server W) (hc : c.KeepsPlain)
    (acts : List Act)
    (h : Along (System.step c) (fun s a => s.Honest a ∧ s.Fits c a) System.init acts) :
    Always (System.step c) System.AnsweredInFull System.init acts := by
  have hsound : Always (System.step c) System.Sound System.init acts := by
    refine always_of_along (fun s a hs ha => ?_) System.sound_init h
    exact hs.step hc ha.1 ha.2
  exact hsound.mono fun s hs => hs.answers

/-! ## Answers to another's request -/

def openServer : Server Int where
  filler := HandOff.hashedFiller
  sum128 t := ⟨0, UInt64.ofNat t.length⟩
  gates := { lib := asciiLib }
  composes _ _ := true
  disabled := false
  allowSetCookie := false
  stayinAlive := false
  maxObjectSize := 0
  maxResponseBytes := 0
  maxStreamingBufferBytes := 0
  forwarding := ⟨id, peekAll_id⟩
  formatTime _ := []

def pageWith (line : String) : Live := asRead (appendHeader pageGet (ascii line))

def moment (now : Int) : Moment := ⟨now, now, none, true, false⟩

def arrival (status : Nat) (cacheControl body : String) : Result :=
  .ok ⟨⟨status, ⟨[⟨Field.cacheControl, ascii cacheControl⟩]⟩, body.length, ascii body⟩, 0⟩

def fetchAct (task fetch : Nat) (r : Result) : List Act :=
  [.respond fetch r, .resume task ⟨true, 0, [], true⟩ (moment 0), .publish task,
    .keep task (moment 0)]

def rangeFirst : List Act :=
  .ask (pageWith "Range: bytes=0-3") (moment 0) :: fetchAct 0 0 (arrival 206 "max-age=60" "part") ++
    [.askFast false pageGet 0, .ask (asRead pageGet) (moment 0)]

/-- Over a stored page that may not be reused unchecked, a plain request waits for a conditional
one. -/
def conditionalFirst : List Act :=
  .ask (asRead pageGet) (moment 0) :: fetchAct 0 0 (arrival 200 "no-cache, max-age=60" "page") ++
    [.ask (pageWith "If-None-Match: v1") (moment 0), .ask (asRead pageGet) (moment 0),
      .respond 1 (arrival 304 "max-age=60" ""), .resume 1 ⟨true, 0, [], true⟩ (moment 0),
      .publish 1, .unpark 2 (moment 0)]

theorem plain_requests_answered_in_part :
    (Along (System.step openServer) System.Honest System.init rangeFirst ∧
      ∃ a ∈ (run (System.step openServer) System.init rangeFirst).answers,
        a.client.Plain ∧ a.status = 206) ∧
    (Along (System.step openServer) System.Honest System.init conditionalFirst ∧
      ∃ a ∈ (run (System.step openServer) System.init conditionalFirst).answers,
        a.client.Plain ∧ a.status = 304) := by
  decide +kernel

/-- Two plain requests share a flight, and one for a part is answered from what they stored. -/
def plainFirst : List Act :=
  .ask (asRead pageGet) (moment 0) :: .ask (asRead pageGet) (moment 0) ::
    fetchAct 0 0 (arrival 200 "max-age=60" "page") ++
    [.unpark 1 (moment 0), .ask (pageWith "Range: bytes=0-1") (moment 0), .askFast false pageGet 0]

theorem plain_requests_share_a_flight :
    Always (System.step openServer) System.AnsweredInFull System.init plainFirst ∧
      (run (System.step openServer) System.init plainFirst).answers.map Answer.status =
        [200, 206, 200, 200] :=
  ⟨plain_requests_answered_in_full openServer (by decide +kernel) plainFirst (by decide +kernel),
    by decide +kernel⟩

end Bouine.Cache.Serving
