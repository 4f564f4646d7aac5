import Mathlib.Data.Finset.Card
import Bouine.Cluster.SeqTracker
import Bouine.Storage.BanList

/-! # Delivery of invalidation events

A node numbers the purges, bans and refreshes it broadcasts and sends each over HTTP and gossip,
alone or in a batch. A receiver asks its tracker about every event and applies those it does not
know: `peerPurgeApply` and its siblings in `cmd/bouine/cmd/engine.go`, `handleGossipPurge` and its
siblings in `internal/cluster/cluster.go`. Frames are handled concurrently.
-/

namespace Bouine.Cluster

open Lib Lib.Transition List
open Storage (BanExpr)

inductive Invalidation where
  | purge (key varyKey : Bytes)
  | ban (predicate : BanExpr)
  | refresh (key : Bytes)
  deriving DecidableEq

/-- An event. Which life of its issuer it is from does not travel. -/
structure Event where
  issuer : Bytes
  incarnation : Nat
  seq : Nat
  what : Invalidation
  deriving DecidableEq

/-- One delivery of an event, and whether applying it then succeeds. -/
structure Copy where
  event : Event
  ok : Bool
  deriving DecidableEq

inductive Via where
  | http
  | gossip
  deriving DecidableEq

/-- The handling of one frame: the event being applied and those to come. -/
structure Handler where
  via : Via
  current : Option Copy
  rest : List Copy

namespace Handler

def applied (h : Handler) : Handler := { h with current := none }

/-- The event could not be applied: a batch over HTTP is given up, one over gossip goes on. -/
def failed (h : Handler) : Handler :=
  { h with
    current := none
    rest := match h.via with
      | .http => []
      | .gossip => h.rest }

def Holds (h : Handler) (c : Copy) : Prop := h.current = some c ∨ c ∈ h.rest

instance (h : Handler) (c : Copy) : Decidable (h.Holds c) := inferInstanceAs (Decidable (_ ∨ _))

end Handler

structure Life where
  incarnation : Nat
  seq : Nat

structure Net where
  issuers : Bytes → Life
  issued : List Event
  delivered : List Copy
  tracker : SeqTracker
  /-- What the tracker was asked about, and when. -/
  asked : List (Event × Int)
  handlers : List Handler
  applied : List Event
  failed : List Event
  discarded : List Event

inductive NetAct where
  | issue (issuer : Bytes) (what : Invalidation)
  | restart (issuer : Bytes)
  | arrive (via : Via) (copies : List Copy)
  /-- The handler takes up the next event of its frame. -/
  | take (handler : Nat) (walk : Walk) (now : Int)
  | finish (handler : Nat)

namespace Net

def start : Net where
  issuers := fun _ => ⟨0, 0⟩
  issued := []
  delivered := []
  tracker := ⟨∅, ∅⟩
  asked := []
  handlers := []
  applied := []
  failed := []
  discarded := []

section

variable (s : Net)

def issue (issuer : Bytes) (what : Invalidation) : Net :=
  let life := s.issuers issuer
  { s with
    issuers := Function.update s.issuers issuer { life with seq := life.seq + 1 }
    issued := ⟨issuer, life.incarnation, life.seq + 1, what⟩ :: s.issued }

def restart (issuer : Bytes) : Net :=
  { s with issuers := Function.update s.issuers issuer ⟨(s.issuers issuer).incarnation + 1, 0⟩ }

def arrive (via : Via) (copies : List Copy) : Net :=
  { s with
    delivered := copies ++ s.delivered
    handlers := ⟨via, none, copies⟩ :: s.handlers }

/-- `SeenFromPeer`, and what follows from its answer. -/
def take (i : Nat) (h : Handler) (c : Copy) (rest : List Copy) (walk : Walk) (now : Int) : Net :=
  let r := s.tracker.seen c.event.issuer walk c.event.seq now
  let s := { s with tracker := r.2, asked := (c.event, now) :: s.asked }
  if r.1 then
    { s with
      handlers := s.handlers.set i { h with rest := rest }
      discarded := c.event :: s.discarded }
  else { s with handlers := s.handlers.set i { h with current := some c, rest := rest } }

def finish (i : Nat) (h : Handler) (c : Copy) : Net :=
  if c.ok then
    { s with handlers := s.handlers.set i h.applied, applied := c.event :: s.applied }
  else { s with handlers := s.handlers.set i h.failed, failed := c.event :: s.failed }

def step : NetAct → Net
  | .issue issuer what => s.issue issuer what
  | .restart issuer => s.restart issuer
  | .arrive via copies => if ∀ c ∈ copies, c.event ∈ s.issued then s.arrive via copies else s
  | .take i walk now =>
    match s.handlers[i]? with
    | some ⟨via, none, c :: rest⟩ => s.take i ⟨via, none, c :: rest⟩ c rest walk now
    | _ => s
  | .finish i =>
    match s.handlers[i]? with
    | some ⟨via, some c, rest⟩ => s.finish i ⟨via, some c, rest⟩ c
    | _ => s

end

/-! ## What should hold -/

section

variable (s : Net)

def Pending (c : Copy) : Prop := ∃ h ∈ s.handlers, h.Holds c

def Applying (e : Event) : Prop := ∃ h ∈ s.handlers, ∃ c ∈ h.current, c.event = e

instance (c : Copy) : Decidable (s.Pending c) := inferInstanceAs (Decidable (∃ h ∈ s.handlers, _))

instance (e : Event) : Decidable (s.Applying e) :=
  inferInstanceAs (Decidable (∃ h ∈ s.handlers, ∃ c ∈ h.current, _))

/-- Only what was applied is discarded, and what is delivered when it can be applied takes effect. -/
structure TakesEffect : Prop where
  discarded : ∀ e ∈ s.discarded, e ∈ s.applied
  delivered : ∀ c ∈ s.delivered, c.ok = true → c.event ∈ s.applied ∨ s.Pending c

/-- Whatever the tracker was asked about with the property was asked longer ago than it remembers. -/
def Lapsed (now : Int) (p : Event → Prop) : Prop :=
  ∀ a ∈ s.asked, p a.1 → seqTrackerTTL < now - a.2

instance (now : Int) (p : Event → Prop) [DecidablePred p] : Decidable (s.Lapsed now p) :=
  inferInstanceAs (Decidable (∀ a ∈ s.asked, _))

def Scheduled : NetAct → Prop
  | .take i _ _ => ∀ h ∈ s.handlers[i]?, h.current = none → ∀ c ∈ h.rest.head?,
    ∀ a ∈ s.asked, a.1.issuer = c.event.issuer → a.1.incarnation = c.event.incarnation →
      a.1.seq < c.event.seq + seqDedupWindow
  | _ => True

/-- An event that is being or could not be applied, and one from another life than earlier ones,
comes in when the tracker has forgotten its issuer; and no batch over HTTP is given up before an
event that could have been applied. -/
def Fits : NetAct → Prop
  | .take i _ now => ∀ h ∈ s.handlers[i]?, h.current = none → ∀ c ∈ h.rest.head?,
    ((s.Applying c.event ∨ c.event ∈ s.failed) → s.Lapsed now fun e => e.issuer = c.event.issuer) ∧
      s.Lapsed now fun e => e.issuer = c.event.issuer ∧ e.incarnation ≠ c.event.incarnation
  | .finish i => ∀ h ∈ s.handlers[i]?, h.via = .http → ∀ c ∈ h.current, c.ok = false →
    ∀ d ∈ h.rest, d.ok = true → d.event ∈ s.applied
  | _ => True

instance (a : NetAct) : Decidable (s.Scheduled a) := by
  cases a <;> unfold Scheduled <;> infer_instance

instance (a : NetAct) : Decidable (s.Fits a) := by
  cases a <;> unfold Fits <;> infer_instance

end

/-! ## What the receiver has taken in -/

section

variable {s : Net} {e : Event} {c : Copy} {i : Nat} {h : Handler}

def Taken (s : Net) (e : Event) : Prop := e ∈ s.applied ∨ s.Applying e ∨ e ∈ s.failed

theorem exists_mem_set {hs : List Handler} {p : Handler → Prop} (hi : hs[i]? = some h) (h' : Handler)
    (hp : ∃ g ∈ hs, p g) : (p h ∧ ¬ p h') ∨ ∃ g ∈ hs.set i h', p g := by
  obtain ⟨g, hg, hpg⟩ := hp
  obtain ⟨j, hj⟩ := mem_iff_getElem?.1 hg
  by_cases hij : i = j
  · subst hij
    cases hi.symm.trans hj
    by_cases hp' : p h'
    · exact .inr ⟨h', mem_set (List.getElem?_eq_some_iff.1 hi).1 h', hp'⟩
    · exact .inl ⟨hpg, hp'⟩
  · exact .inr ⟨g, mem_of_getElem? (by rw [getElem?_set_ne hij, hj]), hpg⟩

structure Grows (s t : Net) : Prop where
  issued : ∀ e ∈ s.issued, e ∈ t.issued
  asked : ∀ a ∈ s.asked, a ∈ t.asked
  taken : ∀ e, s.Taken e → t.Taken e

theorem grows_take {via : Via} {rest : List Copy} (walk : Walk) (now : Int)
    (hi : s.handlers[i]? = some ⟨via, none, c :: rest⟩) :
    s.Grows (s.take i ⟨via, none, c :: rest⟩ c rest walk now) := by
  -- a handler that takes up an event is applying none
  have hset : ∀ h' e, s.Applying e → ∃ g ∈ s.handlers.set i h', ∃ c ∈ g.current, c.event = e := by
    intro h' e ha
    refine (exists_mem_set hi h' ha).resolve_left fun hlost => ?_
    obtain ⟨_, hc, -⟩ := hlost.1
    cases hc
  unfold take
  dsimp only
  split_ifs <;> exact ⟨fun _ => id, fun _ => mem_cons_of_mem _, fun e he =>
    he.imp_right (Or.imp_left (hset _ e))⟩

theorem grows_finish {via : Via} {rest : List Copy} (hi : s.handlers[i]? = some ⟨via, some c, rest⟩) :
    s.Grows (s.finish i ⟨via, some c, rest⟩ c) := by
  -- the event at hand is the only one that stops being applied
  have hset : ∀ h' e, s.Applying e → c.event = e ∨
      ∃ g ∈ s.handlers.set i h', ∃ c ∈ g.current, c.event = e := by
    intro h' e ha
    refine (exists_mem_set hi h' ha).imp_left fun hlost => ?_
    obtain ⟨d, hd, he⟩ := hlost.1
    cases hd
    exact he
  unfold finish
  split_ifs
  · refine ⟨fun _ => id, fun _ => id, fun e he => ?_⟩
    rcases he with he | he | he
    · exact .inl (.tail _ he)
    · rcases hset _ e he with rfl | he
      · exact .inl (.head _)
      · exact .inr (.inl he)
    · exact .inr (.inr he)
  · refine ⟨fun _ => id, fun _ => id, fun e he => ?_⟩
    rcases he with he | he | he
    · exact .inl he
    · rcases hset _ e he with rfl | he
      · exact .inr (.inr (.head _))
      · exact .inr (.inl he)
    · exact .inr (.inr (.tail _ he))

theorem grows_arrive (s : Net) (via : Via) (copies : List Copy) : s.Grows (s.arrive via copies) := by
  refine ⟨fun _ => id, fun _ => id, fun e he => he.imp_right (Or.imp_left fun ha => ?_)⟩
  obtain ⟨g, hg, hc⟩ := ha
  exact ⟨g, .tail _ hg, hc⟩

theorem grows_step (s : Net) (a : NetAct) : s.Grows (s.step a) := by
  have hsame : s.Grows s := ⟨fun _ => id, fun _ => id, fun _ => id⟩
  cases a with
  | issue issuer what => exact ⟨fun _ => mem_cons_of_mem _, fun _ => id, fun _ => id⟩
  | restart issuer => exact ⟨fun _ => id, fun _ => id, fun _ => id⟩
  | arrive via copies =>
    dsimp only [step]
    split_ifs
    · exact grows_arrive s via copies
    · exact hsame
  | take i walk now =>
    dsimp only [step]
    split
    · next hi => exact grows_take walk now hi
    · exact hsame
  | finish i =>
    dsimp only [step]
    split
    · next hi => exact grows_finish hi
    · exact hsame

end

/-! ## What the tracker has on record -/

section

variable {s t : Net} {issuer : Bytes} {w : Window} {now time : Int} {inc : Nat}

/-- The numbers in the window are of events of one life that were taken in; one of them last renewed
it. -/
def OnRecord (s : Net) (issuer : Bytes) (inc : Nat) (w : Window) (time : Int) : Prop :=
  (∃ seen, w.Tracks seqDedupWindow seen ∧ ∀ n, seen n → ∃ a ∈ s.asked,
    a.1.issuer = issuer ∧ a.1.incarnation = inc ∧ a.1.seq = n ∧ s.Taken a.1) ∧
  ∃ a ∈ s.asked, a.1.issuer = issuer ∧ a.1.incarnation = inc ∧ a.2 = time

theorem OnRecord.mono (h : s.OnRecord issuer inc w time) (hst : s.Grows t) :
    t.OnRecord issuer inc w time := by
  obtain ⟨⟨seen, hw, hseen⟩, a, ha, hlast⟩ := h
  refine ⟨⟨seen, hw, fun n hn => ?_⟩, a, hst.asked a ha, hlast⟩
  obtain ⟨b, hb, hissuer, hinc, hseq, htaken⟩ := hseen n hn
  exact ⟨b, hst.asked b hb, hissuer, hinc, hseq, hst.taken b.1 htaken⟩

theorem OnRecord.incarnation_eq {inc' : Nat} (h : s.OnRecord issuer inc w time)
    (hnow : now - time ≤ seqTrackerTTL)
    (hl : s.Lapsed now fun e => e.issuer = issuer ∧ e.incarnation ≠ inc') : inc = inc' := by
  obtain ⟨-, a, ha, hissuer, hinc, rfl⟩ := h
  by_contra hne
  have hlapsed := hl a ha ⟨hissuer, hinc ▸ hne⟩
  omega

theorem onRecord_single {e : Event} (htaken : s.Taken e) (ha : (e, now) ∈ s.asked) :
    s.OnRecord e.issuer e.incarnation (Window.single seqDedupWindow e.seq) now := by
  refine ⟨⟨(· = e.seq), Window.tracks_single e.seq, fun n hn => ?_⟩, _, ha, rfl, rfl, rfl⟩
  exact ⟨_, ha, rfl, rfl, hn.symm, htaken⟩

theorem OnRecord.extend {e : Event} {v : Window} (h : s.OnRecord e.issuer e.incarnation v time)
    (htaken : s.Taken e) (ha : (e, now) ∈ s.asked)
    (hw : ∀ seen, v.Tracks seqDedupWindow seen → w.Tracks seqDedupWindow fun n => n = e.seq ∨ seen n) :
    s.OnRecord e.issuer e.incarnation w now := by
  obtain ⟨⟨seen, hv, hseen⟩, -⟩ := h
  refine ⟨⟨_, hw seen hv, fun n hn => ?_⟩, _, ha, rfl, rfl, rfl⟩
  rcases hn with hn | hn
  · exact ⟨_, ha, rfl, rfl, hn.symm, htaken⟩
  · exact hseen n hn

end

/-! ## Runs -/

structure Sound (s : Net) : Prop where
  numbered : ∀ e ∈ s.issued, e.incarnation < (s.issuers e.issuer).incarnation ∨
    (e.incarnation = (s.issuers e.issuer).incarnation ∧ e.seq ≤ (s.issuers e.issuer).seq)
  unique : ∀ e ∈ s.issued, ∀ e' ∈ s.issued, e.issuer = e'.issuer → e.incarnation = e'.incarnation →
    e.seq = e'.seq → e = e'
  pending : ∀ c, s.Pending c → c.event ∈ s.issued
  asked : ∀ a ∈ s.asked, a.1 ∈ s.issued
  tracked : ∀ issuer w time, s.tracker.Tracked issuer w time → ∃ inc, s.OnRecord issuer inc w time

section

variable {s : Net}

theorem sound_start : start.Sound where
  numbered := nofun
  unique := nofun
  pending := fun _ ⟨_, hh, _⟩ => nomatch hh
  asked := nofun
  tracked := fun _ _ _ h => by cases h.win

theorem Sound.tracked_of_grows {t : Net} (hs : s.Sound) (hg : s.Grows t)
    (htracker : t.tracker = s.tracker) {issuer : Bytes} {w : Window} {time : Int}
    (h : t.tracker.Tracked issuer w time) : ∃ inc, t.OnRecord issuer inc w time := by
  rw [htracker] at h
  obtain ⟨inc, hrec⟩ := hs.tracked issuer w time h
  exact ⟨inc, hrec.mono hg⟩

theorem Sound.issue (hs : s.Sound) (issuer : Bytes) (what : Invalidation) : (s.issue issuer what).Sound := by
  -- the new number is above all others of that life
  have hnew : ∀ e ∈ s.issued, e.issuer = issuer → e.incarnation = (s.issuers issuer).incarnation →
      e.seq ≤ (s.issuers issuer).seq := by
    intro e he hissuer hinc
    subst hissuer
    have := hs.numbered e he
    omega
  refine ⟨fun e he => ?_, fun e he e' he' hissuer hinc hseq => ?_, fun c hc => .tail _ (hs.pending c hc),
    fun a ha => .tail _ (hs.asked a ha), fun _ _ _ => hs.tracked_of_grows (grows_step s (.issue issuer what)) rfl⟩
  · rcases mem_cons.1 he with rfl | he
    · right
      simp [Net.issue]
    · have hold := hs.numbered e he
      by_cases hi : e.issuer = issuer
      · subst hi
        simp only [Net.issue, Function.update_self]
        omega
      · simpa [Net.issue, Function.update_of_ne hi] using hold
  · rcases mem_cons.1 he with rfl | he
    · rcases mem_cons.1 he' with rfl | he'
      · rfl
      · have := hnew e' he' hissuer.symm hinc.symm
        dsimp only at hseq
        omega
    · rcases mem_cons.1 he' with rfl | he'
      · have := hnew e he hissuer hinc
        dsimp only at hseq
        omega
      · exact hs.unique e he e' he' hissuer hinc hseq

theorem Sound.restart (hs : s.Sound) (issuer : Bytes) : (s.restart issuer).Sound := by
  refine ⟨fun e he => ?_, hs.unique, hs.pending, hs.asked,
    fun _ _ _ => hs.tracked_of_grows (grows_step s (.restart issuer)) rfl⟩
  have hold := hs.numbered e he
  by_cases hi : e.issuer = issuer
  · subst hi
    simp only [Net.restart, Function.update_self]
    omega
  · simpa [Net.restart, Function.update_of_ne hi] using hold

theorem pending_of_set {i : Nat} {h h' : Handler} {c : Copy} (hi : s.handlers[i]? = some h)
    (hsub : ∀ c, h'.Holds c → h.Holds c) (hp : ∃ g ∈ s.handlers.set i h', g.Holds c) : s.Pending c := by
  obtain ⟨g, hg, hc⟩ := hp
  rcases mem_or_eq_of_mem_set hg with hg | rfl
  · exact ⟨g, hg, hc⟩
  · exact ⟨h, mem_of_getElem? hi, hsub c hc⟩

section

variable {i : Nat} {via : Via} {c : Copy} {rest : List Copy} {walk : Walk} {now : Int}

section

variable (hi : s.handlers[i]? = some ⟨via, none, c :: rest⟩)
include hi

theorem pending_of_take {d : Copy}
    (hd : (s.take i ⟨via, none, c :: rest⟩ c rest walk now).Pending d) : s.Pending d := by
  unfold Net.take at hd
  dsimp only at hd
  split_ifs at hd
  · refine pending_of_set hi (fun d hd => ?_) hd
    exact .inr (.tail _ (hd.resolve_left nofun))
  · refine pending_of_set hi (fun d hd => ?_) hd
    rcases hd with hd | hd
    · cases hd
      exact .inr (.head _)
    · exact .inr (.tail _ hd)

theorem taken_of_take (hnew : (s.tracker.seen c.event.issuer walk c.event.seq now).1 = false) :
    (s.take i ⟨via, none, c :: rest⟩ c rest walk now).Taken c.event := by
  refine .inr (.inl ⟨⟨via, some c, rest⟩, ?_, c, rfl, rfl⟩)
  unfold Net.take
  rw [if_neg (by rw [hnew]; exact Bool.false_ne_true)]
  exact mem_set (List.getElem?_eq_some_iff.1 hi).1 _

theorem Sound.take (hs : s.Sound)
    (hlife : s.Lapsed now fun e => e.issuer = c.event.issuer ∧ e.incarnation ≠ c.event.incarnation) :
    (s.take i ⟨via, none, c :: rest⟩ c rest walk now).Sound := by
  have hgrows := grows_take walk now hi
  have hissued : c.event ∈ s.issued :=
    hs.pending c ⟨_, mem_of_getElem? hi, .inr (.head _)⟩
  have hpending := @pending_of_take s i via c rest walk now hi
  have htaken := @taken_of_take s i via c rest walk now hi
  set t := s.take i ⟨via, none, c :: rest⟩ c rest walk now with ht
  have htake : t.issuers = s.issuers ∧ t.issued = s.issued ∧ t.asked = (c.event, now) :: s.asked ∧
      t.tracker = (s.tracker.seen c.event.issuer walk c.event.seq now).2 := by
    rw [ht]
    unfold Net.take
    dsimp only
    split_ifs <;> exact ⟨rfl, rfl, rfl, rfl⟩
  obtain ⟨hissuers, hsame, hasked, htracker⟩ := htake
  refine ⟨?_, ?_, fun d hd => ?_, fun a ha => ?_, fun issuer w time h => ?_⟩
  · rw [hsame, hissuers]
    exact hs.numbered
  · rw [hsame]
    exact hs.unique
  · rw [hsame]
    exact hs.pending d (hpending hd)
  · rw [hsame]
    rw [hasked] at ha
    rcases mem_cons.1 ha with rfl | ha
    · exact hissued
    · exact hs.asked a ha
  · rw [htracker] at h
    rcases SeqTracker.tracked_of_seen h with h | ⟨rfl, rfl, hdup, hext⟩
    · obtain ⟨inc, hrec⟩ := hs.tracked _ _ _ h
      exact ⟨inc, hrec.mono hgrows⟩
    · have hmem : (c.event, time) ∈ t.asked := by
        rw [hasked]
        exact (.head _)
      refine ⟨c.event.incarnation, ?_⟩
      rcases hext with rfl | ⟨v, last, hv, hnow, hw⟩
      · exact onRecord_single (htaken hdup) hmem
      · obtain ⟨inc, hrec⟩ := hs.tracked _ _ _ hv
        obtain rfl := hrec.incarnation_eq hnow hlife
        exact (hrec.mono hgrows).extend (htaken hdup) hmem hw

theorem TakesEffect.take (ht : s.TakesEffect)
    (hdup : (s.tracker.seen c.event.issuer walk c.event.seq now).1 → c.event ∈ s.applied) :
    (s.take i ⟨via, none, c :: rest⟩ c rest walk now).TakesEffect := by
  unfold Net.take
  dsimp only
  split_ifs with hseen
  · refine ⟨forall_mem_cons.2 ⟨hdup hseen, ht.discarded⟩, fun d hd hok => ?_⟩
    · rcases ht.delivered d hd hok with happlied | hp
      · exact .inl happlied
      · rcases exists_mem_set hi ⟨via, none, rest⟩ hp with ⟨hold, hlost⟩ | hp
        · rcases mem_cons.1 (hold.resolve_left nofun) with rfl | hrest
          · exact .inl (hdup hseen)
          · exact absurd (.inr hrest) hlost
        · exact .inr hp
  · refine ⟨ht.discarded, fun d hd hok => ?_⟩
    refine (ht.delivered d hd hok).imp_right fun hp => ?_
    refine (exists_mem_set hi ⟨via, some c, rest⟩ hp).resolve_left fun hlost => ?_
    rcases mem_cons.1 (hlost.1.resolve_left nofun) with rfl | hrest
    · exact hlost.2 (.inl rfl)
    · exact hlost.2 (.inr hrest)

end

end

theorem TakesEffect.finish {i : Nat} {via : Via} {c : Copy} {rest : List Copy} (ht : s.TakesEffect)
    (hi : s.handlers[i]? = some ⟨via, some c, rest⟩)
    (hfit : via = .http → c.ok = false → ∀ d ∈ rest, d.ok → d.event ∈ s.applied) :
    (s.finish i ⟨via, some c, rest⟩ c).TakesEffect := by
  unfold Net.finish
  split_ifs with hok
  · refine ⟨fun e he => .tail _ (ht.discarded e he), fun d hd hdok => ?_⟩
    rcases ht.delivered d hd hdok with happlied | hp
    · exact .inl (.tail _ happlied)
    · rcases exists_mem_set hi ⟨via, none, rest⟩ hp with ⟨hold, hlost⟩ | hp
      · rcases hold with hold | hrest
        · cases hold
          exact .inl (.head _)
        · exact absurd (.inr hrest) hlost
      · exact .inr hp
  · refine ⟨ht.discarded, fun d hd hdok => ?_⟩
    rcases ht.delivered d hd hdok with happlied | hp
    · exact .inl happlied
    · rcases exists_mem_set hi (Handler.failed ⟨via, some c, rest⟩) hp with ⟨hold, hlost⟩ | hp
      · rcases hold with hold | hrest
        · cases hold
          exact absurd hdok hok
        · cases via with
          | http => exact .inl (hfit rfl (Bool.eq_false_iff.2 hok) d hrest hdok)
          | gossip => exact absurd (.inr hrest) hlost
      · exact .inr hp

theorem Sound.finish {i : Nat} {via : Via} {c : Copy} {rest : List Copy} (hs : s.Sound)
    (hi : s.handlers[i]? = some ⟨via, some c, rest⟩) : (s.finish i ⟨via, some c, rest⟩ c).Sound := by
  have hgrows := grows_finish hi
  unfold Net.finish at hgrows ⊢
  split_ifs at hgrows ⊢
  all_goals
    refine ⟨hs.numbered, hs.unique, fun d hd => hs.pending d (pending_of_set hi (fun d hd => .inr ?_) hd),
      hs.asked, fun _ _ _ => hs.tracked_of_grows hgrows rfl⟩
  · exact hd.resolve_left nofun
  · have hrest := hd.resolve_left nofun
    cases via with
    | http => cases hrest
    | gossip => exact hrest

theorem Sound.arrive (hs : s.Sound) (via : Via) {copies : List Copy}
    (hissued : ∀ c ∈ copies, c.event ∈ s.issued) : (s.arrive via copies).Sound := by
  refine ⟨hs.numbered, hs.unique, fun d hd => ?_, hs.asked,
    fun _ _ _ => hs.tracked_of_grows (grows_arrive s via copies) rfl⟩
  obtain ⟨g, hg, hd⟩ := hd
  rcases mem_cons.1 hg with rfl | hg
  · exact hissued d (hd.resolve_left nofun)
  · exact hs.pending d ⟨g, hg, hd⟩

theorem TakesEffect.arrive (ht : s.TakesEffect) (via : Via) (copies : List Copy) :
    (s.arrive via copies).TakesEffect := by
  refine ⟨ht.discarded, fun d hd hok => ?_⟩
  rcases mem_append.1 hd with hd | hd
  · exact .inr ⟨_, (.head _), .inr hd⟩
  · refine (ht.delivered d hd hok).imp_right fun hp => ?_
    obtain ⟨g, hg, hd⟩ := hp
    exact ⟨g, .tail _ hg, hd⟩

theorem sound_step {a : NetAct} (hs : s.Sound ∧ s.TakesEffect) (ha : s.Scheduled a ∧ s.Fits a) :
    (s.step a).Sound ∧ (s.step a).TakesEffect := by
  obtain ⟨hs, ht⟩ := hs
  cases a with
  | issue issuer what => exact ⟨hs.issue issuer what, ht.discarded, ht.delivered⟩
  | restart issuer => exact ⟨hs.restart issuer, ht.discarded, ht.delivered⟩
  | arrive via copies =>
    dsimp only [step]
    split_ifs with hissued
    · exact ⟨hs.arrive via hissued, ht.arrive via copies⟩
    · exact ⟨hs, ht⟩
  | take i walk now =>
    dsimp only [step]
    split
    · next via c rest hi =>
      have hsched := ha.1 _ hi rfl c rfl
      obtain ⟨hopen, hlife⟩ := ha.2 _ hi rfl c rfl
      refine ⟨hs.take hi hlife, ht.take hi fun hdup => ?_⟩
      have hissued : c.event ∈ s.issued :=
        hs.pending c ⟨_, mem_of_getElem? hi, .inr (.head _)⟩
      obtain ⟨w, time, htracked, hnow, hle, hhas⟩ := SeqTracker.tracked_of_seen_true hdup
      obtain ⟨inc, hrec⟩ := hs.tracked _ _ _ htracked
      obtain rfl := hrec.incarnation_eq hnow hlife
      obtain ⟨⟨seen, hw, hseen⟩, a, ha, hissuer, -, rfl⟩ := hrec
      have hlt : w.high < c.event.seq + seqDedupWindow := by
        obtain ⟨b, hb, hbissuer, hbinc, hbseq, -⟩ := hseen _ hw.high_seen
        rw [← hbseq]
        exact hsched b hb hbissuer hbinc
      obtain ⟨b, hb, hbissuer, hbinc, hbseq, htaken⟩ := hseen _ ((hw.has_iff _ hle hlt).1 (hhas hlt))
      rw [hs.unique b.1 (hs.asked b hb) c.event hissued hbissuer hbinc hbseq] at htaken
      refine htaken.resolve_right fun h => ?_
      have hlapsed := hopen h a ha hissuer
      omega
    · exact ⟨hs, ht⟩
  | finish i =>
    dsimp only [step]
    split
    · next via c rest hi =>
      exact ⟨hs.finish hi, ht.finish hi fun hvia hok => ha.2 _ hi hvia c rfl hok⟩
    · exact ⟨hs, ht⟩

/-- Where every event fits, only what was applied is discarded, and what is delivered when it can be
applied takes effect. -/
theorem delivered_invalidations_take_effect (acts : List NetAct)
    (h : Along step (fun s a => s.Scheduled a ∧ s.Fits a) start acts) :
    Always step TakesEffect start acts := by
  have h0 : start.Sound ∧ start.TakesEffect :=
    ⟨sound_start, nofun, nofun⟩
  have hall : Always step (fun s => s.Sound ∧ s.TakesEffect) start acts := by
    refine always_of_along (fun t a hs ha => ?_) h0 h
    exact sound_step hs ha
  exact hall.mono fun _ hs => hs.2

end

/-! ## Runs of one issuer -/

section

def mapOrder : Walk := ⟨id, .refl⟩

def nodeA : Bytes := [110, 97]

def page : Invalidation := .purge [112] []

def firstEvent (incarnation : Nat) : Event := ⟨nodeA, incarnation, 1, page⟩

def handled (via : Via) (e : Event) (ok : Bool) (now : Int) : List NetAct :=
  [.arrive via [⟨e, ok⟩], .take 0 mapOrder now, .finish 0]

def restartedLater : List NetAct :=
  .issue nodeA page :: handled .http (firstEvent 0) true 0 ++ handled .gossip (firstEvent 0) true 1 ++
    .restart nodeA :: .issue nodeA page :: handled .gossip (firstEvent 1) true (2 * seqTrackerTTL)

def failedFirst : List NetAct :=
  .issue nodeA page :: handled .http (firstEvent 0) false 0 ++ handled .gossip (firstEvent 0) true 1

def restartedSoon : List NetAct :=
  .issue nodeA page :: handled .http (firstEvent 0) true 0 ++
    .restart nodeA :: .issue nodeA page :: handled .http (firstEvent 1) true 1

def secondEvent : Event := ⟨nodeA, 0, 2, page⟩

def firstOfBatchFails : List NetAct :=
  [.issue nodeA page, .issue nodeA page,
    .arrive .http [⟨firstEvent 0, false⟩, ⟨secondEvent, true⟩], .take 0 mapOrder 0, .finish 0]

theorem repeated_purge_discarded_once_applied :
    Along step (fun s a => s.Scheduled a ∧ s.Fits a) start restartedLater ∧
      (run step start restartedLater).discarded = [firstEvent 0] ∧
      (run step start restartedLater).applied = [firstEvent 1, firstEvent 0] ∧
      Always step TakesEffect start restartedLater :=
  ⟨by decide, by decide, by decide,
    delivered_invalidations_take_effect restartedLater (by decide)⟩

/-- A purge that failed is discarded when it comes again, and so is the first purge after a restart;
a purge after a failed one in its batch is dropped. None is ever applied. -/
theorem unapplied_purge_discarded :
    (Along step Scheduled start failedFirst ∧
      firstEvent 0 ∈ (run step start failedFirst).discarded ∧
      (run step start failedFirst).applied = []) ∧
    (Along step Scheduled start restartedSoon ∧
      firstEvent 1 ∈ (run step start restartedSoon).discarded ∧
      firstEvent 1 ∉ (run step start restartedSoon).applied) ∧
    (Along step Scheduled start firstOfBatchFails ∧
      ⟨secondEvent, true⟩ ∈ (run step start firstOfBatchFails).delivered ∧
      secondEvent ∉ (run step start firstOfBatchFails).applied ∧
      ¬ (run step start firstOfBatchFails).Pending ⟨secondEvent, true⟩) := by
  decide

end

end Net

end Bouine.Cluster
