import Bouine.Cache.FastPath
import Bouine.Cache.Lifetime

/-! # Resolvers

A varying response is stored under the key of its variant, and a copy without its body under the
primary key (`buildResolver`, `internal/cache/resolver.go`), to tell a lookup which fields to read.
The file models the store of one node over fills, removals, restarts with another configuration, and
requests, and says when none is answered from such a copy.
-/

namespace Bouine.Cache

open Lib Lib.Transition Header Server

/-! ## Fills -/

def pairing (k : Key) : Option Key := if k = ⟨0, 0⟩ then none else some k

def buildResolver (variant : Stored) (primaryKey : Key) : Stored :=
  { variant with
    key := primaryKey, varyKey := [], body := [], bodySize := 0, pairedKey := pairing variant.key }

section

variable {W : Type*} (h : Filler W)

def storeKey (primaryKey : Key) (ri : CapturedRequest) (resMap : Map) : Key :=
  let vary := effectiveVary h.lib resMap h.policy
  if vary = [] then primaryKey
  else variantKeyCore h.lib h.sum64 primaryKey (keyPolicy h.policy) vary (mapVarySrc ri.header)

def fillWrites (primaryKey : Key) (ri : CapturedRequest) (res : Fetched) (ttl : Option Int)
    (clock now : Int) : List (Key × Stored) :=
  let resMap := res.header.toMap
  let key := storeKey h primaryKey ri resMap
  let obj := buildObject h key ri res resMap ttl clock now
  if key = primaryKey then [(primaryKey, obj)]
  else
    let variant := { obj with pairedKey := pairing primaryKey }
    [(key, variant), (primaryKey, buildResolver variant primaryKey)]

theorem isVaryResolver_buildObject (key : Key) (ri : CapturedRequest) (res : Fetched) (resMap : Map)
    (ttl : Option Int) (clock now : Int) (paired : Option Key) :
    Stored.isVaryResolver { buildObject h key ri res resMap ttl clock now with pairedKey := paired } =
      false := by
  show (effectiveVary h.lib resMap h.policy != [] &&
    buildVaryKey h.lib h.sum64 (effectiveVary h.lib resMap h.policy) ri.header (keyPolicy h.policy)
      == []) = false
  by_cases hvary : effectiveVary h.lib resMap h.policy = []
  · simp [hvary]
  · have hkey := (buildVaryKey_eq_nil_iff h.lib h.sum64 _ ri.header (keyPolicy h.policy)).not.2 hvary
    simp [hkey]

theorem resolver_of_fillWrites {primaryKey : Key} {ri : CapturedRequest} {res : Fetched}
    {ttl : Option Int} {clock now : Int} {w : Key × Stored}
    (hw : w ∈ fillWrites h primaryKey ri res ttl clock now) (hres : w.2.isVaryResolver) :
    w.1 = primaryKey ∧ storeKey h primaryKey ri res.header.toMap ≠ primaryKey ∧
      w.2.varyValue = effectiveVary h.lib res.header.toMap h.policy := by
  have hobj := isVaryResolver_buildObject h (storeKey h primaryKey ri res.header.toMap) ri res
    res.header.toMap ttl clock now
  unfold fillWrites at hw
  dsimp only at hw
  split_ifs at hw with hkey
  · rw [List.mem_singleton] at hw
    rw [hw] at hres
    cases hres.symm.trans (hobj none)
  · rcases List.mem_cons.1 hw with hw | hw
    · rw [hw] at hres
      cases hres.symm.trans (hobj (pairing primaryKey))
    · rw [List.mem_singleton] at hw
      rw [hw]
      exact ⟨rfl, hkey, rfl⟩

theorem star_of_storeKey {primaryKey : Key} {ri : CapturedRequest} {resMap : Map}
    (hkey : storeKey h primaryKey ri resMap ≠ primaryKey) :
    varyContainsStar (effectiveVary h.lib resMap h.policy) = false := by
  by_contra hstar
  rw [Bool.not_eq_false] at hstar
  refine hkey ?_
  unfold storeKey variantKeyCore variantText
  dsimp only
  split_ifs <;> rfl

end

/-! ## The node -/

/-- A configuration; fields of `gates` that the filler has too are taken from there. -/
structure Config (W : Type*) where
  filler : Filler W
  sum128 : Bytes → Key
  gates : HitRoute W
  composes : Stored → Int → Bool

namespace Config

variable {W : Type*} (c : Config W)

def policy : Option KeyPolicy := keyPolicy c.filler.policy

def route : HitRoute W := { c.gates with lib := c.filler.lib, policy := c.policy }

def around (store : Key → Option Stored) : Surroundings :=
  ⟨c.sum128, c.filler.sum64, store, c.composes⟩

def primaryKey (ri : RequestInfo) : Key := buildKey c.sum128 ri c.policy

end Config

/-- `resolverKeys` are the keys under which resolvers were stored, `answers` the objects that
requests were answered from. -/
structure Node (W : Type*) where
  config : Config W
  store : Key → Option Stored
  resolverKeys : List Key
  answers : List Stored

def Node.init {W : Type*} (c : Config W) : Node W := ⟨c, fun _ => none, [], []⟩

inductive NodeAct (W : Type*) where
  | fill (ri : CapturedRequest) (res : Fetched) (ttl : Option Int) (clock now : Int)
  /-- evictions and purges -/
  | remove (gone : Key → Bool)
  /-- what was only in memory is lost -/
  | restart (config : Config W) (lost : Key → Bool)
  | askFast (tls : Bool) (req : RawRequest) (now : Int)
  | askSlow (live : Live) (now : Int)

/-- The object that `ServeRequest` serves. -/
def Dispatch.answer : Dispatch → Option Stored
  | invalidate | bypass => none
  | decide _ disp => if disp.decision.serves then disp.object else none

namespace Node

variable {W : Type*} (s : Node W)

def write (w : Key × Stored) : Node W :=
  { s with
    store := Function.update s.store w.1 (some w.2)
    resolverKeys := if w.2.isVaryResolver then w.1 :: s.resolverKeys else s.resolverKeys }

def without (gone : Key → Bool) : Node W :=
  { s with store := fun k => if gone k then none else s.store k }

def answered (answer : Option Stored) : Node W := { s with answers := answer.toList ++ s.answers }

def step (s : Node W) : NodeAct W → Node W
  | .fill ri res ttl clock now =>
    (fillWrites s.config.filler (s.config.primaryKey ri.toRequestInfo) ri res ttl clock now).foldl
      write s
  | .remove gone => s.without gone
  | .restart config lost => { s.without lost with config }
  | .askFast tls req now =>
    s.answered (tryHit s.config.route (s.config.around s.store) tls req now)
  | .askSlow live now =>
    s.answered (serveRequest s.config.route (s.config.around s.store) live now).answer

def AnswersContent : Prop := ∀ obj ∈ s.answers, obj.isVaryResolver = false

def Shelved : Prop :=
  ∀ k obj, s.store k = some obj → obj.isVaryResolver = true →
    k ∈ s.resolverKeys ∧ varyContainsStar obj.varyValue = false

def Collapses {W : Type*} (lib : Stdlib W) (policy : Option KeyPolicy) (vary : Bytes) : Prop :=
  (∀ f ∈ varyFields lib vary, shouldExcludeHeader policy f = true) ∨
    ∀ f ∈ varyFieldsSlow lib vary, shouldExcludeHeader policy f = true

instance {W : Type*} (lib : Stdlib W) (policy : Option KeyPolicy) (vary : Bytes) :
    Decidable (Collapses lib policy vary) := inferInstanceAs (Decidable (_ ∨ _))

/-- The policy of the moment leaves a field of the Vary list of a resolver that a request finds, and
no hash leads to the key of a resolver. -/
def FindsVariant (k : Key) (src : VarySource) : Prop :=
  ∀ obj ∈ s.store k, obj.varyValue ≠ [] →
    (obj.isVaryResolver = true →
      ¬ Collapses s.config.filler.lib s.config.policy obj.varyValue) ∧
    ∀ text ∈ variantText s.config.filler.lib s.config.policy obj.varyValue src,
      k.withVary (s.config.filler.sum64 text) ∉ s.resolverKeys

instance (k : Key) (src : VarySource) : Decidable (s.FindsVariant k src) :=
  inferInstanceAs (Decidable (∀ obj ∈ s.store k, _))

def Fits : NodeAct W → Prop
  | .fill .. | .remove _ | .restart .. => True
  | .askFast tls req _ => s.FindsVariant (s.config.primaryKey (rawInfo tls req)) (rawVarySrc req)
  | .askSlow live _ =>
    s.FindsVariant (s.config.primaryKey live.info)
      (fastVarySrc (s.config.gates.rewrite.rewriteRequestCtx live.header))

instance (a : NodeAct W) : Decidable (s.Fits a) := by
  cases a <;> unfold Fits <;> infer_instance

end Node

/-! ## Lookups -/

theorem variantText_isSome {W : Type*} {lib : Stdlib W} {policy : Option KeyPolicy} {vary : Bytes}
    (src : VarySource) (hne : vary ≠ []) (hstar : varyContainsStar vary = false)
    (hleft : ¬ Node.Collapses lib policy vary) : ∃ text, variantText lib policy vary src = some text := by
  have hfields : ∀ fs : List Bytes, (¬ ∀ f ∈ fs, shouldExcludeHeader policy f) →
      fs.filter (!shouldExcludeHeader policy ·) ≠ [] := by
    intro fs hfs hnil
    refine hfs fun f hf => ?_
    simpa using List.filter_eq_nil_iff.1 hnil f hf
  have hslow : ∃ text, slowText lib policy vary src.toMap = some text := by
    unfold slowText
    rw [if_neg (hfields _ fun hall => hleft (.inr hall))]
    exact ⟨_, rfl⟩
  unfold variantText
  rw [if_neg hne, hstar, if_neg (by simp)]
  split_ifs
  · exact hslow
  · cases hstack : stackText lib policy src.view (varyFields lib vary) [] with
    | none => exact hslow
    | some buf =>
      have hbuf := (stackText_some lib hstack).1
      rw [List.nil_append] at hbuf
      have hne : buf ≠ [] := by
        rw [hbuf, Ne, fieldsText_eq_nil]
        exact hfields _ fun hall => hleft (.inl hall)
      exact ⟨buf, if_neg hne⟩

namespace Node

variable {W : Type*} {s : Node W}

theorem content_of_lookup (hs : s.Shelved) {k : Key} {src : VarySource} (hfinds : s.FindsVariant k src)
    {obj : Stored}
    (hobj : (lookup s.store k fun vary =>
      variantKeyCore s.config.filler.lib s.config.filler.sum64 k s.config.policy vary src).obj =
        some obj) : obj.isVaryResolver = false := by
  by_contra hres
  rw [Bool.not_eq_false] at hres
  cases hprimary : s.store k with
  | none =>
    rw [lookup_of_none hprimary] at hobj
    cases hobj
  | some found =>
    by_cases hvary : found.varyValue = []
    · rw [lookup_of_plain hprimary hvary] at hobj
      cases hobj
      simp [Stored.isVaryResolver, hvary] at hres
    · obtain ⟨hleft, hclash⟩ := hfinds found hprimary hvary
      rw [lookup_of_varying hprimary hvary] at hobj
      unfold variantKeyCore at hobj
      cases htext : variantText s.config.filler.lib s.config.policy found.varyValue src with
      | none =>
        -- the resolver itself would be served
        simp only [htext] at hobj
        obtain rfl := Option.some.inj hobj
        obtain ⟨text, hsome⟩ := variantText_isSome src hvary (hs k found hprimary hres).2 (hleft hres)
        rw [hsome] at htext
        cases htext
      | some text =>
        have hnot := hclash text htext
        simp only [htext] at hobj
        split_ifs at hobj with hsame
        · obtain rfl := Option.some.inj hobj
          rw [hsame] at hnot
          exact hnot (hs k found hprimary hres).1
        · exact hnot (hs _ obj hobj hres).1

/-! ## Runs -/

theorem shelved_write (hs : s.Shelved) {w : Key × Stored}
    (hw : w.2.isVaryResolver → varyContainsStar w.2.varyValue = false) :
    (s.write w).Shelved := by
  intro k obj hobj hres
  simp only [write] at hobj ⊢
  rcases update_eq_some hobj with ⟨rfl, rfl⟩ | ⟨-, hobj⟩
  · rw [if_pos hres]
    exact ⟨by simp, hw hres⟩
  · obtain ⟨hmem, hstar⟩ := hs k obj hobj hres
    refine ⟨?_, hstar⟩
    split_ifs
    · exact .tail _ hmem
    · exact hmem

theorem shelved_without (hs : s.Shelved) (gone : Key → Bool) : (s.without gone).Shelved := by
  intro k obj hobj hres
  simp only [without] at hobj
  split_ifs at hobj
  exact hs k obj hobj hres

theorem answers_foldl_write (ws : List (Key × Stored)) : (ws.foldl write s).answers = s.answers := by
  induction ws generalizing s with
  | nil => rfl
  | cons w ws ih => exact ih

theorem shelved_step (hs : s.Shelved) (a : NodeAct W) : (s.step a).Shelved := by
  cases a with
  | fill ri res ttl clock now =>
    refine List.foldlRecOn _ _ hs fun _ hs w hw => shelved_write hs fun hres => ?_
    obtain ⟨-, hkey, hvary⟩ := resolver_of_fillWrites s.config.filler hw hres
    rw [hvary]
    exact star_of_storeKey s.config.filler hkey
  | remove gone => exact shelved_without hs gone
  | restart config lost => exact shelved_without hs lost
  | askFast tls req now => exact hs
  | askSlow live now => exact hs

theorem found_of_answer {route : HitRoute W} {around : Surroundings} {live : Live} {now : Int}
    {obj : Stored} (hobj : (serveRequest route around live now).answer = some obj) :
    (lookupLive route around live.info (route.rewrite.rewriteRequestCtx live.header)).obj = some obj := by
  unfold serveRequest evaluateFast at hobj
  dsimp only at hobj
  split_ifs at hobj with hinv hbypass hmethod
  · cases hobj
  · cases hobj
  · simp [Dispatch.answer] at hobj
  · simp only [Dispatch.answer] at hobj
    split_ifs at hobj with hserves
    rwa [object_of_serves _ _ hserves] at hobj

theorem answersContent_answered (hq : s.AnswersContent) {answer : Option Stored}
    (h : ∀ obj, answer = some obj → obj.isVaryResolver = false) :
    (s.answered answer).AnswersContent := by
  intro obj hobj
  rcases List.mem_append.1 hobj with hobj | hobj
  · exact h obj (Option.mem_toList.1 hobj)
  · exact hq obj hobj

theorem answersContent_step (hs : s.Shelved) (hq : s.AnswersContent) (a : NodeAct W)
    (hfits : s.Fits a) : (s.step a).AnswersContent := by
  cases a with
  | fill ri res ttl clock now =>
    unfold AnswersContent step
    rw [answers_foldl_write]
    exact hq
  | remove gone => exact hq
  | restart config lost => exact hq
  | askFast tls req now =>
    refine answersContent_answered hq fun obj hobj => ?_
    obtain ⟨-, -, hfound, -⟩ := tryHit_inv _ _ _ hobj
    exact content_of_lookup hs hfits hfound
  | askSlow live now =>
    refine answersContent_answered hq fun obj hobj => ?_
    exact content_of_lookup hs hfits (found_of_answer hobj)

/-- If each request finds its resolver under a policy that leaves a field of it, and no hash leads
to another resolver, none is answered from a resolver. -/
theorem resolver_never_served (c : Config W) (acts : List (NodeAct W))
    (hfits : Along step Fits (Node.init c) acts) :
    Always step AnswersContent (Node.init c) acts := by
  have hstep : ∀ (s : Node W) a, s.Shelved ∧ s.AnswersContent → s.Fits a →
      (s.step a).Shelved ∧ (s.step a).AnswersContent :=
    fun s a hs ha => ⟨shelved_step hs.1 a, answersContent_step hs.1 hs.2 a ha⟩
  have hinit : (Node.init c).Shelved ∧ (Node.init c).AnswersContent := by
    refine ⟨?_, by simp [AnswersContent, Node.init]⟩
    intro k obj hobj
    cases hobj
  exact (always_of_along hstep hinit hfits).mono fun s hs => hs.2

/-! ## A policy that changes -/

def excludingConfig (excluded : List Bytes) : Config Int where
  filler :=
    { plainFiller with
      sum64 := fun t => UInt64.ofNat t.length
      policy := some ⟨⟨[], none, excluded, [], [], [], false, false, false, false⟩, []⟩ }
  sum128 t := ⟨0, UInt64.ofNat t.length⟩
  gates := { lib := asciiLib }
  composes _ _ := true

def frenchGet : RawRequest := appendHeader pageGet (ascii "Accept-Language: fr")

def frenchFill : NodeAct Int :=
  .fill (requestInfoFromRaw false frenchGet)
    ⟨200, .map ⟨[⟨Field.cacheControl, ascii "max-age=60"⟩, ⟨Field.vary, ascii "Accept-Language"⟩]⟩,
      ascii "bonjour", 0⟩ none 0 0

/-- After a restart with `exclude_headers: [accept-language]` both paths answer 200 with the
resolver's empty body. -/
theorem resolver_served_after_exclusion :
    ((run step (Node.init (excludingConfig []))
        [frenchFill, .restart (excludingConfig [ascii "accept-language"]) fun _ => false,
          .askFast false frenchGet 0, .askSlow (asRead frenchGet) 0]).answers.map
      fun o => (o.isVaryResolver, o.statusCode, o.body)) = [(true, 200, []), (true, 200, [])] := by
  decide +kernel

/-- After one with another exclusion both answer from the variant. -/
theorem variant_served_after_exclusion :
    ∃ acts, Always step AnswersContent (Node.init (excludingConfig [])) acts ∧
      (run step (Node.init (excludingConfig [])) acts).answers.map Stored.body =
        [ascii "bonjour", ascii "bonjour"] :=
  ⟨[frenchFill, .restart (excludingConfig [ascii "accept"]) fun _ => false,
      .askFast false frenchGet 0, .askSlow (asRead frenchGet) 0],
    resolver_never_served _ _ (by decide +kernel), by decide +kernel⟩

end Node

end Bouine.Cache
