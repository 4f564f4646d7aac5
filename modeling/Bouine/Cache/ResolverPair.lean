import Bouine.Cache.Resolver

/-! # A resolver and the variant it mirrors

A request whose variant is not stored is forwarded with the entity tag of the resolver. When the
origin confirms it, the body comes from the variant the resolver was made from (`serveResolver304`,
`internal/cache/handler.go`), which is renewed in the background on its own. The file models fills,
renewals and such requests, and says when the body served came with the confirmed tag.
-/

namespace Bouine.Cache

open Lib Lib.Transition Header Server

/-! ## Entity tags -/

def normETag (s : Bytes) : Bytes :=
  let s := trimSpace s
  let s := if (ascii "W/").isPrefixOf s || (ascii "w/").isPrefixOf s then s.drop 2 else s
  (s.dropWhile (· == byte '"')).rdropWhile (· == byte '"')

def etagMatch (list needle : Bytes) : Bool :=
  list == ascii "*" || (splitOn (byte ',') list).any fun tag => normETag tag == normETag needle

def tryConditional304Fast (timeParse : TimeParse) (client : Raw) (obj : Stored) : Bool :=
  let inm := client.peek Field.ifNoneMatch
  let ims := client.peek Field.ifModifiedSince
  if inm ≠ [] then obj.etag ≠ [] && etagMatch inm obj.etag
  else if ims = [] ∨ parseHTTPDate timeParse ims = 0 then false
  else if obj.lastModified ≠ 0 then decide (obj.lastModified ≤ parseHTTPDate timeParse ims)
  else
    let dt := parseHTTPDate timeParse (obj.header.get Field.date)
    obj.header.get Field.date ≠ [] && dt ≠ 0 && decide (dt ≤ parseHTTPDate timeParse ims)

/-! ## The system -/

/-- A stored object; the tag came with the body. -/
structure Held where
  obj : Stored
  bodyTag : Option Bytes
deriving DecidableEq

def Held.of (obj : Stored) : Held := ⟨obj, if obj.isVaryResolver then none else some obj.etag⟩

/-- `resolverKeys` are the keys under which resolvers were stored. `renewals` are background fetches
under way, with the object each was started for; `misses` are requests waiting for the origin, with
the resolver each has read. `served` lists, for each body served after a 304, the tags of the
resolver and of the body. -/
structure Pairs where
  store : Key → Option Held
  resolverKeys : List Key
  renewals : List (Key × Held)
  misses : List Held
  served : List (Bytes × Option Bytes)

def Pairs.init : Pairs := ⟨fun _ => none, [], [], [], []⟩

inductive PairAct where
  | fill (primaryKey : Key) (ri : CapturedRequest) (res : Fetched) (ttl : Option Int)
      (clock now : Int)
  /-- evictions and purges -/
  | remove (gone : Key → Bool)
  /-- a background revalidation or refresh of the object under the key -/
  | start (k : Key)
  /-- its answer; a refresh does not keep the link to the primary key -/
  | renew (i : Nat) (keepsLink : Bool) (ri : CapturedRequest) (res : Fetched) (clock now : Int)
  /-- a request finds a resolver under the key and not its variant -/
  | miss (k : Key)
  /-- the 304 for it -/
  | confirm (i : Nat) (client : Raw) (ri : CapturedRequest) (res : Fetched) (now : Int)

namespace Pairs

section

variable {W : Type*} (h : Filler W) (s : Pairs)

def put (w : Key × Held) : Pairs :=
  { s with
    store := Function.update s.store w.1 (some w.2)
    resolverKeys := if w.2.obj.isVaryResolver then w.1 :: s.resolverKeys else s.resolverKeys }

def renewed (k : Key) (stale : Held) (keepsLink : Bool) (ri : CapturedRequest) (res : Fetched)
    (clock now : Int) : Held :=
  if res.statusCode = statusNotModified then ⟨refreshFrom304 h stale.obj res ri now, stale.bodyTag⟩
  else
    let obj := buildObject h k ri res res.header.toMap none clock now
    Held.of { obj with
      pairedKey := if keepsLink ∧ obj.varyKey ≠ [] then stale.obj.pairedKey else none }

/-- `serveResolver304`: the 304 is about the resolver. -/
def confirms (client : Raw) (resolver : Stored) (res : Fetched) : Bool :=
  let tag304 := res.header.get Field.etag
  let clientConditional :=
    client.peek Field.ifNoneMatch ≠ [] || client.peek Field.ifModifiedSince ≠ []
  if tag304 = [] then !clientConditional
  else tag304 == ascii "*" || etagMatch tag304 resolver.etag

/-- `serveResolver304`: the entry whose body is served with the status of the resolver. -/
def serveResolver304 (client : Raw) (resolver : Held) (ri : CapturedRequest) (res : Fetched)
    (now : Int) : Option Held :=
  if confirms client resolver.obj res = false then none
  else
    let refreshed := refreshFrom304 h resolver.obj res ri now
    if tryConditional304Fast h.timeParse client refreshed then none
    else
      match resolver.obj.pairedKey with
      | none => some resolver
      | some k => s.store k

def step (s : Pairs) : PairAct → Pairs
  | .fill primaryKey ri res ttl clock now =>
    ((fillWrites h primaryKey ri res ttl clock now).map fun w => (w.1, Held.of w.2)).foldl put s
  | .remove gone => { s with store := fun k => if gone k then none else s.store k }
  | .start k =>
    match s.store k with
    | none => s
    | some held =>
      if held.obj.isVaryResolver then s else { s with renewals := s.renewals ++ [(k, held)] }
  | .renew i keepsLink ri res clock now =>
    match s.renewals[i]? with
    | none => s
    | some (k, stale) =>
      { s.put (k, renewed h k stale keepsLink ri res clock now) with
        renewals := s.renewals.eraseIdx i }
  | .miss k =>
    match s.store k with
    | none => s
    | some held =>
      if held.obj.isVaryResolver then { s with misses := s.misses ++ [held] } else s
  | .confirm i client ri res now =>
    match s.misses[i]? with
    | none => s
    | some resolver =>
      { s with
        misses := s.misses.eraseIdx i
        served := ((s.serveResolver304 h client resolver ri res now).map fun mirror =>
          (resolver.obj.etag, mirror.bodyTag)).toList ++ s.served }

end

/-! ## The condition -/

def ServedConfirmed (s : Pairs) : Prop := ∀ x ∈ s.served, x.2 = some x.1

section

variable {W : Type*} (h : Filler W) (s : Pairs)

/-- Whoever takes its body from the key, another resolver than that under `own` or a waiting
request, has the given tag. -/
def Agrees (own k : Key) (tag : Option Bytes) : Prop :=
  (∀ p ∈ s.resolverKeys, p ≠ own → ∀ r ∈ s.store p, r.obj.isVaryResolver = true →
    r.obj.pairedKey = some k → tag = some r.obj.etag) ∧
  ∀ r ∈ s.misses, r.obj.pairedKey = some k → tag = some r.obj.etag

instance (own k : Key) (tag : Option Bytes) : Decidable (s.Agrees own k tag) :=
  inferInstanceAs (Decidable ((∀ p ∈ _, _) ∧ ∀ r ∈ _, _))

/-- The condition on an act: a body is only replaced by one with the tag that its readers expect, no
variant has the zero key, and no 304 brings a Vary list with a star. -/
def Fits : PairAct → Prop
  | .fill primaryKey ri res ttl clock now =>
    storeKey h primaryKey ri res.header.toMap ≠ ⟨0, 0⟩ ∧
      ∀ w ∈ fillWrites h primaryKey ri res ttl clock now,
        s.Agrees primaryKey w.1 (Held.of w.2).bodyTag
  | .renew i keepsLink ri res clock now =>
    ∀ e ∈ s.renewals[i]?, s.Agrees e.1 e.1 (renewed h e.1 e.2 keepsLink ri res clock now).bodyTag ∧
      (res.statusCode = statusNotModified → varyContainsStar
        (effectiveVary h.lib (mergeHeaders304 e.2.obj.header res.header.toMap) h.policy) = false)
  | .remove _ | .start _ | .miss _ | .confirm .. => True

instance (a : PairAct) : Decidable (s.Fits h a) := by
  cases a <;> unfold Fits <;> infer_instance

end

/-! ## Steps -/

/-- The body a resolver would be served with, if still there, came with its tag. -/
def Mirrors (s : Pairs) (r : Held) : Prop :=
  ∃ k, r.obj.pairedKey = some k ∧ ∀ m, s.store k = some m → m.bodyTag = some r.obj.etag

/-- Stored resolvers, and those that requests have read, mirror a variant. -/
structure Coherent (s : Pairs) : Prop where
  stored : ∀ p r, s.store p = some r → r.obj.isVaryResolver = true →
    p ∈ s.resolverKeys ∧ s.Mirrors r
  misses : ∀ r ∈ s.misses, s.Mirrors r

variable {s : Pairs}

theorem Mirrors.of_store_le {s' : Pairs} {r : Held} (hr : s.Mirrors r)
    (hle : ∀ k m, s'.store k = some m → s.store k = some m) : s'.Mirrors r := by
  obtain ⟨k, hk, hm⟩ := hr
  exact ⟨k, hk, fun m hstore => hm m (hle k m hstore)⟩

theorem Mirrors.put {r : Held} (hr : s.Mirrors r) {w : Key × Held}
    (hw : r.obj.pairedKey = some w.1 → w.2.bodyTag = some r.obj.etag) : (s.put w).Mirrors r := by
  obtain ⟨k, hk, hm⟩ := hr
  refine ⟨k, hk, fun m hstore => ?_⟩
  rcases update_eq_some hstore with ⟨rfl, rfl⟩ | ⟨-, hstore⟩
  · exact hw hk
  · exact hm m hstore

theorem Coherent.put_content (hs : s.Coherent) {w : Key × Held}
    (hcontent : w.2.obj.isVaryResolver = false) (hagrees : s.Agrees w.1 w.1 w.2.bodyTag) :
    (s.put w).Coherent := by
  refine ⟨fun p r hstore hres => ?_, fun r hr => ?_⟩
  · rcases update_eq_some hstore with ⟨rfl, rfl⟩ | ⟨hp, hstore⟩
    · rw [hcontent] at hres
      cases hres
    · obtain ⟨hmem, hmirror⟩ := hs.stored p r hstore hres
      refine ⟨by simp only [Pairs.put, hcontent]; exact hmem, hmirror.put ?_⟩
      exact hagrees.1 p hmem hp r hstore hres
  · exact (hs.misses r hr).put (hagrees.2 r hr)

theorem Coherent.put_pair (hs : s.Coherent) {key own : Key} {variant resolver : Held}
    (hne : key ≠ own) (hcontent : variant.obj.isVaryResolver = false)
    (hres : resolver.obj.isVaryResolver) (hpair : resolver.obj.pairedKey = some key)
    (htag : variant.bodyTag = some resolver.obj.etag)
    (hkey : s.Agrees own key variant.bodyTag) (hown : s.Agrees own own resolver.bodyTag) :
    ((s.put (key, variant)).put (own, resolver)).Coherent := by
  have hmirror : ∀ r, s.Mirrors r →
      (r.obj.pairedKey = some key → variant.bodyTag = some r.obj.etag) →
      (r.obj.pairedKey = some own → resolver.bodyTag = some r.obj.etag) →
      ((s.put (key, variant)).put (own, resolver)).Mirrors r :=
    fun r hr hk ho => (hr.put hk).put ho
  refine ⟨fun p r hstore hr => ?_, fun r hr => ?_⟩
  · simp only [Pairs.put, hcontent, hres] at hstore ⊢
    rcases update_eq_some hstore with ⟨rfl, rfl⟩ | ⟨hp, hstore⟩
    · refine ⟨by simp, key, hpair, fun m hm => ?_⟩
      simp only [Function.update_of_ne hne, Function.update_self] at hm
      cases hm
      exact htag
    · rcases update_eq_some hstore with ⟨rfl, rfl⟩ | ⟨-, hstore⟩
      · rw [hcontent] at hr
        cases hr
      · obtain ⟨hmem, hr'⟩ := hs.stored p r hstore hr
        refine ⟨.tail _ hmem, ?_⟩
        have := hmirror r hr' (hkey.1 p hmem hp r hstore hr) (hown.1 p hmem hp r hstore hr)
        simpa [Pairs.put, hcontent, hres] using this
  · exact hmirror r (hs.misses r hr) (hkey.2 r hr) (hown.2 r hr)

section

variable {W : Type*} (h : Filler W)

theorem isVaryResolver_renewed {k : Key} {stale : Held} {keepsLink : Bool} {ri : CapturedRequest}
    {res : Fetched} {clock now : Int}
    (hstar : res.statusCode = statusNotModified → varyContainsStar
      (effectiveVary h.lib (mergeHeaders304 stale.obj.header res.header.toMap) h.policy) = false) :
    (renewed h k stale keepsLink ri res clock now).obj.isVaryResolver = false := by
  unfold renewed
  split_ifs with h304
  · unfold refreshFrom304 Stored.isVaryResolver
    dsimp only
    rw [hstar h304]
    by_cases hvary : effectiveVary h.lib (mergeHeaders304 stale.obj.header res.header.toMap)
        h.policy = []
    · simp [hvary]
    · have hkey := (buildVaryKey_eq_nil_iff h.lib h.sum64 _ ri.header (keyPolicy h.policy)).not.2 hvary
      simp [hkey]
  · exact isVaryResolver_buildObject h k ri res res.header.toMap none clock now _

theorem coherent_fill (hs : s.Coherent) {primaryKey : Key} {ri : CapturedRequest} {res : Fetched}
    {ttl : Option Int} {clock now : Int}
    (hfits : s.Fits h (.fill primaryKey ri res ttl clock now)) :
    (step h s (.fill primaryKey ri res ttl clock now)).Coherent := by
  obtain ⟨hzero, hagrees⟩ := hfits
  have hobj := isVaryResolver_buildObject h (storeKey h primaryKey ri res.header.toMap) ri res
    res.header.toMap ttl clock now
  unfold step
  unfold fillWrites at hagrees ⊢
  dsimp only at hagrees ⊢
  split_ifs at hagrees ⊢ with hkey
  · exact hs.put_content (hobj none) (hagrees _ (List.mem_singleton.2 rfl))
  · have hvary : effectiveVary h.lib res.header.toMap h.policy ≠ [] := by
      intro hnil
      exact hkey (by simp [storeKey, hnil])
    have hresolver : Stored.isVaryResolver (buildResolver
        { buildObject h (storeKey h primaryKey ri res.header.toMap) ri res res.header.toMap ttl clock
            now with pairedKey := pairing primaryKey } primaryKey) = true := by
      show (effectiveVary h.lib res.header.toMap h.policy != [] && ([] : Bytes) == []) = true
      simp [hvary]
    refine hs.put_pair hkey (hobj _) hresolver ?_ ?_ (hagrees _ (by simp)) (hagrees _ (by simp))
    · exact if_neg hzero
    · exact congrArg (fun b => if b = true then none else some _) (hobj (pairing primaryKey))

theorem coherent_step (hs : s.Coherent) (a : PairAct) (hfits : s.Fits h a) :
    (step h s a).Coherent := by
  cases a with
  | fill primaryKey ri res ttl clock now => exact coherent_fill h hs hfits
  | remove gone =>
    have hle : ∀ k m, (step h s (.remove gone)).store k = some m → s.store k = some m := by
      intro k m hstore
      simp only [step] at hstore
      split_ifs at hstore
      exact hstore
    refine ⟨fun p r hstore hres => ?_, fun r hr => (hs.misses r hr).of_store_le hle⟩
    obtain ⟨hmem, hr⟩ := hs.stored p r (hle p r hstore) hres
    exact ⟨hmem, hr.of_store_le hle⟩
  | start k =>
    dsimp only [step]
    split
    · exact hs
    · split_ifs
      · exact hs
      · exact ⟨hs.stored, hs.misses⟩
  | renew i keepsLink ri res clock now =>
    dsimp only [step]
    split
    · exact hs
    · rename_i k stale hi
      obtain ⟨hagrees, hstar⟩ := hfits (k, stale) hi
      have hput := hs.put_content (w := (k, renewed h k stale keepsLink ri res clock now))
        (isVaryResolver_renewed h hstar) hagrees
      exact ⟨hput.stored, hput.misses⟩
  | miss k =>
    dsimp only [step]
    split
    · exact hs
    · rename_i held hheld
      split_ifs with hres
      · refine ⟨hs.stored, fun r hr => ?_⟩
        rcases List.mem_append.1 hr with hr | hr
        · exact hs.misses r hr
        · rw [List.mem_singleton] at hr
          exact hr ▸ (hs.stored k held hheld hres).2
      · exact hs
  | confirm i client ri res now =>
    dsimp only [step]
    split
    · exact hs
    · exact ⟨hs.stored, fun r hr => hs.misses r (List.mem_of_mem_eraseIdx hr)⟩

theorem servedConfirmed_step (hs : s.Coherent) (hq : s.ServedConfirmed) (a : PairAct) :
    (step h s a).ServedConfirmed := by
  cases a with
  | fill primaryKey ri res ttl clock now =>
    have hserved : ∀ (ws : List (Key × Held)) (t : Pairs), (ws.foldl put t).served = t.served := by
      intro ws
      induction ws with
      | nil => exact fun _ => rfl
      | cons w ws ih => exact fun t => ih (t.put w)
    unfold ServedConfirmed step
    rw [hserved]
    exact hq
  | remove gone => exact hq
  | start k =>
    dsimp only [step]
    split
    · exact hq
    · split_ifs <;> exact hq
  | renew i keepsLink ri res clock now =>
    dsimp only [step]
    split <;> exact hq
  | miss k =>
    dsimp only [step]
    split
    · exact hq
    · split_ifs <;> exact hq
  | confirm i client ri res now =>
    dsimp only [step]
    split
    · exact hq
    · rename_i resolver hi
      intro x hx
      rcases List.mem_append.1 hx with hx | hx
      · rw [Option.mem_toList, Option.map_eq_some_iff] at hx
        obtain ⟨mirror, hmirror, rfl⟩ := hx
        obtain ⟨k, hk, hm⟩ := hs.misses resolver (List.mem_of_getElem? hi)
        unfold serveResolver304 at hmirror
        simp only [hk] at hmirror
        split_ifs at hmirror
        exact hm mirror hmirror
      · exact hq x hx

/-- If bodies are only replaced by bodies with the expected tags, whatever is served after a 304
came with the confirmed tag. -/
theorem confirmed_body_has_tag (acts : List PairAct)
    (hfits : Along (step h) (Fits h) Pairs.init acts) :
    Always (step h) ServedConfirmed Pairs.init acts := by
  have hstep : ∀ (s : Pairs) a, s.Coherent ∧ s.ServedConfirmed → s.Fits h a →
      (step h s a).Coherent ∧ (step h s a).ServedConfirmed :=
    fun s a hs ha => ⟨coherent_step h hs.1 a ha, servedConfirmed_step h hs.1 hs.2 a⟩
  have hinit : Pairs.init.Coherent ∧ Pairs.init.ServedConfirmed := by
    refine ⟨⟨fun p r hr => ?_, fun r hr => ?_⟩, fun x hx => ?_⟩
    · cases hr
    · cases hr
    · cases hx
  exact (always_of_along hstep hinit hfits).mono fun s hs => hs.2

end

/-! ## A variant that is renewed -/

def pageFiller : Filler Int := (Node.excludingConfig []).filler

def pageKey : Key := ⟨0, 5⟩

def taggedPage (status : Nat) (tag : String) : Fetched :=
  ⟨status, .map ⟨[⟨Field.cacheControl, ascii "max-age=60"⟩, ⟨Field.etag, ascii tag⟩,
    ⟨Field.vary, ascii "Accept-Language"⟩]⟩, ascii tag, 0⟩

def frenchRequest : CapturedRequest := requestInfoFromRaw false Node.frenchGet

def englishRequest : CapturedRequest := requestInfoFromRaw false pageGet

/-- The French page is stored and renewed; an English request asks with the first version's tag,
which the origin confirms. -/
def renewedThenConfirmed (tag : String) : List PairAct :=
  [.fill pageKey frenchRequest (taggedPage 200 "v1") none 0 0,
    .start (storeKey pageFiller pageKey frenchRequest (taggedPage 200 "v1").header.toMap),
    .renew 0 true frenchRequest (taggedPage 200 tag) 0 0, .miss pageKey,
    .confirm 0 ⟨[]⟩ englishRequest (taggedPage 304 "v1") 0]

/-- The second version is served under the tag of the first. -/
theorem renewed_body_served_under_old_tag :
    (run (step pageFiller) Pairs.init (renewedThenConfirmed "v2")).served =
      [(ascii "v1", some (ascii "v2"))] := by
  decide

theorem unchanged_body_served_under_its_tag :
    Always (step pageFiller) ServedConfirmed Pairs.init (renewedThenConfirmed "v1") ∧
      (run (step pageFiller) Pairs.init (renewedThenConfirmed "v1")).served =
        [(ascii "v1", some (ascii "v1"))] :=
  ⟨confirmed_body_has_tag pageFiller _ (by decide), by decide⟩

end Pairs

end Bouine.Cache
