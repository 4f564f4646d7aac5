import Bouine.Header.Rewrite
import Bouine.Cache.RefreshRegistry

/-! # Request rewrites on the way to the origin

`request.header_remove` and `request.header_set` are applied once, to the live request
(`rewriteRequestCtx`); what goes to the origin is built from that, from a captured request or from
the refresh registry (`internal/cache/handler.go`). The file says which lines of a field each fetch
sends, and when the rewrites have reached it.
-/

namespace Bouine.Cache

open Lib Header Server

/-- The fields that a bucket or a validator may take the place of. -/
def Field.replaced : List Bytes :=
  [Field.acceptEncoding, Field.acceptLanguage, Field.ifNoneMatch, Field.ifModifiedSince]

/-- A route with its rewrites. A field that `request.forwarded` writes is not set as well. -/
structure Rewriting (W : Type*) extends Outbound W where
  rewrite : Rewrite
  distinct : (rewrite.set.map Prod.fst).Nodup
  exclusive : ∀ e ∈ rewrite.set, ∀ hdr, (forwarding.apply hdr).peekAll e.1 = hdr.peekAll e.1

section

variable {W : Type*} (h : Rewriting W)

inductive Registered where
  | live (client : Raw)
  | raw (tls : Bool) (req : RawRequest)
  /-- a refresh registers what it was rebuilt from -/
  | again (earlier : Registered) (vary : Bytes)

def Registered.header : Registered → Map
  | live client => headerFromCtx (h.rewrite.rewriteRequestCtx client)
  | raw tls req => (requestInfoFromRaw tls req).header
  | again earlier vary => savedHeader h.policy earlier.header vary

inductive Fetch where
  /-- a miss, a bypass or an event stream -/
  | stream (client : Raw)
  /-- `doFetchFast` -/
  | fetch (client : Raw)
  | revalidate (client : Raw) (stale : Validators)
  /-- a stale hit of the slow path -/
  | background (client : Raw) (stale : Validators)
  | shedRefill (client : Raw)
  /-- a stale hit of the fast path -/
  | fastBackground (tls : Bool) (req : RawRequest) (stale : Validators)
  | refresh (saved : Registered) (vary : Bytes) (stale : Validators)
  /-- an unsafe method, which is dispatched before the rewrite -/
  | proxy (client : Raw)
  /-- an event stream in answer to an unsafe method -/
  | unsafeStream (client : Raw)

namespace Fetch

def request : Fetch → Raw
  | stream client => streamRequest h.toOutbound (h.rewrite.rewriteRequestCtx client)
  | fetch client => fetchRequest h.toOutbound (h.rewrite.rewriteRequestCtx client)
  | revalidate client stale => revalidateRequest h.toOutbound (h.rewrite.rewriteRequestCtx client) stale
  | background client stale =>
    backgroundRequest h.toOutbound (headerFromCtx (h.rewrite.rewriteRequestCtx client)) stale
  | shedRefill client => refillRequest h.toOutbound (headerFromCtx (h.rewrite.rewriteRequestCtx client))
  | fastBackground tls req stale =>
    backgroundRequest h.toOutbound (requestInfoFromRaw tls req).header stale
  | refresh saved vary stale =>
    backgroundRequest h.toOutbound (savedHeader h.policy (saved.header h) vary) stale
  | proxy client => proxyRequest h.toOutbound client
  | unsafeStream client => streamRequest h.toOutbound client

def copied : Fetch → Raw
  | stream client => rewriteOutboundAE h.toOutbound (h.rewrite.rewriteRequestCtx client)
  | fetch client | revalidate client _ =>
    rewriteOutboundAE h.toOutbound (copyOutboundHeaders (h.rewrite.rewriteRequestCtx client))
  | background client _ | shedRefill client =>
    rewriteOutboundAE h.toOutbound (replayHeaders (headerFromCtx (h.rewrite.rewriteRequestCtx client)))
  | fastBackground tls req _ =>
    rewriteOutboundAE h.toOutbound (replayHeaders (requestInfoFromRaw tls req).header)
  | refresh saved vary _ =>
    rewriteOutboundAE h.toOutbound
      (replayHeaders (savedHeader h.policy (saved.header h) vary))
  | proxy client => copyOutboundHeaders client
  | unsafeStream client => rewriteOutboundAE h.toOutbound client

def stale : Fetch → Validators
  | revalidate _ stale | background _ stale | fastBackground _ _ stale | refresh _ _ stale => stale
  | _ => ⟨[], none⟩

def fromCtx : Fetch → Bool
  | stream _ | fetch _ | revalidate _ _ | background _ _ | shedRefill _ => true
  | _ => false

end Fetch

/-- No line of a removed field is taken from the client, and every set field is sent with its value
only. -/
def RewritesReach (k : Fetch) : Prop :=
  (∀ name, h.rewrite.Removes name → (k.copied h).peekAll name = []) ∧
    ∀ e ∈ h.rewrite.set, (k.request h).peekAll e.1 = [e.2]

/-! ## The lines of each fetch -/

namespace Fetch

def taken (name : Bytes) : Fetch → List Bytes
  | stream client => h.rewrite.lines requestSet name (client.peekAll name)
  | fetch client | revalidate client _ =>
    endToEnd name (h.rewrite.lines requestSet name (client.peekAll name))
  | background client _ | shedRefill client =>
    ((h.rewrite.lines requestSet name (client.peekAll name)).getLast?).toList
  | fastBackground _ req _ => fastLines req name
  | refresh saved vary _ =>
    ((valuesOf name (savedHeader h.policy (saved.header h) vary).entries).getLast?).toList
  | proxy client => endToEnd name (client.peekAll name)
  | unsafeStream client => client.peekAll name

def sent (name : Bytes) (k : Fetch) : List Bytes :=
  match k with
  | proxy _ => k.taken h name
  | _ => bucketedLines h.toOutbound name (k.taken h name)

end Fetch

theorem peekAll_rewriteRequestCtx (d : Rewrite) (hdr : Raw) (name : Bytes) :
    (d.rewriteRequestCtx hdr).peekAll name = d.lines requestSet name (hdr.peekAll name) :=
  d.peekAll_apply requestSet hdr name

theorem peekAll_copied (k : Fetch) (name : Bytes) : (k.copied h).peekAll name = k.sent h name := by
  have hreplay : ∀ hdr : Raw, (replayHeaders (headerFromCtx hdr)).peekAll name =
      ((hdr.peekAll name).getLast?).toList := by
    intro hdr
    rw [peekAll_replayHeaders, valuesOf_headerFromCtx]
  cases k with
  | stream client =>
    exact (peekAll_rewriteOutboundAE _ _ _).trans (by rw [peekAll_rewriteRequestCtx]; rfl)
  | fetch client =>
    exact (peekAll_rewriteOutboundAE _ _ _).trans
      (by rw [peekAll_copyOutboundHeaders, peekAll_rewriteRequestCtx]; rfl)
  | revalidate client stale =>
    exact (peekAll_rewriteOutboundAE _ _ _).trans
      (by rw [peekAll_copyOutboundHeaders, peekAll_rewriteRequestCtx]; rfl)
  | background client stale =>
    exact (peekAll_rewriteOutboundAE _ _ _).trans (by rw [hreplay, peekAll_rewriteRequestCtx]; rfl)
  | shedRefill client =>
    exact (peekAll_rewriteOutboundAE _ _ _).trans (by rw [hreplay, peekAll_rewriteRequestCtx]; rfl)
  | fastBackground tls req stale =>
    have hone : (((fastLines req name).getLast?).toList) = fastLines req name := by
      unfold fastLines
      split_ifs
      · rfl
      · cases ((req.headers.filter fun l => canonicalHeaderKey l.key = name &&
          !equalFold l.key Field.cookie).map RawHeader.value).getLast? <;> rfl
    exact (peekAll_rewriteOutboundAE _ _ _).trans
      (by rw [peekAll_replayHeaders, valuesOf_requestInfoFromRaw, hone]; rfl)
  | refresh saved vary stale =>
    exact (peekAll_rewriteOutboundAE _ _ _).trans (by rw [peekAll_replayHeaders]; rfl)
  | proxy client => exact peekAll_copyOutboundHeaders client name
  | unsafeStream client => exact peekAll_rewriteOutboundAE _ _ _

theorem validatedLines_none (name : Bytes) (ls : List Bytes) :
    validatedLines h.toOutbound ⟨[], none⟩ name ls = ls := by
  simp [validatedLines]

theorem peekAll_request (k : Fetch) {name : Bytes}
    (hfwd : ∀ hdr, (h.forwarding.apply hdr).peekAll name = hdr.peekAll name) :
    (k.request h).peekAll name = validatedLines h.toOutbound k.stale name (k.sent h name) := by
  rw [← peekAll_copied]
  cases k with
  | stream client | fetch client | shedRefill client | proxy client | unsafeStream client =>
    exact (hfwd _).trans (validatedLines_none h _ _).symm
  | revalidate client stale | background client stale | fastBackground tls req stale
  | refresh saved vary stale =>
    exact (peekAll_setConditionalHeaders _ _ _ _).trans (congrArg _ (hfwd _))

/-! ## When the rewrites reach a fetch -/

theorem bucketedLines_nil (name : Bytes) : bucketedLines h.toOutbound name [] = [] := by
  have henc : encodingBucket h.lib [] = ascii "identity" := rfl
  have hlang : langBucket h.lib [] = none := rfl
  simp [bucketedLines, henc, hlang]

theorem sent_of_removes {k : Fetch} (hk : k.fromCtx) {name : Bytes}
    (hname : h.rewrite.Removes name) : k.sent h name = [] := by
  have hlines := h.rewrite.lines_of_removes requestSet hname
  have hnil := bucketedLines_nil h name
  cases k with
  | stream client => simp [Fetch.sent, Fetch.taken, hlines, hnil]
  | fetch client | revalidate client stale =>
    simp [Fetch.sent, Fetch.taken, hlines, hnil, endToEnd]
  | background client stale | shedRefill client => simp [Fetch.sent, Fetch.taken, hlines, hnil]
  | fastBackground tls req stale | refresh saved vary stale | proxy client | unsafeStream client =>
    simp [Fetch.fromCtx] at hk

/-! ### Set fields -/

variable (e : Bytes × Bytes)

/-- Setting the field leaves nothing of the client's lines beside the value. -/
def SetsAlone (client : Raw) : Prop :=
  let kept := h.rewrite.kept e.1 (client.peekAll e.1)
  if e.1 = Field.transferEncoding then kept = [e.2]
  else if e.1 = Field.cookie then joinCookies (kept ++ [e.2]) = [e.2]
  else kept.length ≤ 1

/-- The last line of the field once it is set. -/
def SetsLast (client : Raw) (x : Bytes) : Prop :=
  let kept := h.rewrite.kept e.1 (client.peekAll e.1)
  if e.1 = Field.transferEncoding then kept.getLast? = some x
  else if e.1 = Field.cookie then joinCookies (kept ++ [e.2]) = [x]
  else (kept.drop 1).getLast?.getD e.2 = x

/-- What is sent of lines that are taken over: a bucket or a validator may take the place of the
first. -/
def outLines (stale : Validators) (name : Bytes) (ls : List Bytes) : List Bytes :=
  validatedLines h.toOutbound stale name (bucketedLines h.toOutbound name ls)

/-- When a set field arrives. What is captured keeps the last line only; what is not built from the
rewritten request has to have the value by itself. -/
def Fetch.Arrives (k : Fetch) : Prop :=
  match k with
  | stream client => SetsAlone h e client ∧ outLines h k.stale e.1 [e.2] = [e.2]
  | fetch client | revalidate client _ =>
    e.1 ∉ Field.hopByHop ∧ SetsAlone h e client ∧ outLines h k.stale e.1 [e.2] = [e.2]
  | background client _ | shedRefill client =>
    ∃ x, SetsLast h e client x ∧ outLines h k.stale e.1 [x] = [e.2]
  | _ => validatedLines h.toOutbound k.stale e.1 (k.sent h e.1) = [e.2]

variable {e}

theorem requestSet_lines (l : Line) (ls : List Bytes) :
    requestSet.lines l ls =
      if l.name = Field.transferEncoding then ls
      else if l.name = Field.cookie then joinCookies (ls ++ [l.value])
      else l.value :: ls.drop 1 :=
  rfl

theorem setsAlone_iff (he : e ∈ h.rewrite.set) (client : Raw) :
    SetsAlone h e client ↔ h.rewrite.lines requestSet e.1 (client.peekAll e.1) = [e.2] := by
  rw [h.rewrite.lines_of_mem _ h.distinct he, requestSet_lines, SetsAlone]
  split_ifs
  · rfl
  · rfl
  · rw [List.cons.injEq, List.drop_eq_nil_iff, eq_self, true_and]

theorem setsLast_iff (he : e ∈ h.rewrite.set) (client : Raw) (x : Bytes) :
    SetsLast h e client x ↔
      (h.rewrite.lines requestSet e.1 (client.peekAll e.1)).getLast? = some x := by
  rw [h.rewrite.lines_of_mem _ h.distinct he, requestSet_lines, SetsLast]
  split_ifs
  · rfl
  · unfold joinCookies
    dsimp only
    split_ifs <;> simp
  · rw [List.getLast?_cons, Option.some_inj]

/-- A line of the field that is set comes first. -/
theorem head_lines (he : e ∈ h.rewrite.set) (hname : e.1 ∈ Field.replaced) (ls : List Bytes) :
    ∃ rest, h.rewrite.lines requestSet e.1 ls = e.2 :: rest := by
  have hother : ∀ n ∈ Field.replaced, n ≠ Field.transferEncoding ∧ n ≠ Field.cookie := by decide
  obtain ⟨hte, hcookie⟩ := hother e.1 hname
  rw [h.rewrite.lines_of_mem _ h.distinct he, requestSet_lines, if_neg hte, if_neg hcookie]
  exact ⟨_, rfl⟩

theorem outLines_of_notMem {name : Bytes} (hname : name ∉ Field.replaced) (stale : Validators)
    (ls : List Bytes) : outLines h stale name ls = ls := by
  simp only [Field.replaced, List.mem_cons, List.not_mem_nil, or_false, not_or] at hname
  obtain ⟨henc, hlang, hinm, hims⟩ := hname
  rw [outLines, bucketedLines, if_neg henc, if_neg hlang, ite_self, validatedLines,
    if_neg fun h => hinm h.1]
  cases stale.lastModified with
  | none => rfl
  | some t => exact if_neg hims

theorem outLines_nil (stale : Validators) {name : Bytes} (hname : name ∉ Field.replaced) :
    outLines h stale name [] = [] := outLines_of_notMem h hname stale []

theorem bucketedLines_cons (name x : Bytes) (rest : List Bytes) :
    (name = Field.acceptEncoding ∧ bucketedLines h.toOutbound name (x :: rest) = [] ∧
      bucketedLines h.toOutbound name [x] = []) ∨
    ∃ y, bucketedLines h.toOutbound name (x :: rest) = y :: rest ∧
      bucketedLines h.toOutbound name [x] = [y] := by
  unfold bucketedLines
  by_cases hverbatim : verbatimEncoding h.policy = true
  · exact .inr ⟨x, if_pos hverbatim, if_pos hverbatim⟩
  rw [if_neg hverbatim, if_neg hverbatim]
  by_cases henc : name = Field.acceptEncoding
  · rw [if_pos henc, if_pos henc]
    by_cases hidentity : encodingBucket h.lib x = ascii "identity"
    · exact .inl ⟨henc, if_pos hidentity, if_pos hidentity⟩
    · exact .inr ⟨_, if_neg hidentity, if_neg hidentity⟩
  rw [if_neg henc, if_neg henc]
  by_cases hlang : name = Field.acceptLanguage
  · rw [if_pos hlang, if_pos hlang, List.head?_cons, List.head?_cons, Option.getD_some]
    cases langBucket h.lib x <;> exact .inr ⟨_, rfl, rfl⟩
  · exact .inr ⟨x, if_neg hlang, if_neg hlang⟩

/-- The lines after the first stay, or all are deleted. -/
theorem outLines_cons (stale : Validators) (name x : Bytes) (rest : List Bytes) :
    (outLines h stale name (x :: rest) = [] ∧ outLines h stale name [x] = []) ∨
      ∃ y, outLines h stale name (x :: rest) = y :: rest ∧ outLines h stale name [x] = [y] := by
  unfold outLines
  rcases bucketedLines_cons h name x rest with ⟨rfl, hnil, hone⟩ | ⟨y, hcons, hone⟩
  · have hother : Field.acceptEncoding ≠ Field.ifNoneMatch ∧
        Field.acceptEncoding ≠ Field.ifModifiedSince := by decide
    have hempty : validatedLines h.toOutbound stale Field.acceptEncoding [] = [] := by
      rw [validatedLines, if_neg fun hinm => hother.1 hinm.1]
      cases stale.lastModified with
      | none => rfl
      | some t => exact if_neg hother.2
    rw [hnil, hone]
    exact .inl ⟨hempty, hempty⟩
  · rw [hcons, hone, validatedLines, validatedLines]
    cases stale.lastModified <;> split_ifs <;> exact .inr ⟨_, rfl, rfl⟩

theorem outLines_eq_singleton_iff (stale : Validators) {ls : List Bytes}
    (hls : e.1 ∈ Field.replaced → ∃ rest, ls = e.2 :: rest) :
    outLines h stale e.1 ls = [e.2] ↔ ls = [e.2] ∧ outLines h stale e.1 [e.2] = [e.2] := by
  by_cases hname : e.1 ∈ Field.replaced
  · obtain ⟨rest, rfl⟩ := hls hname
    rcases outLines_cons h stale e.1 e.2 rest with ⟨hnil, hone⟩ | ⟨y, hcons, hone⟩
    · simp [hnil, hone]
    · simp [hcons, hone, and_comm]
  · simp [outLines_of_notMem h hname]

theorem outLines_last_iff (he : e ∈ h.rewrite.set) (stale : Validators) (client : Raw) :
    outLines h stale e.1 ((h.rewrite.lines requestSet e.1 (client.peekAll e.1)).getLast?).toList =
        [e.2] ↔
      ∃ x, SetsLast h e client x ∧ outLines h stale e.1 [x] = [e.2] := by
  simp only [setsLast_iff h he]
  cases hlast : (h.rewrite.lines requestSet e.1 (client.peekAll e.1)).getLast? with
  | some x => simp
  | none =>
    have hname : e.1 ∉ Field.replaced := by
      intro hname
      obtain ⟨rest, hcons⟩ := head_lines h he hname (client.peekAll e.1)
      simp [hcons] at hlast
    simp [outLines_nil h stale hname]

end

/-! ## A removed cookie comes back -/

def cookielessRoute : Rewriting Int where
  lib := asciiLib
  policy := none
  forwarding := ⟨id, peekAll_id⟩
  formatTime := fun _ => []
  rewrite := ⟨[Field.cookie], [(ascii "X-Tenant", ascii "shop")]⟩
  distinct := by decide
  exclusive := fun _ _ _ => rfl

def sessionRequest : RawRequest where
  method := ascii "GET"
  path := ascii "/page"
  query := []
  host := ascii "shop.example"
  httpVersion := ascii "HTTP/1.1"
  headers := [⟨ascii "Cookie", ascii "session=1"⟩]
  scanFlags := {}
  cacheControlRaw := []
  connectionClose := false

end Bouine.Cache
