import Bouine.Cache.Cacheable

/-! # Requests to the origin

Each path that asks the origin builds its request from the client's: a miss copies the lines, a
background fetch replays the captured map, and a revalidation puts the validators of the stored
object on top (`internal/cache/handler.go`, `internal/cache/conditional.go`). The file says which
lines each sends of the fields that ask for less than a full response.
-/

namespace Bouine.Cache

open Lib Header

namespace Field

def acceptEncoding : Bytes := ascii "Accept-Encoding"
def acceptLanguage : Bytes := ascii "Accept-Language"
def ifNoneMatch : Bytes := ascii "If-None-Match"
def ifModifiedSince : Bytes := ascii "If-Modified-Since"
def range : Bytes := ascii "Range"

def hopByHop : List Bytes :=
  [ascii "Connection", ascii "Keep-Alive", ascii "Transfer-Encoding", ascii "TE", ascii "Trailer",
    ascii "Upgrade", ascii "Proxy-Connection"]

def forwarded : List Bytes :=
  [ascii "X-Forwarded-For", ascii "X-Forwarded-Proto", ascii "X-Forwarded-Host", ascii "Via"]

def partialRequest : List Bytes := [ifNoneMatch, ifModifiedSince, range]

end Field

/-! ## Parts of the requests -/

def headerFromCtx (h : Raw) : Map := Map.sortEntries ⟨h.lines⟩

def copyOutboundHeaders (src : Raw) : Raw :=
  ⟨src.lines.filter fun l => !Field.hopByHop.contains l.name⟩

def replayHeaders (m : Map) : Raw := m.entries.foldl (fun h e => h.set e.name e.value) ⟨[]⟩

/-- What `applyForwardedCtx` or `applyForwardedInfo` does under the route's options. -/
structure Forwarding where
  apply : Raw → Raw
  keeps : ∀ (h : Raw) (name : Bytes), name ∉ Field.forwarded → (apply h).peekAll name = h.peekAll name

theorem peekAll_id (h : Raw) (name : Bytes) (_ : name ∉ Field.forwarded) :
    (id h).peekAll name = h.peekAll name :=
  rfl

/-- A stored object's validators; a missing time is the zero time. -/
structure Validators where
  etag : Bytes
  lastModified : Option Int
deriving DecidableEq

def quoteETag (etag : Bytes) : Bytes :=
  if etag = [] then etag
  else if etag.head? = some (byte '"') ∨
      [ascii "W/", ascii "w/"].contains (etag.take 2) then etag
  else byte '"' :: (etag ++ [byte '"'])

section

variable {W : Type*}

/-- The parts of a route that shape its requests. `formatTime` is the HTTP format of a time. -/
structure Outbound (W : Type*) where
  lib : Stdlib W
  policy : Option KeyPolicy
  forwarding : Forwarding
  formatTime : Int → Bytes

variable (h : Outbound W)

def bucketEncoding (hdr : Raw) : Raw :=
  let bucket := encodingBucket h.lib (hdr.peek Field.acceptEncoding)
  if bucket = ascii "identity" then hdr.del Field.acceptEncoding
  else hdr.set Field.acceptEncoding bucket

def bucketLanguage (hdr : Raw) : Raw :=
  match langBucket h.lib (hdr.peek Field.acceptLanguage) with
  | some lang => hdr.set Field.acceptLanguage lang
  | none => hdr

def rewriteOutboundAE (hdr : Raw) : Raw :=
  if verbatimEncoding h.policy then hdr else bucketLanguage h (bucketEncoding h hdr)

def setConditionalHeaders (hdr : Raw) (obj : Validators) : Raw :=
  let hdr := if obj.etag ≠ [] then hdr.set Field.ifNoneMatch (quoteETag obj.etag) else hdr
  match obj.lastModified with
  | some t => hdr.set Field.ifModifiedSince (h.formatTime t)
  | none => hdr

/-! ## The requests -/

def streamRequest (client : Raw) : Raw := h.forwarding.apply (rewriteOutboundAE h client)

def fetchRequest (client : Raw) : Raw :=
  h.forwarding.apply (rewriteOutboundAE h (copyOutboundHeaders client))

def proxyRequest (client : Raw) : Raw := h.forwarding.apply (copyOutboundHeaders client)

def revalidateRequest (client : Raw) (stale : Validators) : Raw :=
  setConditionalHeaders h (fetchRequest h client) stale

/-- The request of `revalidateResolverMiss`: the resolver's tag joins the client's own. -/
def resolverRequest (client : Raw) (resolver : Validators) : Raw :=
  let hdr := fetchRequest h client
  let inm := hdr.peek Field.ifNoneMatch
  let hdr :=
    if inm = [] then hdr.set Field.ifNoneMatch (quoteETag resolver.etag)
    else if trimSpace inm = ascii "*" then hdr
    else hdr.set Field.ifNoneMatch (inm ++ ascii ", " ++ quoteETag resolver.etag)
  match resolver.lastModified with
  | some t =>
    if hdr.peek Field.ifModifiedSince = [] then hdr.set Field.ifModifiedSince (h.formatTime t) else hdr
  | none => hdr

def refillRequest (header : Map) : Raw :=
  h.forwarding.apply (rewriteOutboundAE h (replayHeaders header))

def backgroundRequest (header : Map) (stale : Validators) : Raw :=
  setConditionalHeaders h (refillRequest h header) stale

end

/-! ## The lines they send -/

section

variable {W : Type*} (h : Outbound W) {name : Bytes}

def endToEnd (name : Bytes) (ls : List Bytes) : List Bytes :=
  if name ∈ Field.hopByHop then [] else ls

/-- The lines after `rewriteOutboundAE`. -/
def bucketedLines (name : Bytes) (ls : List Bytes) : List Bytes :=
  if verbatimEncoding h.policy then ls
  else if name = Field.acceptEncoding then
    if encodingBucket h.lib ((ls.head?).getD []) = ascii "identity" then []
    else encodingBucket h.lib ((ls.head?).getD []) :: ls.drop 1
  else if name = Field.acceptLanguage then
    match langBucket h.lib ((ls.head?).getD []) with
    | some lang => lang :: ls.drop 1
    | none => ls
  else ls

def validatedLines (v : Validators) (name : Bytes) (ls : List Bytes) : List Bytes :=
  if name = Field.ifNoneMatch ∧ v.etag ≠ [] then quoteETag v.etag :: ls.drop 1
  else
    match v.lastModified with
    | some t => if name = Field.ifModifiedSince then h.formatTime t :: ls.drop 1 else ls
    | none => ls

theorem peekAll_copyOutboundHeaders (client : Raw) (name : Bytes) :
    (copyOutboundHeaders client).peekAll name = endToEnd name (client.peekAll name) := by
  rw [copyOutboundHeaders, Raw.peekAll, valuesOf_filter name fun n => !Field.hopByHop.contains n,
    endToEnd]
  by_cases hhop : name ∈ Field.hopByHop <;> simp [Raw.peekAll]

theorem peek_eq {hdr : Raw} (hname : name ≠ setCookie) :
    hdr.peek name = ((hdr.peekAll name).head?).getD [] := by
  rw [Raw.peek, if_neg hname]

theorem bucketed_names : Field.acceptEncoding ≠ setCookie ∧ Field.acceptLanguage ≠ setCookie ∧
    Field.acceptEncoding ≠ Field.acceptLanguage := by decide

theorem peekAll_bucketEncoding (hdr : Raw) (name : Bytes) :
    (bucketEncoding h hdr).peekAll name =
      if name = Field.acceptEncoding then
        if encodingBucket h.lib (((hdr.peekAll name).head?).getD []) = ascii "identity" then []
        else encodingBucket h.lib (((hdr.peekAll name).head?).getD []) :: (hdr.peekAll name).drop 1
      else hdr.peekAll name := by
  unfold bucketEncoding
  rw [peek_eq bucketed_names.1]
  dsimp only
  by_cases hname : name = Field.acceptEncoding
  · subst hname
    rw [if_pos rfl]
    split_ifs
    · exact hdr.peekAll_del_self _
    · rw [Raw.peekAll_set, if_pos rfl]
  · rw [if_neg hname]
    split_ifs
    · exact hdr.peekAll_del_of_ne hname
    · rw [Raw.peekAll_set, if_neg hname]

theorem peekAll_bucketLanguage (hdr : Raw) (name : Bytes) :
    (bucketLanguage h hdr).peekAll name =
      if name = Field.acceptLanguage then
        match langBucket h.lib (((hdr.peekAll name).head?).getD []) with
        | some lang => lang :: (hdr.peekAll name).drop 1
        | none => hdr.peekAll name
      else hdr.peekAll name := by
  unfold bucketLanguage
  rw [peek_eq bucketed_names.2.1]
  by_cases hname : name = Field.acceptLanguage
  · subst hname
    rw [if_pos rfl]
    cases langBucket h.lib (((hdr.peekAll Field.acceptLanguage).head?).getD []) with
    | none => rfl
    | some tag => exact (Raw.peekAll_set _ _ _ _).trans (if_pos rfl)
  · rw [if_neg hname]
    cases langBucket h.lib (((hdr.peekAll Field.acceptLanguage).head?).getD []) with
    | none => rfl
    | some tag => exact (Raw.peekAll_set _ _ _ _).trans (if_neg hname)

theorem peekAll_rewriteOutboundAE (hdr : Raw) (name : Bytes) :
    (rewriteOutboundAE h hdr).peekAll name = bucketedLines h name (hdr.peekAll name) := by
  unfold rewriteOutboundAE bucketedLines
  by_cases hverbatim : verbatimEncoding h.policy = true
  · rw [if_pos hverbatim, if_pos hverbatim]
  · rw [if_neg hverbatim, if_neg hverbatim, peekAll_bucketLanguage, peekAll_bucketEncoding]
    by_cases henc : name = Field.acceptEncoding
    · rw [if_neg (henc ▸ bucketed_names.2.2), if_pos henc, if_pos henc]
    · rw [if_neg henc, if_neg henc]

theorem peekAll_replayHeaders (m : Map) (name : Bytes) :
    (replayHeaders m).peekAll name = ((valuesOf name m.entries).getLast?).toList := by
  obtain ⟨es⟩ := m
  induction es using List.reverseRecOn with
  | nil => rfl
  | append_singleton es e ih =>
    have hlast : replayHeaders ⟨es ++ [e]⟩ = (replayHeaders ⟨es⟩).set e.name e.value := by
      simp [replayHeaders]
    rw [hlast, Raw.peekAll_set, valuesOf_append]
    by_cases he : name = e.name
    · subst he
      rw [if_pos rfl, ih]
      cases (valuesOf e.name es).getLast? <;> simp [valuesOf]
    · rw [if_neg he, ih, valuesOf_singleton_of_ne he, List.append_nil]

section

variable (hname : name ∈ Field.partialRequest)
include hname

theorem partialRequest_untouched :
    name ∉ Field.hopByHop ∧ name ∉ Field.forwarded ∧ name ≠ Field.acceptEncoding ∧
      name ≠ Field.acceptLanguage := by
  have hall : ∀ f ∈ Field.partialRequest, f ∉ Field.hopByHop ∧ f ∉ Field.forwarded ∧
      f ≠ Field.acceptEncoding ∧ f ≠ Field.acceptLanguage := by decide
  exact hall name hname

theorem untouched_lines (hdr : Raw) (ls : List Bytes) :
    (h.forwarding.apply hdr).peekAll name = hdr.peekAll name ∧ bucketedLines h name ls = ls ∧
      endToEnd name ls = ls := by
  obtain ⟨hhop, hfwd, henc, hlang⟩ := partialRequest_untouched hname
  refine ⟨h.forwarding.keeps _ _ hfwd, ?_, if_neg hhop⟩
  rw [bucketedLines, if_neg henc, if_neg hlang, ite_self]

theorem peekAll_streamRequest (client : Raw) :
    (streamRequest h client).peekAll name = client.peekAll name := by
  rw [streamRequest, (untouched_lines h hname _ []).1, peekAll_rewriteOutboundAE,
    (untouched_lines h hname client _).2.1]

theorem peekAll_fetchRequest (client : Raw) :
    (fetchRequest h client).peekAll name = client.peekAll name := by
  rw [fetchRequest, (untouched_lines h hname _ []).1, peekAll_rewriteOutboundAE,
    (untouched_lines h hname client _).2.1, peekAll_copyOutboundHeaders,
    (untouched_lines h hname client _).2.2]

theorem peekAll_proxyRequest (client : Raw) :
    (proxyRequest h client).peekAll name = client.peekAll name := by
  rw [proxyRequest, (untouched_lines h hname _ []).1, peekAll_copyOutboundHeaders,
    (untouched_lines h hname client _).2.2]

theorem peekAll_refillRequest (header : Map) :
    (refillRequest h header).peekAll name = ((valuesOf name header.entries).getLast?).toList := by
  rw [refillRequest, (untouched_lines h hname _ []).1, peekAll_rewriteOutboundAE,
    (untouched_lines h hname (replayHeaders header) _).2.1, peekAll_replayHeaders]

end

theorem conditional_names : Field.ifModifiedSince ≠ Field.ifNoneMatch ∧
    Field.range ≠ Field.ifNoneMatch ∧ Field.range ≠ Field.ifModifiedSince := by decide

theorem peekAll_setConditionalHeaders (hdr : Raw) (v : Validators) (name : Bytes) :
    (setConditionalHeaders h hdr v).peekAll name = validatedLines h v name (hdr.peekAll name) := by
  have htag : ∀ etag : Bytes,
      (if etag ≠ [] then hdr.set Field.ifNoneMatch (quoteETag etag) else hdr).peekAll name =
        if name = Field.ifNoneMatch ∧ etag ≠ [] then
          quoteETag etag :: (hdr.peekAll name).drop 1
        else hdr.peekAll name := by
    intro etag
    by_cases hetag : etag = []
    · simp [hetag]
    · rw [if_pos hetag, Raw.peekAll_set]
      by_cases hname : name = Field.ifNoneMatch <;> simp [hname, hetag]
  obtain ⟨etag, lm⟩ := v
  unfold setConditionalHeaders validatedLines
  cases lm with
  | none => exact htag etag
  | some t =>
    dsimp only
    rw [Raw.peekAll_set]
    by_cases hname : name = Field.ifModifiedSince
    · subst hname
      rw [if_pos rfl, htag etag, if_neg fun hinm => conditional_names.1 hinm.1,
        if_neg fun hinm => conditional_names.1 hinm.1, if_pos rfl]
    · rw [if_neg hname, htag etag, if_neg hname]

theorem ifNoneMatch_setConditionalHeaders (hdr : Raw) (obj : Validators) :
    (setConditionalHeaders h hdr obj).peekAll Field.ifNoneMatch =
      if obj.etag = [] then hdr.peekAll Field.ifNoneMatch
      else quoteETag obj.etag :: (hdr.peekAll Field.ifNoneMatch).drop 1 := by
  rw [peekAll_setConditionalHeaders, validatedLines]
  cases obj.lastModified <;> by_cases htag : obj.etag = [] <;> simp [conditional_names.1.symm]

theorem ifModifiedSince_setConditionalHeaders (hdr : Raw) (obj : Validators) :
    (setConditionalHeaders h hdr obj).peekAll Field.ifModifiedSince =
      match obj.lastModified with
      | none => hdr.peekAll Field.ifModifiedSince
      | some t => h.formatTime t :: (hdr.peekAll Field.ifModifiedSince).drop 1 := by
  rw [peekAll_setConditionalHeaders, validatedLines]
  cases obj.lastModified <;> simp [conditional_names.1]

theorem range_setConditionalHeaders (hdr : Raw) (obj : Validators) :
    (setConditionalHeaders h hdr obj).peekAll Field.range = hdr.peekAll Field.range := by
  rw [peekAll_setConditionalHeaders, validatedLines]
  cases obj.lastModified <;> simp [conditional_names]

theorem range_resolverRequest (client : Raw) (resolver : Validators) :
    (resolverRequest h client resolver).peekAll Field.range = client.peekAll Field.range := by
  have hrange : Field.range ∈ Field.partialRequest := by simp [Field.partialRequest]
  rw [← peekAll_fetchRequest h hrange client]
  unfold resolverRequest
  dsimp only
  cases resolver.lastModified with
  | none => split_ifs <;> simp [Raw.peekAll_set_of_ne conditional_names.2.1]
  | some t => split_ifs <;> simp [Raw.peekAll_set_of_ne, conditional_names]

end

end Bouine.Cache
