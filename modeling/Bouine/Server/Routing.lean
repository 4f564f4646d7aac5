import Bouine.Cache.Key
import Bouine.Cache.OriginTarget
import Bouine.Server.Parser

/-! # Route selection

One first-match-wins table (`matchRoute`, `internal/server/router.go`) serves both entries of the
proxy: the raw fast path asks it with the bytes of the request line and of the `Host` line, the
fasthttp path with what fasthttp made of them. Here is for which requests both select the same entry
of every table.
-/

namespace Bouine.Server

open Lib Cache List

/-! ## The code -/

/-- A compiled host predicate (`trafficPattern`). -/
inductive HostPattern where
  | exact (text : Bytes)
  | suffix (text : Bytes)
deriving DecidableEq

/-- The fields of a `routeEntry` that decide whether it matches. -/
structure RouteEntry where
  hostPat : HostPattern := .exact []
  pathRe : Option (Bytes → Bool) := none
  pathPrefix : Bytes := []
  methods : Option (List Bytes) := none

def compileRouteHost (host : Bytes) : HostPattern :=
  if (ascii "*.").isPrefixOf (toLower host) then .suffix ((toLower host).drop 1)
  else .exact (toLower host)

def stripHostPort (host : Bytes) : Bytes :=
  match ((host.reverse.dropWhile (· ≠ byte ':')).drop 1).reverse with
  | [] => host
  | c :: front => c :: front

def hostMatches (pat : HostPattern) (host : Bytes) : Bool :=
  match pat with
  | .suffix text =>
    decide (text.length < host.length) && equalFold (host.drop (host.length - text.length)) text
  | .exact text => text.isEmpty || equalFold text host

def pathMatches (re : RouteEntry) (path : Bytes) : Bool :=
  match re.pathRe with
  | some matchString => matchString path
  | none => re.pathPrefix.isEmpty || re.pathPrefix.isPrefixOf path

def methodMatches (re : RouteEntry) (method : Bytes) : Bool :=
  match re.methods with
  | none => true
  | some methods => method.isEmpty || methods.contains method

/-- The index of the selected entry; `none` for the source's nil. -/
def matchRoute (routes : List RouteEntry) (host path method : Bytes) : Option Nat :=
  routes.findIdx? fun re =>
    hostMatches re.hostPat (stripHostPort host) && pathMatches re path && methodMatches re method

/-- What fasthttp's `Host()` and `Path()` return for a `Host` line and a target's path. Nothing is
said of the host. -/
structure URIReader where
  host : Bytes → Bytes → Bytes
  path : Bytes → Bytes → Bytes
  -- duplicate slashes are collapsed, and there is nothing else to do to an unflagged path
  collapsed : ∀ h p, pathNeedsNormalization p = false →
    collapseSlashes (path h p) = path h p
  plain : ∀ h p, pathNeedsNormalization p = false → collapseSlashes p = p → path h p = p

def ctxMethod (method : Bytes) : Bytes := if method = [] then ascii "GET" else method

def fastRoute (routes : List RouteEntry) (req : RawRequest) : Option Nat :=
  matchRoute routes req.host req.path req.method

def slowRoute (uri : URIReader) (routes : List RouteEntry) (req : RawRequest) : Option Nat :=
  matchRoute routes (uri.host req.host req.path) (uri.path req.host req.path)
    (ctxMethod req.method)

def DoubleSlash (p : Bytes) : Prop := ascii "//" <:+: p

instance (p : Bytes) : Decidable (DoubleSlash p) := inferInstanceAs (Decidable (_ <:+: _))

def SameRoute (uri : URIReader) (req : RawRequest) : Prop :=
  ∀ routes, fastRoute routes req = slowRoute uri routes req

/-! ## Slashes -/

theorem length_collapseSlashes_le (p : Bytes) : (collapseSlashes p).length ≤ p.length := by
  fun_induction collapseSlashes p with
  | case1 => exact le_rfl
  | case2 => exact le_rfl
  | case3 => simp only [length_cons] at *; omega
  | case4 => simp only [length_cons] at *; omega

theorem doubleSlash_cons_cons (c d : UInt8) (s : Bytes) :
    DoubleSlash (c :: d :: s) ↔ (c = byte '/' ∧ d = byte '/') ∨ DoubleSlash (d :: s) := by
  have htext : ascii "//" = [byte '/', byte '/'] := by decide
  rw [DoubleSlash, DoubleSlash, htext, infix_cons_iff]
  simp [eq_comm]

theorem collapseSlashes_eq_self_iff (p : Bytes) :
    collapseSlashes p = p ↔ ¬ DoubleSlash p := by
  fun_induction collapseSlashes p with
  | case1 => exact iff_of_true rfl (by decide)
  | case2 c =>
    refine iff_of_true rfl fun h => ?_
    have := h.length_le
    simp [ascii] at this
  | case3 c d s hslash ih =>
    -- a slash is dropped: the result is too short
    refine iff_of_false (fun h => ?_) (not_not_intro ((doubleSlash_cons_cons c d s).2 (.inl hslash)))
    have hlen := h ▸ length_collapseSlashes_le (d :: s)
    simp only [length_cons] at hlen
    omega
  | case4 c d s hslash ih =>
    rw [doubleSlash_cons_cons, cons.injEq, ih]
    simp [hslash]

theorem collapseSlashes_cons (c : UInt8) (s : Bytes) : ∃ w, collapseSlashes (c :: s) = c :: w := by
  induction s generalizing c with
  | nil => exact ⟨[], rfl⟩
  | cons d s ih =>
    unfold collapseSlashes
    split_ifs with hslash
    · exact (hslash.1.trans hslash.2.symm) ▸ ih d
    · exact ⟨_, rfl⟩

theorem not_doubleSlash_collapseSlashes (p : Bytes) : ¬ DoubleSlash (collapseSlashes p) := by
  fun_induction collapseSlashes p with
  | case1 => decide
  | case2 c => exact (collapseSlashes_eq_self_iff [c]).1 rfl
  | case3 c d s hslash ih => exact ih
  | case4 c d s hslash ih =>
    obtain ⟨w, hw⟩ := collapseSlashes_cons d s
    rw [hw] at ih ⊢
    rw [doubleSlash_cons_cons, not_or]
    exact ⟨hslash, ih⟩

/-! ## One entry -/

theorem hostMatches_congr {a b : Bytes} (h : equalFold a b) (pat : HostPattern) :
    hostMatches pat a = hostMatches pat b := by
  have hlower : toLower a = toLower b := beq_iff_eq.1 h
  have hlen : a.length = b.length := by simpa [toLower] using congrArg length hlower
  cases pat with
  | exact text => simp [hostMatches, equalFold, hlower]
  | suffix text =>
    have hdrop : ∀ n, toLower (a.drop n) = toLower (b.drop n) := by
      intro n
      simpa [toLower] using congrArg (drop n) hlower
    simp [hostMatches, equalFold, hlen, hdrop]

theorem exists_hostMatches_ne {a b : Bytes} (h : equalFold a b = false) :
    ∃ text, hostMatches (.exact text) a ≠ hostMatches (.exact text) b := by
  cases a with
  | nil =>
    refine ⟨b, ?_⟩
    cases b with
    | nil => simp [equalFold] at h
    | cons c b => simp [hostMatches, equalFold, toLower]
  | cons c a => exact ⟨c :: a, by simp [hostMatches, h]; simp [equalFold]⟩

theorem exists_isPrefixOf_ne {p q : Bytes} (h : p ≠ q) :
    ∃ t : Bytes, t ≠ [] ∧ t.isPrefixOf p ≠ t.isPrefixOf q := by
  by_cases hpq : p <+: q
  · refine ⟨q, ?_, ?_⟩
    · intro hq
      exact h (by rw [hq] at hpq ⊢; exact prefix_nil.1 hpq)
    · have hqp : ¬ q <+: p := fun hqp => h (hpq.eq_of_length (le_antisymm hpq.length_le hqp.length_le))
      simp [← isPrefixOf_iff_prefix] at hqp ⊢
      simp [hqp]
  · refine ⟨p, ?_, ?_⟩
    · intro hp
      exact hpq (hp ▸ nil_prefix)
    · rw [← isPrefixOf_iff_prefix] at hpq
      simp [hpq]

/-! ## The table -/

section

variable {host host' path path' method method' : Bytes}

theorem matchRoute_singleton (re : RouteEntry) :
    matchRoute [re] host path method =
      if hostMatches re.hostPat (stripHostPort host) && pathMatches re path &&
        methodMatches re method then some 0 else none := by
  simp [matchRoute]

theorem matchRoute_host (text : Bytes) :
    matchRoute [{ hostPat := .exact text }] host path method =
      if hostMatches (.exact text) (stripHostPort host) then some 0 else none := by
  simp [matchRoute_singleton, pathMatches, methodMatches]

theorem matchRoute_path {text : Bytes} (h : text ≠ []) :
    matchRoute [{ pathPrefix := text }] host path method =
      if text.isPrefixOf path then some 0 else none := by
  simp [matchRoute_singleton, hostMatches, pathMatches, methodMatches, h]

theorem matchRoute_method (ms : List Bytes) :
    matchRoute [{ methods := some ms }] host path method =
      if method.isEmpty || ms.contains method then some 0 else none := by
  simp [matchRoute_singleton, hostMatches, pathMatches, methodMatches]

theorem matchRoute_eq_iff (hm' : method' ≠ []) :
    (∀ routes, matchRoute routes host path method = matchRoute routes host' path' method') ↔
      equalFold (stripHostPort host) (stripHostPort host') ∧ path = path' ∧
        method = method' := by
  constructor
  · intro h
    refine ⟨?_, ?_, ?_⟩
    · by_contra hfold
      obtain ⟨text, hne⟩ := exists_hostMatches_ne (Bool.not_eq_true _ ▸ hfold)
      have := h [{ hostPat := .exact text }]
      rw [matchRoute_host, matchRoute_host] at this
      revert hne this
      cases hostMatches (.exact text) (stripHostPort host) <;>
        cases hostMatches (.exact text) (stripHostPort host') <;> simp
    · by_contra hpath
      obtain ⟨text, hnil, hne⟩ := exists_isPrefixOf_ne hpath
      have := h [{ pathPrefix := text }]
      rw [matchRoute_path hnil, matchRoute_path hnil] at this
      revert hne this
      cases text.isPrefixOf path <;> cases text.isPrefixOf path' <;> simp
    · by_contra hmethod
      -- the entry lists the one method, or none where that method is empty
      have hempty := h [{ methods := some [] }]
      have hone := h [{ methods := some [method'] }]
      rw [matchRoute_method, matchRoute_method] at hempty hone
      cases method with
      | nil => simp [hm'] at hempty
      | cons c m => simp [hmethod] at hone
  · intro ⟨hhost, hpath, hmethod⟩ routes
    subst hpath hmethod
    simp [matchRoute, hostMatches_congr hhost]

end

/-- The fast path and fasthttp select the same entry of every table for exactly the unflagged
requests whose path has no adjacent slashes, whose method is not empty and whose host fasthttp reads
as it stands, up to case and port. -/
theorem same_route_iff (uri : URIReader) (req : RawRequest) :
    (pathNeedsNormalization req.path = false → SameRoute uri req) ↔
      pathNeedsNormalization req.path = true ∨
        (¬ DoubleSlash req.path ∧ req.method ≠ [] ∧
          equalFold (stripHostPort req.host) (stripHostPort (uri.host req.host req.path)) = true) := by
  have hmethod : ctxMethod req.method ≠ [] := by
    unfold ctxMethod
    split_ifs with h
    · decide
    · exact h
  have hsame : req.method = ctxMethod req.method ↔ req.method ≠ [] := by
    unfold ctxMethod
    split_ifs with h
    · simp [h, ascii]
    · simp [h]
  cases hflag : pathNeedsNormalization req.path with
  | true => simp
  | false =>
    have hpath : req.path = uri.path req.host req.path ↔ ¬ DoubleSlash req.path := by
      rw [← collapseSlashes_eq_self_iff]
      constructor
      · intro h
        rw [h]
        exact uri.collapsed _ _ hflag
      · intro h
        exact (uri.plain _ _ hflag h).symm
    have hiff : (∀ routes, matchRoute routes req.host req.path req.method =
        matchRoute routes (uri.host req.host req.path) (uri.path req.host req.path)
          (ctxMethod req.method)) ↔ _ := matchRoute_eq_iff hmethod
    rw [hsame, hpath] at hiff
    simp only [SameRoute, fastRoute, slowRoute, forall_const, Bool.false_eq_true, false_or]
    rw [hiff]
    constructor
    · intro ⟨hhost, hslash, hm⟩
      exact ⟨hslash, hm, hhost⟩
    · intro ⟨hslash, hm, hhost⟩
      exact ⟨hhost, hslash, hm⟩

def plainReader : URIReader where
  host h _ := h
  path _ p := collapseSlashes p
  collapsed _ p _ := (collapseSlashes_eq_self_iff _).2 (not_doubleSlash_collapseSlashes p)
  plain _ _ _ h := h

def adminRoutes : List RouteEntry :=
  [{ hostPat := compileRouteHost (ascii "*.Example.com"), pathPrefix := ascii "/admin" }, {}]

def slashedRequest : RawRequest :=
  { method := ascii "GET", path := ascii "//admin/x", query := [],
    host := ascii "www.example.com:8080", httpVersion := ascii "HTTP/1.1", headers := [],
    scanFlags := {}, cacheControlRaw := [], connectionClose := false }

/-- Two slashes are not flagged, the prefix `/admin` does not match them, and it does match the
path fasthttp makes of them: the fast path takes the second route, fasthttp the first. -/
theorem slashed_path_takes_other_route :
    pathNeedsNormalization slashedRequest.path = false ∧
      fastRoute adminRoutes slashedRequest = some 1 ∧
      slowRoute plainReader adminRoutes slashedRequest = some 0 := by
  decide

end Bouine.Server
