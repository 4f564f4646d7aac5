import Bouine.Lib.Bytes

/-! # The target of an origin fetch

The target of a request to an origin is canonicalised (`originURI`, `internal/cache/handler.go`) and
appended to `scheme://host` of the chosen pool target (`doSingleFetch`, `internal/origin/pool.go`).
The file says for which targets the URI has the configured host.
-/

namespace Bouine.Cache

open Lib List

/-! ## The code -/

def afterWord (w : Bytes) : Bytes → Option Bytes
  | [] => if w = [] then some [] else none
  | c :: s => if w.isPrefixOf (c :: s) then some ((c :: s).drop w.length) else afterWord w s

def isDelim (c : UInt8) : Bool := c == byte '/' || c == byte '?' || c == byte '#'

def cutQuery (s : Bytes) : Bytes := (cutAt (byte '#') (cutAt (byte '?') s).1).1

def targetPath (uri : Bytes) : Bytes :=
  if uri.head? = some (byte '/') ∨ uri = [] then cutQuery uri
  else
    match afterWord (ascii "://") uri with
    | none => []
    | some rest =>
      match rest.dropWhile (!isDelim ·) with
      | [] => []
      | c :: tail => if c = byte '/' then cutQuery (c :: tail) else ascii "/"

/-- The loop of `pathNeedsNormalization`; `prev` is the byte before. -/
def pathNeedsWork (prev : UInt8) : Bytes → Bool
  | [] => false
  | c :: s =>
    if c = byte '%' ∨ c = byte '#' then true
    else if c = byte '.' ∧ prev = byte '/' ∧
        (s = [] ∨ s.head? = some (byte '/') ∨
          s.head? = some (byte '.') ∧ (s.tail = [] ∨ s.tail.head? = some (byte '/'))) then true
    else pathNeedsWork c s

def pathNeedsNormalization : Bytes → Bool
  | [] => true
  | c :: s => if c ≠ byte '/' then true else pathNeedsWork c s

/-- What fasthttp's URI parser returns: its paths are absolute. -/
structure ParsedURI where
  path : Bytes
  queryString : Bytes
  path_slash : path.head? = some (byte '/')

variable (parse : Bytes → Option ParsedURI)

def canonicalOriginTarget (uri : Bytes) : Bytes :=
  if uri = [] then uri
  else if !pathNeedsNormalization (targetPath uri) then uri
  else
    match parse uri with
    | none => uri
    | some u => u.path ++ (if u.queryString = [] then [] else byte '?' :: u.queryString)

/-- A route's `strip_prefix`. -/
structure StripPrefix where
  text : Bytes
  slash : text = [] ∨ text.head? = some (byte '/')

def stripRequestURI (strip : StripPrefix) (uri : Bytes) : Bytes :=
  if strip.text = [] ∨ strip.text.isPrefixOf uri = false then uri
  else
    match uri.drop strip.text.length with
    | [] => ascii "/"
    | c :: trimmed =>
      if c = byte '/' then c :: trimmed
      else if c = byte '?' then byte '/' :: c :: trimmed
      else uri

/-- `originURI` of a route without `path_rewrite`. -/
def originURI (strip : StripPrefix) (uri : Bytes) : Bytes :=
  stripRequestURI strip (canonicalOriginTarget parse uri)

structure PoolTarget where
  scheme : Bytes
  host : Bytes
  scheme_ok : byte ':' ∉ scheme
  host_ok : ∀ c ∈ host, isDelim c = false ∧ c ≠ byte '@'

def PoolTarget.originPrefix (t : PoolTarget) : Bytes := t.scheme ++ ascii "://" ++ t.host

/-- The URI `doSingleFetch` sets for a request with the given target. -/
def fetchURI (strip : StripPrefix) (t : PoolTarget) (target : Bytes) : Bytes :=
  t.originPrefix ++ originURI parse strip target

/-! ## The host of a URI -/

def stripUserInfo (authority : Bytes) : Bytes :=
  if byte '@' ∈ authority then (cutAt (byte '@') authority).2 else authority

def uriHost (uri : Bytes) : Bytes :=
  match afterWord (ascii "://") uri with
  | none => []
  | some rest => stripUserInfo (rest.takeWhile (!isDelim ·))

/-! ## What is forwarded -/

/-- The target does not start with a slash and reaches the pool as is: its path looks canonical, or
fasthttp does not parse it. -/
def ForwardedVerbatim (target : Bytes) : Prop :=
  target ≠ [] ∧ target.head? ≠ some (byte '/') ∧
    (pathNeedsNormalization (targetPath target) = false ∨ parse target = none)

def authorityTail (target : Bytes) : Bytes := target.takeWhile (!isDelim ·)

/-- It adds nothing, or turns the configured host into user information and names the same host
again. -/
def TailHarmless (t : PoolTarget) (target : Bytes) : Prop :=
  authorityTail target = [] ∨
    byte '@' ∈ authorityTail target ∧ (cutAt (byte '@') (authorityTail target)).2 = t.host

theorem stripRequestURI_slash (strip : StripPrefix) {uri : Bytes}
    (h : uri.head? = some (byte '/')) : (stripRequestURI strip uri).head? = some (byte '/') := by
  unfold stripRequestURI
  split_ifs with hkeep
  · exact h
  · split
    · rfl
    · rename_i c trimmed _
      split_ifs with hslash
      · rw [hslash, head?_cons]
      · rfl
      · exact h

theorem stripRequestURI_of_not_slash (strip : StripPrefix) {uri : Bytes}
    (h : uri.head? ≠ some (byte '/')) : stripRequestURI strip uri = uri := by
  refine if_pos ?_
  rcases strip.slash with hempty | hslash
  · exact .inl hempty
  · right
    -- the strip prefix starts with a slash and the target does not
    cases htext : strip.text with
    | nil => simp [htext] at hslash
    | cons c s =>
      simp only [htext, head?_cons, Option.some.injEq] at hslash
      cases uri with
      | nil => rfl
      | cons d s' =>
        have hne : (c == d) = false := by
          rw [hslash, beq_eq_false_iff_ne]
          exact fun heq => h (by rw [head?_cons, heq])
        rw [isPrefixOf, hne, Bool.false_and]

variable {parse} in
theorem canonicalOriginTarget_eq {target : Bytes}
    (h : pathNeedsNormalization (targetPath target) = false ∨ parse target = none) :
    canonicalOriginTarget parse target = target := by
  unfold canonicalOriginTarget
  rcases h with h | h
  · simp [h]
  · simp [h]

variable {parse} in
theorem canonicalOriginTarget_slash {target : Bytes} (hnil : target ≠ [])
    (h : ¬ (pathNeedsNormalization (targetPath target) = false ∨ parse target = none)) :
    (canonicalOriginTarget parse target).head? = some (byte '/') := by
  obtain ⟨hneeds, hparse⟩ := not_or.1 h
  obtain ⟨⟨path, query, hslash⟩, hu⟩ := Option.ne_none_iff_exists'.1 hparse
  cases path with
  | nil => simp at hslash
  | cons c path => simpa [canonicalOriginTarget, hnil, hneeds, hu] using hslash

theorem originURI_cases (strip : StripPrefix) (target : Bytes) :
    (target = [] ∨ ForwardedVerbatim parse target) ∧ originURI parse strip target = target ∨
      ¬ ForwardedVerbatim parse target ∧
        (originURI parse strip target).head? = some (byte '/') := by
  unfold originURI
  by_cases hslash : target.head? = some (byte '/')
  · right
    refine ⟨fun hv => hv.2.1 hslash, stripRequestURI_slash strip ?_⟩
    have hnil : target ≠ [] := by
      rintro rfl
      simp at hslash
    by_cases hsame : pathNeedsNormalization (targetPath target) = false ∨ parse target = none
    · rw [canonicalOriginTarget_eq hsame, hslash]
    · exact canonicalOriginTarget_slash hnil hsame
  · by_cases hnil : target = []
    · left
      subst hnil
      exact ⟨.inl rfl, stripRequestURI_of_not_slash strip hslash⟩
    · by_cases hsame : pathNeedsNormalization (targetPath target) = false ∨ parse target = none
      · left
        refine ⟨.inr ⟨hnil, hslash, hsame⟩, ?_⟩
        rw [canonicalOriginTarget_eq hsame, stripRequestURI_of_not_slash strip hslash]
      · right
        refine ⟨fun hv => hsame hv.2.2, stripRequestURI_slash strip ?_⟩
        exact canonicalOriginTarget_slash hnil hsame

/-! ## The host of the fetch -/

theorem afterWord_scheme {scheme : Bytes} (h : byte ':' ∉ scheme) (rest : Bytes) :
    afterWord (ascii "://") (scheme ++ ascii "://" ++ rest) = some rest := by
  induction scheme with
  | nil => rfl
  | cons c scheme ih =>
    have hc : (byte ':' == c) = false := by
      rw [beq_eq_false_iff_ne]
      rintro rfl
      simp at h
    have hnot : (ascii "://").isPrefixOf (c :: (scheme ++ ascii "://" ++ rest)) = false := by
      show (byte ':' == c && _) = false
      rw [hc, Bool.false_and]
    have ih' := ih fun hmem => h (.tail _ hmem)
    rw [cons_append, cons_append, afterWord, hnot]
    exact ih'

theorem uriHost_fetchURI (strip : StripPrefix) (t : PoolTarget) (target : Bytes) :
    uriHost (fetchURI parse strip t target) =
      stripUserInfo (t.host ++ authorityTail (originURI parse strip target)) := by
  have hhost : ∀ c ∈ t.host, (!isDelim c) = true := fun c hc => by simp [(t.host_ok c hc).1]
  unfold uriHost fetchURI PoolTarget.originPrefix
  rw [append_assoc, afterWord_scheme t.scheme_ok]
  simp only [authorityTail]
  rw [takeWhile_append_of_pos hhost]

theorem stripUserInfo_host_iff (t : PoolTarget) (tail : Bytes) :
    stripUserInfo (t.host ++ tail) = t.host ↔
      tail = [] ∨ byte '@' ∈ tail ∧ (cutAt (byte '@') tail).2 = t.host := by
  have hat : byte '@' ∉ t.host := fun h => (t.host_ok _ h).2 rfl
  have hall : ∀ c ∈ t.host, (c != byte '@') = true := fun c hc => by
    simpa using (t.host_ok c hc).2
  by_cases htail : byte '@' ∈ tail
  · have hne : tail ≠ [] := ne_nil_of_mem htail
    have hcut : (cutAt (byte '@') (t.host ++ tail)).2 = (cutAt (byte '@') tail).2 := by
      simp only [cutAt]
      rw [dropWhile_append_of_pos hall]
    simp [stripUserInfo, htail, hne, hcut]
  · simp [stripUserInfo, htail, hat]

/-- A fetch goes to the configured host exactly when a target forwarded verbatim adds nothing
harmful to the authority. -/
theorem fetch_goes_to_configured_host_iff (parse : Bytes → Option ParsedURI)
    (strip : StripPrefix) (t : PoolTarget) (target : Bytes) :
    uriHost (fetchURI parse strip t target) = t.host ↔
      (ForwardedVerbatim parse target → TailHarmless t target) := by
  rw [uriHost_fetchURI, stripUserInfo_host_iff]
  rcases originURI_cases parse strip target with ⟨hfwd, hsame⟩ | ⟨hnot, hslash⟩
  · rw [hsame]
    refine ⟨fun h _ => h, fun h => ?_⟩
    rcases hfwd with rfl | hfwd
    · exact .inl rfl
    · exact h hfwd
  · refine ⟨fun _ hfwd => absurd hfwd hnot, fun _ => .inl ?_⟩
    cases horigin : originURI parse strip target with
    | nil => rfl
    | cons c s =>
      rw [horigin, head?_cons, Option.some.injEq] at hslash
      rw [hslash]
      rfl

def plainOrigin : PoolTarget where
  scheme := ascii "http"
  host := ascii "origin:80"
  scheme_ok := by decide
  host_ok := by decide

/-- A target that starts with an at sign names the host to fetch from. -/
theorem at_sign_target_changes_host :
    (∀ parse : Bytes → Option ParsedURI,
      fetchURI parse ⟨[], Or.inl rfl⟩ plainOrigin (ascii "@evil.com://x/y") =
        ascii "http://origin:80@evil.com://x/y") ∧
    ∀ parse : Bytes → Option ParsedURI,
      uriHost (fetchURI parse ⟨[], Or.inl rfl⟩ plainOrigin (ascii "@evil.com://x/y")) =
          ascii "evil.com:" ∧
        uriHost (fetchURI parse ⟨[], Or.inl rfl⟩ plainOrigin (ascii "@evil.com://x/y")) ≠
          plainOrigin.host := by
  have huri : ∀ parse : Bytes → Option ParsedURI,
      fetchURI parse ⟨[], .inl rfl⟩ plainOrigin (ascii "@evil.com://x/y") =
        ascii "http://origin:80@evil.com://x/y" := fun _ => rfl
  refine ⟨huri, fun parse => ?_⟩
  rw [huri]
  exact ⟨by decide, by decide⟩

end Bouine.Cache
