import Bouine.Lib.Url
import Bouine.Cache.KeyBuilders
import Bouine.Cache.TargetIdentity

/-! # The key of a URL

The purge and refresh endpoints are given a URL, and `BuildKeyFromURL` (`internal/cache/key.go`) is
to name the key of its page. It parses the URL with `net/url`, and again with fasthttp if the path
has dot segments. The file says for which URLs the key is the one `BuildKeyFast` computes for a
request to them.
-/

namespace Bouine.Cache

open Lib Lib.Path Option
open List hiding splitOn splitOn_ne_nil

/-! ## The code -/

section

variable (codec : AuthorityCodec) (parse : Bytes → Option ParsedURI)

/-- The request whose key `BuildKeyFromURL` builds; `none` for the zero key. `parse` is fasthttp's
`URI.Parse` without a Host. -/
def requestFromURL (rawURL : Bytes) : Option RequestInfo :=
  if rawURL = [] then none
  else
    match Url.parse codec rawURL with
    | none => none
    | some u =>
      let path :=
        if pathNeedsNormalization u.path then ((parse rawURL).map ParsedURI.path).getD u.path
        else u.path
      some ⟨ascii "GET", rawURL, u.host, path, u.scheme == ascii "https"⟩

def buildKeyFromURL {Key : Type*} [Zero Key] (sum128 : Bytes → Key) (rawURL : Bytes)
    (policy : Option KeyPolicy) : Key :=
  match requestFromURL codec parse rawURL with
  | none => 0
  | some ri => buildKey sum128 ri policy

end

/-! ## Collapsed and clean paths -/

theorem collapseSlashes_cons_of_ne {c : UInt8} (hc : c ≠ slash) (w : Bytes) :
    collapseSlashes (c :: w) = c :: collapseSlashes w := by
  cases w with
  | nil => rfl
  | cons d w => rw [collapseSlashes, if_neg fun h => hc h.1]

theorem collapseSlashes_append {g : Bytes} (hg : slash ∉ g) (w : Bytes) :
    collapseSlashes (g ++ w) = g ++ collapseSlashes w := by
  induction g with
  | nil => rfl
  | cons c g ih =>
    rw [mem_cons, not_or] at hg
    rw [cons_append, collapseSlashes_cons_of_ne (Ne.symm hg.1), ih hg.2]
    rfl

theorem collapseSlashes_slash_append {g : Bytes} (hne : g ≠ []) (hg : slash ∉ g) (w : Bytes) :
    collapseSlashes (slash :: (g ++ w)) = slash :: g ++ collapseSlashes w := by
  obtain ⟨c, g, rfl⟩ := exists_cons_of_ne_nil hne
  have hc : c ≠ slash := fun h => hg (h ▸ (.head _))
  rw [cons_append, collapseSlashes, if_neg fun h => hc h.2, ← cons_append,
    collapseSlashes_append hg]
  rfl

theorem getLast?_of_filter_eq_nil {gs : List Bytes} (hne : gs ≠ [])
    (h : gs.filter (· ≠ []) = []) : gs.getLast? = some [] := by
  obtain ⟨init, last, rfl⟩ := (eq_nil_or_concat' gs).resolve_left hne
  have hlast : last = [] := by
    have := filter_eq_nil_iff.1 h last (by simp)
    simpa using this
  rw [getLast?_append_cons, hlast]
  rfl

theorem collapseSlashes_joined {gs : List Bytes} (hne : gs ≠ []) (h : ∀ g ∈ gs, slash ∉ g) :
    collapseSlashes (joined gs) = render (gs.filter (· ≠ [])) (gs.getLast? == some []) := by
  induction gs with
  | nil => cases hne rfl
  | cons g gs ih =>
    have hg := h g (.head _)
    by_cases hgs : gs = []
    · subst hgs
      by_cases hempty : g = []
      · subst hempty
        rfl
      · have hcollapse := collapseSlashes_slash_append hempty hg []
        simpa [render, hempty, collapseSlashes] using hcollapse
    · have hrest := ih hgs fun x hx => h x (.tail _ hx)
      have hlast : (g :: gs).getLast? = gs.getLast? := getLast?_cons_of_ne_nil hgs
      rw [hlast, joined_cons]
      by_cases hempty : g = []
      · obtain ⟨g', gs', rfl⟩ := exists_cons_of_ne_nil hgs
        rw [filter_cons_of_neg (by simpa using hempty), ← hrest, hempty]
        rfl
      · rw [cons_append, collapseSlashes_slash_append hempty hg, hrest,
          filter_cons_of_pos (by simpa using hempty)]
        -- where nothing is left, the last segment is empty
        cases hst : gs.filter (· ≠ []) with
        | nil =>
          rw [getLast?_of_filter_eq_nil hgs hst]
          simp [render]
        | cons => simp [render]

theorem canonicalPath_cleanPath (d : Bytes) : canonicalPath (cleanPath d) = cleanPath d := by
  have hplain := plain_resolve_splitOn d
  obtain ⟨r, hr, -⟩ := cleanPath_eq_cons d
  rw [canonicalPath, if_neg (by rw [hr]; exact cons_ne_nil _ _), cleanPath]
  generalize resolve [] (splitOn slash d) = st at hplain
  generalize endsOpen (splitOn slash d) = isOpen
  have hfilter : st.filter (· ≠ []) = st :=
    filter_eq_self.2 fun g hg => by simpa using (hplain g hg).nonempty
  have hslash : ∀ g ∈ st, slash ∉ g := fun g hg => (hplain g hg).no_slash
  rw [render_eq_joined]
  by_cases hopen : (isOpen || st.isEmpty) = true
  · have hall : ∀ g ∈ st ++ [[]], slash ∉ g := forall_mem_concat.2 ⟨hslash, not_mem_nil⟩
    rw [if_pos hopen, collapseSlashes_joined (by simp) hall, filter_append, hfilter]
    simp [render]
  · rw [if_neg hopen, append_nil]
    obtain ⟨-, hne⟩ : isOpen = false ∧ st ≠ [] := by simpa using hopen
    have hlast : st.getLast? ≠ some [] := fun h => (hplain [] (mem_of_getLast? h)).nonempty rfl
    have hempty : st.isEmpty = false := by simpa using hne
    rw [collapseSlashes_joined hne hslash, hfilter, render, hempty, beq_eq_false_iff_ne.2 hlast]
    simp

theorem joined_eq_nil_or (gs : List Bytes) : joined gs = [] ∨ (joined gs).head? = some slash := by
  cases gs with
  | nil => exact .inl rfl
  | cons g gs => exact .inr rfl

variable {s : Bytes}

theorem forall_mem_of_tail {gs : List Bytes} {P : Bytes → Prop} (htail : ∀ g ∈ gs.tail, P g)
    (hhead : ∀ g ∈ gs.head?, P g) : ∀ g ∈ gs, P g := by
  cases gs with
  | nil => exact htail
  | cons g gs => exact forall_mem_cons.2 ⟨hhead g rfl, htail⟩

theorem undotted_of_pathNeedsWork {prev : UInt8} (h : pathNeedsWork prev s = false) :
    (∀ g ∈ (splitOn slash s).tail, g ≠ dot ∧ g ≠ dotdot) ∧
      (prev = slash → ∀ g ∈ (splitOn slash s).head?, g ≠ dot ∧ g ≠ dotdot) := by
  induction s generalizing prev with
  | nil =>
    refine ⟨fun g hg => absurd hg not_mem_nil, fun _ g hg => ?_⟩
    cases hg
    decide
  | cons c s ih =>
    rw [pathNeedsWork] at h
    split_ifs at h with hother hdots
    obtain ⟨htail, hhead⟩ := ih h
    by_cases hc : c = slash
    · rw [splitOn, if_pos hc]
      refine ⟨forall_mem_of_tail htail (hhead hc), fun _ g hg => ?_⟩
      cases hg
      decide
    · obtain ⟨g, gs, hs, hcs⟩ := splitOn_cons_of_ne hc s
      have htext : s = g ++ joined gs := by
        have hjoined := joined_splitOn s
        rw [hs] at hjoined
        exact (cons.inj hjoined).2.symm
      rw [hs] at htail
      rw [hcs]
      refine ⟨htail, fun hprev g' hg' => ?_⟩
      obtain rfl : c :: g = g' := some.inj hg'
      refine ⟨fun hdot => hdots ?_, fun hdotdot => hdots ?_⟩
      · obtain ⟨hcdot, rfl⟩ := cons.inj hdot
        refine ⟨hcdot, hprev, ?_⟩
        rw [htext]
        rcases joined_eq_nil_or gs with hnil | hslash
        · exact .inl hnil
        · exact .inr (.inl hslash)
      · obtain ⟨hcdot, rfl⟩ := cons.inj hdotdot
        refine ⟨hcdot, hprev, .inr (.inr ?_)⟩
        rw [htext]
        exact ⟨rfl, joined_eq_nil_or gs⟩

theorem canonicalPath_of_unflagged {p : Bytes} (h : pathNeedsNormalization p = false) :
    canonicalPath p = cleanPath p := by
  cases p with
  | nil => exact absurd h (by decide)
  | cons c s =>
    rw [pathNeedsNormalization] at h
    split_ifs at h with hc
    obtain rfl : c = slash := not_not.1 hc
    obtain ⟨htail, hhead⟩ := undotted_of_pathNeedsWork h
    have hall := forall_mem_of_tail htail (hhead rfl)
    have hopen : endsOpen ([] :: splitOn slash s) = ((splitOn slash s).getLast? == some []) := by
      have hne := splitOn_ne_nil slash s
      rw [endsOpen, getLast?_cons_of_ne_nil hne, getLast?_eq_some_getLast hne]
      obtain ⟨hdot, hdotdot⟩ := hall _ (getLast_mem hne)
      rw [Bool.eq_iff_iff]
      simp [hdot, hdotdot]
    have hsplit : splitOn slash (slash :: s) = [] :: splitOn slash s := by rw [splitOn, if_pos rfl]
    rw [canonicalPath, if_neg (cons_ne_nil _ _), cleanPath, hsplit, hopen]
    show _ = render (resolve [] (splitOn slash s)) _
    rw [resolve_undotted hall, nil_append, ← joined_splitOn,
      collapseSlashes_joined (splitOn_ne_nil slash s) fun g hg => notMem_of_mem_splitOn hg]

/-! ## The two readings of a URL -/

def HttpScheme (s : Bytes) : Prop := toLower s = ascii "http" ∨ toLower s = ascii "https"

instance (s : Bytes) : Decidable (HttpScheme s) := inferInstanceAs (Decidable (_ ∨ _))

theorem isLetter_of_httpScheme (hs : HttpScheme s) : ∀ c ∈ s, Url.isLetter c = true := by
  have hbyte (c : UInt8) : toLowerByte c ∈ ascii "https" → Url.isLetter c = true :=
    forall_byte (P := fun c => toLowerByte c ∈ ascii "https" → Url.isLetter c = true)
      (by decide +kernel) c
  intro c hc
  have hmem : toLowerByte c ∈ toLower s := mem_map_of_mem hc
  refine hbyte c ?_
  rcases hs with hs | hs
  · rw [hs] at hmem
    exact mem_append_left [byte 's'] hmem
  · rwa [hs] at hmem

theorem isScheme_of_httpScheme (hs : HttpScheme s) : Url.IsScheme s := by
  have hletter := isLetter_of_httpScheme hs
  constructor
  · cases s with
    | nil => exact absurd hs (by decide)
    | cons c s => exact hletter c (.head _)
  · refine all_eq_true.2 fun c hc => ?_
    rw [Url.isSchemeChar, hletter c hc]
    rfl

section

variable {s rest : Bytes} {u : Url}

theorem notMem_httpScheme (hs : HttpScheme s) {c : UInt8} (hc : Url.isLetter c = false) : c ∉ s := by
  intro hmem
  rw [isLetter_of_httpScheme hs c hmem] at hc
  exact absurd hc (by decide)

theorem pathText_eq (rest : Bytes) : Url.pathText rest = (cutQuery rest).dropWhile (· != slash) := by
  rw [cutQuery_eq]
  show ((rest.takeWhile (· != byte '#')).takeWhile (· != byte '?')).dropWhile _ = _
  rw [takeWhile_takeWhile]
  congr 2
  funext c
  rw [Bool.eq_iff_iff]
  simp [isPathByte, and_comm]

theorem splitHostURI_absolute (hs : HttpScheme s) (rest : Bytes) :
    splitHostURI (s ++ ascii "://" ++ rest) =
      match rest.dropWhile (!isDelim ·) with
      | [] => ascii "/"
      | tail => tail := by
  have hfront : ∀ c ∈ s ++ [byte ':'], (c != byte '/') = true := by
    refine forall_mem_concat.2 ⟨fun c hc => ?_, by decide⟩
    simpa using fun h : c = byte '/' => notMem_httpScheme hs (by decide) (h ▸ hc)
  have htext : s ++ ascii "://" ++ rest = s ++ [byte ':'] ++ byte '/' :: byte '/' :: rest := by
    rw [append_assoc, append_assoc]
    rfl
  rw [splitHostURI, htext, dropWhile_append_of_pos hfront]
  exact if_pos ⟨rfl, rfl⟩

/-- fasthttp finds the path of a URL where `net/url` finds it. -/
theorem normalizePath_splitHostURI (hs : HttpScheme s) (rest : Bytes) :
    normalizePath (cutQuery (splitHostURI (s ++ ascii "://" ++ rest))) =
      normalizePath (Url.pathText rest) := by
  have hauth : ∀ c ∈ rest.takeWhile (!isDelim ·), (!isDelim c) = true := fun c hc =>
    mem_takeWhile_imp (p := fun x => !isDelim x) hc
  have hpath : Url.pathText rest =
      (cutQuery (rest.dropWhile (!isDelim ·))).dropWhile (· != slash) := by
    rw [pathText_eq]
    conv_lhs => rw [← takeWhile_append_dropWhile (p := fun x => !isDelim x) (l := rest)]
    rw [cutQuery_append fun c hc => isPathByte_of_not_isDelim (hauth c hc)]
    refine dropWhile_append_of_pos fun c hc => ?_
    have hc := hauth c hc
    simp only [isDelim, Bool.not_eq_true', Bool.or_eq_false_iff, beq_eq_false_iff_ne] at hc
    exact bne_iff_ne.2 hc.1.1
  rw [splitHostURI_absolute hs, hpath]
  cases htail : rest.dropWhile (!isDelim ·) with
  | nil => rfl
  | cons c w =>
    have hc : isDelim c = true := by
      have := head?_dropWhile_not (!isDelim ·) rest
      simpa [htail] using this
    rcases cutQuery_of_isDelim hc w with hcut | hcut
    · rw [hcut, dropWhile_cons_of_neg (by decide)]
    · rw [hcut]
      rfl

theorem path_parseURI_absolute {codec : AuthorityCodec} (hs : HttpScheme s)
    (hu : Url.parse codec (s ++ ascii "://" ++ rest) = some u) :
    (parseURI [] (s ++ ascii "://" ++ rest)).path = cleanPath u.path := by
  obtain ⟨-, -, -, hpath⟩ := Url.parse_absolute codec (isScheme_of_httpScheme hs) hu
  show normalizePath (cutQuery (splitHostURI _)) = _
  rw [normalizePath_splitHostURI hs, normalizePath, Url.percentDecode_of_unescape hpath]

theorem read_requestURI (hu : u.opaquePart = []) :
    normalizePath (cutQuery u.requestURI) = cleanPath u.path ∧
      extractRawQuery u.requestURI = u.rawQuery := by
  have hpath : ∀ c ∈ (if u.escapedPath = [] then ascii "/" else u.escapedPath),
      isPathByte c = true := by
    split_ifs
    · intro c hc
      rw [mem_singleton.1 hc]
      exact isPathByte_slash
    · obtain ⟨hmark, hhash⟩ := Url.notMem_escapedPath u
      intro c hc
      have hc₁ : c ≠ byte '?' := fun h => hmark (h ▸ hc)
      have hc₂ : c ≠ byte '#' := fun h => hhash (h ▸ hc)
      simp [isPathByte, hc₁, hc₂]
  have hclean : normalizePath (if u.escapedPath = [] then ascii "/" else u.escapedPath) =
      cleanPath u.path := by
    rw [← Url.percentDecode_escapedPath u]
    split_ifs with hempty
    · rw [hempty]
      rfl
    · rfl
  rw [Url.requestURI, if_pos hu]
  generalize (if u.escapedPath = [] then ascii "/" else u.escapedPath) = p at hpath hclean
  have hmark : byte '?' ∉ p := fun h => absurd (hpath _ h) (by decide)
  constructor
  · have hstop : cutQuery (if u.forceQuery ∨ u.rawQuery ≠ [] then byte '?' :: u.rawQuery else []) = [] := by
      rw [cutQuery_eq]
      split_ifs
      · exact takeWhile_cons_of_neg (by decide)
      · rfl
    rw [cutQuery_append hpath, hstop, append_nil, hclean]
  · rw [extractRawQuery, cutAt_append_of_notMem hmark]
    split_ifs with hquery
    · exact congrArg Prod.snd (cutAt_append not_mem_nil u.rawQuery)
    · have hnone : u.rawQuery = [] := not_not.1 fun h => hquery (.inr h)
      rw [hnone]
      rfl

theorem extractRawQuery_absolute {codec : AuthorityCodec} (hs : HttpScheme s)
    (hu : Url.parse codec (s ++ ascii "://" ++ rest) = some u)
    (hfragment : byte '#' ∉ s ++ ascii "://" ++ rest) :
    extractRawQuery (s ++ ascii "://" ++ rest) = u.rawQuery := by
  obtain ⟨-, -, hquery, -⟩ := Url.parse_absolute codec (isScheme_of_httpScheme hs) hu
  have hmark : byte '?' ∉ s ++ ascii "://" := by
    rw [mem_append, not_or]
    exact ⟨notMem_httpScheme hs (by decide), by decide⟩
  have hhash : (cutAt (byte '#') rest).1 = rest := by
    refine takeWhile_eq_self_iff.2 fun c hc => bne_iff_ne.2 fun h => hfragment ?_
    exact mem_append_right _ (h ▸ hc)
  rw [extractRawQuery, cutAt_append_of_notMem hmark, hquery, hhash]

end

/-! ## The same key -/

def urlBytes (codec : AuthorityCodec) (parse : Bytes → Option ParsedURI) (rawURL : Bytes)
    (policy : Option KeyPolicy) : Option Bytes :=
  (requestFromURL codec parse rawURL).map (hashedBytes · policy)

theorem buildKeyFromURL_eq {Key : Type*} [Zero Key] (sum128 : Bytes → Key) (codec : AuthorityCodec)
    (parse : Bytes → Option ParsedURI) (rawURL : Bytes) (policy : Option KeyPolicy) :
    buildKeyFromURL codec parse sum128 rawURL policy =
      (urlBytes codec parse rawURL policy).elim 0 sum128 := by
  unfold buildKeyFromURL urlBytes
  cases requestFromURL codec parse rawURL <;> rfl

/-- What `BuildKeyFast` hashes for the GET request to a URL: its Host is the authority, its target
path and query, and the path is normalised. -/
def dataPlaneBytes (u : Url) (policy : Option KeyPolicy) : Bytes :=
  fastBytes (ascii "GET") u.requestURI u.host (normalizePath (cutQuery u.requestURI))
    (u.scheme == ascii "https") policy

/-- That is how fasthttp reads such a request; only a target with `://` could have an authority of
its own. -/
theorem dataPlaneBytes_eq {u : Url} (hhost : u.host ≠ [])
    (hword : afterWord (ascii "://") u.requestURI = none) (policy : Option KeyPolicy) :
    dataPlaneBytes u policy =
      hashedBytes (targetRequest (ascii "GET") u.host u.requestURI (u.scheme == ascii "https"))
        policy := by
  have hread : parseURI u.host u.requestURI = readURI u.requestURI := by
    rw [parseURI, if_neg (by simp [hhost, hword])]
  rw [hashedBytes_eq, targetRequest, hread]
  exact fastBytes_eq ⟨_, _, _, _, _⟩ policy

theorem canonicalKey_eq_iff {ri ri' : RequestInfo} {policy : Option KeyPolicy}
    (htls : ri.tls = ri'.tls) (hhost : ri.host = ri'.host)
    (hpath : canonicalPath ri.path = canonicalPath ri'.path) (hmethod : ri.method = ri'.method) :
    canonicalKey ri policy = canonicalKey ri' policy ↔
      canonicalQuery ri.rawQuery policy = canonicalQuery ri'.rawQuery policy := by
  rw [canonicalKey, canonicalKey, keyHost, keyHost, afterHost, afterHost, htls, hhost, hpath, hmethod,
    append_right_inj, cons_inj_right, append_right_inj, cons_inj_right,
    append_right_inj, cons_inj_right, append_left_inj]

/-- The key of an absolute URL that fasthttp accepts, if asked, is that of the request exactly when
what follows the first question mark counts as the query does. A URL without a fragment is such a
one. -/
theorem url_key_is_request_key_iff (codec : AuthorityCodec) (parse : Bytes → Option ParsedURI)
    (s rest : Bytes) (u : Url) (policy : Option KeyPolicy) (hs : HttpScheme s)
    (hu : Url.parse codec (s ++ ascii "://" ++ rest) = some u)
    (hparse : pathNeedsNormalization u.path = true →
      parse (s ++ ascii "://" ++ rest) = some (parseURI [] (s ++ ascii "://" ++ rest))) :
    (urlBytes codec parse (s ++ ascii "://" ++ rest) policy = some (dataPlaneBytes u policy) ↔
      canonicalQuery (extractRawQuery (s ++ ascii "://" ++ rest)) policy =
        canonicalQuery u.rawQuery policy) ∧
    (byte '#' ∉ s ++ ascii "://" ++ rest →
      urlBytes codec parse (s ++ ascii "://" ++ rest) policy = some (dataPlaneBytes u policy)) := by
  obtain ⟨path, hpath, hri⟩ : ∃ path, canonicalPath path = cleanPath u.path ∧
      requestFromURL codec parse (s ++ ascii "://" ++ rest) =
      some ⟨ascii "GET", s ++ ascii "://" ++ rest, u.host, path, u.scheme == ascii "https"⟩ := by
    have hne : s ++ ascii "://" ++ rest ≠ [] := by simp [ascii]
    rw [requestFromURL, if_neg hne, hu]
    refine ⟨_, ?_, rfl⟩
    split_ifs with hflag
    · rw [hparse hflag, map_some, getD_some, path_parseURI_absolute hs hu,
        canonicalPath_cleanPath]
    · exact canonicalPath_of_unflagged (Bool.eq_false_iff.2 hflag)
  obtain ⟨-, hopaque, -, -⟩ := Url.parse_absolute codec (isScheme_of_httpScheme hs) hu
  obtain ⟨htarget, hquery⟩ := read_requestURI hopaque
  have hiff : urlBytes codec parse (s ++ ascii "://" ++ rest) policy = some (dataPlaneBytes u policy) ↔
      canonicalQuery (extractRawQuery (s ++ ascii "://" ++ rest)) policy =
        canonicalQuery u.rawQuery policy := by
    have hdata : dataPlaneBytes u policy = canonicalKey ⟨ascii "GET", u.requestURI, u.host,
        cleanPath u.path, u.scheme == ascii "https"⟩ policy := by
      rw [dataPlaneBytes, htarget]
      exact fastBytes_eq ⟨_, _, _, _, _⟩ policy
    have hsame : canonicalPath path = canonicalPath (cleanPath u.path) := by
      rw [hpath, canonicalPath_cleanPath]
    rw [urlBytes, hri, map_some, hashedBytes_eq, hdata, some_inj, ← hquery]
    exact canonicalKey_eq_iff rfl rfl hsame rfl
  exact ⟨hiff, fun h => hiff.2 (by rw [extractRawQuery_absolute hs hu h])⟩

def bareCodec : AuthorityCodec := ⟨fun a => some ⟨none, a⟩, id⟩

def dottedUrl : Url where
  scheme := ascii "https"
  host := ascii "h"
  path := ascii "/a/../b"
  rawPath := ascii "/a/../%62"
  rawQuery := ascii "q"

/-- Dot segments are resolved, whatever the case of the scheme. -/
theorem dotted_url_key :
    urlBytes bareCodec (fun u => some (parseURI [] u))
      (ascii "HTTPS" ++ ascii "://" ++ ascii "h/a/../%62?q") none =
        some (dataPlaneBytes dottedUrl none) :=
  (url_key_is_request_key_iff bareCodec (fun u => some (parseURI [] u)) (ascii "HTTPS")
    (ascii "h/a/../%62?q") dottedUrl none (by decide) (by decide +kernel) fun _ => rfl).2 (by decide)

def fragmentUrl : Url where
  scheme := ascii "http"
  host := ascii "h"
  path := ascii "/a"
  rawQuery := ascii "q"
  fragment := ascii "f"

/-- The fragment of a URL is hashed with its query. -/
theorem fragment_changes_url_key :
    Url.parse bareCodec (ascii "http://h/a?q#f") = some fragmentUrl ∧
      fragmentUrl.requestURI = ascii "/a?q" ∧
      urlBytes bareCodec (fun u => some (parseURI [] u)) (ascii "http://h/a?q#f") none =
        some (ascii "http|h|/a|q#f=|GET") ∧
      dataPlaneBytes fragmentUrl none = ascii "http|h|/a|q=|GET" := by
  refine ⟨by decide +kernel, by decide +kernel, ?_, ?_⟩
  · decide +kernel
  · exact (fastBytes_eq ⟨_, _, _, _, _⟩ none).trans (by decide +kernel)

end Bouine.Cache
