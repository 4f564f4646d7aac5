import Bouine.Lib.Path

/-! # URLs

`Parse`, `ResolveReference` and `String` of Go's package `net/url`. Reading an authority and writing
its host are left to an `AuthorityCodec`: the checks on hosts and ports differ between releases, and
nothing here depends on them.
-/

namespace Bouine.Lib

open List Option

open Lib.UrlQuery (unhex upperHex isUnreserved hex_digits)

structure Authority where
  /-- the user information, as it is written -/
  user : Option Bytes
  host : Bytes
deriving DecidableEq

structure AuthorityCodec where
  parse : Bytes → Option Authority
  escapeHost : Bytes → Bytes

structure Url where
  scheme : Bytes := []
  opaquePart : Bytes := []
  user : Option Bytes := none
  host : Bytes := []
  path : Bytes := []
  /-- the path as it was written, where that is not the standard way -/
  rawPath : Bytes := []
  omitHost : Bool := false
  forceQuery : Bool := false
  rawQuery : Bytes := []
  fragment : Bytes := []
  rawFragment : Bytes := []
deriving DecidableEq

namespace Url

open Lib.Path (percentDecode)

/-! ## Escaping -/

/-- `unescape` outside of queries: a plus sign is itself. -/
def unescape : Bytes → Option Bytes
  | [] => some []
  | c :: s =>
    if c = byte '%' then
      match s with
      | h :: l :: rest =>
        match unhex h, unhex l with
        | some a, some b => (unescape rest).map ((a * 16 + b) :: ·)
        | _, _ => none
      | _ => none
    else (unescape s).map (c :: ·)

/-- `shouldEscape` in a path. -/
def pathEscapes (c : UInt8) : Bool := !(isUnreserved c || (ascii "$&+,/:;=@").contains c)

/-- `shouldEscape` in a fragment. -/
def fragmentEscapes (c : UInt8) : Bool :=
  !(isUnreserved c || (ascii "$&+,/:;=?@!()*").contains c)

section

variable (shouldEscape : UInt8 → Bool)

def escape (s : Bytes) : Bytes :=
  s.flatMap fun c =>
    if shouldEscape c then [byte '%', upperHex (c / 16), upperHex (c % 16)] else [c]

def validEncoded (s : Bytes) : Bool :=
  s.all fun c => (ascii "!$&'()*+,;=:@[]%").contains c || !shouldEscape c

def rawOf (spelled value : Bytes) : Bytes := if spelled = escape shouldEscape value then [] else spelled

def keptSpelling (raw value : Bytes) : Option Bytes :=
  if raw ≠ [] ∧ validEncoded shouldEscape raw ∧ unescape raw = some value then some raw else none

end

def escapedPath (u : Url) : Bytes :=
  (keptSpelling pathEscapes u.rawPath u.path).getD
    (if u.path = ascii "*" then u.path else escape pathEscapes u.path)

def escapedFragment (u : Url) : Bytes :=
  (keptSpelling fragmentEscapes u.rawFragment u.fragment).getD (escape fragmentEscapes u.fragment)

def setPath (u : Url) (p : Bytes) : Option Url :=
  (unescape p).map fun path => { u with path, rawPath := rawOf pathEscapes p path }

def setFragment (u : Url) (f : Bytes) : Option Url :=
  (unescape f).map fun fragment =>
    { u with fragment, rawFragment := rawOf fragmentEscapes f fragment }

/-- What is unescaped without an error is what a lenient decoder reads. -/
theorem percentDecode_of_unescape {s d : Bytes} (hd : unescape s = some d) : percentDecode s = d := by
  fun_induction unescape s generalizing d with
  | case1 => exact some.inj hd
  | case2 h l rest a b hb ha ih =>
    obtain ⟨d, hrest, rfl⟩ := map_eq_some_iff.1 hd
    rw [Path.percentDecode_escape ha hb, ih hrest]
  | case3 | case4 => exact absurd hd (some_ne_none d).symm
  | case5 c s hc ih =>
    obtain ⟨d, hrest, rfl⟩ := map_eq_some_iff.1 hd
    rw [Path.percentDecode_cons_of_ne hc, ih hrest]

variable {shouldEscape : UInt8 → Bool}

theorem percentDecode_escape (hpct : shouldEscape (byte '%'))
    (s : Bytes) : percentDecode (escape shouldEscape s) = s := by
  induction s with
  | nil => rfl
  | cons c s ih =>
    rw [escape, flatMap_cons]
    split_ifs with hc
    · show percentDecode (byte '%' :: _ :: _ :: escape shouldEscape s) = _
      obtain ⟨hdiv, hmod, hsum⟩ := hex_digits c
      rw [Path.percentDecode_escape hdiv hmod, ih, hsum]
    · have hne : c ≠ byte '%' := fun h => hc (h ▸ hpct)
      show percentDecode (c :: escape shouldEscape s) = _
      rw [Path.percentDecode_cons_of_ne hne, ih]

theorem keptSpelling_eq_some {raw value p : Bytes}
    (h : keptSpelling shouldEscape raw value = some p) :
    validEncoded shouldEscape p ∧ unescape p = some value := by
  rw [keptSpelling] at h
  split_ifs at h with hkept
  cases h
  exact hkept.2

/-- However a path is written, it is read back. -/
theorem percentDecode_escapedPath (u : Url) : percentDecode u.escapedPath = u.path := by
  rw [escapedPath]
  cases hkept : keptSpelling pathEscapes u.rawPath u.path with
  | some p => exact percentDecode_of_unescape (keptSpelling_eq_some hkept).2
  | none =>
    split_ifs with hstar
    · rw [hstar]
      rfl
    · exact percentDecode_escape (by decide) u.path

theorem mem_escape {s : Bytes} {x : UInt8}
    (h : x ∈ escape shouldEscape s) : shouldEscape x = false ∨ x = byte '%' ∨ isUnreserved x = true := by
  have hhex (c : UInt8) : isUnreserved (upperHex (c / 16)) ∧
      isUnreserved (upperHex (c % 16)) = true :=
    forall_byte (P := fun c => isUnreserved (upperHex (c / 16)) = true ∧
      isUnreserved (upperHex (c % 16)) = true) (by decide +kernel) c
  obtain ⟨c, -, hx⟩ := mem_flatMap.1 h
  split_ifs at hx with hc
  · simp only [mem_cons, not_mem_nil, or_false] at hx
    rcases hx with rfl | rfl | rfl
    · exact .inr (.inl rfl)
    · exact .inr (.inr (hhex c).1)
    · exact .inr (.inr (hhex c).2)
  · rw [mem_singleton.1 hx]
    exact .inl (Bool.not_eq_true _ ▸ hc)

theorem notMem_escapedPath (u : Url) : byte '?' ∉ u.escapedPath ∧ byte '#' ∉ u.escapedPath := by
  rw [escapedPath]
  cases hkept : keptSpelling pathEscapes u.rawPath u.path with
  | some p =>
    have hvalid := all_eq_true.1 (keptSpelling_eq_some hkept).1
    exact ⟨fun h => absurd (hvalid _ h) (by decide), fun h => absurd (hvalid _ h) (by decide)⟩
  | none =>
    split_ifs with hstar
    · rw [hstar]
      decide
    · exact ⟨fun h => absurd (mem_escape h) (by decide), fun h => absurd (mem_escape h) (by decide)⟩

/-! ## Parsing -/

def isLetter (c : UInt8) : Bool :=
  (byte 'a' ≤ c && c ≤ byte 'z') || (byte 'A' ≤ c && c ≤ byte 'Z')

def isSchemeChar (c : UInt8) : Bool :=
  isLetter c || (byte '0' ≤ c && c ≤ byte '9') || (ascii "+-.").contains c

/-- `getScheme`: the scheme, if there is one, and the rest. -/
def getScheme (s : Bytes) : Option (Bytes × Bytes) :=
  match s with
  | [] => some ([], [])
  | c :: _ =>
    if c = byte ':' then none
    else if !isLetter c then some ([], s)
    else
      match s.dropWhile isSchemeChar with
      | d :: rest => if d = byte ':' then some (s.takeWhile isSchemeChar, rest) else some ([], s)
      | [] => some ([], s)

def isCTL (c : UInt8) : Bool := c < 0x20 || c == 0x7f

def splitQuery (u : Url) (rest : Bytes) : Url × Bytes :=
  if rest.getLast? = some (byte '?') ∧ rest.count (byte '?') = 1 then
    ({ u with forceQuery := true }, rest.dropLast)
  else ({ u with rawQuery := (cutAt (byte '?') rest).2 }, (cutAt (byte '?') rest).1)

variable (codec : AuthorityCodec)

def parseHierarchy (u : Url) (rest : Bytes) : Option Url :=
  if (u.scheme ≠ [] ∨ (ascii "///").isPrefixOf rest = false) ∧ (ascii "//").isPrefixOf rest then
    let authority := (rest.drop 2).takeWhile (· != byte '/')
    let path := (rest.drop 2).dropWhile (· != byte '/')
    match codec.parse authority with
    | none => none
    | some a => setPath { u with user := a.user, host := a.host } path
  else
    setPath { u with omitHost := u.scheme != [] && rest.head? == some (byte '/') } rest

/-- The function `parse`, on what stands before the fragment. -/
def parseNoFragment (s : Bytes) : Option Url :=
  if s.any isCTL then none
  else if s = ascii "*" then some { path := s }
  else
    match getScheme s with
    | none => none
    | some (scheme, rest) =>
      let (u, rest) := splitQuery { scheme := toLower scheme } rest
      if rest.head? = some (byte '/') then parseHierarchy codec u rest
      else if u.scheme ≠ [] then some { u with opaquePart := rest }
      else if byte ':' ∈ (cutAt (byte '/') rest).1 then none
      else parseHierarchy codec u rest

def parse (s : Bytes) : Option Url :=
  match parseNoFragment codec (cutAt (byte '#') s).1 with
  | none => none
  | some u => u.setFragment (cutAt (byte '#') s).2

theorem setPath_host {u v : Url} {p : Bytes} (h : setPath u p = some v) :
    v.scheme = u.scheme ∧ v.host = u.host := by
  obtain ⟨path, -, rfl⟩ := map_eq_some_iff.1 h
  exact ⟨rfl, rfl⟩

section

/-- `s` is a scheme. -/
def IsScheme (s : Bytes) : Prop := s.head?.any isLetter ∧ s.all isSchemeChar

theorem getScheme_append {s : Bytes} (hs : IsScheme s) (rest : Bytes) :
    getScheme (s ++ byte ':' :: rest) = some (s, rest) := by
  obtain ⟨hhead, hall⟩ := hs
  have hchar := all_eq_true.1 hall
  have hcolon : isSchemeChar (byte ':') = false ∧ isLetter (byte ':') = false := by decide
  cases s with
  | nil => simp at hhead
  | cons c s =>
    have hletter : isLetter c = true := by simpa using hhead
    have hne : c ≠ byte ':' := fun h => by simp [h, hcolon.2] at hletter
    have htake : (c :: s ++ byte ':' :: rest).takeWhile isSchemeChar = c :: s := by
      rw [takeWhile_append_of_pos hchar, takeWhile_cons_of_neg (by simp [hcolon.1]), append_nil]
    have hdrop : (c :: s ++ byte ':' :: rest).dropWhile isSchemeChar = byte ':' :: rest := by
      rw [dropWhile_append_of_pos hchar, dropWhile_cons_of_neg (by simp [hcolon.1])]
    show (if c = byte ':' then none else if !isLetter c then _ else _) = _
    rw [if_neg hne, hletter, htake, hdrop]
    rfl

/-- Remembering the question mark apart, the query is cut off at the first one. -/
theorem splitQuery_eq (u : Url) (hu : u.rawQuery = []) (rest : Bytes) :
    (splitQuery u rest).2 = (cutAt (byte '?') rest).1 ∧
      (splitQuery u rest).1 = { u with
        rawQuery := (cutAt (byte '?') rest).2, forceQuery := (splitQuery u rest).1.forceQuery } := by
  rw [splitQuery]
  split_ifs with hforce
  · obtain ⟨hlast, hone⟩ := hforce
    obtain ⟨front, rfl⟩ := getLast?_eq_some_iff.1 hlast
    have hfront : byte '?' ∉ front := by
      rw [count_append, count_singleton_self] at hone
      exact count_eq_zero.1 (by omega)
    rw [cutAt_append hfront, dropLast_concat]
    exact ⟨rfl, by cases u; cases hu; rfl⟩
  · exact ⟨rfl, rfl⟩

def pathText (rest : Bytes) : Bytes :=
  (cutAt (byte '?') (cutAt (byte '#') rest).1).1.dropWhile (· != byte '/')

theorem parseHierarchy_authority {u v : Url} {text : Bytes} (hu : u.scheme ≠ [])
    (h : parseHierarchy codec u (ascii "//" ++ text) = some v) :
    v.scheme = u.scheme ∧ v.opaquePart = u.opaquePart ∧ v.rawQuery = u.rawQuery ∧
      unescape (text.dropWhile (· != byte '/')) = some v.path := by
  have hauth : (u.scheme ≠ [] ∨ (ascii "///").isPrefixOf (ascii "//" ++ text) = false) ∧
      (ascii "//").isPrefixOf (ascii "//" ++ text) = true :=
    ⟨.inl hu, isPrefixOf_iff_prefix.2 (prefix_append _ _)⟩
  rw [parseHierarchy, if_pos hauth] at h
  cases hcodec : codec.parse (((ascii "//" ++ text).drop 2).takeWhile (· != byte '/')) with
  | none => simp [hcodec] at h
  | some a =>
    simp only [hcodec] at h
    obtain ⟨path, hpath, rfl⟩ := map_eq_some_iff.1 h
    exact ⟨rfl, rfl, rfl, hpath⟩

theorem parseNoFragment_absolute {s text : Bytes} {u : Url} (hs : IsScheme s)
    (h : parseNoFragment codec (s ++ ascii "://" ++ text) = some u) :
    u.scheme = toLower s ∧ u.opaquePart = [] ∧ u.rawQuery = (cutAt (byte '?') text).2 ∧
      unescape ((cutAt (byte '?') text).1.dropWhile (· != byte '/')) = some u.path := by
  have hget : getScheme (s ++ ascii "://" ++ text) = some (s, ascii "//" ++ text) := by
    rw [append_assoc]
    exact getScheme_append hs _
  have hstar : s ++ ascii "://" ++ text ≠ ascii "*" := by
    intro hstar
    have hlen := congrArg length hstar
    rw [length_append, length_append, show (ascii "://").length = 3 from rfl,
      show (ascii "*").length = 1 from rfl] at hlen
    omega
  have hcut := cutAt_append_of_notMem (show byte '?' ∉ ascii "//" by decide) text
  obtain ⟨hrest, hquery⟩ := splitQuery_eq { scheme := toLower s } rfl (ascii "//" ++ text)
  rw [hcut] at hrest hquery
  have hne : toLower s ≠ [] := by
    intro hnil
    have hhead := hs.1
    rw [map_eq_nil_iff.1 hnil] at hhead
    exact absurd hhead (by decide)
  unfold parseNoFragment at h
  split_ifs at h
  rw [hget] at h
  dsimp only at h
  rw [hrest, hquery] at h
  exact parseHierarchy_authority codec hne h

/-- The parts of an absolute URL. -/
theorem parse_absolute {s rest : Bytes} {u : Url} (hs : IsScheme s)
    (h : parse codec (s ++ ascii "://" ++ rest) = some u) :
    u.scheme = toLower s ∧ u.opaquePart = [] ∧
      u.rawQuery = (cutAt (byte '?') (cutAt (byte '#') rest).1).2 ∧
      unescape (pathText rest) = some u.path := by
  have hhash : byte '#' ∉ s ++ ascii "://" := by
    rw [mem_append, not_or]
    refine ⟨fun hmem => ?_, by decide⟩
    exact absurd (all_eq_true.1 hs.2 _ hmem) (by decide)
  rw [parse, cutAt_append_of_notMem hhash] at h
  cases hno : parseNoFragment codec (s ++ ascii "://" ++ (cutAt (byte '#') rest).1) with
  | none =>
    rw [hno] at h
    exact absurd h (some_ne_none u).symm
  | some v =>
    rw [hno] at h
    obtain ⟨fragment, -, rfl⟩ := map_eq_some_iff.1 h
    exact parseNoFragment_absolute (u := v) codec hs hno

end

/-! ## References -/

def dropSegment (dst : Bytes) : Bytes × Bool :=
  match (dst.reverse.dropWhile (· != byte '/')) with
  | [] => ([], true)
  | _ :: front => (front.reverse, false)

def joinSegments : List Bytes → Bytes × Bool → Bytes × Bool
  | [], st => st
  | elem :: elems, (dst, first) =>
    if elem = ascii "." then joinSegments elems (dst, false)
    else if elem = ascii ".." then
      let (dst', empty) := dropSegment dst
      joinSegments elems (dst', if empty then true else first)
    else joinSegments elems (if first then dst ++ elem else dst ++ byte '/' :: elem, false)

def resolvePath (base ref : Bytes) : Bytes :=
  let full :=
    match ref with
    | [] => base
    | c :: _ =>
      if c = byte '/' then ref
      else ((base.reverse.dropWhile (· != byte '/')).reverse) ++ ref
  if full = [] then []
  else
    let elems := splitOn (byte '/') full
    let (dst, _) := joinSegments elems ([], true)
    let dst := if [some (ascii "."), some (ascii "..")].contains elems.getLast? then dst ++ [byte '/']
      else dst
    -- a leading slash, but not two
    if dst.head? = some (byte '/') then dst else byte '/' :: dst

/-- `ResolveReference`; `none` is the dereference of a missing base. -/
def resolveReference (base : Option Url) (ref : Url) : Option Url :=
  if ref.scheme ≠ [] then some ((ref.setPath (resolvePath ref.escapedPath [])).getD ref)
  else
    match base with
    | none => none
    | some u =>
      let url := { ref with scheme := u.scheme }
      if ref.host ≠ [] ∨ ref.user.isSome then
        some ((url.setPath (resolvePath ref.escapedPath [])).getD url)
      else
        let url :=
          if ref.path = [] ∧ !ref.forceQuery ∧ ref.rawQuery = [] then
            { url with
              rawQuery := u.rawQuery
              fragment := if ref.fragment = [] then u.fragment else ref.fragment
              rawFragment := if ref.fragment = [] then u.rawFragment else ref.rawFragment }
          else url
        if ref.path = [] ∧ u.opaquePart ≠ [] then
          some { url with opaquePart := u.opaquePart, user := none, host := [], path := [] }
        else
          let url := { url with host := u.host, user := u.user }
          some ((url.setPath (resolvePath u.escapedPath ref.escapedPath)).getD url)

def resolvedScheme (base : Option Url) (ref : Url) : Bytes :=
  if ref.scheme ≠ [] then ref.scheme else (base.getD {}).scheme

def resolvedHost (base : Option Url) (ref : Url) : Bytes :=
  if ref.scheme ≠ [] ∨ ref.host ≠ [] ∨ ref.user.isSome then ref.host
  else if ref.path = [] ∧ (base.getD {}).opaquePart ≠ [] then []
  else (base.getD {}).host

theorem getD_setPath (u : Url) (p : Bytes) :
    ((u.setPath p).getD u).scheme = u.scheme ∧ ((u.setPath p).getD u).host = u.host := by
  cases hset : u.setPath p with
  | none => exact ⟨rfl, rfl⟩
  | some v => exact setPath_host hset

theorem resolveReference_eq_none_iff (base : Option Url) (ref : Url) :
    resolveReference base ref = none ↔ ref.scheme = [] ∧ base = none := by
  unfold resolveReference
  by_cases hscheme : ref.scheme = []
  · cases base with
    | none => simp
    | some u =>
      simp only [ne_eq]
      split_ifs <;> simp
  · simp [hscheme]

theorem resolveReference_origin {base : Option Url} {ref v : Url}
    (h : resolveReference base ref = some v) :
    v.scheme = resolvedScheme base ref ∧ v.host = resolvedHost base ref := by
  unfold resolveReference at h
  unfold resolvedScheme resolvedHost
  by_cases hscheme : ref.scheme = []
  · cases base with
    | none => simp [hscheme] at h
    | some u =>
      simp only [hscheme, ne_eq, not_true_eq_false, if_false, false_or, getD_some] at h ⊢
      by_cases hauth : ref.host ≠ [] ∨ ref.user.isSome = true
      · rw [if_pos hauth] at h ⊢
        cases h
        exact getD_setPath _ _
      · -- the fields that are taken over first are neither scheme nor host
        split_ifs at h ⊢ <;> obtain rfl := some.inj h <;>
          first | exact ⟨rfl, rfl⟩ | exact getD_setPath _ _
  · rw [if_pos hscheme] at h
    cases h
    rw [if_pos hscheme, if_pos (.inl hscheme)]
    exact getD_setPath _ _

/-! ## Writing -/

def authorityText (u : Url) : Bytes :=
  if u.scheme = [] ∧ u.host = [] ∧ u.user = none then []
  else if u.omitHost ∧ u.host = [] ∧ u.user = none then []
  else
    (if u.host ≠ [] ∨ u.path ≠ [] ∨ u.user.isSome then ascii "//" else []) ++
      (match u.user with
        | some user => user ++ [byte '@']
        | none => []) ++ codec.escapeHost u.host

def text (u : Url) : Bytes :=
  let scheme := if u.scheme ≠ [] then u.scheme ++ [byte ':'] else []
  let front :=
    if u.opaquePart ≠ [] then scheme ++ u.opaquePart
    else
      let buf := scheme ++ u.authorityText codec
      let path := u.escapedPath
      let buf := if path ≠ [] ∧ path.head? ≠ some (byte '/') ∧ u.host ≠ [] then buf ++ [byte '/'] else buf
      let buf := if buf = [] ∧ byte ':' ∈ (cutAt (byte '/') path).1 then ascii "./" else buf
      buf ++ path
  front ++ (if u.forceQuery ∨ u.rawQuery ≠ [] then byte '?' :: u.rawQuery else []) ++
    (if u.fragment ≠ [] then byte '#' :: u.escapedFragment else [])

def requestURI (u : Url) : Bytes :=
  let result :=
    if u.opaquePart = [] then if u.escapedPath = [] then ascii "/" else u.escapedPath
    else if (ascii "//").isPrefixOf u.opaquePart then u.scheme ++ byte ':' :: u.opaquePart
    else u.opaquePart
  result ++ if u.forceQuery ∨ u.rawQuery ≠ [] then byte '?' :: u.rawQuery else []

end Url

end Bouine.Lib
