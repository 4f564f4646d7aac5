import Bouine.Lib.Path
import Bouine.Cache.Key
import Bouine.Cache.OriginTarget

/-! # The target the origin is asked for

The key of a request hashes the path that fasthttp reads in its target, and the origin is sent the
target that `canonicalOriginTarget` rebuilds. The file models fasthttp's reading and says when the
rebuilt target is read, and keyed, as the original.
-/

namespace Bouine.Cache

open Lib Lib.Path List

/-! ## How fasthttp reads a target -/

/-- What is left for path and query without scheme and authority, which are there if the first slash
is a double one. -/
def splitHostURI (uri : Bytes) : Bytes :=
  match uri.dropWhile (· != byte '/') with
  | a :: b :: rest =>
    if a = byte '/' ∧ b = byte '/' then
      match rest.dropWhile (!isDelim ·) with
      | [] => ascii "/"
      | tail => tail
    else uri
  | _ => uri

/-- The query ends where the fragment starts; a question mark in that starts none. -/
def queryOf (uri : Bytes) : Bytes := (cutAt (byte '?') (cutAt (byte '#') uri).1).2

def readURI (uri : Bytes) : ParsedURI where
  path := normalizePath (cutQuery uri)
  queryString := queryOf uri
  path_slash := by
    obtain ⟨r, hr, -⟩ := cleanPath_eq_cons (percentDecode (cutQuery uri))
    rw [normalizePath, hr]
    rfl

/-- `URI.Parse`. An authority is looked for if no Host is given or there is a `://`. -/
def parseURI (host uri : Bytes) : ParsedURI :=
  readURI (if host = [] ∨ (afterWord (ascii "://") uri).isSome then splitHostURI uri else uri)

def targetRequest (method host uri : Bytes) (tls : Bool) : RequestInfo where
  method := method
  uri := uri
  host := host
  path := (parseURI host uri).path
  tls := tls

/-- `canonicalOriginTarget`, which parses without a Host. -/
def rebuiltTarget (uri : Bytes) : Bytes := canonicalOriginTarget (fun u => some (parseURI [] u)) uri

/-! ## Cutting at the query -/

def isPathByte (c : UInt8) : Bool := c != byte '#' && c != byte '?'

theorem cutQuery_eq (s : Bytes) : cutQuery s = s.takeWhile isPathByte := by
  show (s.takeWhile (· != byte '?')).takeWhile (· != byte '#') = _
  rw [takeWhile_takeWhile]
  congr 1
  funext c
  rw [Bool.eq_iff_iff]
  simp [isPathByte]

variable {a : Bytes}

theorem cutQuery_append (ha : ∀ c ∈ a, isPathByte c) (s : Bytes) :
    cutQuery (a ++ s) = a ++ cutQuery s := by
  rw [cutQuery_eq, cutQuery_eq, takeWhile_append_of_pos ha]

theorem cutQuery_of_pathByte (ha : ∀ c ∈ a, isPathByte c) : cutQuery a = a := by
  have := cutQuery_append ha []
  rwa [show cutQuery [] = [] from rfl, append_nil] at this

theorem queryOf_append (ha : ∀ c ∈ a, isPathByte c) (s : Bytes) :
    queryOf (a ++ s) = queryOf s := by
  have hhash : ∀ c ∈ a, (c != byte '#') = true := fun c hc => (Bool.and_eq_true_iff.1 (ha c hc)).1
  have hmark : ∀ c ∈ a, (c != byte '?') = true := fun c hc => (Bool.and_eq_true_iff.1 (ha c hc)).2
  simp only [queryOf, cutAt]
  rw [takeWhile_append_of_pos hhash, dropWhile_append_of_pos hmark]

theorem isPathByte_of_not_isDelim {c : UInt8} (h : (!isDelim c)) : isPathByte c = true := by
  simp only [isDelim, Bool.not_eq_true', Bool.or_eq_false_iff, beq_eq_false_iff_ne] at h
  simp [isPathByte, h.1.2, h.2]

theorem isPathByte_slash : isPathByte (byte '/') = true := by decide

theorem splitHostURI_of_single {t : Bytes} (ht : t.head? ≠ some (byte '/')) :
    splitHostURI (byte '/' :: t) = byte '/' :: t := by
  cases t with
  | nil => rfl
  | cons c t =>
    have hc : c ≠ byte '/' := fun h => ht (by rw [h, head?_cons])
    show (if _ then _ else _) = _
    rw [if_neg fun h => hc h.2]

theorem splitHostURI_double (rest : Bytes) :
    splitHostURI (byte '/' :: byte '/' :: rest) =
      match rest.dropWhile (!isDelim ·) with
      | [] => ascii "/"
      | tail => tail := by
  rw [splitHostURI]
  show (if _ then _ else _) = _
  rw [if_pos ⟨rfl, rfl⟩]

theorem normalizePath_eq_slash_or (p : Bytes) :
    normalizePath p = [slash] ∨ 1 < (normalizePath p).length := cleanPath_eq_slash_or _

theorem cutQuery_of_isDelim {c : UInt8} (hc : isDelim c) (w : Bytes) :
    cutQuery (c :: w) = slash :: cutQuery w ∨ cutQuery (c :: w) = [] := by
  rw [cutQuery_eq, cutQuery_eq]
  simp only [isDelim, Bool.or_eq_true, beq_iff_eq] at hc
  rcases hc with (rfl | rfl) | rfl
  · exact .inl (takeWhile_cons_of_pos isPathByte_slash)
  · exact .inr (takeWhile_cons_of_neg (by decide))
  · exact .inr (takeWhile_cons_of_neg (by decide))

theorem normalizePath_front {front : Bytes} (hfront : ∀ c ∈ front, isPathByte c) (c : UInt8)
    (hc : isDelim c) (w : Bytes) :
    normalizePath (cutQuery (front ++ c :: w)) = normalizePath (cutQuery (c :: w)) ∨
      (normalizePath (cutQuery (c :: w))).length <
        (normalizePath (cutQuery (front ++ c :: w))).length := by
  rw [cutQuery_append hfront]
  rcases cutQuery_of_isDelim hc w with hcut | hcut
  · rw [hcut, normalizePath, normalizePath, percentDecode_append_slash,
      percentDecode_cons_of_ne (by decide)]
    exact cleanPath_front _ _
  · rw [hcut]
    exact normalizePath_eq_slash_or _

/-- The authority split off disappears from the path or makes it longer; the query does not depend
on it. -/
theorem readURI_splitHostURI (t : Bytes) :
    (readURI (splitHostURI (byte '/' :: t))).queryString = (readURI (byte '/' :: t)).queryString ∧
      ((readURI (byte '/' :: t)).path = (readURI (splitHostURI (byte '/' :: t))).path ∨
        (readURI (splitHostURI (byte '/' :: t))).path.length <
          (readURI (byte '/' :: t)).path.length) := by
  by_cases ht : t.head? = some (byte '/')
  · obtain ⟨rest, rfl⟩ : ∃ rest, t = byte '/' :: rest := by
      cases t with
      | nil => cases ht
      | cons c t => exact ⟨t, by rw [Option.some.inj ht]⟩
    let front := byte '/' :: byte '/' :: rest.takeWhile (!isDelim ·)
    have hfront : ∀ c ∈ front, isPathByte c = true := by
      intro c hc
      simp only [front, mem_cons] at hc
      rcases hc with rfl | rfl | hc
      · exact isPathByte_slash
      · exact isPathByte_slash
      · exact isPathByte_of_not_isDelim (mem_takeWhile_imp (p := fun x => !isDelim x) hc)
    have htarget : byte '/' :: byte '/' :: rest = front ++ rest.dropWhile (!isDelim ·) := by
      simp [front]
    rw [splitHostURI_double, htarget]
    cases htail : rest.dropWhile (!isDelim ·) with
    | nil =>
      rw [append_nil]
      refine ⟨?_, ?_⟩
      · have := queryOf_append hfront []
        rw [append_nil] at this
        exact this.symm
      · exact normalizePath_eq_slash_or _
    | cons c w =>
      have hc : isDelim c = true := by
        have := head?_dropWhile_not (!isDelim ·) rest
        simpa [htail] using this
      exact ⟨(queryOf_append hfront _).symm, normalizePath_front hfront c hc w⟩
  · rw [splitHostURI_of_single ht]
    exact ⟨rfl, .inl rfl⟩

/-! ## Reading a rebuilt target -/

def withQuery (path query : Bytes) : Bytes :=
  path ++ if query = [] then [] else byte '?' :: query

theorem cutQuery_withQuery (path query : Bytes) : cutQuery (withQuery path query) = cutQuery path := by
  have hstop : (if query = [] then [] else byte '?' :: query).takeWhile isPathByte = [] := by
    split_ifs
    · rfl
    · rw [takeWhile_cons_of_neg (by decide)]
  have hinitial : path.takeWhile isPathByte <+: path := takeWhile_prefix _
  rw [cutQuery_eq, cutQuery_eq, withQuery, takeWhile_append, hstop, append_nil]
  split_ifs with hall
  · exact (hinitial.eq_of_length hall).symm
  · rfl

theorem extractRawQuery_withQuery {path : Bytes} (hpath : ∀ c ∈ path, isPathByte c)
    (query : Bytes) : extractRawQuery (withQuery path query) = query := by
  have hmark : ∀ c ∈ path, (c != byte '?') = true :=
    fun c hc => (Bool.and_eq_true_iff.1 (hpath c hc)).2
  simp only [extractRawQuery, cutAt, withQuery]
  rw [dropWhile_append_of_pos hmark]
  split_ifs with hempty
  · rw [hempty]
    rfl
  · rfl

theorem queryOf_withQuery {path query : Bytes} (hpath : ∀ c ∈ path, isPathByte c)
    (hquery : byte '#' ∉ query) : queryOf (withQuery path query) = query := by
  have hhash : (cutAt (byte '#') (withQuery path query)).1 = withQuery path query := by
    refine takeWhile_eq_self_iff.2 fun c hc => ?_
    rw [withQuery, mem_append] at hc
    rcases hc with hc | hc
    · exact (Bool.and_eq_true_iff.1 (hpath c hc)).1
    · split_ifs at hc
      · exact nomatch hc
      · rcases mem_cons.1 hc with rfl | hc
        · decide
        · simpa using fun h : c = byte '#' => hquery (h ▸ hc)
  rw [queryOf, hhash]
  exact extractRawQuery_withQuery hpath query

theorem parseURI_withQuery (host d query : Bytes) :
    parseURI host (withQuery (cleanPath d) query) = readURI (withQuery (cleanPath d) query) := by
  obtain ⟨r, hr, hsingle⟩ := cleanPath_eq_cons d
  have hsplit : splitHostURI (withQuery (cleanPath d) query) = withQuery (cleanPath d) query := by
    rw [hr]
    refine splitHostURI_of_single ?_
    cases r with
    | nil =>
      split_ifs
      · nofun
      · exact fun h => absurd (Option.some.inj h) (by decide)
    | cons c r => exact hsingle
  rw [parseURI, hsplit, ite_self]

/-! ## The same identity -/

/-- No byte of the path would be taken for something else by a parser. -/
def Sendable (path : Bytes) : Prop :=
  byte '?' ∉ path ∧ byte '#' ∉ path ∧ percentDecode path = path

theorem sendable_iff {path : Bytes} :
    Sendable path ↔ (∀ c ∈ path, isPathByte c) ∧ percentDecode path = path := by
  rw [Sendable, ← and_assoc]
  refine and_congr_left fun _ => ⟨fun h c hc => ?_, fun h => ⟨fun hc => ?_, fun hc => ?_⟩⟩
  · have hmark : c ≠ byte '?' := fun heq => h.1 (heq ▸ hc)
    have hhash : c ≠ byte '#' := fun heq => h.2 (heq ▸ hc)
    simp [isPathByte, hmark, hhash]
  · exact absurd (h _ hc) (by decide)
  · exact absurd (h _ hc) (by decide)

theorem cutQuery_initial (s : Bytes) : cutQuery s <+: s := by
  rw [cutQuery_eq]
  exact takeWhile_prefix _

theorem length_normalizePath_cutQuery_le (d : Bytes) :
    (normalizePath (cutQuery (cleanPath d))).length ≤
      (percentDecode (cutQuery (cleanPath d))).length := by
  obtain ⟨r, hr, -⟩ := cleanPath_eq_cons d
  have hcut : cutQuery (cleanPath d) = slash :: cutQuery r := by
    rw [hr]
    refine cutQuery_append (a := [slash]) (fun c hc => ?_) r
    rw [mem_singleton.1 hc]
    exact isPathByte_slash
  rw [hcut]
  rw [normalizePath, percentDecode_cons_of_ne (by decide)]
  exact length_cleanPath_le _

theorem length_le_normalizePath_cutQuery_iff (d : Bytes) :
    (cleanPath d).length ≤ (normalizePath (cutQuery (cleanPath d))).length ↔
      Sendable (cleanPath d) := by
  have hshorter := length_normalizePath_cutQuery_le d
  have hdecode := length_percentDecode_le (cutQuery (cleanPath d))
  rw [sendable_iff]
  constructor
  · intro hlen
    have hcut : cutQuery (cleanPath d) = cleanPath d :=
      (cutQuery_initial _).eq_of_length_le (by omega)
    rw [hcut] at hshorter hlen
    refine ⟨?_, (percentDecode_eq_or_lt _).resolve_right (by omega)⟩
    rw [cutQuery_eq] at hcut
    exact takeWhile_eq_self_iff.1 hcut
  · rintro ⟨hbytes, hsame⟩
    rw [cutQuery_of_pathByte hbytes, normalizePath, hsame, cleanPath_cleanPath]

/-! ## The same identity -/

section

variable (method host t : Bytes) (tls : Bool) (policy : Option KeyPolicy)

theorem rebuiltTarget_eq :
    rebuiltTarget (byte '/' :: t) =
      if pathNeedsNormalization (targetPath (byte '/' :: t)) then
        withQuery (parseURI [] (byte '/' :: t)).path (parseURI [] (byte '/' :: t)).queryString
      else byte '/' :: t := by
  rw [rebuiltTarget, canonicalOriginTarget]
  cases pathNeedsNormalization (targetPath (byte '/' :: t)) <;> rfl

theorem parseURI_nil_cases :
    (parseURI [] (byte '/' :: t)).queryString = (parseURI host (byte '/' :: t)).queryString ∧
      ((parseURI host (byte '/' :: t)).path = (parseURI [] (byte '/' :: t)).path ∨
        (parseURI [] (byte '/' :: t)).path.length < (parseURI host (byte '/' :: t)).path.length) := by
  have hnil : parseURI [] (byte '/' :: t) = readURI (splitHostURI (byte '/' :: t)) := by
    rw [parseURI, if_pos (.inl rfl)]
  rw [hnil, parseURI]
  split_ifs
  · exact ⟨rfl, .inl rfl⟩
  · exact readURI_splitHostURI t

/-- A rebuilt target is read as the original exactly if the path does not depend on the Host and can be
sent as it is. -/
theorem parseURI_rebuilt_path_iff :
    (parseURI host (withQuery (parseURI [] (byte '/' :: t)).path
        (parseURI [] (byte '/' :: t)).queryString)).path = (parseURI host (byte '/' :: t)).path ↔
      (parseURI [] (byte '/' :: t)).path = (parseURI host (byte '/' :: t)).path ∧
        Sendable (parseURI host (byte '/' :: t)).path := by
  obtain ⟨-, hcases⟩ := parseURI_nil_cases host t
  obtain ⟨d, hd⟩ : ∃ d, (parseURI [] (byte '/' :: t)).path = cleanPath d := ⟨_, rfl⟩
  have hread : (parseURI host (withQuery (cleanPath d) (parseURI [] (byte '/' :: t)).queryString)).path =
      normalizePath (cutQuery (cleanPath d)) := by
    rw [parseURI_withQuery]
    show normalizePath (cutQuery (withQuery _ _)) = _
    rw [cutQuery_withQuery]
  rw [hd] at hcases ⊢
  rw [hread]
  constructor
  · intro hsame
    have hshorter := length_normalizePath_cutQuery_le d
    have hdecode := length_percentDecode_le (cutQuery (cleanPath d))
    have hcut := (cutQuery_initial (cleanPath d)).length_le
    have heq : (parseURI host (byte '/' :: t)).path = cleanPath d :=
      hcases.resolve_right (by rw [hsame] at hshorter; omega)
    refine ⟨heq.symm, ?_⟩
    rw [heq, ← length_le_normalizePath_cutQuery_iff, hsame, heq]
  · rintro ⟨heq, hsend⟩
    rw [← heq] at hsend ⊢
    obtain ⟨hbytes, hsame⟩ := sendable_iff.1 hsend
    rw [cutQuery_of_pathByte hbytes, normalizePath, hsame, cleanPath_cleanPath]

theorem rebuilt_query_and_key
    (heq : (parseURI [] (byte '/' :: t)).path = (parseURI host (byte '/' :: t)).path)
    (hsend : Sendable (parseURI host (byte '/' :: t)).path) :
    (parseURI host (withQuery (parseURI [] (byte '/' :: t)).path
        (parseURI [] (byte '/' :: t)).queryString)).queryString =
      (parseURI host (byte '/' :: t)).queryString ∧
    (hashedBytes (targetRequest method host (withQuery (parseURI [] (byte '/' :: t)).path
        (parseURI [] (byte '/' :: t)).queryString) tls) policy =
        hashedBytes (targetRequest method host (byte '/' :: t) tls) policy ↔
      canonicalQuery (extractRawQuery (byte '/' :: t)) policy =
        canonicalQuery (parseURI host (byte '/' :: t)).queryString policy) := by
  obtain ⟨hquery, -⟩ := parseURI_nil_cases host t
  have hpath := (parseURI_rebuilt_path_iff host t).2 ⟨heq, hsend⟩
  have hbytes : ∀ c ∈ (parseURI [] (byte '/' :: t)).path, isPathByte c = true := by
    rw [heq]
    exact (sendable_iff.1 hsend).1
  rw [hquery] at hpath
  obtain ⟨d, hd⟩ : ∃ d, (parseURI [] (byte '/' :: t)).path = cleanPath d := ⟨_, rfl⟩
  have hhash : byte '#' ∉ (parseURI [] (byte '/' :: t)).queryString := fun h =>
    notMem_cutAt_fst (byte '#') _ (mem_of_mem_cutAt_snd h)
  constructor
  · rw [← hquery, hd, parseURI_withQuery]
    rw [hd] at hbytes
    exact queryOf_withQuery hbytes hhash
  · rw [hashedBytes_eq, hashedBytes_eq, canonicalKey, canonicalKey, afterHost, afterHost]
    simp only [targetRequest, RequestInfo.rawQuery, keyHost, hpath, append_cancel_left_eq,
      cons.injEq, true_and, append_cancel_right_eq, extractRawQuery_withQuery hbytes, hquery]
    exact eq_comm

/-- The origin is asked for what the key claims exactly if a rebuilt target has a path that does not
depend on the Host and can be sent as it is, and a query that its fragment does not change. -/
theorem origin_target_keeps_identity_iff :
    ((parseURI host (rebuiltTarget (byte '/' :: t))).path = (parseURI host (byte '/' :: t)).path ∧
      (parseURI host (rebuiltTarget (byte '/' :: t))).queryString =
        (parseURI host (byte '/' :: t)).queryString ∧
      hashedBytes (targetRequest method host (rebuiltTarget (byte '/' :: t)) tls) policy =
        hashedBytes (targetRequest method host (byte '/' :: t) tls) policy) ↔
      (pathNeedsNormalization (targetPath (byte '/' :: t)) = true →
        (parseURI [] (byte '/' :: t)).path = (parseURI host (byte '/' :: t)).path ∧
        Sendable (parseURI host (byte '/' :: t)).path ∧
        canonicalQuery (extractRawQuery (byte '/' :: t)) policy =
          canonicalQuery (parseURI host (byte '/' :: t)).queryString policy) := by
  rw [rebuiltTarget_eq]
  by_cases hneeds : pathNeedsNormalization (targetPath (byte '/' :: t)) = true
  · have hrest := rebuilt_query_and_key method host t tls policy
    rw [if_pos hneeds, parseURI_rebuilt_path_iff]
    constructor
    · rintro ⟨⟨heq, hsend⟩, -, hkey⟩ -
      exact ⟨heq, hsend, (hrest heq hsend).2.1 hkey⟩
    · intro h
      obtain ⟨heq, hsend, hraw⟩ := h hneeds
      exact ⟨⟨heq, hsend⟩, (hrest heq hsend).1, (hrest heq hsend).2.2 hraw⟩
  · simp [hneeds]

/-- A path that decodes to a question mark or another escape, an authority in the path, and a
fragment after the query. -/
theorem rebuilt_targets_change_identity :
    (parseURI (ascii "h") (ascii "/a%3Fb")).path = ascii "/a?b" ∧
      (parseURI (ascii "h") (rebuiltTarget (ascii "/a%3Fb"))).path = ascii "/a" ∧
    (parseURI (ascii "h") (ascii "/a%2541")).path = ascii "/a%41" ∧
      (parseURI (ascii "h") (rebuiltTarget (ascii "/a%2541"))).path = ascii "/aA" ∧
    (parseURI (ascii "h") (ascii "//b/%63")).path = ascii "/b/c" ∧
      (parseURI (ascii "h") (rebuiltTarget (ascii "//b/%63"))).path = ascii "/c" ∧
    hashedBytes (targetRequest (ascii "GET") (ascii "h") (ascii "/%61?q#f") false) none =
        ascii "http|h|/a|q#f=|GET" ∧
      hashedBytes (targetRequest (ascii "GET") (ascii "h") (rebuiltTarget (ascii "/%61?q#f")) false)
        none = ascii "http|h|/a|q=|GET" := by
  decide +kernel

end

end Bouine.Cache
