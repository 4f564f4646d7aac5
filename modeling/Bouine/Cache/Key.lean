import Mathlib.Data.Multiset.AddSub
import Bouine.Cache.CanonicalQuery

/-! # The primary cache key

`BuildKey` (`internal/cache/key.go`) writes scheme, host, path, query and method, each with a bar
behind it, into 512 bytes and hashes that; if it does not fit it starts over with a buffer of the
right size. `hashedBytes_eq` says what is hashed, whatever the sizes. The rest says which requests
share a key.
-/

namespace Bouine.Cache

open Lib Lib.UrlQuery List

/-! ## The code -/

structure RequestInfo where
  method : Bytes
  uri : Bytes
  host : Bytes
  path : Bytes
  tls : Bool
deriving DecidableEq

def extractRawQuery (uri : Bytes) : Bytes := (cutAt (byte '?') uri).2

def RequestInfo.rawQuery (ri : RequestInfo) : Bytes := extractRawQuery ri.uri

def appendCanonicalHost (b : Buf) (host : Bytes) : Buf :=
  let b := b.append (toLower host)
  if b.hasSuffix (ascii ":80") then b.shrink 3
  else if b.hasSuffix (ascii ":443") then b.shrink 4
  else b

def appendPath (prev : UInt8) : Buf → Bytes → Buf
  | b, [] => b
  | b, c :: s =>
    if c = byte '/' ∧ prev = byte '/' then appendPath prev b s
    else appendPath c (b.appendByte c) s

def appendCanonicalPathString (b : Buf) (p : Bytes) : Buf :=
  appendPath 0 b (if p = [] then ascii "/" else p)

def canonicalMethod (m : Bytes) : Bytes := if m = ascii "HEAD" then ascii "GET" else m

def scheme (tls : Bool) : Bytes := if tls then ascii "https" else ascii "http"

def writeAfterHost (b : Buf) (ri : RequestInfo) (policy : Option KeyPolicy) : Buf :=
  let b := b.appendByte (byte '|')
  let b := appendCanonicalPathString b ri.path
  let b := b.appendByte (byte '|')
  let b := appendCanonicalQueryString b ri.rawQuery policy
  let b := b.appendByte (byte '|')
  b.append (canonicalMethod ri.method)

/-- The body of `BuildKey`, and of `buildKeyHeap` with its own buffer. -/
def writeKey (b : Buf) (ri : RequestInfo) (policy : Option KeyPolicy) : Buf :=
  let b := b.append (scheme ri.tls ++ [byte '|'])
  let b := if includeHostKey policy then appendCanonicalHost b ri.host else b
  writeAfterHost b ri policy

/-- The bytes `BuildKey` hands to `NewKey`. -/
def hashedBytes (ri : RequestInfo) (policy : Option KeyPolicy) : Bytes :=
  let b := writeKey (.make 512) ri policy
  if b.n ≤ 512 then b.contents
  -- buildKeyHeap
  else (writeKey (.make b.n) ri policy).contents

/-- `BuildKey` over the hash `sum128`. -/
def buildKey {Key : Type*} (sum128 : Bytes → Key) (ri : RequestInfo)
    (policy : Option KeyPolicy) : Key :=
  sum128 (hashedBytes ri policy)

/-! ## What is hashed -/

def canonicalHost (host : Bytes) : Bytes :=
  let h := toLower host
  if ascii ":80" <:+ h then h.take (h.length - 3)
  else if ascii ":443" <:+ h then h.take (h.length - 4)
  else h

def collapseSlashes : Bytes → Bytes
  | [] => []
  | [c] => [c]
  | c :: d :: s =>
    if c = byte '/' ∧ d = byte '/' then collapseSlashes (d :: s)
    else c :: collapseSlashes (d :: s)

def canonicalPath (p : Bytes) : Bytes := collapseSlashes (if p = [] then ascii "/" else p)

def keyHost (ri : RequestInfo) (policy : Option KeyPolicy) : Bytes :=
  if includeHostKey policy then canonicalHost ri.host else []

def afterHost (ri : RequestInfo) (policy : Option KeyPolicy) : Bytes :=
  canonicalPath ri.path ++ byte '|' ::
    (canonicalQuery ri.rawQuery policy ++ byte '|' :: canonicalMethod ri.method)

def canonicalKey (ri : RequestInfo) (policy : Option KeyPolicy) : Bytes :=
  scheme ri.tls ++ byte '|' :: (keyHost ri policy ++ byte '|' :: afterHost ri policy)

section

variable {b : Buf} {size : Nat} {out : Bytes}

theorem appendPath_represents (h : b.Represents size out) (prev : UInt8) (s : Bytes) :
    ∃ w, (appendPath prev b s).Represents size (out ++ w) ∧
      prev :: w = collapseSlashes (prev :: s) := by
  induction s generalizing prev b out with
  | nil => exact ⟨[], by simpa [appendPath] using h, rfl⟩
  | cons c s ih =>
    unfold appendPath collapseSlashes
    by_cases hc : c = byte '/' ∧ prev = byte '/'
    · obtain ⟨rfl, rfl⟩ := hc
      simpa using ih h (byte '/')
    · rw [if_neg hc, if_neg fun h' => hc ⟨h'.2, h'.1⟩]
      obtain ⟨w, hw, hcollapse⟩ := ih (h.appendByte c) c
      exact ⟨c :: w, by simpa using hw, by rw [hcollapse]⟩

theorem appendCanonicalPathString_represents (h : b.Represents size out) (p : Bytes) :
    (appendCanonicalPathString b p).Represents size (out ++ canonicalPath p) := by
  unfold appendCanonicalPathString canonicalPath
  generalize (if p = [] then ascii "/" else p) = s
  obtain ⟨w, hw, hcollapse⟩ := appendPath_represents h 0 s
  -- the loop starts as after a byte that is no slash
  have : w = collapseSlashes s := by
    cases s with
    | nil => simpa [collapseSlashes] using hcollapse
    | cons c s =>
      exact (cons.inj hcollapse).2
  rwa [← this]

theorem writeAfterHost_represents (h : b.Represents size out) (ri : RequestInfo)
    (policy : Option KeyPolicy) :
    (writeAfterHost b ri policy).Represents size (out ++ byte '|' :: afterHost ri policy) := by
  have hpath := appendCanonicalPathString_represents (h.appendByte (byte '|')) ri.path
  have hquery := appendCanonicalQueryString_represents (hpath.appendByte (byte '|'))
    ri.rawQuery policy
  have := (hquery.appendByte (byte '|')).append (canonicalMethod ri.method)
  simpa [writeAfterHost, afterHost] using this

/-- While the host fits its port is taken off; the bar before it keeps the search inside the host.
-/
theorem appendCanonicalHost_represents (h : b.Represents size (out ++ [byte '|'])) (host : Bytes)
    (hfit : (out ++ [byte '|'] ++ toLower host).length ≤ size) :
    (appendCanonicalHost b host).Represents size (out ++ [byte '|'] ++ canonicalHost host) := by
  have hwritten := h.append (toLower host)
  have hsuffix : ∀ s : Bytes, byte '|' ∉ s →
      ((b.append (toLower host)).hasSuffix s ↔ s <:+ toLower host) := by
    intro s hs
    rw [hwritten.hasSuffix_iff hfit, append_assoc, singleton_append, suffix_after_sep hs]
  have htake : ∀ s : Bytes, s <:+ toLower host →
      ((b.append (toLower host)).shrink s.length).Represents size
        (out ++ [byte '|'] ++ (toLower host).take ((toLower host).length - s.length)) := by
    intro s hs
    have hle := hs.length_le
    have := hwritten.shrink hfit s.length
    rwa [length_append, Nat.add_sub_assoc hle, take_length_add_append] at this
  unfold appendCanonicalHost canonicalHost
  simp only [hsuffix (ascii ":80") (by decide), hsuffix (ascii ":443") (by decide)]
  split_ifs with h80 h443
  · exact htake _ h80
  · exact htake _ h443
  · exact hwritten

theorem appendCanonicalHost_overflow (h : b.Represents size out) (host : Bytes)
    (hlong : size < (out ++ toLower host).length) :
    (appendCanonicalHost b host).Represents size (out ++ toLower host) := by
  have hwritten := h.append (toLower host)
  simpa [appendCanonicalHost, hwritten.hasSuffix_of_overflow hlong] using hwritten

end

/-- `writeKey` after any text for the scheme. -/
def writeKeyAfter (s : Bytes) (b : Buf) (ri : RequestInfo) (policy : Option KeyPolicy) : Buf :=
  let b := b.append (s ++ [byte '|'])
  let b := if includeHostKey policy then appendCanonicalHost b ri.host else b
  writeAfterHost b ri policy

def canonicalForm (s : Bytes) (ri : RequestInfo) (policy : Option KeyPolicy) : Bytes :=
  s ++ byte '|' :: (keyHost ri policy ++ byte '|' :: afterHost ri policy)

def hostEnd (s : Bytes) (ri : RequestInfo) : Bytes := s ++ [byte '|'] ++ toLower ri.host

theorem writeKeyAfter_represents (size : Nat) (s : Bytes) (ri : RequestInfo)
    (policy : Option KeyPolicy)
    (hfit : includeHostKey policy → (hostEnd s ri).length ≤ size) :
    (writeKeyAfter s (.make size) ri policy).Represents size (canonicalForm s ri policy) := by
  have hscheme := (Buf.represents_make size).append (s ++ [byte '|'])
  unfold writeKeyAfter canonicalForm keyHost
  by_cases hhost : includeHostKey policy = true
  · have h := appendCanonicalHost_represents hscheme ri.host (hfit hhost)
    simpa [hhost] using writeAfterHost_represents h ri policy
  · simpa [hhost] using writeAfterHost_represents hscheme ri policy

theorem length_canonicalHost_le (host : Bytes) :
    (canonicalHost host).length ≤ (toLower host).length := by
  simp only [canonicalHost]
  split_ifs <;> simp

/-- Written to the stack buffer and, if that is too small, once more to a buffer of the length
counted. -/
def rebuilt (write : Buf → Buf) : Bytes :=
  let b := write (.make 512)
  if b.n ≤ 512 then b.contents else (write (.make b.n)).contents

theorem rebuilt_writeKeyAfter (s : Bytes) (ri : RequestInfo) (policy : Option KeyPolicy) :
    rebuilt (fun b => writeKeyAfter s b ri policy) = canonicalForm s ri policy := by
  unfold rebuilt
  by_cases hfit : includeHostKey policy = true → (hostEnd s ri).length ≤ 512
  · have hstack := writeKeyAfter_represents 512 s ri policy hfit
    have hn := hstack.n_eq
    simp only
    split_ifs with hsmall
    · exact hstack.contents_eq (by omega)
    · have hheap := writeKeyAfter_represents (writeKeyAfter s (.make 512) ri policy).n s ri policy
        fun h => by
          have := hfit h
          omega
      exact hheap.contents_eq (by omega)
  · obtain ⟨hhost, hlong⟩ := Classical.not_imp.1 hfit
    have hstack : (writeKeyAfter s (.make 512) ri policy).Represents 512
        (hostEnd s ri ++ byte '|' :: afterHost ri policy) := by
      have hscheme := (Buf.represents_make 512).append (s ++ [byte '|'])
      have h := appendCanonicalHost_overflow hscheme ri.host (Nat.lt_of_not_le hlong)
      simpa [writeKeyAfter, hhost, hostEnd] using writeAfterHost_represents h ri policy
    have hn := hstack.n_eq
    rw [length_append] at hn
    have hheap := writeKeyAfter_represents (writeKeyAfter s (.make 512) ri policy).n s ri policy
      fun _ => by omega
    simp only
    rw [if_neg (by omega)]
    refine hheap.contents_eq ?_
    have := length_canonicalHost_le ri.host
    simp only [hostEnd, length_append, length_cons] at hn
    simp only [canonicalForm, keyHost, hhost, if_true, length_append, length_cons]
    omega

theorem hashedBytes_eq (ri : RequestInfo) (policy : Option KeyPolicy) :
    hashedBytes ri policy = canonicalKey ri policy :=
  rebuilt_writeKeyAfter (scheme ri.tls) ri policy

/-! ## Which requests share a key -/

def defaultPort (tls : Bool) : Bytes := if tls then ascii ":443" else ascii ":80"

def otherPort (tls : Bool) : Bytes := if tls then ascii ":80" else ascii ":443"

def effectiveHost (tls : Bool) (host : Bytes) : Bytes :=
  let h := toLower host
  if defaultPort tls <:+ h then h.take (h.length - (defaultPort tls).length) else h

/-- What a request asks for, up to the spellings the key is to identify. -/
structure Identity where
  tls : Bool
  host : Bytes
  path : Bytes
  params : Multiset KvPair
  method : Bytes
deriving DecidableEq

def identity (ri : RequestInfo) : Identity where
  tls := ri.tls
  host := effectiveHost ri.tls ri.host
  path := canonicalPath ri.path
  params := parseQuery ri.rawQuery
  method := canonicalMethod ri.method

def LosesPort (ri : RequestInfo) : Prop :=
  ¬ defaultPort ri.tls <:+ toLower ri.host ∧ otherPort ri.tls <:+ toLower ri.host

instance (ri : RequestInfo) : Decidable (LosesPort ri) := by unfold LosesPort; infer_instance

def SameBars (r r' : RequestInfo) : Prop :=
  (canonicalHost r.host).count (byte '|') = (canonicalHost r'.host).count (byte '|') ∧
  (canonicalPath r.path).count (byte '|') = (canonicalPath r'.path).count (byte '|') ∧
  (canonicalQuery r.rawQuery none).count (byte '|') =
    (canonicalQuery r'.rawQuery none).count (byte '|')

instance (r r' : RequestInfo) : Decidable (SameBars r r') := by unfold SameBars; infer_instance

theorem dropPorts_eq (tls : Bool) (h : Bytes) :
    (if defaultPort tls <:+ h then h.take (h.length - (defaultPort tls).length) else h) =
      if ¬ defaultPort tls <:+ h ∧ otherPort tls <:+ h then
        (if ascii ":80" <:+ h then h.take (h.length - 3)
          else if ascii ":443" <:+ h then h.take (h.length - 4) else h) ++ otherPort tls
      else if ascii ":80" <:+ h then h.take (h.length - 3)
      else if ascii ":443" <:+ h then h.take (h.length - 4) else h := by
  have hcut : ∀ {s : Bytes}, s <:+ h → h.take (h.length - s.length) ++ s = h :=
    fun hs => suffix_iff_eq_append.1 hs
  -- no host ends in both ports
  have hboth : ascii ":443" <:+ h → ¬ ascii ":80" <:+ h := by
    intro h443 h80
    rcases suffix_or_suffix_of_suffix h443 h80 with hs | hs
    · exact absurd hs (by decide)
    · exact absurd hs (by decide)
  cases tls with
  | true =>
    simp only [defaultPort, otherPort, if_true]
    by_cases h443 : ascii ":443" <:+ h
    · simp only [h443, hboth h443]
      rfl
    · by_cases h80 : ascii ":80" <:+ h
      · simp only [h443, h80]
        exact (hcut h80).symm
      · simp [h443, h80]
  | false =>
    simp only [defaultPort, otherPort, Bool.false_eq_true]
    by_cases h80 : ascii ":80" <:+ h
    · simp only [h80, if_false]
      rfl
    · by_cases h443 : ascii ":443" <:+ h
      · simp only [h443, h80, if_false]
        exact (hcut h443).symm
      · simp [h443, h80]

theorem effectiveHost_eq (ri : RequestInfo) :
    effectiveHost ri.tls ri.host =
      if LosesPort ri then canonicalHost ri.host ++ otherPort ri.tls
      else canonicalHost ri.host :=
  dropPorts_eq ri.tls (toLower ri.host)

theorem tls_eq_of_scheme {t t' : Bool} {a b : Bytes}
    (h : scheme t ++ byte '|' :: a = scheme t' ++ byte '|' :: b) : t = t' ∧ a = b := by
  have hbars : (scheme t).count (byte '|') = (scheme t').count (byte '|') := by
    cases t <;> cases t' <;> decide
  obtain ⟨hs, hab⟩ := append_sep_inj h hbars
  refine ⟨?_, hab⟩
  cases t <;> cases t' <;> first | rfl | exact absurd hs (by decide)

theorem losesPort_iff {r r' : RequestInfo} {a a' : Bytes} (htls : r.tls = r'.tls)
    (hhost : effectiveHost r.tls r.host = effectiveHost r'.tls r'.host)
    (h : canonicalHost r.host ++ byte '|' :: a = canonicalHost r'.host ++ byte '|' :: a') :
    (LosesPort r ↔ LosesPort r') ∧ canonicalHost r.host = canonicalHost r'.host := by
  have hport : ∀ (t : Bool) (c x y : Bytes),
      c ++ byte '|' :: x ≠ c ++ otherPort t ++ byte '|' :: y := by
    intro t c x y heq
    rw [append_assoc, append_right_inj] at heq
    cases t <;> exact absurd (cons.inj heq).1 (by decide)
  rw [effectiveHost_eq, effectiveHost_eq] at hhost
  by_cases hl : LosesPort r <;> by_cases hl' : LosesPort r' <;>
    simp only [hl, hl', if_true, if_false] at hhost
  · rw [htls, append_left_inj] at hhost
    exact ⟨by simp [hl, hl'], hhost⟩
  · rw [← hhost] at h
    exact absurd h (hport _ _ _ _)
  · rw [hhost] at h
    exact absurd h.symm (hport _ _ _ _)
  · exact ⟨by simp [hl, hl'], hhost⟩

/-- Equal canonical queries have the same parameters exactly when they come from equally many empty
segments. -/
theorem params_eq_iff {raw raw' : Bytes}
    (h : canonicalQuery raw none = canonicalQuery raw' none) :
    (parseQuery raw : Multiset KvPair) = parseQuery raw' ↔
      bareSegments raw = bareSegments raw' := by
  have hraw := Multiset.coe_eq_coe.2 (parseQuery_canonicalQuery raw)
  have hraw' := Multiset.coe_eq_coe.2 (parseQuery_canonicalQuery raw')
  rw [← h, hraw, ← Multiset.coe_add, ← Multiset.coe_add] at hraw'
  constructor
  · intro hp
    rw [hp] at hraw'
    simpa using (Multiset.coe_eq_coe.1 hraw').length_eq
  · intro hb
    rwa [hb, Multiset.add_left_inj] at hraw'

/-- Two requests with one key ask for the same exactly when the fields of their keys have equally
many bars, both or neither had the other scheme's port taken off, and equally many empty segments
were written out. -/
theorem same_key_same_identity_iff (r r' : RequestInfo)
    (h : hashedBytes r none = hashedBytes r' none) :
    identity r = identity r' ↔
      SameBars r r' ∧ (LosesPort r ↔ LosesPort r') ∧
        bareSegments r.rawQuery = bareSegments r'.rawQuery := by
  rw [hashedBytes_eq, hashedBytes_eq] at h
  obtain ⟨htls, h⟩ := tls_eq_of_scheme h
  have hid : identity r = identity r' ↔
      r.tls = r'.tls ∧ effectiveHost r.tls r.host = effectiveHost r'.tls r'.host ∧
      canonicalPath r.path = canonicalPath r'.path ∧
      (parseQuery r.rawQuery : Multiset KvPair) = parseQuery r'.rawQuery ∧
      canonicalMethod r.method = canonicalMethod r'.method := by
    simp [identity]
  rw [hid]
  constructor
  · rintro ⟨-, hhost, hpath, hparams, hmethod⟩
    obtain ⟨hport, hcanon⟩ := losesPort_iff htls hhost h
    have hquery : canonicalQuery r.rawQuery none = canonicalQuery r'.rawQuery none := by
      have := (append_sep_inj h (congrArg _ hcanon)).2
      have := (append_sep_inj this (congrArg _ hpath)).2
      rw [hmethod] at this
      exact append_left_inj _ |>.1 this
    refine ⟨⟨?_, ?_, ?_⟩, hport, (params_eq_iff hquery).1 hparams⟩
    · rw [hcanon]
    · rw [hpath]
    · rw [hquery]
  · rintro ⟨⟨hbhost, hbpath, hbquery⟩, hport, hbare⟩
    obtain ⟨hcanon, h⟩ := append_sep_inj h hbhost
    obtain ⟨hpath, h⟩ := append_sep_inj h hbpath
    obtain ⟨hquery, hmethod⟩ := append_sep_inj h hbquery
    refine ⟨htls, ?_, hpath, (params_eq_iff hquery).2 hbare, hmethod⟩
    have hcanon : canonicalHost r.host = canonicalHost r'.host := hcanon
    rw [effectiveHost_eq, effectiveHost_eq]
    simp [hport, hcanon, htls]

/-- A bar in the path and a bar in the query: one key for two pages. -/
theorem bar_moves_between_path_and_query :
    let inPath : RequestInfo :=
      ⟨ascii "GET", ascii "/x|y=1?z=2", ascii "h", ascii "/x|y=1", false⟩
    let inQuery : RequestInfo :=
      ⟨ascii "GET", ascii "/x?y=1|z=2", ascii "h", ascii "/x", false⟩
    hashedBytes inPath none = hashedBytes inQuery none ∧
      identity inPath ≠ identity inQuery ∧ inPath.path ≠ inQuery.path := by
  simp only [hashedBytes_eq]
  decide

/-- Two spellings of one request. -/
theorem respelled_request_same_identity :
    identity ⟨ascii "HEAD", ascii "/a//b?y=2&x=1", ascii "Ex.org:80", ascii "/a//b", false⟩ =
      identity ⟨ascii "GET", ascii "/a/b?x=1&y=2", ascii "ex.org", ascii "/a/b", false⟩ :=
  (same_key_same_identity_iff _ _ (by simp only [hashedBytes_eq]; decide)).2 (by decide)

end Bouine.Cache
