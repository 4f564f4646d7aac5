import Bouine.Cache.FastPath

/-! # Three builders of one key

`BuildKey` has two companions: `BuildKeyFast` (`internal/cache/key.go`) reads the byte slices of a
fasthttp context, `buildKeyFromRaw` (`internal/cache/fastpath.go`) a request of the fast path. Each
fills a buffer of its own and starts over when it overflows. All three hash the canonical form.
-/

namespace Bouine.Cache

open Lib Server

/-! ## The code -/

def appendCanonicalHostBytes (b : Buf) (host : Bytes) : Buf := appendCanonicalHost b host

def appendCanonicalPathBytes (b : Buf) (p : Bytes) : Buf := appendCanonicalPathString b p

def extractRawQueryBytes (uri : Bytes) : Bytes := extractRawQuery uri

/-- The body of `BuildKeyFast`, which does not write an empty query. -/
def writeKeyFast (b : Buf) (method uri host path : Bytes) (tls : Bool)
    (policy : Option KeyPolicy) : Buf :=
  let b := b.append (if tls then ascii "https|" else ascii "http|")
  let b := if includeHostKey policy then appendCanonicalHostBytes b host else b
  let b := b.appendByte (byte '|')
  let b := appendCanonicalPathBytes b path
  let b := b.appendByte (byte '|')
  let rawQuery := extractRawQueryBytes uri
  let b := if 0 < rawQuery.length then appendCanonicalQueryString b rawQuery policy else b
  let b := b.appendByte (byte '|')
  b.append (if method = ascii "HEAD" then ascii "GET" else method)

def fastBytes (method uri host path : Bytes) (tls : Bool) (policy : Option KeyPolicy) : Bytes :=
  rebuilt fun b => writeKeyFast b method uri host path tls policy

def buildKeyFast {Key : Type*} (sum128 : Bytes → Key) (method uri host path : Bytes) (tls : Bool)
    (policy : Option KeyPolicy) : Key :=
  sum128 (fastBytes method uri host path tls policy)

def rawScheme (s : Bytes) : Bytes := if s = [] then ascii "http" else s

/-- The body of `buildKeyFromRaw`; `s` is the request's `Scheme`. -/
def writeKeyFromRaw (b : Buf) (s : Bytes) (req : RawRequest) (policy : Option KeyPolicy) : Buf :=
  let b := b.append (rawScheme s)
  let b := b.appendByte (byte '|')
  let b := if includeHostKey policy then appendCanonicalHost b req.host else b
  let b := b.appendByte (byte '|')
  let b := appendCanonicalPathString b req.path
  let b := b.appendByte (byte '|')
  let b := appendCanonicalQueryString b req.query policy
  let b := b.appendByte (byte '|')
  let method := if req.method = ascii "HEAD" then ascii "GET" else req.method
  b.append method

def rawBytes (s : Bytes) (req : RawRequest) (policy : Option KeyPolicy) : Bytes :=
  rebuilt fun b => writeKeyFromRaw b s req policy

def buildKeyFromRaw {Key : Type*} (sum128 : Bytes → Key) (s : Bytes) (req : RawRequest)
    (policy : Option KeyPolicy) : Key :=
  sum128 (rawBytes s req policy)

/-! ## One canonical form -/

theorem append_concat (b : Buf) (s : Bytes) (c : UInt8) :
    b.append (s ++ [c]) = (b.append s).appendByte c :=
  List.foldl_concat _ _ _ _

theorem writeKeyFast_eq (b : Buf) (ri : RequestInfo) (policy : Option KeyPolicy) :
    writeKeyFast b ri.method ri.uri ri.host ri.path ri.tls policy =
      writeKeyAfter (scheme ri.tls) b ri policy := by
  have hscheme : (if ri.tls then ascii "https|" else ascii "http|") = scheme ri.tls ++ [byte '|'] := by
    cases ri.tls <;> rfl
  have hquery (b : Buf) :
      (if 0 < (extractRawQueryBytes ri.uri).length then
        appendCanonicalQueryString b (extractRawQueryBytes ri.uri) policy else b) =
      appendCanonicalQueryString b ri.rawQuery policy := by
    show (if 0 < ri.rawQuery.length then appendCanonicalQueryString b ri.rawQuery policy else b) = _
    split_ifs with hlen
    · rfl
    · rw [List.length_pos_iff, not_not] at hlen
      rw [hlen]
      exact (if_pos rfl).symm
  simp only [writeKeyFast, hscheme, hquery]
  rfl

theorem fastBytes_eq (ri : RequestInfo) (policy : Option KeyPolicy) :
    fastBytes ri.method ri.uri ri.host ri.path ri.tls policy = canonicalKey ri policy := by
  rw [fastBytes]
  simp only [writeKeyFast_eq]
  exact rebuilt_writeKeyAfter _ ri policy

theorem rawQuery_rawInfo (tls : Bool) (req : RawRequest) : (rawInfo tls req).rawQuery = req.query := by
  simp [rawInfo, RequestInfo.rawQuery, extractRawQuery, cutAt]

theorem writeKeyFromRaw_eq (b : Buf) (s : Bytes) (tls : Bool) (req : RawRequest)
    (policy : Option KeyPolicy) :
    writeKeyFromRaw b s req policy = writeKeyAfter (rawScheme s) b (rawInfo tls req) policy := by
  simp only [writeKeyAfter, append_concat]
  rfl

theorem rawBytes_eq (s : Bytes) (tls : Bool) (req : RawRequest) (policy : Option KeyPolicy) :
    rawBytes s req policy = canonicalForm (rawScheme s) (rawInfo tls req) policy := by
  rw [rawBytes]
  simp only [writeKeyFromRaw_eq _ s tls]
  exact rebuilt_writeKeyAfter _ _ policy

theorem buildKeyFast_eq {Key : Type*} (sum128 : Bytes → Key) (ri : RequestInfo)
    (policy : Option KeyPolicy) :
    buildKeyFast sum128 ri.method ri.uri ri.host ri.path ri.tls policy = buildKey sum128 ri policy :=
  congrArg sum128 ((fastBytes_eq ri policy).trans (hashedBytes_eq ri policy).symm)

theorem rawScheme_scheme (tls : Bool) : rawScheme (scheme tls) = scheme tls := by
  cases tls <;> rfl

theorem buildKeyFromRaw_eq {Key : Type*} (sum128 : Bytes → Key) (tls : Bool) (req : RawRequest)
    (policy : Option KeyPolicy) :
    buildKeyFromRaw sum128 (scheme tls) req policy = buildKey sum128 (rawInfo tls req) policy := by
  have hbytes : rawBytes (scheme tls) req policy = hashedBytes (rawInfo tls req) policy := by
    rw [rawBytes_eq _ tls, rawScheme_scheme, hashedBytes_eq]
    rfl
  exact congrArg sum128 hbytes

/-- The builders hash the canonical form of a request of any length. The listener's scheme may be
any text, or be left out. -/
theorem key_builders_hash_one_form (ri : RequestInfo) (other : RawRequest) (s : Bytes)
    (policy : Option KeyPolicy) :
    let req : RawRequest :=
      { other with method := ri.method, host := ri.host, path := ri.path, query := ri.rawQuery }
    hashedBytes ri policy = canonicalKey ri policy ∧
      fastBytes ri.method ri.uri ri.host ri.path ri.tls policy = canonicalKey ri policy ∧
      rawBytes (scheme ri.tls) req policy = canonicalKey ri policy ∧
      rawBytes s req policy = canonicalForm (rawScheme s) ri policy := by
  intro req
  have hraw (s : Bytes) : rawBytes s req policy = canonicalForm (rawScheme s) ri policy := by
    rw [rawBytes_eq s ri.tls]
    rw [canonicalForm, canonicalForm, afterHost, afterHost, rawQuery_rawInfo]
    rfl
  refine ⟨hashedBytes_eq ri policy, fastBytes_eq ri policy, ?_, hraw s⟩
  rw [hraw, rawScheme_scheme]
  rfl

end Bouine.Cache
