import Bouine.Lib.Bytes

/-! # The HTTP/1.1 request parser

The parser of the fast path (`internal/server/h1parser/parser.go`), from the bytes of a request head
to a `RawRequest` with its scan flags; and `rebuildRequestHead`, which writes the head that is
replayed to fasthttp.
-/

namespace Bouine.Server

open Lib List

def cr : UInt8 := byte '\r'

def lf : UInt8 := byte '\n'

def crlf : Bytes := [cr, lf]

/-! ## Requests -/

structure RawHeader where
  key : Bytes
  value : Bytes
deriving DecidableEq

/-- The bits of `RequestScanFlags`. -/
structure ScanFlags where
  hasCL : Bool := false
  hasTE : Bool := false
  duplicateCL : Bool := false
  pragmaNoCache : Bool := false
  hostSeen : Bool := false
  hasConnection : Bool := false
  disqualifyFastPath : Bool := false
deriving DecidableEq

def ScanFlags.union (f g : ScanFlags) : ScanFlags where
  hasCL := f.hasCL || g.hasCL
  hasTE := f.hasTE || g.hasTE
  duplicateCL := f.duplicateCL || g.duplicateCL
  pragmaNoCache := f.pragmaNoCache || g.pragmaNoCache
  hostSeen := f.hostSeen || g.hostSeen
  hasConnection := f.hasConnection || g.hasConnection
  disqualifyFastPath := f.disqualifyFastPath || g.disqualifyFastPath

structure RawRequest where
  method : Bytes
  path : Bytes
  query : Bytes
  host : Bytes
  httpVersion : Bytes
  headers : List RawHeader
  scanFlags : ScanFlags
  cacheControlRaw : Bytes
  connectionClose : Bool
deriving DecidableEq

def maxRawHeaders : Nat := 100

def conditionalHeaders : List Bytes :=
  [ascii "If-None-Match", ascii "If-Modified-Since", ascii "If-Range",
    ascii "If-Unmodified-Since", ascii "If-Match", ascii "Range"]

def scanFlagForHeader (key value : Bytes) : ScanFlags :=
  if equalFold key (ascii "Host") then { hostSeen := true }
  else if conditionalHeaders.any (equalFold key) then { disqualifyFastPath := true }
  else if equalFold key (ascii "Transfer-Encoding") then
    { hasTE := true, disqualifyFastPath := true }
  else if equalFold key (ascii "Content-Length") then
    { hasCL := true, disqualifyFastPath := true }
  else if equalFold key (ascii "Pragma") then
    if equalFold value (ascii "no-cache") then
      { pragmaNoCache := true, disqualifyFastPath := true }
    else {}
  else if equalFold key (ascii "Connection") then { hasConnection := true }
  else {}

/-! ## Parsing -/

def findHeaderEnd : Bytes → Option Nat
  | [] => none
  | c :: s =>
    if (crlf ++ crlf).isPrefixOf (c :: s) then some 4 else (findHeaderEnd s).map (· + 1)

/-- The lines of a buffer that are ended by `\r\n`, without it. -/
def crlfLines : Bytes → List Bytes
  | [] => []
  | [_] => []
  | c :: d :: s =>
    if c = cr ∧ d = lf then [] :: crlfLines s
    else
      match crlfLines (d :: s) with
      | [] => []
      | l :: ls => (c :: l) :: ls

def splitHeaderTokens (val : Bytes) : List Bytes :=
  ((pieces (byte ',') val).map trimOWS).filter (· ≠ [])

def connectionCloseValue (val : Bytes) : Bool :=
  (splitHeaderTokens val).any (equalFold · (ascii "close"))

/-- `METHOD SP PATH SP VERSION`. The first carriage return ends the line; the version runs to it,
spaces included. -/
def parseRequestLine (buf : Bytes) : Option RawRequest :=
  let line := buf.takeWhile (· != cr)
  if ((buf.dropWhile (· != cr)).drop 1).head? ≠ some lf then none
  else if byte ' ' ∉ line then none
  else
    let (method, rest) := cutAt (byte ' ') line
    if byte ' ' ∉ rest then none
    else
      let (fullPath, version) := cutAt (byte ' ') rest
      let (path, query) := cutAt (byte '?') fullPath
      some
        { method := method, path := path, query := query, host := [], httpVersion := version
          headers := [], scanFlags := {}, cacheControlRaw := [], connectionClose := false }

def appendHeader (req : RawRequest) (line : Bytes) : RawRequest :=
  if byte ':' ∉ line then req
  else
    let key := (cutAt (byte ':') line).1
    let value := (cutAt (byte ':') line).2.dropWhile isOWS
    let flags := scanFlagForHeader key value
    let hostSeen := req.scanFlags.hostSeen
    let flags := { flags with duplicateCL := flags.hasCL && req.scanFlags.hasCL }
    let req :=
      { req with
        headers := req.headers ++ [⟨key, value⟩]
        scanFlags := req.scanFlags.union flags }
    if flags.hostSeen && !hostSeen then { req with host := value }
    else if equalFold key (ascii "Cache-Control") then { req with cacheControlRaw := value }
    else if flags.hasConnection && !req.connectionClose then
      { req with connectionClose := connectionCloseValue value }
    else req

/-- The loop of `parseHeaders`, up to an empty line or the last complete one; `none` on a folded
line or too many headers. -/
def parseHeaderLines : List Bytes → RawRequest → Option RawRequest
  | [], req => some req
  | line :: lines, req =>
    if line = [] then some req
    else if (line.head?.map isOWS).getD false then none
    else if maxRawHeaders ≤ req.headers.length then none
    else parseHeaderLines lines (appendHeader req line)

def headerLines (buf : Bytes) : List Bytes := (crlfLines buf).tail

def smugglingDetected (req : RawRequest) : Bool :=
  (req.scanFlags.hasCL && req.scanFlags.hasTE) || req.scanFlags.duplicateCL

inductive Parsed where
  | error
  | smuggling
  | request (req : RawRequest) (excess : Bytes)
deriving DecidableEq

/-- `headerEnd` is missing when the buffer ended without a terminator. -/
def parseBuffer (buf : Bytes) (headerEnd : Option Nat) : Parsed :=
  match parseRequestLine buf with
  | none => .error
  | some req =>
    match parseHeaderLines (headerLines buf) req with
    | none => .error
    | some req =>
      if smugglingDetected req then .smuggling
      else
        match headerEnd with
        | some i => .request req (buf.drop i)
        | none => .request req []

def rebuildRequestHead (req : RawRequest) (excess : Bytes) : Bytes :=
  req.method ++ ascii " " ++ req.path ++
    (if req.query = [] then [] else byte '?' :: req.query) ++ ascii " " ++ req.httpVersion ++
    crlf ++ ascii "Host: " ++ req.host ++ crlf ++
    (req.headers.filter fun h => !equalFold h.key (ascii "Host")).flatMap
      (fun h => h.key ++ ascii ": " ++ h.value ++ crlf) ++
    crlf ++ excess

/-! ## Accepted buffers -/

/-- Of an accepted buffer the lines parse, and the excess starts at the end of the head. -/
theorem parseBuffer_request {buf excess : Bytes} {headerEnd : Option Nat} {req : RawRequest}
    (h : parseBuffer buf headerEnd = .request req excess) :
    (∃ req₀, parseRequestLine buf = some req₀ ∧
      parseHeaderLines (headerLines buf) req₀ = some req) ∧
    excess = (headerEnd.map buf.drop).getD [] := by
  unfold parseBuffer at h
  split at h
  · cases h
  · rename_i req₀ hline
    split at h
    · cases h
    · rename_i req₁ hheaders
      split_ifs at h
      cases headerEnd <;>
        · obtain ⟨rfl, rfl⟩ := Parsed.request.inj h
          exact ⟨⟨req₀, hline, hheaders⟩, rfl⟩

theorem parseBuffer_excess {buf excess : Bytes} {headerEnd : Option Nat} {req : RawRequest}
    (h : parseBuffer buf headerEnd = .request req excess) :
    excess = (headerEnd.map buf.drop).getD [] :=
  (parseBuffer_request h).2

/-! ## The end of the head -/

theorem findHeaderEnd_bounds {buf : Bytes} {i : Nat} (h : findHeaderEnd buf = some i) :
    4 ≤ i ∧ i ≤ buf.length := by
  induction buf generalizing i with
  | nil => simp [findHeaderEnd] at h
  | cons c buf ih =>
    rw [findHeaderEnd] at h
    split_ifs at h with hterm
    · cases h
      have hlead := isPrefixOf_iff_prefix.1 hterm
      exact ⟨le_refl 4, hlead.length_le⟩
    · obtain ⟨j, hj, rfl⟩ := Option.map_eq_some_iff.1 h
      have := ih hj
      simp only [length_cons]
      omega

theorem findHeaderEnd_append {buf : Bytes} {i : Nat} (h : findHeaderEnd buf = some i)
    (rest : Bytes) : findHeaderEnd (buf ++ rest) = some i := by
  induction buf generalizing i with
  | nil => simp [findHeaderEnd] at h
  | cons c buf ih =>
    have hlong := (findHeaderEnd_bounds h)
    have hiff : (crlf ++ crlf).isPrefixOf (c :: (buf ++ rest)) =
        (crlf ++ crlf).isPrefixOf (c :: buf) := by
      rw [Bool.eq_iff_iff, isPrefixOf_iff_prefix, isPrefixOf_iff_prefix]
      constructor
      · intro hpre
        have hlen : (crlf ++ crlf).length ≤ (c :: buf).length := by
          show 4 ≤ _
          omega
        exact prefix_of_prefix_length_le hpre (prefix_append (c :: buf) rest) hlen
      · intro hpre
        exact hpre.trans (prefix_append (c :: buf) rest)
    rw [findHeaderEnd] at h
    rw [cons_append, findHeaderEnd, hiff]
    split_ifs at h ⊢ with hterm
    · exact h
    · obtain ⟨j, hj, rfl⟩ := Option.map_eq_some_iff.1 h
      rw [ih hj]
      rfl

theorem rebuildRequestHead_append (req : RawRequest) (excess : Bytes) :
    rebuildRequestHead req excess = rebuildRequestHead req [] ++ excess := by
  simp [rebuildRequestHead]

theorem length_rebuildRequestHead_pos (req : RawRequest) (excess : Bytes) :
    0 < (rebuildRequestHead req excess).length := by
  simp only [rebuildRequestHead, crlf, length_append, length_cons]
  omega

end Bouine.Server
