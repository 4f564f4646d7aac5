import Bouine.Server.Parser
import Bouine.Cache.Stored

/-! # Captured requests

A background fetch outlives the request that triggers it, so that is captured first: from a
`fasthttp` context (`requestInfoFromCtx`) or the request of the fast path (`requestInfoFromRaw`),
both in `internal/cache/handler.go`.
-/

namespace Bouine.Cache

open Lib Header Server

def Field.cookie : Bytes := ascii "Cookie"

/-- What both captures have: canonical names, and one line of cookies. -/
structure Captures (m : Map) : Prop where
  canonical : ∀ e ∈ m.entries, isCanonical e.name = true
  oneCookie : (valuesOf Field.cookie m.entries).length ≤ 1

/-- A request in a `fasthttp` context, with canonical names and all cookies as one line. -/
structure LiveRequest extends RequestInfo where
  header : Raw
  canonical : ∀ l ∈ header.lines, isCanonical l.name = true
  oneCookie : (header.peekAll Field.cookie).length ≤ 1

def requestInfoFromCtx (ctx : LiveRequest) : CapturedRequest :=
  { ctx.toRequestInfo with header := headerFromCtx ctx.header }

/-- `CookieValue`: the cookie lines that are not empty, as one. -/
def cookieValue (req : RawRequest) : Bytes :=
  List.intercalate (ascii "; ")
    ((req.headers.filter fun l => equalFold l.key Field.cookie && l.value ≠ []).map RawHeader.value)

def remapHeadToGet (method : Bytes) : Bytes := if method = ascii "HEAD" then ascii "GET" else method

/-- The lines that are not cookies, each replacing the one before of its name. -/
def setLines (ls : List RawHeader) : Map :=
  (ls.filter fun l => !equalFold l.key Field.cookie).foldl (fun m l => m.set l.key l.value) Map.empty

def requestInfoFromRaw (tls : Bool) (req : RawRequest) : CapturedRequest where
  method := remapHeadToGet req.method
  uri := if req.query ≠ [] then req.path ++ byte '?' :: req.query else req.path
  host := req.host
  path := req.path
  tls
  header :=
    let m := setLines req.headers
    if cookieValue req ≠ [] then m.set Field.cookie (cookieValue req) else m

/-! ## What captures look like -/

theorem captures_set {m : Map} (hm : Captures m) (key value : Bytes) : Captures (m.set key value) :=
  ⟨Map.canonical_set hm.canonical key value, (Map.length_valuesOf_set_iff value key m).2 hm.oneCookie⟩

theorem captures_empty : Captures Map.empty :=
  ⟨by simp [Map.empty], by simp [Map.empty, valuesOf]⟩

theorem captures_setLines (ls : List RawHeader) : Captures (setLines ls) := by
  unfold setLines
  generalize (ls.filter fun l => !equalFold l.key Field.cookie) = ls
  exact List.foldlRecOn ls _ captures_empty fun _ hm l _ => captures_set hm l.key l.value

theorem captures_requestInfoFromRaw (tls : Bool) (req : RawRequest) :
    Captures (requestInfoFromRaw tls req).header := by
  unfold requestInfoFromRaw
  dsimp only
  split_ifs
  · exact captures_set (captures_setLines req.headers) _ _
  · exact captures_setLines req.headers

/-- The lines a capture of the fast path has: the last one, and all cookies as one. -/
def fastLines (req : RawRequest) (name : Bytes) : List Bytes :=
  if name = Field.cookie ∧ cookieValue req ≠ [] then [cookieValue req]
  else (((req.headers.filter fun l => canonicalHeaderKey l.key = name &&
    !equalFold l.key Field.cookie).map RawHeader.value).getLast?).toList

theorem valuesOf_requestInfoFromRaw (tls : Bool) (req : RawRequest) (name : Bytes) :
    valuesOf name (requestInfoFromRaw tls req).header.entries = fastLines req name := by
  have hkey : canonicalHeaderKey Field.cookie = Field.cookie := by decide
  have hlines : valuesOf name (setLines req.headers).entries =
      (((req.headers.filter fun l => canonicalHeaderKey l.key = name &&
        !equalFold l.key Field.cookie).map RawHeader.value).getLast?).toList := by
    rw [setLines, Map.valuesOf_foldl_set, List.filter_filter]
    cases ((req.headers.filter fun l => canonicalHeaderKey l.key = name &&
      !equalFold l.key Field.cookie).map RawHeader.value).getLast? <;> rfl
  unfold requestInfoFromRaw fastLines
  dsimp only
  by_cases hcookie : cookieValue req = []
  · simp [hcookie, hlines]
  · rw [if_pos hcookie]
    by_cases hname : name = Field.cookie
    · have hset := Map.valuesOf_set (setLines req.headers) (cookieValue req) Field.cookie
      rw [hkey, List.drop_eq_nil_of_le (captures_setLines req.headers).oneCookie] at hset
      rw [if_pos ⟨hname, hcookie⟩, hname, hset]
    · rw [if_neg fun hc => hname hc.1, Map.valuesOf_set_of_ne _ _ (hkey ▸ hname), hlines]

theorem valuesOf_headerFromCtx (name : Bytes) (h : Raw) :
    valuesOf name (headerFromCtx h).entries = h.peekAll name :=
  Map.valuesOf_sortEntries name ⟨h.lines⟩

theorem captures_requestInfoFromCtx (ctx : LiveRequest) :
    Captures (requestInfoFromCtx ctx).header where
  canonical e he := ctx.canonical e ((List.mem_insertionSort Map.nameLE).1 he)
  oneCookie := by
    show (valuesOf Field.cookie (headerFromCtx ctx.header).entries).length ≤ 1
    rw [valuesOf_headerFromCtx]
    exact ctx.oneCookie

end Bouine.Cache
