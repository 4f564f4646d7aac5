import Mathlib.Data.List.Destutter
import Bouine.Cache.Cacheable

/-! # What a stored response varies on

The Vary list of a stored response is what the origin sent and what the route keys on by itself: the
fields of `include_headers` and the cookie fields (`effectiveVary` in `internal/cache/stream.go`).
The list and the hash of the values it selects are stored together (`BuildVaryKey` in
`internal/cache/key.go`).
-/

namespace Bouine.Cache

open Lib Header

/-- A key policy with the fields the route adds to every Vary list. -/
structure RoutePolicy extends KeyPolicy where
  includeHeaders : List Bytes
deriving DecidableEq

def keyPolicy (policy : Option RoutePolicy) : Option KeyPolicy := policy.map RoutePolicy.toKeyPolicy

namespace RoutePolicy

def fields (p : RoutePolicy) : List Bytes :=
  p.includeHeaders ++ (if p.cookiePresence ≠ [] then [cookiePresenceField] else []) ++
    (if p.cookieValues ≠ [] then [cookieValuesField] else [])

def keysVariants (p : RoutePolicy) : Bool :=
  p.includeHeaders != [] || p.cookiePresence != [] || p.cookieValues != []

end RoutePolicy

def unionText (fields : List Bytes) : Bytes :=
  List.intercalate comma ((sortStrings fields).destutter (· ≠ ·))

/-- `configDerivedVary`. -/
def derivedVary : Option RoutePolicy → Bytes
  | none => []
  | some p => unionText p.fields

section

variable {W : Type*} (lib : Stdlib W)

def declaredFields (joined : Bytes) : List Bytes :=
  if joined = [] then []
  else (splitOn (byte ',') joined).map fun f => trimSpace (toLowerText lib.lowerRune f)

def effectiveVary (h : Map) (policy : Option RoutePolicy) : Bytes :=
  let joined := h.getAll Field.vary
  match policy with
  | none => joined
  | some p => if p.keysVariants then unionText (declaredFields lib joined ++ p.fields) else joined

/-! ## The stored assertion -/

def mapView (m : Map) : HeaderMap := ⟨m.get, m.cookieAll⟩

def mapVarySrc (m : Map) : VarySource := ⟨mapView m, mapView m⟩

def isListValuedVaryField (f : Bytes) : Bool :=
  [ascii "accept-language", ascii "accept-encoding", ascii "accept", ascii "accept-charset"].contains f

def normaliseListHeader (v : Bytes) : Bytes :=
  if byte ',' ∉ v then trimSpace v
  else List.intercalate [byte ','] (sortStrings ((splitOn (byte ',') v).map trimSpace))

/-- `varyAssertionValue`: as for the variant key, but fields that are no lists stay as is. -/
def varyAssertionValue (field value : Bytes) (policy : Option KeyPolicy) : Bytes :=
  if field = ascii "accept-encoding" ∧ verbatimEncoding policy = false then
    encodingBucket lib value
  else if field = ascii "accept-language" ∧ (langBucket lib value).isSome then
    toLowerText lib.lowerRune ((langBucket lib value).getD [])
  else if isListValuedVaryField field then normaliseListHeader value
  else value

def assertedValue (policy : Option KeyPolicy) (req : HeaderMap) (f : Bytes) : Bytes :=
  match policy with
  | some p =>
    if f = cookieValuesField ∧ hasCookieValues policy then cookieValuesValue p req.cookieAll
    else if f = cookiePresenceField ∧ hasCookiePresence policy then
      cookiePresenceValue p req.cookieAll
    else varyAssertionValue lib f (req.get f) policy
  | none => varyAssertionValue lib f (req.get f) policy

/-- What `buildVaryKeyInto` writes. The fields are sorted as they are spelled. -/
def assertionText (vary : Bytes) (req : HeaderMap) (policy : Option KeyPolicy) : Bytes :=
  (((sortStrings (splitOn (byte ',') vary)).map fun f => trimSpace (toLowerText lib.lowerRune f)).filter
    (!shouldExcludeHeader policy ·)).flatMap fun f => fieldText f (assertedValue lib policy req f)

/-- `strconv.FormatUint` to the base 16. -/
def formatHex (n : UInt64) : Bytes := (Nat.toDigits 16 n.toNat).map byte

def buildVaryKey (sum64 : Bytes → UInt64) (vary : Bytes) (reqHeader : Map)
    (policy : Option KeyPolicy) : Bytes :=
  if vary = [] ∨ vary = ascii "*" then vary
  else formatHex (sum64 (assertionText lib vary (mapView reqHeader) policy))

theorem buildVaryKey_eq_nil_iff (sum64 : Bytes → UInt64) (vary : Bytes) (reqHeader : Map)
    (policy : Option KeyPolicy) : buildVaryKey lib sum64 vary reqHeader policy = [] ↔ vary = [] := by
  unfold buildVaryKey
  split_ifs with h
  · rfl
  · have hpos : 0 < (Nat.toDigits 16 (sum64 (assertionText lib vary (mapView reqHeader)
        policy)).toNat).length := Nat.length_toDigits_pos
    have hhex : formatHex (sum64 (assertionText lib vary (mapView reqHeader) policy)) ≠ [] := by
      intro hnil
      rw [formatHex, List.map_eq_nil_iff] at hnil
      rw [hnil] at hpos
      exact absurd hpos (by simp)
    exact iff_of_false hhex fun hv => h (.inl hv)

end

end Bouine.Cache
