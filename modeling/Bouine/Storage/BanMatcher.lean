import Bouine.Lib.RegexpLiteral

/-! # The compiled view of the bans

`compileBanSnapshot` sorts the bans by the shape of their pattern into maps, tables of prefixes and
a list of predicates, so that most lookups need no regular expression. The shape is found by a
scanner of its own, which is compared here with what `regexp` makes of the pattern.

Times are nanoseconds since the Unix epoch.
-/

namespace Bouine.Storage

open Lib Lib.Regexp

/-- `time.Time{}`, the first of January of the year one. -/
def zeroTime : Int := -62135596800000000000

def isZero (t : Int) : Bool := t == zeroTime

/-- What a ban looks at in an object: `StoredAt`, `X-Bouine-Host`, `X-Bouine-Path` and
`SurrogateKeys`. -/
structure BanObject where
  storedAt : Int
  host : Bytes
  path : Bytes
  surrogateKeys : List Bytes
deriving DecidableEq

structure BanExpr where
  createdAt : Int
  hostRegex : Bytes
  pathRegex : Bytes
  surrogateKey : Bytes
deriving DecidableEq

/-- The fields of an expression that make it the same ban as another. -/
structure BanPattern where
  hostRegex : Bytes
  pathRegex : Bytes
  surrogateKey : Bytes
deriving DecidableEq

def patternOf (expr : BanExpr) : BanPattern :=
  ⟨expr.hostRegex, expr.pathRegex, expr.surrogateKey⟩

/-! ## Predicates -/

def regexpMetachars : Bytes := ascii "\\.+*?()|[]\x7b\x7d^$"

def isBanLiteral (pattern : Bytes) : Bool := !pattern.any (· ∈ regexpMetachars)

def compileBanPattern (t : Tables) (pattern : Bytes) : Option (Option Re × Bytes) :=
  if pattern = [] then some (none, [])
  else if isBanLiteral pattern then some (none, pattern)
  else (compile t pattern).map (some ·, [])

/-- A compiled expression: what the closure of `compileBanPredicate` has captured. -/
structure BanPredicate (t : Tables) where
  expr : BanExpr
  hostRE : Option Re
  hostLit : Bytes
  pathRE : Option Re
  pathLit : Bytes
  host_compiled : compileBanPattern t expr.hostRegex = some (hostRE, hostLit)
  path_compiled : compileBanPattern t expr.pathRegex = some (pathRE, pathLit)

def compileBanPredicate (t : Tables) (expr : BanExpr) : Option (BanPredicate t) :=
  match hhost : compileBanPattern t expr.hostRegex with
  | none => none
  | some (hostRE, hostLit) =>
    match hpath : compileBanPattern t expr.pathRegex with
    | none => none
    | some (pathRE, pathLit) => some ⟨expr, hostRE, hostLit, pathRE, pathLit, hhost, hpath⟩

def hasSurrogateKey (keys : List Bytes) (key : Bytes) : Bool := key ∈ keys

def BanPredicate.holds {t : Tables} (p : BanPredicate t) (obj : BanObject) : Bool :=
  if !isZero p.expr.createdAt ∧ p.expr.createdAt < obj.storedAt then false
  else if p.hostRE.any fun re => !re.matchString obj.host then false
  else if p.hostLit ≠ [] ∧ obj.host ≠ p.hostLit then false
  else if p.pathRE.any fun re => !re.matchString obj.path then false
  else if p.pathLit ≠ [] ∧ obj.path ≠ p.pathLit then false
  else if p.expr.surrogateKey ≠ [] ∧ !hasSurrogateKey obj.surrogateKeys p.expr.surrogateKey then
    false
  else true

/-! ## Classes of patterns -/

/-- The text of a pattern body in which escaped bytes stand for themselves; nothing if it has an
unescaped operator. -/
def literalOfBody : Bytes → Option Bytes
  | [] => some []
  | c :: s =>
    if c = byte '\\' then
      match s with
      | [] => none
      | d :: s => (literalOfBody s).map (d :: ·)
    else if c ∈ regexpMetachars then none
    else (literalOfBody s).map (c :: ·)

def isAnchoredPrefix (pattern : Bytes) : Bool :=
  if pattern.length < 2 ∨ pattern.head? ≠ some (byte '^') ∨ pattern.getLast? = some (byte '$') then
    false
  else (literalOfBody (pattern.drop 1)).isSome

def anchoredPrefix (pattern : Bytes) : Bytes := (literalOfBody (pattern.drop 1)).getD []

def isAnchoredExact (pattern : Bytes) : Bool :=
  if pattern.length < 3 ∨ pattern.head? ≠ some (byte '^') ∨ pattern.getLast? ≠ some (byte '$') then
    false
  else (literalOfBody (pattern.drop 1).dropLast).isSome

def anchoredExact (pattern : Bytes) : Bytes := (literalOfBody (pattern.drop 1).dropLast).getD []

inductive BanClass where
  | opaqueBan
  | literalHost
  | literalPath
  | literalSurrogate
  | prefixHost
  | prefixPath
deriving DecidableEq

def classifyPattern (literal prefixed : BanClass) (pattern : Bytes) : BanClass :=
  if isBanLiteral pattern || isAnchoredExact pattern then literal
  else if isAnchoredPrefix pattern then prefixed
  else .opaqueBan

def classifyBan (e : BanPattern) : BanClass :=
  if e.hostRegex ≠ [] ∧ e.pathRegex = [] ∧ e.surrogateKey = [] then
    classifyPattern .literalHost .prefixHost e.hostRegex
  else if e.hostRegex = [] ∧ e.pathRegex ≠ [] ∧ e.surrogateKey = [] then
    classifyPattern .literalPath .prefixPath e.pathRegex
  else if e.hostRegex = [] ∧ e.pathRegex = [] ∧ e.surrogateKey ≠ [] then .literalSurrogate
  else .opaqueBan

def literalPattern (pattern : Bytes) : Bytes :=
  if isAnchoredExact pattern then anchoredExact pattern else pattern

def literalHostPattern (pattern : Bytes) : Bytes := literalPattern pattern

def literalPathPattern (pattern : Bytes) : Bytes := literalPattern pattern

/-! ## Exemption times -/

def noExemption : Int := -2 ^ 63

/-- `UnixNano`, in 64 bits. -/
def unixNano (t : Int) : Int := t.bmod (2 ^ 64)

def encodeExempt (t : Int) : Int := if isZero t then noExemption else unixNano t

def decodeExempt (n : Int) : Int := if n = noExemption then zeroTime else n

/-- A ban of the list. A re-issue moves its exemption time; the predicate is that of the first
registration. -/
structure ActiveBan (t : Tables) where
  pred : BanPredicate t
  created : Int
  pattern : BanPattern
  exemptNanos : Int
  surrogate : Bool
  pattern_eq : pattern = patternOf pred.expr
  exempt_eq : exemptNanos = encodeExempt created
  surrogate_eq : surrogate = decide (classifyBan pattern = .literalSurrogate)

def ActiveBan.exemptAfter {t : Tables} (b : ActiveBan t) : Int := decodeExempt b.exemptNanos

def subjectTo (obj : BanObject) (exempt : Int) : Bool := isZero exempt || obj.storedAt ≤ exempt

def subjectToNanos (obj : BanObject) (exempt : Int) : Bool :=
  exempt == noExemption || obj.storedAt ≤ exempt

/-! ## The snapshot -/

structure PrefixBan (t : Tables) where
  exemptAfter : Int
  pred : BanPredicate t
  lead : Bytes

structure OpaqueBan (t : Tables) where
  exemptAfter : Int
  pred : BanPredicate t

structure BanSnapshot (t : Tables) where
  hosts : List (Bytes × Int) := []
  paths : List (Bytes × Int) := []
  hostPrefixes : List (PrefixBan t) := []
  pathPrefixes : List (PrefixBan t) := []
  opaqueBans : List (OpaqueBan t) := []

variable {t : Tables}

def BanSnapshot.add (snap : BanSnapshot t) (b : ActiveBan t) : BanSnapshot t :=
  match classifyBan b.pattern with
  | .literalHost =>
    { snap with hosts := (literalHostPattern b.pattern.hostRegex, b.exemptAfter) :: snap.hosts }
  | .literalPath =>
    { snap with paths := (literalPathPattern b.pattern.pathRegex, b.exemptAfter) :: snap.paths }
  | .prefixHost =>
    { snap with hostPrefixes := snap.hostPrefixes ++
        [⟨b.exemptAfter, b.pred, anchoredPrefix b.pattern.hostRegex⟩] }
  | .prefixPath =>
    { snap with pathPrefixes := snap.pathPrefixes ++
        [⟨b.exemptAfter, b.pred, anchoredPrefix b.pattern.pathRegex⟩] }
  | .opaqueBan | .literalSurrogate =>
    { snap with opaqueBans := snap.opaqueBans ++ [⟨b.exemptAfter, b.pred⟩] }

def compileBanSnapshot (bans : List (ActiveBan t)) (now : Int) (ttl : Int) : BanSnapshot t :=
  bans.foldl (fun snap b => if ttl ≤ now - b.created then snap else snap.add b) {}

def BanSnapshot.literalMatch (s : BanSnapshot t) (obj : BanObject) : Bool :=
  (s.hosts.lookup obj.host).any (subjectTo obj) || (s.paths.lookup obj.path).any (subjectTo obj)

def PrefixBan.applies (b : PrefixBan t) (value : Bytes) (obj : BanObject) : Bool :=
  b.lead.isPrefixOf value && subjectTo obj b.exemptAfter && b.pred.holds obj

def BanSnapshot.prefixMatch (s : BanSnapshot t) (obj : BanObject) : Bool :=
  s.hostPrefixes.any (·.applies obj.host obj) || s.pathPrefixes.any (·.applies obj.path obj)

def BanSnapshot.matches (s : BanSnapshot t) (obj : BanObject) : Bool :=
  s.literalMatch obj || s.prefixMatch obj ||
    s.opaqueBans.any fun b => subjectTo obj b.exemptAfter && b.pred.holds obj

/-! ## What a ban means -/

def regexpMatches (t : Tables) (pattern value : Bytes) : Bool :=
  pattern == [] || (compile t pattern).any (·.matchString value)

def banPatternMatches (t : Tables) (pattern value : Bytes) : Bool :=
  if pattern ≠ [] ∧ isBanLiteral pattern then value == pattern
  else regexpMatches t pattern value

def Covers (condition : Bytes → Bytes → Bool) (b : ActiveBan t) (obj : BanObject) : Prop :=
  obj.storedAt ≤ b.created ∧ condition b.pattern.hostRegex obj.host = true ∧
    condition b.pattern.pathRegex obj.path = true ∧
    (b.pattern.surrogateKey = [] ∨ b.pattern.surrogateKey ∈ obj.surrogateKeys)

instance (condition : Bytes → Bytes → Bool) (b : ActiveBan t) (obj : BanObject) :
    Decidable (Covers condition b obj) := by
  unfold Covers; infer_instance

end Bouine.Storage
