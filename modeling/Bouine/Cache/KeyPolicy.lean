import Bouine.Lib.Bytes

/-! # Key policies

A route's rules for building cache keys (`internal/cache/keypolicy.go`). A missing policy is
`none`; the maps of the source are lists of their keys. -/

namespace Bouine.Cache

open Lib

structure KeyPolicy where
  /-- exact names to strip from the query -/
  stripParams : List Bytes
  /-- when present, only these names take part -/
  keepParams : Option (List Bytes)
  /-- headers left out of the variant key -/
  excludeHeaders : List Bytes
  stripPrefixes : List Bytes
  /-- cookies whose presence takes part in the variant key -/
  cookiePresence : List Bytes
  /-- cookies whose values take part in the variant key -/
  cookieValues : List Bytes
  stripEmpty : Bool
  dedup : Bool
  excludeHost : Bool
  verbatimAE : Bool
deriving DecidableEq

structure StackSeen where
  names : List Bytes
  fits : names.length ≤ 8
deriving DecidableEq

namespace StackSeen

def empty : StackSeen := ⟨[], by simp⟩

def contains (s : StackSeen) (k : Bytes) : Bool := s.names.contains k

def add (s : StackSeen) (k : Bytes) : StackSeen :=
  if h : s.names.length < 8 then ⟨s.names ++ [k], by rw [List.length_append]; exact h⟩ else s

end StackSeen

namespace KeyPolicy

def shouldStripParam (p : KeyPolicy) (k v : Bytes) (seen : StackSeen) : Bool :=
  (match p.keepParams with
    | some keep => !keep.contains k
    | none => p.stripEmpty && v == []) ||
  p.stripParams.contains k ||
  p.stripPrefixes.any (·.isPrefixOf k) ||
  (p.dedup && seen.contains k)

def markSeen (p : KeyPolicy) (k : Bytes) (seen : StackSeen) : StackSeen :=
  if p.dedup then seen.add k else seen

def nameOk (p : KeyPolicy) (k : Bytes) : Bool :=
  (match p.keepParams with
    | some keep => keep.contains k
    | none => true) &&
  !p.stripParams.contains k && !p.stripPrefixes.any (·.isPrefixOf k)

def valueOk (p : KeyPolicy) (v : Bytes) : Bool :=
  !(p.stripEmpty && p.keepParams.isNone && v == [])

theorem shouldStripParam_eq (p : KeyPolicy) (k v : Bytes) (seen : StackSeen) :
    p.shouldStripParam k v seen =
      (!(p.nameOk k && p.valueOk v) || (p.dedup && seen.contains k)) := by
  unfold shouldStripParam nameOk valueOk
  cases p.keepParams with
  | none =>
    cases p.stripEmpty <;> cases v == [] <;> cases p.stripParams.contains k <;>
      cases p.stripPrefixes.any (·.isPrefixOf k) <;> simp
  | some keep =>
    cases keep.contains k <;> cases p.stripParams.contains k <;>
      cases p.stripPrefixes.any (·.isPrefixOf k) <;> simp

end KeyPolicy

/-! ## Cookies -/

def trimCookieOWS (s : Bytes) : Bytes := trimOWS s

/-- Which of the listed cookies a `name=value` pair is about. -/
def listedIndex (listed : List Bytes) (pair : Bytes) : Option Nat :=
  let token := trimCookieOWS (cutAt (byte '=') pair).1
  if token = [] then none else listed.findIdx? (equalFold token)

def cookiePresenceValue (p : KeyPolicy) (cookieValue : Bytes) : Bytes :=
  if p.cookiePresence = [] ∨ cookieValue = [] then []
  else
    (splitOn (byte ';') cookieValue).foldl
      (fun bits pair =>
        match listedIndex p.cookiePresence pair with
        | some i => bits.set i (byte '1')
        | none => bits)
      (List.replicate p.cookiePresence.length (byte '0'))

def cookieVals (p : KeyPolicy) (cookieValue : Bytes) : List Bytes :=
  (splitOn (byte ';') cookieValue).foldl
    (fun vals pair =>
      match listedIndex p.cookieValues pair with
      | some i => vals.set i (trimCookieOWS (cutAt (byte '=') pair).2)
      | none => vals)
    (List.replicate p.cookieValues.length [])

def cookieValuesValue (p : KeyPolicy) (cookieValue : Bytes) : Bytes :=
  if p.cookieValues = [] ∨ cookieValue = [] then []
  else
    List.intercalate (ascii "; ")
      ((p.cookieValues.zip (cookieVals p cookieValue)).map fun (listed, v) =>
        listed ++ byte '=' :: v)

def cookiePresenceField : Bytes := ascii "x-bouine-cookie-presence"

def cookieValuesField : Bytes := ascii "x-bouine-cookie-values"

def hasCookiePresence : Option KeyPolicy → Bool
  | none => false
  | some p => p.cookiePresence ≠ []

def hasCookieValues : Option KeyPolicy → Bool
  | none => false
  | some p => p.cookieValues ≠ []

def shouldExcludeHeader : Option KeyPolicy → Bytes → Bool
  | none, _ => false
  | some p, h => p.excludeHeaders.contains h

def verbatimEncoding : Option KeyPolicy → Bool
  | none => false
  | some p => p.verbatimAE

def includeHostKey : Option KeyPolicy → Bool
  | none => true
  | some p => !p.excludeHost

end Bouine.Cache
