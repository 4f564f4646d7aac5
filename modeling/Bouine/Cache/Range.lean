import Bouine.Cache.Stored

/-! # Byte ranges

`internal/cache/range.go`: the parts of a stored body that a Range line asks for.
-/

namespace Bouine.Cache

open Lib Header

/-- `strconv.ParseInt` with base 10 and 64 bits: a sign, then digits only. -/
def parseInt64 (s : Bytes) : Option Int :=
  let digits := if s.head? = some (byte '-') ∨ s.head? = some (byte '+') then s.drop 1 else s
  if digits = [] || !digits.all isDigit then none
  else
    let n : Int := digits.foldl (fun n c => n * 10 + (c.toNat - 48)) 0
    let n := if s.head? = some (byte '-') then -n else n
    if minDuration ≤ n ∧ n ≤ maxDuration then some n else none

def parseRange (spec : Bytes) (size : Int) : Option (Int × Int) :=
  if byte '-' ∉ spec then none
  else
    let startStr := trimSpace (cutAt (byte '-') spec).1
    let endStr := trimSpace (cutAt (byte '-') spec).2
    if startStr = [] then do
      let suffix ← parseInt64 endStr
      if suffix ≤ 0 then none else some (max 0 (size - suffix), size - 1)
    else do
      let start ← parseInt64 startStr
      if start < 0 ∨ size ≤ start then none
      else if endStr = [] then some (start, size - 1)
      else do
        let stop ← parseInt64 endStr
        if stop < start then none else some (start, if size ≤ stop then size - 1 else stop)

/-- What `serveRange` answers with: the status and the parts. -/
structure RangeAnswer where
  status : Nat
  parts : List (Int × Int)
deriving DecidableEq

/-- `serveRange`; `none` if the object is to be served as a whole. -/
def serveRange (header : Map) (obj : Stored) : Option RangeAnswer :=
  let rangeHeader := header.get Field.range
  if rangeHeader = [] || !(ascii "bytes=").isPrefixOf rangeHeader then none
  else
    let specs := splitOn (byte ',') (rangeHeader.drop 6)
    match specs.mapM fun s => parseRange (trimSpace s) obj.bodySize with
    | none => some ⟨416, []⟩
    | some parts => some ⟨206, parts⟩

end Bouine.Cache
