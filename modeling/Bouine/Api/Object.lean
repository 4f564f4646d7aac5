import Mathlib.Init

/-! # Cached objects

`api.Object`, with the fields that the modelled functions read or write. No modelled function looks
inside a key, so its type is a parameter.
-/

namespace Bouine.Api

/-- A stored response. No `pairedKey` is the zero key of the source. -/
structure Object (Key : Type) where
  key : Key
  body : List UInt8
  bodySize : Nat
  varyValue : String
  varyKey : String
  pairedKey : Option Key
  keepGrace : Bool
deriving DecidableEq, Repr

/-- A resolver stands under the primary key of a varying resource: it names the Vary list and
selects nothing itself. -/
def Object.isVaryResolver {Key : Type} (o : Object Key) : Bool :=
  o.varyValue != "" && o.varyKey == ""

end Bouine.Api
