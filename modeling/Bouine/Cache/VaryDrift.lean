import Bouine.Lib.ByteOrder
import Bouine.Cache.Engine

/-! # Vary drift

`internal/cache/varydrift.go`: when the answer to a revalidation declares another list of Vary
fields than the stored object has, everything stored for the URL is purged. The lists are meant to
be compared as sets; the comparison counts the elements.
-/

namespace Bouine.Cache

open Lib Header

/-! ## The code -/

section

variable {W : Type*} (lib : Stdlib W)

def varyFieldSet (v : Bytes) : List Bytes :=
  (splitOn (byte ',') v).map fun f => toLowerText lib.lowerRune (trimSpace f)

def varyFieldsEqual (a b : Bytes) : Bool :=
  if a = b then true
  else
    let fa := varyFieldSet lib a
    let fb := varyFieldSet lib b
    if fa.length ≠ fb.length then false
    else ((sortStrings fa).zip (sortStrings fb)).all fun p => p.1 == p.2

def isDriftDeclarationSource (statusCode : Nat) : Bool :=
  statusCode == statusNotModified || (200 ≤ statusCode && statusCode < 300)

/-- `detectVaryDrift`: the key that is purged and counted, if any. -/
def detectVaryDrift {Key : Type*} (sum128 : Bytes → Key) (policy : Option KeyPolicy)
    (stale : Option Stored) (ri : RequestInfo) (statusCode : Nat) (freshVary : Bytes) : Option Key :=
  match stale with
  | none => none
  | some stale =>
    if stale.varyValue = [] ∨ !isDriftDeclarationSource statusCode ∨
        varyFieldsEqual lib stale.varyValue freshVary then none
    else some (buildKey sum128 ri policy)

/-! ## Sets and lists -/

def SameFields (a b : Bytes) : Prop := ∀ f ≠ [], f ∈ varyFieldSet lib a ↔ f ∈ varyFieldSet lib b

def SameCounts (a b : Bytes) : Prop :=
  ∀ f, (varyFieldSet lib a).count f = (varyFieldSet lib b).count f

end

theorem all_zip_eq_iff {l l' : List Bytes} (h : l.length = l'.length) :
    ((l.zip l').all fun p => p.1 == p.2) ↔ l = l' := by
  induction l generalizing l' with
  | nil =>
    obtain rfl := List.length_eq_zero_iff.1 h.symm
    simp
  | cons x l ih =>
    cases l' with
    | nil => cases h
    | cons y l' =>
      rw [List.zip_cons_cons, List.all_cons, Bool.and_eq_true, beq_iff_eq,
        ih (Nat.succ.inj h), List.cons.injEq]

section

variable {W : Type*} {lib : Stdlib W} {a b : Bytes}

theorem sameCounts_iff :
    SameCounts lib a b ↔ (varyFieldSet lib a).Perm (varyFieldSet lib b) :=
  List.perm_iff_count.symm

/-- The comparison tells whether two values name the same fields, and nothing is purged if they do,
exactly if such values list everything equally often. -/
theorem vary_drift_iff {Key : Type*} (lib : Stdlib W) (sum128 : Bytes → Key) (policy : Option KeyPolicy)
    (stale : Stored) (ri : RequestInfo) (statusCode : Nat) (freshVary : Bytes) :
    ((varyFieldsEqual lib stale.varyValue freshVary = true ↔ SameFields lib stale.varyValue freshVary) ↔
        (SameFields lib stale.varyValue freshVary → SameCounts lib stale.varyValue freshVary)) ∧
      ((SameFields lib stale.varyValue freshVary →
          detectVaryDrift lib sum128 policy (some stale) ri statusCode freshVary = none) ↔
        stale.varyValue = [] ∨ isDriftDeclarationSource statusCode = false ∨
          (SameFields lib stale.varyValue freshVary → SameCounts lib stale.varyValue freshVary)) := by
  have hequal : varyFieldsEqual lib stale.varyValue freshVary ↔
      SameCounts lib stale.varyValue freshVary := by
    rw [sameCounts_iff]
    unfold varyFieldsEqual
    dsimp only
    split_ifs with heq hlen
    · simp [heq]
    · simpa using fun h => hlen h.length_eq
    · rw [not_not] at hlen
      rw [all_zip_eq_iff, sortStrings, sortStrings, sort_eq_iff]
      rw [sortStrings, sortStrings, List.length_insertionSort, List.length_insertionSort, hlen]
  have hsub : SameCounts lib stale.varyValue freshVary → SameFields lib stale.varyValue freshVary :=
    fun h _ _ => (sameCounts_iff.1 h).mem_iff
  constructor
  · rw [hequal]
    exact ⟨fun h => h.2, fun h => ⟨hsub, h⟩⟩
  · have hnone : detectVaryDrift lib sum128 policy (some stale) ri statusCode freshVary = none ↔
        stale.varyValue = [] ∨ isDriftDeclarationSource statusCode = false ∨
          SameCounts lib stale.varyValue freshVary := by
      rw [← hequal]
      simp only [detectVaryDrift, ite_eq_left_iff, reduceCtorEq, imp_false, not_not,
        Bool.not_eq_true']
    tauto

end

/-- A field listed twice, or an empty list element, counts as a change: the URL is purged. -/
theorem repeated_field_purges :
    let purged (fresh : Bytes) : Bool :=
      (detectVaryDrift asciiLib List.length none
        (some (testObject (ascii "Accept-Encoding") 0 0 false))
        ⟨ascii "GET", ascii "/", ascii "shop.example", ascii "/", true⟩ 304 fresh).isSome
    (SameFields asciiLib (ascii "Accept-Encoding") (ascii "Accept-Encoding, accept-encoding") ∧
        purged (ascii "Accept-Encoding, accept-encoding") = true) ∧
      SameFields asciiLib (ascii "Accept-Encoding") (ascii "Accept-Encoding,") ∧
        purged (ascii "Accept-Encoding,") = true := by
  have hstored : varyFieldSet asciiLib (ascii "Accept-Encoding") = [ascii "accept-encoding"] := by
    decide
  have htwice : varyFieldSet asciiLib (ascii "Accept-Encoding, accept-encoding") =
      [ascii "accept-encoding", ascii "accept-encoding"] := by decide
  have hblank : varyFieldSet asciiLib (ascii "Accept-Encoding,") = [ascii "accept-encoding", []] := by
    decide
  refine ⟨⟨fun f _ => ?_, by decide⟩, fun f hf => ?_, by decide⟩
  · rw [hstored, htwice]
    simp
  · rw [hstored, hblank]
    simp [hf]

end Bouine.Cache
