import Mathlib.Data.Prod.Lex
import Mathlib.Order.WithBot
import Bouine.Lib.Best
import Bouine.Lib.ByteOrder
import Bouine.Lib.WhiteSpace
import Bouine.Cache.Vary

/-! # Buckets do not depend on the order of a list

`encodingBucket` and `langBucket` (`internal/cache/vary.go`) keep the best item of a list, by
weight, and between equal weights by rank or tag. Each loop keeps the maximum of a key, so the order
of the list does not matter.
-/

namespace Bouine.Cache

open Lib Bool

/-! ## Items -/

theorem foldl_items {α : Type*} {step : α → Bytes → α}
    (htrim : ∀ a item, step a (trimSpace item) = step a item) (hnil : ∀ a, step a [] = a) (a : α)
    (v : Bytes) :
    (pieces (byte ',') (trimSpace v)).foldl step a = (splitOn (byte ',') v).foldl step a := by
  have hcomma : ∀ w ∈ spaces, byte ',' ∉ w := by decide
  have hempty : ∀ n a, (List.replicate n []).foldl step a = a := by
    intro n
    induction n with
    | zero => exact fun a => rfl
    | succ n ih => exact fun a => by rw [List.replicate_succ, List.foldl_cons, hnil, ih]
  have hmap (items : List Bytes) : (items.map trimSpace).foldl step a = items.foldl step a := by
    rw [List.foldl_map]
    simp [htrim]
  obtain ⟨n, hsplit⟩ := splitOn_eq_pieces (byte ',') (trimSpace v)
  calc (pieces (byte ',') (trimSpace v)).foldl step a
      = (splitOn (byte ',') (trimSpace v)).foldl step a := by
        rw [hsplit, List.foldl_append, hempty]
    _ = (splitOn (byte ',') v).foldl step a := by
        rw [← hmap, map_trimSpace_splitOn hcomma, hmap]

/-! ## Weights -/

/-- Weights compare like floating point numbers: the numbers in a linear order, the others with
nothing. -/
structure IEEEWeights {W : Type*} (lib : Stdlib W) (L : Type*) [LinearOrder L] where
  /-- the number, unless it is NaN -/
  value : W → Option L
  lt_iff : ∀ a b, lib.lt a b = true ↔ ∃ x ∈ value a, ∃ y ∈ value b, x < y
  eq_iff : ∀ a b, lib.eq a b = true ↔ ∃ x ∈ value a, ∃ y ∈ value b, x = y
  minusOne_lt : lib.lt lib.minusOne lib.zero = true

namespace IEEEWeights

variable {W : Type*} {lib : Stdlib W} {L : Type*} [LinearOrder L] (ieee : IEEEWeights lib L) {a b : W}

theorem lt_eq {x y : L} (ha : ieee.value a = some x) (hb : ieee.value b = some y) :
    lib.lt a b = decide (x < y) := by
  rw [Bool.eq_iff_iff, ieee.lt_iff, ha, hb]
  simp

theorem eq_eq {x y : L} (ha : ieee.value a = some x) (hb : ieee.value b = some y) :
    lib.eq a b = decide (x = y) := by
  rw [Bool.eq_iff_iff, ieee.eq_iff, ha, hb]
  simp [eq_comm]

theorem nan (hb : ieee.value b = none) : lib.lt a b = false ∧ lib.eq b a = false := by
  rw [← not_eq_true, ← not_eq_true, ieee.lt_iff, ieee.eq_iff, hb]
  simp

theorem value_minusOne : (ieee.value lib.minusOne).isSome := by
  obtain ⟨x, hx, -⟩ := (ieee.lt_iff _ _).1 ieee.minusOne_lt
  rw [Option.mem_def.1 hx]
  rfl

end IEEEWeights

section

variable {W : Type*} {lib : Stdlib W} {L : Type*} [LinearOrder L] (ieee : IEEEWeights lib L)

/-- An item that counts is compared with the best so far. -/
theorem weighed_cases {R K : Type*} [LinearOrder K] {key : R × W → WithBot L ×ₗ K} {best new : R × W}
    {q : W} (k : K) (hnan : ieee.value q = none → new = best)
    (hnew : ∀ x, ieee.value q = some x →
      (ieee.value new.2).isSome ∧ key new = max (key best) (toLex ((x : WithBot L), k))) :
    let offer := if excluded lib q then none else (ieee.value q).map fun x => toLex ((x : WithBot L), k)
    let step := if excluded lib q then best else new
    offer = none ∧ step = best ∨
      ∃ k, offer = some k ∧ (ieee.value step.2).isSome ∧ key step = max (key best) k := by
  intro offer step
  by_cases hex : excluded lib q = true
  · exact .inl ⟨if_pos hex, if_pos hex⟩
  · simp only [offer, step, if_neg hex]
    cases hq : ieee.value q with
    | none => exact .inl ⟨rfl, hnan hq⟩
    | some x => exact .inr ⟨_, rfl, hnew x hq⟩

/-! ## Codings -/

def encodingKey (best : Int × W) : WithBot L ×ₗ ℤ := toLex (ieee.value best.2, best.1)

def encodingOffer (item : Bytes) : Option (WithBot L ×ₗ ℤ) :=
  let (coding, params) := cutAt (byte ';') (trimSpace item)
  match aeRank (toLowerText lib.lowerRune (trimSpace coding)) with
  | none => none
  | some rank =>
    let q := weightOf lib params
    if excluded lib q then none else (ieee.value q).map fun x => toLex ((x : WithBot L), rank)

theorem encodingStep_keepsBest : KeepsBest (fun best : Int × W => (ieee.value best.2).isSome)
    (encodingKey ieee) (encodingOffer ieee) (encodingStep lib) := by
  refine .of_cases fun best item hbest => ?_
  unfold encodingOffer encodingStep
  dsimp only
  cases aeRank (toLowerText lib.lowerRune (trimSpace (cutAt (byte ';') (trimSpace item)).1)) with
  | none => exact .inl ⟨rfl, rfl⟩
  | some rank =>
    refine weighed_cases ieee _ (fun hnan => ?_) fun x hq => ?_
    · rw [(ieee.nan hnan).1, (ieee.nan hnan).2]
      rfl
    · obtain ⟨b, hb⟩ := Option.isSome_iff_exists.1 hbest
      have hkey : encodingKey ieee best = toLex ((b : WithBot L), best.1) := by rw [encodingKey, hb]; rfl
      rw [hkey, max_def_lt, ieee.lt_eq hb hq, ieee.eq_eq hq hb]
      simp only [Prod.Lex.toLex_lt_toLex, or_eq_true, and_eq_true, decide_eq_true_iff,
        WithBot.coe_lt_coe, WithBot.coe_inj, eq_comm (a := x)]
      split_ifs
      · rw [encodingKey, hq]
        exact ⟨rfl, rfl⟩
      · exact ⟨hbest, hkey⟩

theorem aeRank_nil : aeRank [] = none := by decide

theorem encodingStep_nil (best : Int × W) : encodingStep lib best [] = best := by
  rw [encodingStep, trimSpace_nil, cutAt]
  dsimp only
  rw [List.takeWhile_nil, trimSpace_nil, toLowerText_nil, aeRank_nil]

theorem encodingStep_trimSpace (best : Int × W) (item : Bytes) :
    encodingStep lib best (trimSpace item) = encodingStep lib best item := by
  rw [encodingStep, encodingStep, trimSpace_trimSpace]

/-! ## Languages -/

def langKey (best : Bytes × W) : WithBot L ×ₗ Orderedᵒᵈ :=
  toLex (ieee.value best.2, OrderDual.toDual (Ordered.of (toLower best.1)))

def langOffer (item : Bytes) : Option (WithBot L ×ₗ Orderedᵒᵈ) :=
  let (tag, params) := cutAt (byte ';') (trimSpace item)
  let tag := trimSpace tag
  if !isLanguageTag tag then none
  else
    let q := weightOf lib params
    if excluded lib q then none
    else (ieee.value q).map fun x => toLex ((x : WithBot L), OrderDual.toDual (Ordered.of (toLower tag)))

theorem langKey_of_value {w : W} {b : L} (hw : ieee.value w = some b) (t : Bytes) :
    langKey ieee (t, w) = toLex ((b : WithBot L), OrderDual.toDual (Ordered.of (toLower t))) := by
  rw [langKey, hw]
  rfl

theorem langTagLess_iff (a b : Bytes) :
    langTagLess a b ↔
      OrderDual.toDual (Ordered.of (toLower b)) < OrderDual.toDual (Ordered.of (toLower a)) := by
  rw [langTagLess, decide_eq_true_iff, OrderDual.toDual_lt_toDual, Ordered.of_lt_of]

theorem langKey_better {best : Bytes × W} {b : L} (hb : ieee.value best.2 = some b) (tag : Bytes) {q : W}
    {x : L} (hq : ieee.value q = some x) :
    langKey ieee
        (if lib.lt best.2 q then (tag, q)
          else if lib.eq q best.2 && equalFold tag best.1 then best
          else if lib.eq q best.2 && langTagLess tag best.1 then (tag, best.2)
          else best) =
      max (langKey ieee best)
        (toLex ((x : WithBot L), OrderDual.toDual (Ordered.of (toLower tag)))) := by
  rw [langKey_of_value ieee hb best.1, max_def_lt, ieee.lt_eq hb hq, ieee.eq_eq hq hb, equalFold]
  simp only [Prod.Lex.toLex_lt_toLex, ← langTagLess_iff]
  rcases lt_trichotomy b x with h | rfl | h
  · simp [h, langKey_of_value ieee hq]
  · -- equal weights: the tags decide
    by_cases hsame : toLower tag = toLower best.1
    · simp [hsame, langTagLess, langKey_of_value ieee hb best.1]
    · by_cases hless : langTagLess tag best.1 <;> simp [hsame, hless, langKey_of_value ieee hb]
  · simp [h.not_gt, h.ne, h.ne', langKey_of_value ieee hb best.1]

theorem langStep_keepsBest : KeepsBest (fun best : Bytes × W => (ieee.value best.2).isSome)
    (langKey ieee) (langOffer ieee) (langStep lib) := by
  refine .of_cases fun best item hbest => ?_
  unfold langOffer langStep
  dsimp only
  by_cases htag : (!isLanguageTag (trimSpace (cutAt (byte ';') (trimSpace item)).1)) = true
  · exact .inl ⟨if_pos htag, if_pos htag⟩
  · rw [if_neg htag, if_neg htag]
    refine weighed_cases ieee _ (fun hnan => ?_) fun x hq => ?_
    · rw [(ieee.nan hnan).1, (ieee.nan hnan).2]
      rfl
    · obtain ⟨b, hb⟩ := Option.isSome_iff_exists.1 hbest
      refine ⟨?_, langKey_better ieee hb _ hq⟩
      split_ifs
      · rw [hq]
        rfl
      all_goals exact hbest

theorem langStep_nil (best : Bytes × W) : langStep lib best [] = best := rfl

theorem langStep_trimSpace (best : Bytes × W) (item : Bytes) :
    langStep lib best (trimSpace item) = langStep lib best item := by
  rw [langStep, langStep, trimSpace_trimSpace]

end

/-! ## Lists in another order -/

/-- A list in another order has the same bucket, up to the case of a tag. -/
theorem bucket_of_permuted_list {W : Type*} {lib : Stdlib W} {L : Type*} [LinearOrder L]
    (ieee : IEEEWeights lib L) {v : Bytes} {items : List Bytes} (h : items.Perm (splitOn (byte ',') v)) :
    encodingBucket lib (List.intercalate [byte ','] items) = encodingBucket lib v ∧
      (langBucket lib (List.intercalate [byte ','] items)).map toLower =
        (langBucket lib v).map toLower := by
  have hsplit : splitOn (byte ',') (List.intercalate [byte ','] items) = items := by
    refine Path.splitOn_intercalate ?_ fun g hg => notMem_of_mem_splitOn (h.mem_iff.1 hg)
    rintro rfl
    exact splitOn_ne_nil _ v h.nil_eq.symm
  have hstart := ieee.value_minusOne
  constructor
  · have hkey := (encodingStep_keepsBest ieee).key_foldl_perm (a := (-1, lib.minusOne)) hstart h
    have hrank := congrArg (fun k => (ofLex k).2) hkey
    unfold encodingBucket
    rw [foldl_items encodingStep_trimSpace encodingStep_nil,
      foldl_items encodingStep_trimSpace encodingStep_nil, hsplit]
    simp only [encodingKey, ofLex_toLex] at hrank
    simp [hrank]
  · have hkey := (langStep_keepsBest ieee).key_foldl_perm (a := ([], lib.minusOne)) hstart h
    have htag : toLower (items.foldl (langStep lib) ([], lib.minusOne)).1 =
        toLower ((splitOn (byte ',') v).foldl (langStep lib) ([], lib.minusOne)).1 :=
      congrArg (fun k => OrderDual.ofDual (ofLex k).2) hkey
    have hlower (s : Bytes) : (if s = [] then none else some s).map toLower =
        if toLower s = [] then none else some (toLower s) := by
      by_cases hs : s = []
      · rw [hs]
        rfl
      · rw [if_neg hs, if_neg (by simpa [toLower] using hs)]
        rfl
    unfold langBucket
    rw [foldl_items langStep_trimSpace langStep_nil, foldl_items langStep_trimSpace langStep_nil, hsplit]
    rw [hlower, hlower, htag]

def digitLib : Stdlib (Option Int) where
  lowerRune r := r
  parseFloat s :=
    match s with
    | [d] => if byte '0' ≤ d ∧ d ≤ byte '9' then some (some (d.toNat - 48)) else none
    | s => if s = ascii "nan" then some none else none
  lt a b := (a.bind fun x => b.map fun y => decide (x < y)).getD false
  eq a b := (a.bind fun x => b.map fun y => decide (x = y)).getD false
  zero := some 0
  one := some 1
  minusOne := some (-1)

def digitWeights : IEEEWeights digitLib ℤ where
  value a := a
  lt_iff a b := by cases a <;> cases b <;> simp [digitLib]
  eq_iff a b := by cases a <;> cases b <;> simp [digitLib, eq_comm]
  minusOne_lt := rfl

/-- Two languages of equal weight, and one whose weight is not a number. -/
theorem permuted_languages_same_bucket :
    (langBucket digitLib (ascii "EN;q=5, de;q=nan,fr;q=5")).map toLower =
        (langBucket digitLib (ascii "fr;q=5,EN;q=5, de;q=nan")).map toLower ∧
      langBucket digitLib (ascii "fr;q=5,EN;q=5, de;q=nan") = some (ascii "EN") := by
  have hperm : [ascii "EN;q=5", ascii " de;q=nan", ascii "fr;q=5"].Perm
      (splitOn (byte ',') (ascii "fr;q=5,EN;q=5, de;q=nan")) := by decide
  exact ⟨(bucket_of_permuted_list digitWeights hperm).2, by decide⟩

end Bouine.Cache
