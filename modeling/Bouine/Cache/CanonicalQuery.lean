import Bouine.Lib.BoundedBuffer
import Bouine.Lib.UrlQuery
import Bouine.Cache.KeyPolicy

/-! # The canonical query

The part of the cache key that stands for the query (`internal/cache/fastpath.go`,
`appendCanonicalQueryString` and its companions). A query with few parameters and no percent sign is
sorted as spelled; any other is parsed, sorted and escaped again. `canonicalQuery` is what both
write into the key buffer.
-/

namespace Bouine.Cache

open Lib Lib.UrlQuery

/-! ## The code -/

abbrev KvPair := Bytes × Bytes

def pairLE (p q : KvPair) : Prop := ¬ (q.1 < p.1 ∨ q.1 = p.1 ∧ q.2 < p.2)

instance : DecidableRel pairLE := fun p q =>
  inferInstanceAs (Decidable (¬ (q.1 < p.1 ∨ q.1 = p.1 ∧ q.2 < p.2)))

def sortPairs (pairs : List KvPair) : List KvPair := pairs.insertionSort pairLE

def sortStrings (ss : List Bytes) : List Bytes := ss.insertionSort bytesLE

/-- The loop of `writeSortedPairs`, with its `first` flag. -/
def writePairs (first : Bool) : Buf → List KvPair → Buf
  | b, [] => b
  | b, p :: ps =>
    let b := if first then b else b.appendByte (byte '&')
    writePairs false (((b.append p.1).appendByte (byte '=')).append p.2) ps

def writeSortedPairs (b : Buf) (pairs : List KvPair) : Buf := writePairs true b pairs

/-- The scan of `appendCanonicalQueryStringNoPolicy`; `none` when the query is not simple. -/
def scanNoPolicy : List Bytes → List KvPair → Option (List KvPair)
  | [], pairs => some pairs
  | seg :: segs, pairs =>
    let kv := cutAt (byte '=') seg
    if byte '%' ∈ kv.1 ∨ byte '%' ∈ kv.2 then none
    else if 8 ≤ pairs.length then none
    else scanNoPolicy segs (pairs ++ [kv])

/-- The scan of `appendCanonicalQueryString`. A stripped parameter is skipped before its spelling is
looked at. -/
def scan (p : KeyPolicy) : List Bytes → StackSeen → List KvPair → Option (List KvPair)
  | [], _, pairs => some pairs
  | seg :: segs, seen, pairs =>
    let kv := cutAt (byte '=') seg
    if p.shouldStripParam kv.1 kv.2 seen then scan p segs seen pairs
    else if byte '%' ∈ kv.1 ∨ byte '%' ∈ kv.2 then none
    else if 8 ≤ pairs.length then none
    else scan p segs (p.markSeen kv.1 seen) (pairs ++ [kv])

/-- The pairs `appendCanonicalQuerySlowStringNoPolicy` goes through. -/
def slowPairsNoPolicy (raw : Bytes) : List KvPair :=
  let params := parseQuery raw
  (sortStrings (names params)).flatMap fun k =>
    (sortStrings (valuesOf params k)).map (Prod.mk k)

/-- The names `appendCanonicalQuerySlowString` collects before it sorts them. -/
def slowKeys (p : KeyPolicy) (params : List KvPair) : List Bytes :=
  (names params).filter fun k =>
    p.nameOk k && !(p.stripEmpty && p.keepParams.isNone && (valuesOf params k).all (· == []))

def slowValues (p : KeyPolicy) (params : List KvPair) (k : Bytes) : List Bytes :=
  let vals := if p.dedup then (valuesOf params k).take 1 else sortStrings (valuesOf params k)
  if p.stripEmpty && p.keepParams.isNone then vals.filter (· ≠ []) else vals

def slowPairs (p : KeyPolicy) (raw : Bytes) : List KvPair :=
  let params := parseQuery raw
  (sortStrings (slowKeys p params)).flatMap fun k => (slowValues p params k).map (Prod.mk k)

def appendCanonicalQuerySlowStringNoPolicy (b : Buf) (raw : Bytes) : Buf :=
  writePairs true b ((slowPairsNoPolicy raw).map escapePair)

def appendCanonicalQuerySlowString (b : Buf) (raw : Bytes) (p : KeyPolicy) : Buf :=
  writePairs true b ((slowPairs p raw).map escapePair)

def appendCanonicalQueryStringNoPolicy (b : Buf) (raw : Bytes) : Buf :=
  match scanNoPolicy (segments raw) [] with
  | some pairs => writeSortedPairs b (sortPairs pairs)
  | none => appendCanonicalQuerySlowStringNoPolicy b raw

def appendCanonicalQueryString (b : Buf) (raw : Bytes) (policy : Option KeyPolicy) : Buf :=
  if raw = [] then b
  else
    match policy with
    | none => appendCanonicalQueryStringNoPolicy b raw
    | some p =>
      match scan p (segments raw) .empty [] with
      | some pairs => writeSortedPairs b (sortPairs pairs)
      | none => appendCanonicalQuerySlowString b raw p

/-! ## What is written -/

def queryPairs (raw : Bytes) : Option KeyPolicy → List KvPair
  | none =>
    match scanNoPolicy (segments raw) [] with
    | some pairs => sortPairs pairs
    | none => (slowPairsNoPolicy raw).map escapePair
  | some p =>
    match scan p (segments raw) .empty [] with
    | some pairs => sortPairs pairs
    | none => (slowPairs p raw).map escapePair

def canonicalQuery (raw : Bytes) (policy : Option KeyPolicy) : Bytes :=
  encodePairs (queryPairs raw policy)

theorem sortPairs_perm (pairs : List KvPair) : (sortPairs pairs).Perm pairs :=
  List.perm_insertionSort _ _

theorem sortStrings_perm (ss : List Bytes) : (sortStrings ss).Perm ss :=
  List.perm_insertionSort _ _

variable {out : Bytes} {size : Nat}

theorem writePairs_represents {b : Buf}
    (h : b.Represents size out) (pairs : List KvPair) :
    (writePairs false b pairs).Represents size
      (out ++ pairs.flatMap fun p => byte '&' :: joinPair p) := by
  induction pairs generalizing b out with
  | nil => simpa [writePairs] using h
  | cons p pairs ih =>
    have hp := (((h.appendByte (byte '&')).append p.1).appendByte (byte '=')).append p.2
    have := ih hp
    simpa [writePairs, joinPair] using this

theorem writeSortedPairs_represents {b : Buf}
    (h : b.Represents size out) (pairs : List KvPair) :
    (writePairs true b pairs).Represents size (out ++ encodePairs pairs) := by
  cases pairs with
  | nil => simpa [writePairs, encodePairs] using h
  | cons p pairs =>
    have hp := ((h.append p.1).appendByte (byte '=')).append p.2
    have := writePairs_represents hp pairs
    simpa [writePairs, encodePairs_cons, joinPair] using this

theorem canonicalQuery_nil (policy : Option KeyPolicy) : canonicalQuery [] policy = [] := by
  cases policy <;> rfl

theorem appendCanonicalQueryString_represents {b : Buf}
    (h : b.Represents size out) (raw : Bytes) (policy : Option KeyPolicy) :
    (appendCanonicalQueryString b raw policy).Represents size
      (out ++ canonicalQuery raw policy) := by
  unfold appendCanonicalQueryString
  split_ifs with hraw
  · subst hraw
    simpa [canonicalQuery_nil] using h
  · unfold canonicalQuery queryPairs
    cases policy with
    | none =>
      simp only [appendCanonicalQueryStringNoPolicy]
      split <;> exact writeSortedPairs_represents h _
    | some p =>
      simp only [appendCanonicalQuerySlowString]
      split <;> exact writeSortedPairs_represents h _

/-! ## Without a policy -/

theorem scanNoPolicy_some {segs : List Bytes} {pairs ps : List KvPair}
    (h : scanNoPolicy segs pairs = some ps) :
    ps = pairs ++ segs.map (cutAt (byte '=')) ∧ (pairs.length ≤ 8 → ps.length ≤ 8) := by
  induction segs generalizing pairs with
  | nil =>
    cases h
    simp
  | cons seg segs ih =>
    simp only [scanNoPolicy] at h
    split_ifs at h with hescape hfull
    obtain ⟨hps, hlen⟩ := ih h
    refine ⟨by simpa using hps, fun _ => hlen ?_⟩
    rw [List.length_append, List.length_singleton]
    omega

/-- How many empty segments are written as an empty name and value; `ParseQuery` skips them. -/
def bareSegments (raw : Bytes) : Nat :=
  if (scanNoPolicy (segments raw) []).isSome then (segments raw).count [] else 0

theorem amp_notMem_cutAt {raw : Bytes} {p : KvPair}
    (h : p ∈ (segments raw).map (cutAt (byte '='))) : byte '&' ∉ p.1 ∧ byte '&' ∉ p.2 := by
  obtain ⟨seg, hseg, rfl⟩ := List.mem_map.1 h
  have hamp := notMem_of_mem_pieces hseg
  exact ⟨fun hx => hamp (mem_of_mem_cutAt_fst hx), fun hx => hamp (mem_of_mem_cutAt_snd hx)⟩

theorem slowPairsNoPolicy_perm (raw : Bytes) : (slowPairsNoPolicy raw).Perm (parseQuery raw) := by
  have hvals : (slowPairsNoPolicy raw).Perm
      ((sortStrings (names (parseQuery raw))).flatMap fun k =>
        (parseQuery raw).filter (·.1 = k)) := by
    refine .flatMap_left _ fun k _ => ?_
    rw [← map_mk_valuesOf]
    exact (sortStrings_perm _).map _
  refine hvals.trans (flatMap_filter_perm ?_ fun p hp => ?_)
  · exact (sortStrings_perm _).nodup_iff.2 (List.nodup_dedup _)
  · exact (sortStrings_perm _).mem_iff.2 (mem_names.2 ⟨p.2, hp⟩)

theorem parseQuery_canonicalQuery (raw : Bytes) :
    (parseQuery (canonicalQuery raw none)).Perm
      (parseQuery raw ++ List.replicate (bareSegments raw) ([], [])) := by
  unfold canonicalQuery queryPairs bareSegments
  cases hscan : scanNoPolicy (segments raw) [] with
  | none =>
    have hslow := slowPairsNoPolicy_perm raw
    simpa [parseQuery_encode_escape (hslow.length_eq.trans_le (length_parseQuery_le raw))] using hslow
  | some pairs =>
    -- the scan gives up on a ninth pair
    obtain ⟨rfl, hlen⟩ := scanNoPolicy_some hscan
    rw [List.nil_append] at hlen ⊢
    have hamp : ∀ p ∈ sortPairs ((segments raw).map (cutAt (byte '='))),
        byte '&' ∉ p.1 ∧ byte '&' ∉ p.2 := fun p hp =>
      amp_notMem_cutAt ((sortPairs_perm _).mem_iff.1 hp)
    replace hlen := hlen (Nat.zero_le 8)
    have hfew : 8 < maxParams := by decide
    rw [parseQuery_encodePairs hamp (by rw [(sortPairs_perm _).length_eq]; omega), List.filterMap_map,
      parseQuery, if_pos]
    · exact ((sortPairs_perm _).filterMap _).trans (filterMap_parse_cut _)
    · rw [List.length_map] at hlen
      exact ((count_le_length_pieces (byte '&') raw).1.trans hlen).trans_lt hfew

end Bouine.Cache
