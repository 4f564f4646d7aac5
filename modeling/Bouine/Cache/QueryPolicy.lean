import Bouine.Lib.Select
import Bouine.Cache.CanonicalQuery

/-! # The query policy

A key policy is meant to speak of parameters: `retained` applies it to decoded names and values. The
code applies it to the spelling while it scans, and to what `ParseQuery` returns otherwise. The file
says for which queries that is the same.
-/

namespace Bouine.Cache

open Lib Lib.UrlQuery List

variable {p : KeyPolicy}

/-! ## What the policy means -/

def KeyPolicy.retains (p : KeyPolicy) (kv : KvPair) : Bool := p.nameOk kv.1 && p.valueOk kv.2

def retained (p : KeyPolicy) (params : List KvPair) : List KvPair :=
  select p.retains Prod.fst p.dedup [] params

def Denotes (query : Bytes) (params : List KvPair) : Prop :=
  ∃ kvs, decodeQuery query = some kvs ∧ ∀ kv, kv ∈ kvs ↔ kv ∈ params

/-! ## What the scan keeps -/

def rawName (seg : Bytes) : Bytes := (cutAt (byte '=') seg).1

def letsThrough (p : KeyPolicy) (seg : Bytes) : Bool :=
  p.nameOk (rawName seg) && p.valueOk (cutAt (byte '=') seg).2

/-- The segments that are let through, of one spelling the first if the policy asks for that. -/
def scanned (p : KeyPolicy) (segs : List Bytes) : List Bytes :=
  select (letsThrough p) rawName p.dedup [] segs

theorem shouldStripParam_eq_not (p : KeyPolicy) (seg : Bytes) (seen : StackSeen) :
    p.shouldStripParam (cutAt (byte '=') seg).1 (cutAt (byte '=') seg).2 seen =
      !(letsThrough p seg && !(p.dedup && seen.names.contains (rawName seg))) := by
  rw [KeyPolicy.shouldStripParam_eq]
  simp [letsThrough, rawName, StackSeen.contains]

variable {k : Bytes}

theorem markSeen_names {seen : StackSeen} (hd : p.dedup)
    (hroom : seen.names.length < 8) : (p.markSeen k seen).names = seen.names ++ [k] := by
  simp [KeyPolicy.markSeen, hd, StackSeen.add, hroom]

variable {params : List KvPair} {kv : KvPair} {segs : List Bytes} {raw : Bytes} {seg : Bytes}

theorem scan_some {seen : StackSeen} {pairs out : List KvPair}
    (hseen : p.dedup → seen.names.length = pairs.length)
    (h : scan p segs seen pairs = some out) :
    out = pairs ++
      (select (letsThrough p) rawName p.dedup seen.names segs).map (cutAt (byte '=')) := by
  induction segs generalizing seen pairs with
  | nil =>
    cases h
    simp [select]
  | cons seg segs ih =>
    simp only [scan, shouldStripParam_eq_not] at h
    simp only [select]
    by_cases hkeep :
        (letsThrough p seg && !(p.dedup && seen.names.contains (rawName seg))) = true
    · simp only [hkeep, Bool.not_true, Bool.false_eq_true, if_false] at h
      split_ifs at h with hpct hfull
      rw [if_pos hkeep]
      cases hd : p.dedup with
      | false =>
        have := ih (fun hd' => absurd hd' (by simp [hd])) h
        rw [hd] at this
        simp only [select_keep_all] at this ⊢
        simpa using this
      | true =>
        have hlen := hseen hd
        have hnames : (p.markSeen (cutAt (byte '=') seg).1 seen).names =
            seen.names ++ [rawName seg] := markSeen_names hd (by omega)
        have := ih (fun _ => by simp [hnames, hlen]) h
        rw [hnames, hd] at this
        simpa using this
    · simp only [hkeep] at h
      rw [if_neg hkeep]
      exact ih hseen h

theorem mem_scanned (h : seg ∈ scanned p segs) : seg ∈ segs ∧ letsThrough p seg = true := by
  unfold scanned at h
  cases hd : p.dedup with
  | false =>
    rw [hd, select_keep_all] at h
    exact mem_filter.1 h
  | true =>
    rw [hd, mem_select_first] at h
    have hok := find?_some h.2
    simp only [Bool.and_eq_true] at hok
    exact ⟨mem_of_find?_eq_some h.2, hok.1⟩

theorem canonicalQuery_of_scan {pairs : List KvPair}
    (hdec : ∀ seg ∈ segments raw, (decodeSegment seg).isSome)
    (h : scan p (segments raw) .empty [] = some pairs) :
    ∃ kvs, decodeQuery (canonicalQuery raw (some p)) = some kvs ∧
      ∀ kv, kv ∈ kvs ↔ ∃ seg ∈ scanned p (segments raw), decoded seg = kv := by
  have hpairs : pairs = (scanned p (segments raw)).map (cutAt (byte '=')) := by
    simpa [scanned, StackSeen.empty] using scan_some (fun _ => rfl) h
  have hquery : canonicalQuery raw (some p) = encodePairs (sortPairs pairs) := by
    simp [canonicalQuery, queryPairs, h]
  have hmem : ∀ kv, kv ∈ sortPairs pairs ↔
      ∃ seg ∈ scanned p (segments raw), cutAt (byte '=') seg = kv := by
    intro kv
    rw [(sortPairs_perm pairs).mem_iff, hpairs, mem_map]
  rw [hquery, decodeQuery_encodePairs]
  · refine ⟨_, rfl, fun kv => ?_⟩
    have hjoin : ∀ seg, decoded (joinPair (cutAt (byte '=') seg)) = decoded seg := fun seg => by
      rw [decoded, decodeSegment_joinPair_cutAt, decoded]
    simp only [mem_map, hmem]
    constructor
    · rintro ⟨_, ⟨seg, hseg, rfl⟩, rfl⟩
      exact ⟨seg, hseg, (hjoin seg).symm⟩
    · rintro ⟨seg, hseg, rfl⟩
      exact ⟨_, ⟨seg, hseg, rfl⟩, hjoin seg⟩
  · intro kv hkv
    obtain ⟨seg, hseg, rfl⟩ := (hmem kv).1 hkv
    exact amp_notMem_cutAt (mem_map_of_mem (mem_scanned hseg).1)
  · intro kv hkv
    obtain ⟨seg, hseg, rfl⟩ := (hmem kv).1 hkv
    rw [decodeSegment_joinPair_cutAt]
    exact hdec seg (mem_scanned hseg).1

/-! ## What the slow path keeps -/

theorem mem_slowPairs :
    kv ∈ slowPairs p raw ↔
      kv.1 ∈ slowKeys p (parseQuery raw) ∧ kv.2 ∈ slowValues p (parseQuery raw) kv.1 := by
  obtain ⟨k, v⟩ := kv
  simp [slowPairs, (sortStrings_perm _).mem_iff]

variable {k v : Bytes}

theorem mem_valuesOf : v ∈ valuesOf params k ↔ (k, v) ∈ params := by
  simp [valuesOf]

theorem mem_take_one_valuesOf :
    v ∈ (valuesOf params k).take 1 ↔ params.find? (·.1 == k) = some (k, v) := by
  have hhead : (params.filter (·.1 = k)).head? = params.find? (·.1 == k) := by
    rw [head?_filter]
    congr 1
    funext kv
    exact (Bool.beq_eq_decide_eq _ _).symm
  have htake : v ∈ (valuesOf params k).take 1 ↔ (valuesOf params k).head? = some v := by
    cases valuesOf params k <;> simp [eq_comm]
  rw [htake, valuesOf, head?_map, hhead, Option.map_eq_some_iff]
  constructor
  · rintro ⟨kv, hkv, rfl⟩
    have hk := find?_some hkv
    simp only [beq_iff_eq] at hk
    rw [hkv, ← hk]
  · intro h
    exact ⟨_, h, rfl⟩

theorem mem_slowKeys (hmem : (k, v) ∈ params) (hv : p.valueOk v) :
    k ∈ slowKeys p params ↔ p.nameOk k = true := by
  have hname : k ∈ names params := mem_names.2 ⟨v, hmem⟩
  have hvals : (p.stripEmpty && p.keepParams.isNone &&
      (valuesOf params k).all (· == [])) = false := by
    by_contra hall
    simp only [Bool.not_eq_false, Bool.and_eq_true, all_eq_true, beq_iff_eq] at hall
    obtain rfl := hall.2 v (mem_valuesOf.2 hmem)
    simp [KeyPolicy.valueOk, hall.1] at hv
  simp only [slowKeys, mem_filter, hname, hvals, true_and, Bool.not_false, Bool.and_true]

theorem nameOk_of_mem_slowKeys (h : k ∈ slowKeys p params) : p.nameOk k = true := by
  have := (mem_filter.1 h).2
  simp only [Bool.and_eq_true] at this
  exact this.1

theorem mem_filter_valueOk {vals : List Bytes} {v : Bytes} :
    v ∈ (if p.stripEmpty && p.keepParams.isNone then vals.filter (· ≠ []) else vals) ↔
      v ∈ vals ∧ p.valueOk v = true := by
  cases h : (p.stripEmpty && p.keepParams.isNone) <;> simp [KeyPolicy.valueOk, h]

theorem mem_slowPairs_of_values {P : Prop} (hmem : P → kv ∈ parseQuery raw)
    (hvals : kv.2 ∈ slowValues p (parseQuery raw) kv.1 ↔ P ∧ p.valueOk kv.2) :
    kv ∈ slowPairs p raw ↔ P ∧ p.retains kv = true := by
  rw [mem_slowPairs, hvals, KeyPolicy.retains, Bool.and_eq_true]
  constructor
  · rintro ⟨hk, hP, hv⟩
    exact ⟨hP, nameOk_of_mem_slowKeys hk, hv⟩
  · rintro ⟨hP, hk, hv⟩
    exact ⟨(mem_slowKeys (hmem hP) hv).2 hk, hP, hv⟩

theorem mem_slowPairs_all (hd : p.dedup = false) :
    kv ∈ slowPairs p raw ↔ kv ∈ parseQuery raw ∧ p.retains kv = true := by
  refine mem_slowPairs_of_values id ?_
  simp only [slowValues, hd, Bool.false_eq_true, if_false]
  rw [mem_filter_valueOk, (sortStrings_perm _).mem_iff, mem_valuesOf]

theorem mem_slowPairs_first (hd : p.dedup) :
    kv ∈ slowPairs p raw ↔
      (parseQuery raw).find? (·.1 == kv.1) = some kv ∧ p.retains kv = true := by
  refine mem_slowPairs_of_values mem_of_find?_eq_some ?_
  simp only [slowValues, hd, if_true]
  rw [mem_filter_valueOk, mem_take_one_valuesOf]

/-! ## When both agree -/

def firstRetained (p : KeyPolicy) (params : List KvPair) (k : Bytes) : Option KvPair :=
  params.find? fun kv => p.retains kv && kv.1 == k

def firstScanned (p : KeyPolicy) (segs : List Bytes) (spelling : Bytes) : Option Bytes :=
  segs.find? fun seg => letsThrough p seg && rawName seg == spelling

/-- The fast path judges spellings as the policy judges names. Without deduplication no segment is
let through whose name the policy strips, and each parameter it keeps has a spelling that is; with
it the first segment of each spelling is the first parameter of its name, and each kept name has a
spelling that is let through. -/
def FastFaithful (p : KeyPolicy) (segs : List Bytes) : Prop :=
  if p.dedup then
    (∀ seg ∈ segs, firstScanned p segs (rawName seg) = some seg →
      firstRetained p (segs.map decoded) (decoded seg).1 = some (decoded seg)) ∧
    ∀ seg ∈ segs, p.retains (decoded seg) = true →
      ∃ seg' ∈ segs, letsThrough p seg' = true ∧ (decoded seg').1 = (decoded seg).1
  else
    (∀ seg ∈ segs, letsThrough p seg = true → p.nameOk (decoded seg).1 = true) ∧
    ∀ seg ∈ segs, p.retains (decoded seg) = true →
      ∃ seg' ∈ segs, letsThrough p seg' = true ∧ decoded seg' = decoded seg

/-- `ParseQuery` takes notice of the segment. -/
def Parsed (raw seg : Bytes) : Prop :=
  raw.count (byte '&') < maxParams ∧ seg ≠ [] ∧ byte ';' ∉ seg

instance (raw : Bytes) : DecidablePred (Parsed raw) := fun _ =>
  inferInstanceAs (Decidable (_ ∧ _ ∧ _))

/-- The slow path loses no parameter to `ParseQuery`, and the value it takes for a name is the
first one the policy keeps. -/
def SlowFaithful (p : KeyPolicy) (raw : Bytes) : Prop :=
  if p.dedup then
    ∀ seg ∈ segments raw,
      firstRetained p ((segments raw).map decoded) (decoded seg).1 = some (decoded seg) →
        (((segments raw).filter (Parsed raw)).map decoded).find? (·.1 == (decoded seg).1) =
          some (decoded seg)
  else
    ∀ seg ∈ segments raw, p.retains (decoded seg) = true →
      ∃ seg' ∈ segments raw, Parsed raw seg' ∧ decoded seg' = decoded seg

def Faithful (p : KeyPolicy) (raw : Bytes) : Prop :=
  if (scan p (segments raw) .empty []).isSome then FastFaithful p (segments raw)
  else SlowFaithful p raw

instance (p : KeyPolicy) (segs : List Bytes) : Decidable (FastFaithful p segs) := by
  unfold FastFaithful; infer_instance

instance (p : KeyPolicy) (raw : Bytes) : Decidable (SlowFaithful p raw) := by
  unfold SlowFaithful; infer_instance

instance (p : KeyPolicy) (raw : Bytes) : Decidable (Faithful p raw) := by
  unfold Faithful; infer_instance

theorem mem_retained_all (hd : p.dedup = false) :
    kv ∈ retained p params ↔ kv ∈ params ∧ p.retains kv = true := by
  rw [retained, hd, select_keep_all, mem_filter]

theorem mem_retained_first (hd : p.dedup) :
    kv ∈ retained p params ↔ firstRetained p params kv.1 = some kv := by
  simp [retained, hd, mem_select_first, firstRetained]

theorem retains_of_first (h : firstRetained p params k = some kv) :
    kv ∈ params ∧ p.retains kv ∧ kv.1 = k := by
  have hok := find?_some h
  simp only [Bool.and_eq_true, beq_iff_eq] at hok
  exact ⟨mem_of_find?_eq_some h, hok⟩

theorem exists_firstRetained (hmem : kv ∈ params) (hkv : p.retains kv) :
    ∃ kv', firstRetained p params kv.1 = some kv' := by
  rw [← Option.isSome_iff_exists, firstRetained, find?_isSome]
  exact ⟨kv, hmem, by simp [hkv]⟩

theorem mem_scanned_first (hd : p.dedup) :
    seg ∈ scanned p segs ↔ firstScanned p segs (rawName seg) = some seg := by
  simp [scanned, hd, mem_select_first, firstScanned]

theorem exists_firstScanned (hmem : seg ∈ segs) (hseg : letsThrough p seg) :
    ∃ seg', firstScanned p segs (rawName seg) = some seg' ∧ rawName seg' = rawName seg := by
  have hsome : (firstScanned p segs (rawName seg)).isSome := by
    rw [firstScanned, find?_isSome]
    exact ⟨seg, hmem, by simp [hseg]⟩
  obtain ⟨seg', h⟩ := Option.isSome_iff_exists.1 hsome
  have hok := find?_some h
  simp only [Bool.and_eq_true, beq_iff_eq] at hok
  exact ⟨seg', h, hok.2⟩

theorem valueOk_decoded (h : (decodeSegment seg).isSome) :
    p.valueOk (cutAt (byte '=') seg).2 = p.valueOk (decoded seg).2 := by
  have hnil := unescape_ne_nil (unescape_of_decodable h).2
  have : ((cutAt (byte '=') seg).2 == []) = ((decoded seg).2 == []) := by
    rw [Bool.eq_iff_iff, beq_iff_eq, beq_iff_eq, hnil]
  simp [KeyPolicy.valueOk, this]

theorem retains_of_letsThrough (h : (decodeSegment seg).isSome) (hlet : letsThrough p seg)
    (hname : p.nameOk (decoded seg).1) : p.retains (decoded seg) = true := by
  simp only [letsThrough, Bool.and_eq_true, valueOk_decoded h] at hlet
  simp [KeyPolicy.retains, hname, hlet.2]

theorem decoded_fst_congr {seg seg' : Bytes} (h : (decodeSegment seg).isSome)
    (h' : (decodeSegment seg').isSome) (hraw : rawName seg = rawName seg') :
    (decoded seg).1 = (decoded seg').1 := by
  have := (unescape_of_decodable h).1
  rw [show (cutAt (byte '=') seg).1 = _ from hraw] at this
  exact Option.some.inj (this.symm.trans (unescape_of_decodable h').1)

theorem fast_agrees_iff (hdec : ∀ seg ∈ segs, (decodeSegment seg).isSome) :
    (∀ kv, (∃ seg ∈ scanned p segs, decoded seg = kv) ↔ kv ∈ retained p (segs.map decoded)) ↔
      FastFaithful p segs := by
  unfold FastFaithful
  cases hd : p.dedup with
  | false =>
    have hscan : ∀ seg, seg ∈ scanned p segs ↔ seg ∈ segs ∧ letsThrough p seg = true := by
      intro seg
      rw [scanned, hd, select_keep_all, mem_filter]
    simp only [hscan, mem_retained_all hd]
    constructor
    · intro h
      constructor
      · intro seg hseg hlet
        have hret := ((h (decoded seg)).1 ⟨seg, ⟨hseg, hlet⟩, rfl⟩).2
        simp only [KeyPolicy.retains, Bool.and_eq_true] at hret
        exact hret.1
      · intro seg hseg hret
        obtain ⟨seg', ⟨hseg', hlet⟩, heq⟩ := (h _).2 ⟨mem_map_of_mem hseg, hret⟩
        exact ⟨seg', hseg', hlet, heq⟩
    · rintro ⟨hsound, hcomplete⟩ kv
      constructor
      · rintro ⟨seg, ⟨hseg, hlet⟩, rfl⟩
        exact ⟨mem_map_of_mem hseg,
          retains_of_letsThrough (hdec seg hseg) hlet (hsound seg hseg hlet)⟩
      · rintro ⟨hmem, hret⟩
        obtain ⟨seg, hseg, rfl⟩ := mem_map.1 hmem
        obtain ⟨seg', hseg', hlet, heq⟩ := hcomplete seg hseg hret
        exact ⟨seg', ⟨hseg', hlet⟩, heq⟩
  | true =>
    simp only [mem_scanned_first hd, mem_retained_first hd]
    constructor
    · intro h
      constructor
      · intro seg _ hfirst
        exact (h _).1 ⟨seg, hfirst, rfl⟩
      · intro seg hseg hret
        obtain ⟨kv, hkv⟩ := exists_firstRetained (mem_map_of_mem hseg) hret
        obtain ⟨-, -, hname⟩ := retains_of_first hkv
        obtain ⟨seg', hfirst, rfl⟩ := (h kv).2 (by rw [hname, hkv])
        obtain ⟨hmem, hlet⟩ := mem_scanned ((mem_scanned_first hd).2 hfirst)
        exact ⟨seg', hmem, hlet, hname⟩
    · rintro ⟨hsound, hcomplete⟩ kv
      constructor
      · rintro ⟨seg, hfirst, rfl⟩
        exact hsound seg (mem_of_find?_eq_some hfirst) hfirst
      · intro hkv
        obtain ⟨hmem, hret, -⟩ := retains_of_first hkv
        obtain ⟨seg, hseg, rfl⟩ := mem_map.1 hmem
        obtain ⟨seg', hseg', hlet, hname⟩ := hcomplete seg hseg hret
        -- the first segment spelled that way has the same name, so it is the parameter kept
        obtain ⟨seg₀, hfirst, hraw⟩ := exists_firstScanned hseg' hlet
        have hseg₀ := mem_of_find?_eq_some hfirst
        rw [← hraw] at hfirst
        have hname₀ := decoded_fst_congr (hdec _ hseg₀) (hdec _ hseg') hraw
        have := hsound seg₀ hseg₀ hfirst
        rw [hname₀, hname, hkv] at this
        exact ⟨seg₀, hfirst, (Option.some.inj this).symm⟩

theorem mem_parseQuery_iff (hdec : ∀ seg ∈ segments raw, (decodeSegment seg).isSome) :
    kv ∈ parseQuery raw ↔ ∃ seg ∈ segments raw, Parsed raw seg ∧ decoded seg = kv := by
  rw [parseQuery_of_decodable hdec, mem_map]
  exact exists_congr fun seg => by rw [mem_filter, and_assoc, Parsed, decide_eq_true_iff]

theorem slow_agrees_iff (hdec : ∀ seg ∈ segments raw, (decodeSegment seg).isSome) :
    (∀ kv, kv ∈ slowPairs p raw ↔ kv ∈ retained p ((segments raw).map decoded)) ↔
      SlowFaithful p raw := by
  have hsub : ∀ kv ∈ parseQuery raw, kv ∈ (segments raw).map decoded := by
    intro kv hkv
    obtain ⟨seg, hseg, -, rfl⟩ := (mem_parseQuery_iff hdec).1 hkv
    exact mem_map_of_mem hseg
  have hparse : ((segments raw).filter (Parsed raw)).map decoded = parseQuery raw :=
    (parseQuery_of_decodable hdec).symm
  unfold SlowFaithful
  cases hd : p.dedup with
  | false =>
    simp only [mem_slowPairs_all hd, mem_retained_all hd]
    constructor
    · intro h seg hseg hret
      exact (mem_parseQuery_iff hdec).1 ((h _).2 ⟨mem_map_of_mem hseg, hret⟩).1
    · intro h kv
      refine ⟨fun hkv => ⟨hsub kv hkv.1, hkv.2⟩, ?_⟩
      rintro ⟨hmem, hret⟩
      obtain ⟨seg, hseg, rfl⟩ := mem_map.1 hmem
      exact ⟨(mem_parseQuery_iff hdec).2 (h seg hseg hret), hret⟩
  | true =>
    simp only [mem_slowPairs_first hd, mem_retained_first hd, hparse]
    constructor
    · intro h seg _ hfirst
      exact ((h _).2 hfirst).1
    · intro h kv
      constructor
      · rintro ⟨hfind, hret⟩
        -- some parameter of this name is kept, and the slow path takes that one
        have hmem := hsub kv (mem_of_find?_eq_some hfind)
        obtain ⟨kv', hkv'⟩ := exists_firstRetained hmem hret
        obtain ⟨hmem', -, hname⟩ := retains_of_first hkv'
        obtain ⟨seg, hseg, rfl⟩ := mem_map.1 hmem'
        have := h seg hseg (by rw [hname, hkv'])
        rw [hname, hfind] at this
        rw [hkv', Option.some.inj this]
      · intro hkv
        obtain ⟨hmem, hret, -⟩ := retains_of_first hkv
        obtain ⟨seg, hseg, rfl⟩ := mem_map.1 hmem
        exact ⟨h seg hseg hkv, hret⟩

theorem denotes_iff (h : decodeQuery raw = some params) :
    Denotes (canonicalQuery raw (some p)) (retained p params) ↔ Faithful p raw := by
  obtain ⟨hdec, rfl⟩ := decodeQuery_eq_some.1 h
  unfold Faithful
  cases hscan : scan p (segments raw) .empty [] with
  | some pairs =>
    obtain ⟨kvs, hkvs, hmem⟩ := canonicalQuery_of_scan hdec hscan
    simp [← fast_agrees_iff hdec, Denotes, hkvs, hmem]
  | none =>
    have hquery : canonicalQuery raw (some p) = encodePairs ((slowPairs p raw).map escapePair) := by
      simp [canonicalQuery, queryPairs, hscan]
    simp [← slow_agrees_iff hdec, Denotes,
      hquery, decodeQuery_encode_escape]

/-- Two spellings of the same parameters both give a key query that denotes what the policy retains
exactly when the path each takes is faithful to the policy. -/
theorem key_query_denotes_retained_iff (p : KeyPolicy) (raw raw' : Bytes) (params : List KvPair)
    (h : decodeQuery raw = some params) (h' : decodeQuery raw' = some params) :
    Denotes (canonicalQuery raw (some p)) (retained p params) ∧
        Denotes (canonicalQuery raw' (some p)) (retained p params) ↔
      Faithful p raw ∧ Faithful p raw' := by
  rw [denotes_iff h, denotes_iff h']

def KeyPolicy.keepAll : KeyPolicy where
  stripParams := []
  keepParams := none
  excludeHeaders := []
  stripPrefixes := []
  cookiePresence := []
  cookieValues := []
  stripEmpty := false
  dedup := false
  excludeHost := false
  verbatimAE := false

/-- A kept parameter with an escape in its name is missing from the key. -/
theorem escaped_name_dropped :
    let p := { KeyPolicy.keepAll with keepParams := some [ascii "a"] }
    let params := [(ascii "a", ascii "1")]
    decodeQuery (ascii "%61=1") = some params ∧ decodeQuery (ascii "a=1") = some params ∧
      retained p params = params ∧
      canonicalQuery (ascii "a=1") (some p) = ascii "a=1" ∧
      canonicalQuery (ascii "%61=1") (some p) = [] ∧
      ¬ Denotes (canonicalQuery (ascii "%61=1") (some p)) (retained p params) := by
  intro p params
  have hdec : decodeQuery (ascii "%61=1") = some params := by decide +kernel
  refine ⟨hdec, by decide +kernel, by decide +kernel, by decide +kernel, by decide +kernel, ?_⟩
  rw [denotes_iff hdec]
  decide +kernel

/-- The fast path and the slow path strip one tracking parameter in two spellings. -/
theorem tracking_parameter_stripped :
    let p := { KeyPolicy.keepAll with stripPrefixes := [ascii "utm_"] }
    let params := [(ascii "a", ascii "1"), (ascii "utm_x", ascii "2")]
    Denotes (canonicalQuery (ascii "a=1&utm_x=2") (some p)) (retained p params) ∧
      Denotes (canonicalQuery (ascii "a=1&utm%5Fx=2") (some p)) (retained p params) :=
  (key_query_denotes_retained_iff _ _ _ _ (by decide +kernel) (by decide +kernel)).2
    (by decide +kernel)

end Bouine.Cache
