import Mathlib.Data.List.Dedup
import Mathlib.Data.List.Sort
import Mathlib.Data.List.Perm.Basic
import Bouine.Lib.Bytes

/-! # Query strings as `net/url` reads and writes them

`unescape` and `escape` are `QueryUnescape` and `QueryEscape`, and `parseQuery` is `ParseQuery`: the
pairs in the order in which they occur, from which the `Values` map is read by name. Escaping is
undone by unescaping, and writing pairs as a query by cutting it.
-/

namespace Bouine.Lib.UrlQuery

open Lib List

/-! ## Segments -/

abbrev segments (raw : Bytes) : List Bytes := pieces (byte '&') raw

/-! ## Escaping -/

def unhex (c : UInt8) : Option UInt8 :=
  if byte '0' ≤ c ∧ c ≤ byte '9' then some (c - byte '0')
  else if byte 'a' ≤ c ∧ c ≤ byte 'f' then some (c - byte 'a' + 10)
  else if byte 'A' ≤ c ∧ c ≤ byte 'F' then some (c - byte 'A' + 10)
  else none

/-- `QueryUnescape`; `none` on a bad escape. -/
def unescape : Bytes → Option Bytes
  | [] => some []
  | c :: s =>
    if c = byte '%' then
      match s with
      | h :: l :: rest =>
        match unhex h, unhex l with
        | some a, some b => (unescape rest).map ((a * 16 + b) :: ·)
        | _, _ => none
      | _ => none
    else if c = byte '+' then (unescape s).map (byte ' ' :: ·)
    else (unescape s).map (c :: ·)

/-- Letters, digits and `-`, `_`, `.`, `~` stand for themselves. -/
def isUnreserved (c : UInt8) : Bool :=
  (byte 'a' ≤ c && c ≤ byte 'z') || (byte 'A' ≤ c && c ≤ byte 'Z') ||
    (byte '0' ≤ c && c ≤ byte '9') || c == byte '-' || c == byte '_' || c == byte '.' ||
    c == byte '~'

def upperHex (n : UInt8) : UInt8 := if n < 10 then byte '0' + n else byte 'A' + (n - 10)

def escapeByte (c : UInt8) : Bytes :=
  if c = byte ' ' then [byte '+']
  else if isUnreserved c then [c]
  else [byte '%', upperHex (c / 16), upperHex (c % 16)]

def escape (s : Bytes) : Bytes := s.flatMap escapeByte

theorem hex_digits : ∀ c : UInt8, unhex (upperHex (c / 16)) = some (c / 16) ∧
    unhex (upperHex (c % 16)) = some (c % 16) ∧ c / 16 * 16 + c % 16 = c :=
  forall_byte (by decide +kernel)

@[simp] theorem unescape_plus (s : Bytes) :
    unescape (byte '+' :: s) = (unescape s).map (byte ' ' :: ·) := by
  rw [unescape.eq_def]
  rfl

theorem unescape_pct {h l a b : UInt8} (ha : unhex h = some a) (hb : unhex l = some b) (s : Bytes) :
    unescape (byte '%' :: h :: l :: s) = (unescape s).map ((a * 16 + b) :: ·) := by
  rw [unescape.eq_def]
  simp [ha, hb]

theorem unescape_plain {c : UInt8} (hp : c ≠ byte '%') (hplus : c ≠ byte '+') (s : Bytes) :
    unescape (c :: s) = (unescape s).map (c :: ·) := by
  rw [unescape.eq_def]
  simp [if_neg hp, if_neg hplus]

theorem unescape_escapeByte (c : UInt8) (s : Bytes) :
    unescape (escapeByte c ++ s) = (unescape s).map (c :: ·) := by
  unfold escapeByte
  split_ifs with hspace hun
  · subst hspace
    exact unescape_plus s
  · have hmarks : ∀ c, isUnreserved c = true → c ≠ byte '%' ∧ c ≠ byte '+' :=
      forall_byte (by decide +kernel)
    exact unescape_plain (hmarks c hun).1 (hmarks c hun).2 s
  · obtain ⟨hdiv, hmod, hsum⟩ := hex_digits c
    have hpct := unescape_pct hdiv hmod s
    rwa [hsum] at hpct

theorem unescape_escape (s : Bytes) : unescape (escape s) = some s := by
  induction s with
  | nil => rfl
  | cons c s ih =>
    show unescape (escapeByte c ++ escape s) = _
    rw [unescape_escapeByte, ih]
    rfl

/-- Escaped text has none of the bytes that structure a query. -/
theorem ne_of_mem_escape {s : Bytes} {x : UInt8} (h : x ∈ escape s) :
    x ≠ byte '&' ∧ x ≠ byte '=' ∧ x ≠ byte ';' ∧ x ≠ byte '|' := by
  obtain ⟨c, -, hx⟩ := mem_flatMap.1 h
  have hall := forall_byte (P := fun c => (escapeByte c).all (fun x =>
    x ≠ byte '&' ∧ x ≠ byte '=' ∧ x ≠ byte ';' ∧ x ≠ byte '|') = true) (by decide +kernel) c
  exact of_decide_eq_true (all_eq_true.1 hall x hx)

/-! ## Writing pairs -/

def joinPair (p : Bytes × Bytes) : Bytes := p.1 ++ byte '=' :: p.2

/-- The pairs as `name=value`, joined by ampersands. -/
def encodePairs : List (Bytes × Bytes) → Bytes
  | [] => []
  | [p] => joinPair p
  | p :: q :: ps => joinPair p ++ byte '&' :: encodePairs (q :: ps)

def escapePair (p : Bytes × Bytes) : Bytes × Bytes := (escape p.1, escape p.2)

@[simp] theorem joinPair_ne_nil (p : Bytes × Bytes) : joinPair p ≠ [] := by simp [joinPair]

theorem encodePairs_cons (p : Bytes × Bytes) (ps : List (Bytes × Bytes)) :
    encodePairs (p :: ps) = joinPair p ++ ps.flatMap fun q => byte '&' :: joinPair q := by
  induction ps generalizing p with
  | nil => simp [encodePairs]
  | cons q ps ih => simp [encodePairs, ih]

theorem cutAt_joinPair {p : Bytes × Bytes} (h : byte '=' ∉ p.1) :
    cutAt (byte '=') (joinPair p) = p :=
  cutAt_append h p.2

variable {ps : List (Bytes × Bytes)}

theorem segments_encodePairs (h : ∀ p ∈ ps, byte '&' ∉ p.1 ∧ byte '&' ∉ p.2) :
    segments (encodePairs ps) = ps.map joinPair := by
  induction ps with
  | nil => rfl
  | cons p ps ih =>
    have hp : byte '&' ∉ joinPair p := by
      have hne : byte '&' ≠ byte '=' := by decide
      simp [joinPair, (h p (by simp)), hne]
    cases ps with
    | nil => exact pieces_of_notMem hp (joinPair_ne_nil p)
    | cons q ps =>
      have ih' := ih fun r hr => h r (.tail _ hr)
      rw [encodePairs, segments, pieces_append hp]
      exact congrArg (joinPair p :: ·) ih'

theorem count_encodePairs (h : ∀ p ∈ ps, byte '&' ∉ p.1 ∧ byte '&' ∉ p.2) :
    (encodePairs ps).count (byte '&') = ps.length - 1 := by
  have hnone : ∀ p ∈ ps, (joinPair p).count (byte '&') = 0 := by
    intro p hp
    have hne : byte '=' ≠ byte '&' := by decide
    simp [joinPair, count_eq_zero.2 (h p hp).1, count_eq_zero.2 (h p hp).2, hne]
  cases ps with
  | nil => rfl
  | cons p ps =>
    have htail : (ps.flatMap fun q => byte '&' :: joinPair q).count (byte '&') = ps.length := by
      rw [count_flatMap, map_congr_left (g := fun _ => 1)]
      · simp
      · intro q hq
        simp [hnone q (.tail _ hq)]
    rw [encodePairs_cons, count_append, hnone p (.head _), htail, length_cons]
    omega

theorem amp_notMem_escapePair (p : Bytes × Bytes) :
    byte '&' ∉ (escapePair p).1 ∧ byte '&' ∉ (escapePair p).2 :=
  ⟨fun h => (ne_of_mem_escape h).1 rfl, fun h => (ne_of_mem_escape h).1 rfl⟩

/-! ## Reading pairs -/

def decodeSegment (seg : Bytes) : Option (Bytes × Bytes) :=
  let kv := cutAt (byte '=') seg
  match unescape kv.1, unescape kv.2 with
  | some k, some v => some (k, v)
  | _, _ => none

/-- What `ParseQuery` makes of a segment: nothing if it is empty, has a semicolon or a bad escape.
-/
def parseSegment (seg : Bytes) : Option (Bytes × Bytes) :=
  if seg = [] ∨ byte ';' ∈ seg then none else decodeSegment seg

/-- The number of parameters past which `ParseQuery` reads none. -/
def maxParams : Nat := 10000

/-- `ParseQuery`, its pairs in the order in which they join the `Values` map. -/
def parseQuery (raw : Bytes) : List (Bytes × Bytes) :=
  if raw.count (byte '&') < maxParams then (segments raw).filterMap parseSegment else []

def decoded (seg : Bytes) : Bytes × Bytes := (decodeSegment seg).getD ([], [])

def decodeQuery (raw : Bytes) : Option (List (Bytes × Bytes)) :=
  if ∀ seg ∈ segments raw, (decodeSegment seg).isSome then some ((segments raw).map decoded)
  else none

def names (ps : List (Bytes × Bytes)) : List Bytes := (ps.map Prod.fst).dedup

def valuesOf (ps : List (Bytes × Bytes)) (k : Bytes) : List Bytes :=
  (ps.filter (·.1 = k)).map Prod.snd

/-- A segment with its equals sign written out reads as the segment did. -/
theorem decodeSegment_joinPair_cutAt (seg : Bytes) :
    decodeSegment (joinPair (cutAt (byte '=') seg)) = decodeSegment seg := by
  unfold decodeSegment
  rw [cutAt_joinPair (notMem_cutAt_fst _ _)]

/-- Writing the equals sign out matters to an empty segment only: it becomes a pair. -/
theorem parseSegment_joinPair_cutAt (seg : Bytes) :
    parseSegment (joinPair (cutAt (byte '=') seg)) =
      if seg = [] then some ([], []) else parseSegment seg := by
  by_cases hseg : seg = []
  · subst hseg
    rfl
  · have hsemi : byte ';' ∈ joinPair (cutAt (byte '=') seg) ↔ byte ';' ∈ seg := by
      have hne : byte ';' ≠ byte '=' := by decide
      rw [← mem_cutAt hne seg]
      simp [joinPair, hne]
    simp [parseSegment, hseg, hsemi, decodeSegment_joinPair_cutAt]

theorem filterMap_parse_cut (segs : List Bytes) :
    ((segs.map (cutAt (byte '='))).filterMap (parseSegment ∘ joinPair)).Perm
      (segs.filterMap parseSegment ++ List.replicate (segs.count []) ([], [])) := by
  induction segs with
  | nil => simp
  | cons seg segs ih =>
    have hhead := parseSegment_joinPair_cutAt seg
    by_cases hseg : seg = []
    · subst hseg
      rw [count_cons_self]
      exact (ih.cons _).trans perm_middle.symm
    · rw [if_neg hseg] at hhead
      rw [map_cons, count_cons_of_ne hseg]
      cases hp : parseSegment seg with
      | none =>
        rw [filterMap_cons_none (by rw [Function.comp_apply, hhead, hp]), filterMap_cons_none hp]
        exact ih
      | some p =>
        rw [filterMap_cons_some (by rw [Function.comp_apply, hhead, hp]), filterMap_cons_some hp]
        exact ih.cons p

theorem decodeSegment_escapePair (p : Bytes × Bytes) :
    decodeSegment (joinPair (escapePair p)) = some p := by
  have hcut : cutAt (byte '=') (joinPair (escapePair p)) = escapePair p :=
    cutAt_joinPair fun h => (ne_of_mem_escape h).2.1 rfl
  unfold decodeSegment
  rw [hcut]
  simp [escapePair, unescape_escape]

theorem parseSegment_escapePair (p : Bytes × Bytes) :
    parseSegment (joinPair (escapePair p)) = some p := by
  have hsemi : byte ';' ∉ joinPair (escapePair p) := by
    intro h
    simp only [joinPair, mem_append, mem_cons] at h
    rcases h with h | h | h
    · exact (ne_of_mem_escape h).2.2.1 rfl
    · exact absurd h (by decide)
    · exact (ne_of_mem_escape h).2.2.1 rfl
  rw [parseSegment, if_neg (by simp [hsemi]), decodeSegment_escapePair]

theorem length_parseQuery_le (raw : Bytes) : (parseQuery raw).length ≤ maxParams := by
  unfold parseQuery
  split_ifs with hfew
  · have hsegs := (count_le_length_pieces (byte '&') raw).2
    exact (length_filterMap_le _ _).trans (hsegs.trans hfew)
  · exact Nat.zero_le _

/-- Pairs written as a query are read back segment by segment, if they are not too many. -/
theorem parseQuery_encodePairs (hamp : ∀ p ∈ ps, byte '&' ∉ p.1 ∧ byte '&' ∉ p.2)
    (hfew : ps.length ≤ maxParams) :
    parseQuery (encodePairs ps) = (ps.map joinPair).filterMap parseSegment := by
  have hcount := count_encodePairs hamp
  rw [parseQuery, segments_encodePairs hamp, if_pos]
  have : 0 < maxParams := by decide
  omega

theorem parseQuery_encode_escape {ps : List (Bytes × Bytes)} (hfew : ps.length ≤ maxParams) :
    parseQuery (encodePairs (ps.map escapePair)) = ps := by
  have hamp : ∀ p ∈ ps.map escapePair, byte '&' ∉ p.1 ∧ byte '&' ∉ p.2 := by
    intro p hp
    obtain ⟨q, -, rfl⟩ := mem_map.1 hp
    exact amp_notMem_escapePair q
  rw [parseQuery_encodePairs hamp (by rwa [length_map]), map_map, filterMap_map]
  have : (parseSegment ∘ joinPair ∘ escapePair) = some := funext parseSegment_escapePair
  rw [this, filterMap_some]

theorem decodeQuery_eq_some {raw : Bytes} :
    decodeQuery raw = some ps ↔
      (∀ seg ∈ segments raw, (decodeSegment seg).isSome) ∧ ps = (segments raw).map decoded := by
  unfold decodeQuery
  split_ifs with h
  · rw [Option.some.injEq]
    exact ⟨fun he => ⟨h, he.symm⟩, fun he => he.2.symm⟩
  · exact ⟨fun he => absurd he (by simp), fun he => absurd he.1 h⟩

theorem decodeQuery_encodePairs (hamp : ∀ p ∈ ps, byte '&' ∉ p.1 ∧ byte '&' ∉ p.2)
    (hdec : ∀ p ∈ ps, (decodeSegment (joinPair p)).isSome) :
    decodeQuery (encodePairs ps) = some (ps.map fun p => decoded (joinPair p)) := by
  rw [decodeQuery_eq_some, segments_encodePairs hamp, map_map]
  refine ⟨fun seg hseg => ?_, rfl⟩
  obtain ⟨p, hp, rfl⟩ := mem_map.1 hseg
  exact hdec p hp

theorem decodeQuery_encode_escape (ps : List (Bytes × Bytes)) :
    decodeQuery (encodePairs (ps.map escapePair)) = some ps := by
  rw [decodeQuery_encodePairs]
  · have : ∀ p : Bytes × Bytes, decoded (joinPair (escapePair p)) = p := fun p => by
      simp [decoded, decodeSegment_escapePair]
    simp [Function.comp_def, this]
  · intro p hp
    obtain ⟨q, -, rfl⟩ := mem_map.1 hp
    exact amp_notMem_escapePair q
  · intro p hp
    obtain ⟨q, -, rfl⟩ := mem_map.1 hp
    simp [decodeSegment_escapePair]

/-- Among decodable segments `ParseQuery` leaves out the empty ones and those with semicolons, or all
if they are too many. -/
theorem parseQuery_of_decodable {raw : Bytes}
    (h : ∀ seg ∈ segments raw, (decodeSegment seg).isSome) :
    parseQuery raw = ((segments raw).filter fun seg =>
      raw.count (byte '&') < maxParams ∧ seg ≠ [] ∧ byte ';' ∉ seg).map decoded := by
  unfold parseQuery
  split_ifs with hfew
  swap
  · simp [hfew]
  simp only [hfew, true_and]
  rw [← filterMap_eq_map, filterMap_filter]
  refine filterMap_congr fun seg hseg => ?_
  obtain ⟨kv, hkv⟩ := Option.isSome_iff_exists.1 (h seg hseg)
  by_cases hskip : seg = [] ∨ byte ';' ∈ seg
  · have : ¬ (seg ≠ [] ∧ byte ';' ∉ seg) := by tauto
    simp [parseSegment, this]
  · have : seg ≠ [] ∧ byte ';' ∉ seg := by tauto
    simp [parseSegment, this, decoded, hkv]

theorem unescape_ne_nil {s t : Bytes} (h : unescape s = some t) : t = [] ↔ s = [] := by
  constructor
  · rintro rfl
    cases s with
    | nil => rfl
    | cons c s =>
      rw [unescape.eq_def] at h
      revert h
      simp only
      split_ifs
      · split
        · split <;> simp
        · simp
      · simp
      · simp
  · rintro rfl
    exact (Option.some.inj h).symm

/-- What decoding makes of the two halves of a segment. -/
theorem unescape_of_decodable {seg : Bytes} (h : (decodeSegment seg).isSome) :
    unescape (cutAt (byte '=') seg).1 = some (decoded seg).1 ∧
      unescape (cutAt (byte '=') seg).2 = some (decoded seg).2 := by
  unfold decoded
  unfold decodeSegment at *
  cases hk : unescape (cutAt (byte '=') seg).1 <;>
    cases hv : unescape (cutAt (byte '=') seg).2 <;> simp_all

/-! ## Grouping by name -/

/-- Listing the pairs name by name permutes them, provided every name is visited once. -/
theorem flatMap_filter_perm {ks : List Bytes} (hnd : ks.Nodup) (hks : ∀ p ∈ ps, p.1 ∈ ks) :
    (ks.flatMap fun k => ps.filter (·.1 = k)).Perm ps := by
  induction ks generalizing ps with
  | nil =>
    have : ps = [] := eq_nil_iff_forall_not_mem.2 fun p hp => by simpa using hks p hp
    simp [this]
  | cons k ks ih =>
    obtain ⟨hk, hnd⟩ := nodup_cons.1 hnd
    have hrest : (ks.flatMap fun j => ps.filter (·.1 = j)) =
        ks.flatMap fun j => (ps.filter (¬ ·.1 = k)).filter (·.1 = j) := by
      refine flatMap_congr fun j hj => ?_
      rw [filter_filter]
      refine filter_congr fun p _ => ?_
      have hjk : j ≠ k := fun h => hk (h ▸ hj)
      by_cases hp : p.1 = j <;> simp [hp, hjk]
    have ih' := @ih (ps.filter (¬ ·.1 = k)) hnd fun p hp => by
      obtain ⟨hp, hpk⟩ := mem_filter.1 hp
      simpa [show p.1 ≠ k by simpa using hpk] using hks p hp
    rw [flatMap_cons, hrest]
    refine (ih'.append_left _).trans ?_
    simpa using filter_append_perm (fun p : Bytes × Bytes => decide (p.1 = k)) ps

theorem map_mk_valuesOf (ps : List (Bytes × Bytes)) (k : Bytes) :
    (valuesOf ps k).map (Prod.mk k) = ps.filter (·.1 = k) := by
  rw [valuesOf, map_map]
  refine (map_congr_left fun p hp => ?_).trans (map_id _)
  obtain ⟨-, hk⟩ := mem_filter.1 hp
  simp only [decide_eq_true_eq] at hk
  simp [← hk]

theorem mem_names {k : Bytes} : k ∈ names ps ↔ ∃ v, (k, v) ∈ ps := by
  simp [names]

end Bouine.Lib.UrlQuery
