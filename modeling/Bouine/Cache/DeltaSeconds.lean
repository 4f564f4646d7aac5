import Bouine.Lib.WhiteSpace
import Bouine.Cache.Freshness

/-! # Delta-seconds

The seconds of a directive are read and multiplied in `int64`, without a check. A value is read as
RFC 9111 §1.2.2 wants it, saturating, while its nanoseconds fit; `parseOriginAge` cuts the number
off first, so an `Age` goes wrong only when the number itself does not fit.
-/

namespace Bouine.Cache

open Lib Header List

/-- `1*DIGIT` -/
def IsDecimal (s : Bytes) : Prop := s ≠ [] ∧ ∀ c ∈ s, isDigit c = true

instance (s : Bytes) : Decidable (IsDecimal s) := inferInstanceAs (Decidable (_ ∧ _))

def decimal (s : Bytes) : Nat := s.foldl (fun n c => n * 10 + (c.toNat - 48)) 0

/-- The duration of a directive with the argument `s`. -/
def directiveDuration (f : DurDirective) (s : Bytes) : Int :=
  (f.get (parseCacheControl (f.name ++ byte '=' :: s))).1

/-- The duration of the field `Age: s`. -/
def ageDuration (s : Bytes) : Int := parseOriginAge (Map.mk [⟨Field.age, s⟩]).get

/-- Delta-seconds up to a number: not negative, monotone, and at least 2^31 seconds for what no
duration represents. -/
structure DeltaSeconds (read : Bytes → Int) (bound : Nat) : Prop where
  nonneg : ∀ s, IsDecimal s → decimal s ≤ bound → 0 ≤ read s
  monotone : ∀ s t, IsDecimal s → IsDecimal t → decimal s ≤ decimal t → decimal t ≤ bound →
    read s ≤ read t
  saturates : ∀ s, IsDecimal s → decimal s ≤ bound → maxDuration < decimal s * second →
    2 ^ 31 * second ≤ read s

/-! ## Numbers -/

theorem le_of_isDigit {c : UInt8} (h : isDigit c) : 48 ≤ c.toNat := by
  simp only [isDigit, Bool.and_eq_true, decide_eq_true_eq] at h
  exact h.1

theorem foldl_digits {step : Int → UInt8 → Int} {f : Nat → Int} {ds : Bytes}
    (hstep : ∀ n c, 48 ≤ c.toNat → step (f n) c = f (n * 10 + (c.toNat - 48)))
    (hds : ∀ c ∈ ds, isDigit c) (n : Nat) :
    ds.foldl step (f n) = f (ds.foldl (fun n c => n * 10 + (c.toNat - 48)) n) := by
  induction ds generalizing n with
  | nil => rfl
  | cons c ds ih =>
    rw [forall_mem_cons] at hds
    rw [foldl_cons, foldl_cons, ← ih hds.2, hstep n c (le_of_isDigit hds.1)]

variable {s : Bytes}

theorem parseIntNoAlloc_decimal (hs : IsDecimal s) :
    parseIntNoAlloc s = some (wrap64 (decimal s)) := by
  have htake : s.takeWhile isDigit = s := takeWhile_eq_self_iff.2 hs.2
  unfold parseIntNoAlloc
  rw [htake, if_neg hs.1]
  refine congrArg some (foldl_digits (f := fun n => wrap64 n) (fun n c hdigit => ?_) hs.2 0)
  unfold wrap64
  rw [← Int.bmod_add_bmod, Int.bmod_mul_bmod, Int.bmod_add_bmod]
  congr 1
  omega

/-- Of one occurrence the seconds are read modulo `2^64`. -/
theorem parseDurStr_decimal (hs : IsDecimal s) :
    parseDurStr 0 false s = (wrap64 (decimal s * second), true) := by
  unfold parseDurStr
  rw [parseIntNoAlloc_decimal hs]
  show (wrap64 (wrap64 (decimal s) * second), true) = _
  unfold wrap64
  rw [Int.bmod_mul_bmod]

/-! ## Directives -/

theorem tokens_directive {key val : Bytes} (hkey : ∀ c ∈ key, endsCCKey c = false) (hne : key ≠ [])
    (hval : ∀ c ∈ val, isCCDelimiter c = false ∧ c ≠ byte '"') :
    tokens (key ++ byte '=' :: val) = [(key, val)] := by
  have hdelim : ∀ c ∈ key, isCCDelimiter c = false := fun c hc => by
    have := hkey c hc
    rw [endsCCKey, Bool.or_eq_false_iff] at this
    exact this.2
  have hstart : (key ++ byte '=' :: val).dropWhile isCCDelimiter = key ++ byte '=' :: val := by
    obtain ⟨c, key, rfl⟩ := exists_cons_of_ne_nil hne
    rw [cons_append, dropWhile_cons_of_neg]
    rw [hdelim c mem_cons_self]
    exact Bool.false_ne_true
  have hword : ∀ c ∈ key, (!endsCCKey c) = true := fun c hc => by rw [hkey c hc]; rfl
  have htake : (key ++ byte '=' :: val).takeWhile (!endsCCKey ·) = key := by
    rw [takeWhile_append_of_pos hword, takeWhile_cons_of_neg (by decide), append_nil]
  have hdrop : (key ++ byte '=' :: val).dropWhile (!endsCCKey ·) = byte '=' :: val := by
    rw [dropWhile_append_of_pos hword, dropWhile_cons_of_neg (by decide)]
  have hscan : scanCCValue val = (val, []) := by
    have hall : ∀ c ∈ val, (!isCCDelimiter c) = true := fun c hc => by rw [(hval c hc).1]; rfl
    have hquote : val.head? ≠ some (byte '"') := fun h => (hval _ (mem_of_head? h)).2 rfl
    rw [scanCCValue, if_neg hquote, takeWhile_eq_self_iff.2 hall, dropWhile_eq_nil_iff.2 hall]
  have htoken : scanCCToken (key ++ byte '=' :: val) = ((key, val), []) := by
    unfold scanCCToken
    simp [htake, hdrop, hscan]
  rw [tokens_step hstart (by simp), htoken, tokens_nil]

theorem digit_plain : ∀ c, isDigit c →
    (isCCDelimiter c = false ∧ c ≠ byte '"') ∧ (c < 0x80 ∧ [c] ∉ spaces) ∧ c ≠ byte '.' :=
  forall_byte (by decide +kernel)

theorem durDirectives_names : ∀ f ∈ durDirectives, (f.name ≠ [] ∧ ∀ c ∈ f.name, endsCCKey c = false) ∧
    (boolDirectives.find? fun e => equalFold f.name e.1).isNone ∧
    ¬ equalFold f.name (ascii "no-cache") = true := by
  decide

theorem find_durDirective : ∀ f ∈ durDirectives,
    durDirectives.find? (fun g => equalFold f.name g.name) = some f := by
  intro f hf
  simp only [durDirectives, mem_cons, not_mem_nil, or_false] at hf
  rcases hf with rfl | rfl | rfl | rfl | rfl | rfl <;> rfl

theorem get_put : ∀ f ∈ durDirectives, (∀ v d, f.get (f.put v d) = v) ∧ f.get {} = (0, false) := by
  simp [durDirectives]

theorem directiveDuration_eq {f : DurDirective} (hf : f ∈ durDirectives) (hs : IsDecimal s) :
    directiveDuration f s = wrap64 (decimal s * second) := by
  obtain ⟨⟨hne, hword⟩, hbool, hnc⟩ := durDirectives_names f hf
  obtain ⟨hget, hempty⟩ := get_put f hf
  have hread : f.read (0, false) s = (wrap64 (decimal s * second), true) := by
    unfold DurDirective.read
    cases f.bare with
    | none => exact parseDurStr_decimal hs
    | some dur =>
      dsimp only
      rw [if_neg hs.1, parseDurStr_decimal hs]
  have hval : ∀ c ∈ s, isCCDelimiter c = false ∧ c ≠ byte '"' := fun c hc =>
    (digit_plain c (hs.2 c hc)).1
  have happly : applyCCDirective {} (f.name, s) = f.put (wrap64 (decimal s * second), true) {} := by
    unfold applyCCDirective applyBoolDirective applyDurDirective
    dsimp only
    rw [if_neg fun h => hnc h.1, Option.isNone_iff_eq_none.1 hbool, find_durDirective f hf]
    dsimp only [Option.map_none]
    rw [hempty, hread]
  unfold directiveDuration parseCacheControl
  rw [tokens_directive hword hne hval, foldl_cons, foldl_nil, happly, hget]

theorem ageDuration_eq (hs : IsDecimal s) : ageDuration s =
    if wrap64 (decimal s) < 0 then 0 else min (wrap64 (decimal s)) 2147483648 * second := by
  have hget : (Map.mk [⟨Field.age, s⟩]).get Field.age = s := by
    simp [Map.get, Map.first?, valuesOf]
  have htrim : trimSpace s = s :=
    trimSpace_of_no_spaces fun c hc => (digit_plain c (hs.2 c hc)).2.1
  have hdot : byte '.' ∉ s := fun hmem => (digit_plain _ (hs.2 _ hmem)).2.2 rfl
  unfold ageDuration parseOriginAge
  rw [hget, htrim, if_neg hdot, parseIntNoAlloc_decimal hs]

/-! ## Saturation -/

theorem directive_deltaSeconds_iff {f : DurDirective} (hf : f ∈ durDirectives) (bound : Nat) :
    DeltaSeconds (directiveDuration f) bound ↔ bound ≤ 9223372036 := by
  refine ⟨fun h => ?_, fun hbound => ?_⟩
  · by_contra hlarge
    have hdec : IsDecimal (ascii "9223372037") := by decide
    have hnumber : decimal (ascii "9223372037") = 9223372037 := by decide
    have hneg := h.nonneg (ascii "9223372037") hdec (by omega)
    rw [directiveDuration_eq hf hdec, hnumber] at hneg
    exact absurd hneg (by decide)
  · have hread {s : Bytes} (hs : IsDecimal s) (hle : decimal s ≤ bound) :
        directiveDuration f s = decimal s * second := by
      rw [directiveDuration_eq hf hs, wrap64_eq] <;> unfold second <;> omega
    refine ⟨fun s hs hle => ?_, fun s t hs ht hle htb => ?_, fun s hs hle habove => ?_⟩
    · rw [hread hs hle, second]
      omega
    · rw [hread hs (by omega), hread ht htb, second]
      omega
    · unfold maxDuration second at habove
      omega

theorem age_deltaSeconds_iff (bound : Nat) : DeltaSeconds ageDuration bound ↔ bound < 2 ^ 63 := by
  refine ⟨fun h => ?_, fun hbound => ?_⟩
  · by_contra hlarge
    have hdec : IsDecimal (ascii "9223372036854775808") := by decide
    have hnumber : decimal (ascii "9223372036854775808") = 9223372036854775808 := by decide
    have hsat := h.saturates (ascii "9223372036854775808") hdec (by omega) (by rw [hnumber]; decide)
    rw [ageDuration_eq hdec, hnumber] at hsat
    exact absurd hsat (by decide)
  · have hread {s : Bytes} (hs : IsDecimal s) (hle : decimal s ≤ bound) :
        ageDuration s = min (decimal s : Int) 2147483648 * second := by
      rw [ageDuration_eq hs, wrap64_eq (by omega) (by omega), if_neg (by omega)]
    refine ⟨fun s hs hle => ?_, fun s t hs ht hle htb => ?_, fun s hs hle habove => ?_⟩
    · rw [hread hs hle, second]
      omega
    · rw [hread hs (by omega), hread ht htb, second]
      omega
    · rw [hread hs hle]
      unfold maxDuration second at *
      omega

/-- The durations of directives are delta-seconds up to the greatest number whose nanoseconds fit;
an age is up to the greatest that fits. -/
theorem deltaSeconds_iff {f : DurDirective} (hf : f ∈ durDirectives) (bound : Nat) :
    (DeltaSeconds (directiveDuration f) bound ↔ bound ≤ 9223372036) ∧
      (DeltaSeconds ageDuration bound ↔ bound < 2 ^ 63) :=
  ⟨directive_deltaSeconds_iff hf bound, age_deltaSeconds_iff bound⟩

theorem deltaSeconds_first_directive :
    ∃ f ∈ durDirectives, f.name = ascii "max-age" ∧ DeltaSeconds (directiveDuration f) 9223372036 :=
  ⟨_, (.head _), rfl, (deltaSeconds_iff (.head _) _).1.2 (le_rfl)⟩

/-- One second more is a negative duration, and an age beyond `int64` is none at all. -/
theorem long_numbers_wrap :
    (∀ f ∈ durDirectives, directiveDuration f (ascii "9223372037") < 0) ∧
      ageDuration (ascii "9223372036854775808") = 0 ∧
      ageDuration (ascii "9223372036854775807") = 2 ^ 31 * second := by
  decide +kernel

end Bouine.Cache
