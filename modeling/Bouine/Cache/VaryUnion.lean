import Bouine.Lib.ByteOrder
import Bouine.Lib.LowerCase
import Bouine.Cache.EffectiveVary

/-! # The union of Vary lists

Under a policy that keys variants `effectiveVary` (`internal/cache/stream.go`) stores the fields of
the origin and of the route as one sorted list. That does not depend on how the origin spells its
fields, except that a list element without a name is kept as a field with an empty name.
-/

namespace Bouine.Cache

open Lib Header
open List hiding splitOn

/-! ## Sorted lists -/

theorem unionText_congr {l l' : List Bytes} (h : ∀ f, f ∈ l ↔ f ∈ l') : unionText l = unionText l' := by
  rw [unionText, unionText, sortStrings, sortStrings, destutter_sort_congr h]

theorem unionText_nil_cons {l : List Bytes} (hne : l ≠ []) (hnil : [] ∉ l) :
    unionText ([] :: l) = comma ++ unionText l := by
  rw [unionText, unionText, sortStrings, sortStrings, destutter_sort_nil_cons hnil]
  cases hs : (l.insertionSort bytesLE).destutter (· ≠ ·) with
  | nil =>
    rw [destutter_eq_nil] at hs
    exact absurd (perm_nil.1 (hs ▸ (perm_insertionSort bytesLE l).symm)) hne
  | cons f fs => rw [intercalate_cons_cons, nil_append]

theorem unionText_eq_iff {l l' : List Bytes} (hne : ∃ f ∈ l, f ≠ [])
    (hsame : ∀ f ≠ [], f ∈ l ↔ f ∈ l') : unionText l = unionText l' ↔ ([] ∈ l ↔ [] ∈ l') := by
  -- with an empty name the text is longer
  have hlonger {a b : List Bytes} (hb : b ≠ []) (ha : [] ∈ a) (hnil : [] ∉ b)
      (hab : ∀ f ≠ [], f ∈ a ↔ f ∈ b) : unionText a ≠ unionText b := by
    have htext : unionText a = comma ++ unionText b := by
      rw [← unionText_nil_cons hb hnil]
      refine unionText_congr fun f => ?_
      by_cases hf : f = []
      · simp [hf, ha]
      · simp [hf, hab f hf]
    intro heq
    have hlen := congrArg length (htext.symm.trans heq)
    rw [length_append] at hlen
    exact absurd hlen (by simp [comma, ascii])
  obtain ⟨f, hf, hf0⟩ := hne
  have hl : l ≠ [] := ne_nil_of_mem hf
  have hl' : l' ≠ [] := ne_nil_of_mem ((hsame f hf0).1 hf)
  constructor
  · intro heq
    by_contra hdiff
    by_cases hnil : [] ∈ l
    · exact hlonger hl' hnil (fun h => hdiff (iff_of_true hnil h)) hsame heq
    · exact hlonger hl (by_contra fun h => hdiff (iff_of_false hnil h)) hnil
        (fun f hf => (hsame f hf).symm) heq.symm
  · intro hnil
    refine unionText_congr fun f => ?_
    by_cases hf : f = []
    · rw [hf, hnil]
    · exact hsame f hf

theorem unionText_append_eq_iff {l l' fs : List Bytes} (hfs : fs ≠ [])
    (hsame : ∀ f ≠ [], f ∈ l ++ fs ↔ f ∈ l' ++ fs) :
    unionText (l ++ fs) = unionText (l' ++ fs) ↔ [] ∈ fs ∨ ([] ∈ l ↔ [] ∈ l') := by
  by_cases hnil : [] ∈ fs
  · simp only [hnil, true_or, iff_true]
    refine unionText_congr fun f => ?_
    by_cases hf : f = []
    · simp [hf, hnil]
    · exact hsame f hf
  · obtain ⟨f, hf⟩ := exists_mem_of_ne_nil fs hfs
    have hf0 : f ≠ [] := fun h => hnil (h ▸ hf)
    rw [unionText_eq_iff ⟨f, mem_append_right l hf, hf0⟩ hsame]
    simp [hnil]

/-! ## Fields over all lines -/

section

variable {W : Type*} (lib : Stdlib W)

def varyName (f : Bytes) : Bytes := trimSpace (toLowerText lib.lowerRune f)

def varyElements (h : Map) : List Bytes :=
  (valuesOf Field.vary h.entries).flatMap fun line => (splitOn (byte ',') line).map (varyName lib)

def HasBlank (h : Map) : Prop := h.getAll Field.vary ≠ [] ∧ [] ∈ varyElements lib h

instance (h : Map) : Decidable (HasBlank lib h) := inferInstanceAs (Decidable (_ ∧ _))

variable {lib} (table : LowerTable lib.lowerRune)

include table

theorem varyName_space_cons (f : Bytes) : varyName lib (byte ' ' :: f) = varyName lib f := by
  have hspace : trimSpace (byte ' ' :: f) = trimSpace f := trimSpace_space_append (w := [byte ' ']) (by decide) f
  rw [varyName, varyName, trimSpace_toLowerText table, trimSpace_toLowerText table, hspace]

theorem map_varyName_space_cons (line : Bytes) :
    (splitOn (byte ',') (byte ' ' :: line)).map (varyName lib) =
      (splitOn (byte ',') line).map (varyName lib) := by
  obtain ⟨g, gs, hline, hcons⟩ := splitOn_cons_of_ne (show byte ' ' ≠ byte ',' by decide) line
  rw [hline, hcons, map_cons, map_cons, varyName_space_cons table]

theorem map_varyName_joined (line : Bytes) (lines : List Bytes) :
    (splitOn (byte ',') (List.intercalate comma (line :: lines))).map (varyName lib) =
      (line :: lines).flatMap fun l => (splitOn (byte ',') l).map (varyName lib) := by
  induction lines generalizing line with
  | nil => simp
  | cons next lines ih =>
    have hjoin : intercalate comma (line :: next :: lines) =
        line ++ byte ',' :: byte ' ' :: intercalate comma (next :: lines) := by
      rfl
    rw [hjoin, splitOn_append_sep, map_append, map_varyName_space_cons table, ih]
    rfl

theorem mem_declaredFields_iff (h : Map) (f : Bytes) :
    f ∈ declaredFields lib (h.getAll Field.vary) ↔
      h.getAll Field.vary ≠ [] ∧ f ∈ varyElements lib h := by
  have hcanonical : isCanonical Field.vary = true := by decide
  unfold declaredFields
  split_ifs with hjoined
  · simp [hjoined]
  · rw [and_iff_right hjoined, varyElements, Map.getAll_of_isCanonical hcanonical]
    rw [Map.getAll_of_isCanonical hcanonical] at hjoined
    cases hlines : valuesOf Field.vary h.entries with
    | nil => exact absurd (by rw [hlines]; rfl) hjoined
    | cons line lines =>
      have := map_varyName_joined table line lines
      rw [← this]
      rfl

theorem mem_declaredFields_of_ne_nil (h : Map) {f : Bytes} (hf : f ≠ []) :
    f ∈ declaredFields lib (h.getAll Field.vary) ↔ f ∈ varyElements lib h := by
  rw [mem_declaredFields_iff table, and_iff_right_iff_imp]
  intro hmem hjoined
  -- only one empty line joins to nothing, and it has but the empty element
  rw [Map.getAll_of_isCanonical (by decide)] at hjoined
  unfold varyElements at hmem
  cases hlines : valuesOf Field.vary h.entries with
  | nil =>
    rw [hlines] at hmem
    cases hmem
  | cons line lines =>
    rw [hlines] at hmem hjoined
    have hempty := append_eq_nil_iff.1 ((intercalate_cons line lines).symm.trans hjoined)
    have hlast : lines = [] := by
      cases lines with
      | nil => rfl
      | cons next lines => cases hempty.2
    rw [hempty.1, hlast] at hmem
    have hname : f = varyName lib [] := mem_singleton.1 hmem
    exact hf (hname.trans (by rw [varyName, toLowerText_nil, trimSpace_nil]))

end

theorem RoutePolicy.fields_ne_nil {p : RoutePolicy} (hp : p.keysVariants) : p.fields ≠ [] := by
  unfold keysVariants at hp
  unfold fields
  simp only [Bool.or_eq_true, bne_iff_ne] at hp
  rcases hp with (hp | hp) | hp <;> simp [hp]

theorem effectiveVary_of_keysVariants {W : Type*} (lib : Stdlib W) {p : RoutePolicy}
    (hp : p.keysVariants) (h : Map) :
    effectiveVary lib h (some p) =
      unionText (declaredFields lib (h.getAll Field.vary) ++ p.fields) :=
  if_pos hp

/-- Under a policy that keys variants, headers that list the same fields beside those of the policy
have one union exactly if both or neither have a list element without a name; and one that lists no
field beyond the policy's has the policy's union exactly if it has no such element. -/
theorem effectiveVary_canonical_iff {W : Type*} {lib : Stdlib W} (table : LowerTable lib.lowerRune)
    {p : RoutePolicy} (hp : p.keysVariants = true) :
    (∀ h h' : Map, (∀ f ≠ [], f ∈ varyElements lib h ∨ f ∈ p.fields ↔
        f ∈ varyElements lib h' ∨ f ∈ p.fields) →
      (effectiveVary lib h (some p) = effectiveVary lib h' (some p) ↔
        [] ∈ p.fields ∨ (HasBlank lib h ↔ HasBlank lib h'))) ∧
    ∀ h : Map, (∀ f ≠ [], f ∈ varyElements lib h → f ∈ p.fields) →
      (effectiveVary lib h (some p) = derivedVary (some p) ↔ [] ∈ p.fields ∨ ¬ HasBlank lib h) := by
  have hfs := RoutePolicy.fields_ne_nil hp
  have hblank (h : Map) : [] ∈ declaredFields lib (h.getAll Field.vary) ↔ HasBlank lib h :=
    mem_declaredFields_iff table h []
  have hnamed (h : Map) {f : Bytes} (hf : f ≠ []) := mem_declaredFields_of_ne_nil table h hf
  constructor
  · intro h h' hsame
    rw [effectiveVary_of_keysVariants lib hp, effectiveVary_of_keysVariants lib hp,
      unionText_append_eq_iff hfs, hblank, hblank]
    intro f hf
    rw [mem_append, mem_append, hnamed h hf, hnamed h' hf]
    exact hsame f hf
  · intro h hknown
    have hderived : derivedVary (some p) = unionText ([] ++ p.fields) := rfl
    rw [effectiveVary_of_keysVariants lib hp, hderived, unionText_append_eq_iff hfs, hblank]
    · simp
    · intro f hf
      rw [mem_append, hnamed h hf, nil_append, or_iff_right_iff_imp]
      exact hknown f hf

def asciiTable (r : Nat) : Nat := if r < 0x80 then (toLowerByte r.toUInt8).toNat else r

theorem lowerTable_asciiTable : LowerTable asciiTable where
  ascii r hr := if_pos hr
  separator r hr := by
    have hascii : ∀ r < 0x80, asciiTable r = 0x2C ∨ asciiTable r ∈ spaceRunes → asciiTable r = r := by
      decide
    by_cases hlt : r < 0x80
    · exact hascii r hlt hr
    · exact if_neg hlt
  space := by decide

def tableLib : Stdlib Int := { asciiLib with lowerRune := asciiTable }

def languagePolicy : RoutePolicy where
  stripParams := []
  keepParams := none
  excludeHeaders := []
  stripPrefixes := []
  cookiePresence := []
  cookieValues := []
  stripEmpty := false
  dedup := false
  excludeHost := false
  verbatimAE := false
  includeHeaders := [ascii "accept-language"]

def varyLines (lines : List String) : Map := ⟨lines.map fun l => ⟨Field.vary, ascii l⟩⟩

/-- Fields in another order, in another case, on other lines and twice. -/
theorem respelled_vary_same_union :
    effectiveVary tableLib (varyLines ["Accept-Encoding, X-Region"]) (some languagePolicy) =
        effectiveVary tableLib (varyLines ["x-region", " X-REGION,accept-encoding\t"])
          (some languagePolicy) ∧
      effectiveVary tableLib (varyLines ["ACCEPT-LANGUAGE"]) (some languagePolicy) =
        derivedVary (some languagePolicy) := by
  have htable : LowerTable tableLib.lowerRune := lowerTable_asciiTable
  have hcanonical := effectiveVary_canonical_iff htable (p := languagePolicy) rfl
  have hone : varyElements tableLib (varyLines ["Accept-Encoding, X-Region"]) =
      [ascii "accept-encoding", ascii "x-region"] := by decide
  have htwo : varyElements tableLib (varyLines ["x-region", " X-REGION,accept-encoding\t"]) =
      [ascii "x-region", ascii "x-region", ascii "accept-encoding"] := by decide
  have hknown : varyElements tableLib (varyLines ["ACCEPT-LANGUAGE"]) = languagePolicy.fields := by
    decide
  constructor
  · refine (hcanonical.1 _ _ fun f _ => ?_).2 (.inr (by decide))
    rw [hone, htwo]
    simp only [mem_cons, not_mem_nil, or_false]
    refine or_congr_left ?_
    rw [← or_assoc, or_self, or_comm]
  · refine (hcanonical.2 _ fun f _ hf => ?_).2 (.inr (by decide))
    rwa [hknown] at hf

/-- A comma at the end adds a field with an empty name, in the union and against the policy's. -/
theorem stray_comma_changes_union :
    effectiveVary tableLib (varyLines ["Accept-Language"]) (some languagePolicy) =
        ascii "accept-language" ∧
      effectiveVary tableLib (varyLines ["Accept-Language,"]) (some languagePolicy) =
        ascii ", accept-language" ∧
      derivedVary (some languagePolicy) = ascii "accept-language" := by
  decide

end Bouine.Cache
