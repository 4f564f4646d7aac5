import Bouine.Cache.Stored

/-! # The header of a 304

`MergeHeaders304` (`internal/cache/conditional.go`) takes the lines of a 304 into the stored header:
those of Vary together, any others one by one, each by a `Set` that writes the first stored line.
The file says which lines a field then has, and when they are those of the 304.
-/

namespace Bouine.Cache

open Lib Header List

def Field.contentSpecific : List Bytes :=
  [contentLength, contentEncoding, transferEncoding, setCookie, setLogin]

theorem Field.mem_notMerged {f : Bytes} :
    f ∈ notMerged ↔ f ∈ contentSpecific ∨ f = vary := by
  simp [notMerged, contentSpecific, or_assoc]

theorem canonicalHeaderKey_vary : canonicalHeaderKey Field.vary = Field.vary := by decide

theorem has_vary_iff (m : Map) : m.has Field.vary ↔ valuesOf Field.vary m.entries ≠ [] := by
  exact Map.has_of_isCanonical (by decide)

/-! ## The lines after the merge -/

theorem valuesOf_foldl_appendEntry (f key : Bytes) (values : List Bytes) (m : Map) :
    valuesOf f (values.foldl (·.appendEntry key) m).entries =
      valuesOf f m.entries ++ if f = canonicalHeaderKey key then values else [] := by
  induction values generalizing m with
  | nil => simp
  | cons v values ih =>
    rw [foldl_cons, ih]
    by_cases hf : f = canonicalHeaderKey key
    · simp [Map.appendEntry, valuesOf, hf]
    · simp [Map.appendEntry, valuesOf, hf, Ne.symm hf]

theorem valuesOf_withoutVary (f : Bytes) (m : Map) :
    valuesOf f (withoutVary m).entries =
      if f = Field.vary then [] else valuesOf f m.entries := by
  rw [withoutVary, valuesOf_filter f fun n => n ≠ Field.vary]
  by_cases hf : f = Field.vary <;> simp

theorem valuesOf_mergeVary (stored resp304 : Map) (f : Bytes) :
    valuesOf f (if resp304.has Field.vary then
      (valuesOf Field.vary resp304.entries).foldl (·.appendEntry Field.vary) (withoutVary stored)
      else stored).entries =
      if f = Field.vary ∧ valuesOf f resp304.entries ≠ [] then valuesOf f resp304.entries
      else valuesOf f stored.entries := by
  split_ifs with hhas hf hf
  · rw [valuesOf_foldl_appendEntry, valuesOf_withoutVary, canonicalHeaderKey_vary, if_pos hf.1,
      if_pos hf.1, nil_append, hf.1]
  · have hvary : f ≠ Field.vary := fun h => hf ⟨h, h ▸ (has_vary_iff _).1 hhas⟩
    rw [valuesOf_foldl_appendEntry, valuesOf_withoutVary, canonicalHeaderKey_vary, if_neg hvary,
      if_neg hvary, append_nil]
  · exact absurd ((has_vary_iff _).2 (hf.1 ▸ hf.2)) hhas
  · rfl

section

variable (stored : Map) {resp304 : Map}
  (hcanonical : ∀ e ∈ resp304.entries, isCanonical e.name = true)

include hcanonical

variable {f : Bytes}

theorem filter_merged :
    ((resp304.entries.filter fun e => !Field.notMerged.contains e.name).filter
      fun e => canonicalHeaderKey e.name = f).map Line.value =
        if !Field.notMerged.contains f then valuesOf f resp304.entries else [] := by
  rw [← valuesOf_filter f fun n => !Field.notMerged.contains n, valuesOf]
  congr 1
  refine filter_congr fun e he => ?_
  rw [canonicalHeaderKey_of_isCanonical (hcanonical e (mem_of_mem_filter he))]

theorem valuesOf_mergeHeaders304 (hf : f ∉ Field.notMerged) :
    valuesOf f (mergeHeaders304 stored resp304).entries =
      match (valuesOf f resp304.entries).getLast? with
      | some v => v :: (valuesOf f stored.entries).drop 1
      | none => valuesOf f stored.entries := by
  have hvary : f ≠ Field.vary := fun h => hf (Field.mem_notMerged.2 (.inr h))
  rewrite [mergeHeaders304, Map.valuesOf_foldl_set, filter_merged hcanonical, if_pos (by simpa using hf),
    valuesOf_mergeVary, if_neg fun h => hvary h.1]
  rfl

theorem valuesOf_mergeHeaders304_of_mem (hf : f ∈ Field.notMerged) :
    valuesOf f (mergeHeaders304 stored resp304).entries =
      if f = Field.vary ∧ valuesOf f resp304.entries ≠ [] then valuesOf f resp304.entries
      else valuesOf f stored.entries := by
  rw [mergeHeaders304, Map.valuesOf_foldl_set, filter_merged hcanonical, if_neg (by simpa using hf),
    getLast?_nil, valuesOf_mergeVary]

end

/-! ## Whole fields -/

/-- Each field of the 304 has the lines of the 304, and every other field those it had. -/
def MergesWhole (stored resp304 : Map) : Prop :=
  ∀ f, valuesOf f (mergeHeaders304 stored resp304).entries =
    if f ∉ Field.contentSpecific ∧ valuesOf f resp304.entries ≠ [] then valuesOf f resp304.entries
    else valuesOf f stored.entries

/-- The first line becomes the last one of the 304, and the others stay: those are the lines of the
304 if its others are the stored ones and its last is its first. -/
theorem cons_drop_eq_iff {new old : List Bytes} {v : Bytes} (hv : new.getLast? = some v) :
    v :: old.drop 1 = new ↔ new.head? = new.getLast? ∧ new.tail = old.tail := by
  cases new with
  | nil => simp at hv
  | cons n new =>
    rw [hv, drop_one, cons.injEq, head?_cons, Option.some.injEq]
    exact and_congr eq_comm eq_comm

/-- A merge replaces whole fields exactly if every field of the 304 but Vary has, after its first
line, the lines that are stored there, and ends with the line it starts with. -/
theorem merges_whole_iff (stored : Map) {resp304 : Map}
    (hcanonical : ∀ e ∈ resp304.entries, isCanonical e.name = true) :
    MergesWhole stored resp304 ↔ ∀ f ∉ Field.notMerged, valuesOf f resp304.entries ≠ [] →
      (valuesOf f resp304.entries).head? = (valuesOf f resp304.entries).getLast? ∧
        (valuesOf f resp304.entries).tail = (valuesOf f stored.entries).tail := by
  refine forall_congr' fun f => ?_
  by_cases hf : f ∈ Field.notMerged
  · have hkept : (f ∉ Field.contentSpecific ∧ valuesOf f resp304.entries ≠ []) ↔
        f = Field.vary ∧ valuesOf f resp304.entries ≠ [] := by
      have hvary : Field.vary ∉ Field.contentSpecific := by decide
      refine and_congr_left fun _ => ⟨fun h => (Field.mem_notMerged.1 hf).resolve_left h, ?_⟩
      rintro rfl
      exact hvary
    rw [valuesOf_mergeHeaders304_of_mem stored hcanonical hf]
    simp [hkept, hf]
  · have hcontent : f ∉ Field.contentSpecific := fun h => hf (Field.mem_notMerged.2 (.inl h))
    rw [valuesOf_mergeHeaders304 stored hcanonical hf]
    cases hlast : (valuesOf f resp304.entries).getLast? with
    | none => simp [getLast?_eq_none_iff.1 hlast]
    | some v =>
      have hne : valuesOf f resp304.entries ≠ [] := by
        intro h
        simp [h] at hlast
      rw [if_pos ⟨hcontent, hne⟩]
      rw [cons_drop_eq_iff hlast, hlast]
      exact ⟨fun h _ _ => h, fun h => h hf hne⟩

def linkHeader (values : List Bytes) : Map := ⟨values.map fun v => ⟨ascii "Link", v⟩⟩

/-- A 304 with one line for a field that has two, and one with two for a field that has one. -/
theorem merge_mixes_lines :
    valuesOf (ascii "Link") (mergeHeaders304 (linkHeader [ascii "<a>", ascii "<b>"])
        (linkHeader [ascii "<c>"])).entries = [ascii "<c>", ascii "<b>"] ∧
      valuesOf (ascii "Link") (mergeHeaders304 (linkHeader [ascii "<a>"])
        (linkHeader [ascii "<b>", ascii "<c>"])).entries = [ascii "<c>"] ∧
      ¬ MergesWhole (linkHeader [ascii "<a>", ascii "<b>"]) (linkHeader [ascii "<c>"]) ∧
      ¬ MergesWhole (linkHeader [ascii "<a>"]) (linkHeader [ascii "<b>", ascii "<c>"]) := by
  refine ⟨by decide, by decide, fun h => ?_, fun h => ?_⟩
  · exact absurd (h (ascii "Link")) (by decide)
  · exact absurd (h (ascii "Link")) (by decide)

/-- One line for one line. -/
theorem single_line_replaced :
    MergesWhole (linkHeader [ascii "<a>"]) (linkHeader [ascii "<b>"]) := by
  refine (merges_whole_iff _ (by decide)).2 fun f _ hf => ?_
  have hname : f = ascii "Link" := by
    by_contra hne
    exact hf (by simp [linkHeader, valuesOf, Ne.symm hne])
  subst hname
  exact ⟨by decide, by decide⟩

end Bouine.Cache
