import Mathlib.Data.List.AList

/-! # Journals of a map

A journal is a list of events that set or remove a key; replaying it over a map applies them in
order. What a replay leaves at a key depends only on its newest event, and the newest event of two
journals in a row is that of the second, if it has one.
-/

namespace Bouine.Lib.Journal

variable {K : Type*} [DecidableEq K] {β : Type*}

def newest (es : List (K × β)) (k : K) : Option β :=
  ((es.filter fun e => e.1 = k).getLast?).map Prod.snd

theorem newest_append (es fs : List (K × β)) (k : K) :
    newest (es ++ fs) k = (newest fs k).or (newest es k) := by
  simp only [newest, List.filter_append, List.getLast?_append]
  cases (List.filter (fun e => e.1 = k) fs).getLast? <;> rfl

theorem newest_singleton (e : K × β) (k : K) :
    newest [e] k = if e.1 = k then some e.2 else none := by
  by_cases h : e.1 = k
  · simp [newest]
  · simp [newest]

theorem newest_eq_none {es : List (K × β)} {k : K} : newest es k = none ↔ ∀ e ∈ es, e.1 ≠ k := by
  simp [newest]

theorem mem_of_newest {es : List (K × β)} {k : K} {v : β} (h : newest es k = some v) :
    (k, v) ∈ es := by
  obtain ⟨e, he, hv⟩ := Option.map_eq_some_iff.1 h
  have hmem := List.mem_of_getLast? he
  obtain ⟨hmem, hk⟩ := List.mem_filter.1 hmem
  have hk : e.1 = k := by simpa using hk
  rw [← hk, ← hv]
  exact hmem

theorem newest_map {γ : Type*} (f : β → γ) (es : List (K × β)) (k : K) :
    newest (es.map fun e => (e.1, f e.2)) k = (newest es k).map f := by
  simp only [newest, List.filter_map, List.getLast?_map, Option.map_map]
  rfl

variable {V : Type*}

def apply (m : AList fun _ : K => V) (e : K × Option V) : AList fun _ : K => V :=
  match e.2 with
  | some v => m.insert e.1 v
  | none => m.erase e.1

def replay (m : AList fun _ : K => V) (es : List (K × Option V)) : AList fun _ : K => V :=
  es.foldl apply m

theorem lookup_apply (m : AList fun _ : K => V) (e : K × Option V) (k : K) :
    (apply m e).lookup k = if e.1 = k then e.2 else m.lookup k := by
  obtain ⟨k', _ | v⟩ := e
  · by_cases h : k' = k
    · subst h
      simp [apply]
    · simp [apply, h, AList.lookup_erase_ne (Ne.symm h)]
  · by_cases h : k' = k
    · subst h
      simp [apply]
    · simp [apply, h, AList.lookup_insert_ne (Ne.symm h)]

/-- A replay leaves at a key what its newest event says, or what was there. -/
theorem lookup_replay (m : AList fun _ : K => V) (es : List (K × Option V)) (k : K) :
    (replay m es).lookup k = (newest es k).getD (m.lookup k) := by
  induction es generalizing m with
  | nil => rfl
  | cons e es ih =>
    rw [replay, List.foldl_cons, ← replay, ih, lookup_apply, ← List.singleton_append,
      newest_append, newest_singleton]
    cases newest es k with
    | some v => rfl
    | none =>
      by_cases h : e.1 = k
      · simp [h]
      · simp [h]

end Bouine.Lib.Journal
