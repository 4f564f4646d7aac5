import Mathlib.Data.List.Nodup
import Mathlib.Order.Compare

/-! # Tables as sorted lists

A table is a list of keys with values, in the order of the keys. Positions are found by binary
search (`slices.BinarySearchFunc`); short tables are read from the front. A sharded table is a
family of such lists, with a hash that picks the list of a key.
-/

namespace Bouine.Lib.SortedTable

open List Option

variable {κ ν : Type*} [Ord κ]

def Sorted (t : List (κ × ν)) : Prop := t.Pairwise fun a b => compare a.1 b.1 = .lt

/-- The loop of the binary search: the first position between `i` and `j` whose key is not less than
the given one. -/
def searchFrom (t : List (κ × ν)) (key : κ) (i j : Nat) : Nat :=
  if i < j then
    if t[(i + j) / 2]?.any (fun e => compare e.1 key == .lt) then
      searchFrom t key ((i + j) / 2 + 1) j
    else searchFrom t key i ((i + j) / 2)
  else i
termination_by j - i

def search (t : List (κ × ν)) (key : κ) : Nat := searchFrom t key 0 t.length

def searchValue (t : List (κ × ν)) (key : κ) : Option ν :=
  match t[search t key]? with
  | some e => if compare e.1 key = .eq then some e.2 else none
  | none => none

def find [DecidableEq κ] (t : List (κ × ν)) (key : κ) : Option ν :=
  if t.length ≤ 8 then (t.find? fun e => e.1 = key).map (·.2) else searchValue t key

def put (t : List (κ × ν)) (key : κ) (v : ν) : List (κ × ν) :=
  t.take (search t key) ++ (key, v) :: t.drop (search t key)

def remove [DecidableEq ν] (t : List (κ × ν)) (key : κ) (v : ν) : List (κ × ν) :=
  if searchValue t key = some v then t.eraseIdx (search t key) else t

variable {t : List (κ × ν)} {key : κ} {v : ν}

theorem Sorted.lt_of_lt (h : Sorted t) {i j : Nat} {a b : κ × ν} (hij : i < j)
    (ha : t[i]? = some a) (hb : t[j]? = some b) : compare a.1 b.1 = .lt := by
  obtain ⟨hi, rfl⟩ := List.getElem?_eq_some_iff.1 ha
  obtain ⟨hj, rfl⟩ := List.getElem?_eq_some_iff.1 hb
  exact pairwise_iff_getElem.1 h i j hi hj hij

variable {e : κ × ν}

theorem mem_put : e ∈ put t key v ↔ e = (key, v) ∨ e ∈ t := by
  conv_rhs => rw [← take_append_drop (search t key) t]
  simp only [put, mem_append, mem_cons]
  tauto

theorem Sorted.remove [DecidableEq ν] (h : Sorted t) : Sorted (remove t key v) := by
  unfold SortedTable.remove
  split_ifs
  · exact List.Pairwise.sublist (eraseIdx_sublist _ _) h
  · exact h

/-! ## Searching -/

variable [Std.TransOrd κ]

/-- The search ends at the border between the smaller keys and the others, if that is within its
bounds. -/
theorem lt_searchFrom_iff (h : Sorted t) {i j : Nat} (hij : i ≤ j)
    (hlo : ∀ k e, t[k]? = some e → k < i → compare e.1 key = .lt)
    (hhi : ∀ k e, t[k]? = some e → j ≤ k → compare e.1 key ≠ .lt) {k : Nat}
    (he : t[k]? = some e) : k < searchFrom t key i j ↔ compare e.1 key = .lt := by
  fun_induction searchFrom t key i j with
  | case1 i j hlt hmid ih =>
    -- every key up to the middle is smaller
    refine ih (by omega) (fun k e he hk => ?_) hhi
    obtain ⟨m, hm, hmlt⟩ : ∃ m, t[(i + j) / 2]? = some m ∧ compare m.1 key = .lt := by
      simpa [Option.any_eq_true] using hmid
    rcases Nat.lt_or_ge k ((i + j) / 2) with hlt' | hge
    · exact Std.TransCmp.lt_trans (h.lt_of_lt hlt' he hm) hmlt
    · obtain rfl : k = (i + j) / 2 := by omega
      cases he.symm.trans hm
      exact hmlt
  | case2 i j hlt hmid ih =>
    -- no key from the middle on is smaller
    refine ih (by omega) hlo fun k e he hk hlt' => hmid ?_
    have hk' := (List.getElem?_eq_some_iff.1 he).1
    have hm := getElem?_eq_getElem (show (i + j) / 2 < t.length by omega)
    rw [hm]
    refine beq_iff_eq.2 ?_
    rcases Nat.lt_or_ge ((i + j) / 2) k with hlt'' | hge
    · exact Std.TransCmp.lt_trans (h.lt_of_lt hlt'' hm he) hlt'
    · obtain rfl : k = (i + j) / 2 := by omega
      cases he.symm.trans hm
      exact hlt'
  | case3 i j hlt =>
    refine ⟨hlo k e he, fun hlt' => ?_⟩
    by_contra hk
    exact hhi k e he (by omega) hlt'

theorem lt_search_iff (h : Sorted t) {k : Nat} (he : t[k]? = some e) :
    k < search t key ↔ compare e.1 key = .lt := by
  refine lt_searchFrom_iff h (Nat.zero_le _) (fun k e _ hk => absurd hk (by omega)) ?_ he
  intro k e he hk
  have := (List.getElem?_eq_some_iff.1 he).1
  omega

variable [Std.LawfulEqOrd κ]

omit [Std.TransOrd κ] in
theorem getElem?_search (h : searchValue t key = some v) : t[search t key]? = some (key, v) := by
  unfold searchValue at h
  split at h
  · rename_i e he
    split_ifs at h with heq
    obtain rfl := Std.LawfulEqCmp.eq_of_compare heq
    cases h
    exact he
  · cases h

theorem searchValue_eq_some_iff (h : Sorted t) :
    searchValue t key = some v ↔ (key, v) ∈ t := by
  refine ⟨fun hv => mem_of_getElem? (getElem?_search hv), fun hmem => ?_⟩
  obtain ⟨k, hk⟩ := mem_iff_getElem?.1 hmem
  -- the key is not before the border, and what is between the border and the key is smaller
  have hge : search t key ≤ k := by
    by_contra hlt
    have hself := (lt_search_iff h hk).1 (Nat.lt_of_not_le hlt)
    exact absurd (Std.ReflOrd.compare_self.symm.trans hself) (by decide)
  have hborder : search t key = k := by
    by_contra hne
    have hlen := (List.getElem?_eq_some_iff.1 hk).1
    have hs := getElem?_eq_getElem (show search t key < t.length by omega)
    have hlt := h.lt_of_lt (show search t key < k by omega) hs hk
    exact Nat.lt_irrefl _ ((lt_search_iff h hs).2 hlt)
  rw [searchValue, hborder, hk]
  simp

theorem find_eq_some_iff [DecidableEq κ] (h : Sorted t) : find t key = some v ↔ (key, v) ∈ t := by
  unfold find
  split_ifs with hlen
  · constructor
    · intro hv
      obtain ⟨e, he, rfl⟩ := map_eq_some_iff.1 hv
      have hkey : e.1 = key := by simpa using find?_some he
      exact hkey ▸ mem_of_find?_eq_some he
    · intro hmem
      obtain ⟨e, he⟩ : ∃ e, t.find? (fun e => e.1 = key) = some e :=
        isSome_iff_exists.1 (find?_isSome.2 ⟨(key, v), hmem, decide_eq_true rfl⟩)
      have hkey : e.1 = key := by simpa using find?_some he
      have hval := (searchValue_eq_some_iff h).2 (hkey ▸ mem_of_find?_eq_some he :
        (key, e.2) ∈ t)
      rw [he, map_some, ← hval]
      exact (searchValue_eq_some_iff h).2 hmem
  · exact searchValue_eq_some_iff h

/-! ## Changing a table -/

theorem Sorted.put (h : Sorted t) (hnew : ∀ v, (key, v) ∉ t) : Sorted (put t key v) := by
  have hbefore : ∀ e ∈ t.take (search t key), compare e.1 key = .lt := by
    intro e he
    obtain ⟨k, hk⟩ := mem_iff_getElem?.1 he
    rw [getElem?_take] at hk
    split_ifs at hk with hlt
    exact (lt_search_iff h hk).1 hlt
  have hafter : ∀ e ∈ t.drop (search t key), compare key e.1 = .lt := by
    intro e he
    obtain ⟨k, hk⟩ := mem_iff_getElem?.1 he
    rw [getElem?_drop] at hk
    have hnlt : compare e.1 key ≠ .lt := fun hlt => by
      have := (lt_search_iff h hk).2 hlt
      omega
    have hne : compare e.1 key ≠ .eq := fun heq =>
      hnew e.2 (Std.LawfulEqCmp.eq_of_compare heq ▸ mem_of_getElem? hk)
    refine Std.OrientedCmp.gt_iff_lt.1 ?_
    cases hcmp : compare e.1 key <;> simp_all
  have hsplit := h
  rw [Sorted, ← take_append_drop (search t key) t, pairwise_append] at hsplit
  refine pairwise_append.2 ⟨hsplit.1, pairwise_cons.2 ⟨hafter, hsplit.2.1⟩, ?_⟩
  exact fun a ha => forall_mem_cons.2 ⟨hbefore a ha, hsplit.2.2 a ha⟩

theorem mem_remove [DecidableEq ν] (h : Sorted t) :
    e ∈ remove t key v ↔ e ∈ t ∧ e ≠ (key, v) := by
  unfold SortedTable.remove
  split_ifs with hv
  · have hat := getElem?_search hv
    rw [mem_eraseIdx_iff_getElem?]
    constructor
    · rintro ⟨i, hne, hi⟩
      refine ⟨mem_of_getElem? hi, ?_⟩
      rintro rfl
      rcases Nat.lt_or_gt_of_ne hne with hlt | hgt
      · exact absurd (Std.ReflOrd.compare_self.symm.trans (h.lt_of_lt hlt hi hat)) (by decide)
      · exact absurd (Std.ReflOrd.compare_self.symm.trans (h.lt_of_lt hgt hat hi)) (by decide)
    · rintro ⟨hmem, hne⟩
      obtain ⟨i, hi⟩ := mem_iff_getElem?.1 hmem
      refine ⟨i, ?_, hi⟩
      rintro rfl
      exact hne (some.inj (hi.symm.trans hat))
  · refine ⟨fun hmem => ⟨hmem, ?_⟩, And.left⟩
    rintro rfl
    exact hv ((searchValue_eq_some_iff h).2 hmem)

end Bouine.Lib.SortedTable

namespace Bouine.Lib

open SortedTable

/-! ## Sharded tables -/

structure Sharded (κ ν : Type*) where
  count : Nat
  shards : Nat → List (κ × ν)

namespace Sharded

variable {κ ν : Type*} [Ord κ] (hash : κ → Nat)

def shard (t : Sharded κ ν) (key : κ) : List (κ × ν) := t.shards (hash key % t.count)

def put (t : Sharded κ ν) (key : κ) (v : ν) : Sharded κ ν :=
  ⟨t.count, Function.update t.shards (hash key % t.count)
    (SortedTable.put (t.shard hash key) key v)⟩

def remove [DecidableEq ν] (t : Sharded κ ν) (key : κ) (v : ν) : Sharded κ ν :=
  ⟨t.count, Function.update t.shards (hash key % t.count)
    (SortedTable.remove (t.shard hash key) key v)⟩

def Ordered (t : Sharded κ ν) : Prop := ∀ i, Sorted (t.shards i)

def Placed (t : Sharded κ ν) : Prop := ∀ i, ∀ e ∈ t.shards i, hash e.1 % t.count = i

variable {hash} [Std.TransOrd κ] [Std.LawfulEqOrd κ] {t : Sharded κ ν}

omit [Std.TransOrd κ] [Std.LawfulEqOrd κ] in
theorem mem_put {key k : κ} {v u : ν} : (k, u) ∈ (t.put hash key v).shard hash k ↔
    k = key ∧ u = v ∨ (k, u) ∈ t.shard hash k := by
  simp only [shard, put]
  by_cases hi : hash k % t.count = hash key % t.count
  · rw [hi, Function.update_self, SortedTable.mem_put, Prod.mk.injEq]
  · rw [Function.update_of_ne hi]
    exact ⟨.inr, fun h => h.resolve_left fun ⟨hk, _⟩ => hi (by rw [hk])⟩

theorem mem_remove [DecidableEq ν] (h : t.Ordered) {key k : κ} {v u : ν} :
    (k, u) ∈ (t.remove hash key v).shard hash k ↔
      (k, u) ∈ t.shard hash k ∧ ¬ (k = key ∧ u = v) := by
  simp only [shard, remove]
  by_cases hi : hash k % t.count = hash key % t.count
  · rw [hi, Function.update_self, SortedTable.mem_remove (h _), ne_eq, Prod.mk.injEq]
  · rw [Function.update_of_ne hi]
    exact ⟨fun hm => ⟨hm, fun ⟨hk, _⟩ => hi (by rw [hk])⟩, And.left⟩

omit [Std.TransOrd κ] [Std.LawfulEqOrd κ] in
theorem Ordered.update (h : t.Ordered) (i : Nat) {l : List (κ × ν)} (hl : Sorted l) :
    Ordered ⟨t.count, Function.update t.shards i l⟩ :=
  (Function.forall_update_iff t.shards _).2 ⟨hl, fun j _ => h j⟩

theorem Ordered.put (h : t.Ordered) {key : κ} {v : ν} (hnew : ∀ u, (key, u) ∉ t.shard hash key) :
    (t.put hash key v).Ordered :=
  h.update _ (Sorted.put (h _) hnew)

omit [Std.TransOrd κ] [Std.LawfulEqOrd κ] in
theorem Ordered.remove [DecidableEq ν] (h : t.Ordered) {key : κ} {v : ν} :
    (t.remove hash key v).Ordered :=
  h.update _ (Sorted.remove (h _))

omit [Ord κ] [Std.TransOrd κ] [Std.LawfulEqOrd κ] in
theorem Placed.update (h : t.Placed hash) {key : κ} {v : ν} {l : List (κ × ν)}
    (hl : ∀ e ∈ l, e = (key, v) ∨ e ∈ t.shard hash key) :
    Placed hash ⟨t.count, Function.update t.shards (hash key % t.count) l⟩ := by
  intro i e he
  dsimp only at he ⊢
  rw [Function.update_apply] at he
  split_ifs at he with hi
  · rcases hl e he with rfl | he
    · exact hi.symm
    · exact (h _ e he).trans hi.symm
  · exact h i e he

end Sharded

end Bouine.Lib
