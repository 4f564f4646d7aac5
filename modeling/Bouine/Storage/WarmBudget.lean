import Bouine.Storage.WarmCounters

/-! # The budgets of the warm store

`Put` makes room first: it takes victims from the eviction list, puts protected keys back, and starts
over when the active segment is full.
-/

namespace Bouine.Storage.Warm

open Lib Option

/-- What `Put` calls of `evictor.List`. `reinsert` is `Access` without an entry, and `MarkVisited`. -/
structure EvictList (σ : Type) where
  len : σ → Nat
  evictBounded : Nat → σ → Option Key × σ
  access : Key → σ → σ
  reinsert : Key → σ → σ

structure Budgets where
  maxBytes : Int
  maxEntries : Int

/-- The store with the `protected` flags of its index, its list and the calls of `OnEvict`. -/
structure Bounded (σ : Type) extends Counted where
  isProtected : Key → Bool
  list : σ
  evicted : List Key

inductive PutError where
  | overBudget
  | segFull

def maxWarmEvictSkips : Nat := 16

def maxSweepProbes : Nat := 256

def fitsBudgets (b : Budgets) (c : Counted) (size : Int) : Bool :=
  (b.maxBytes ≤ 0 || c.bytes + size ≤ b.maxBytes) &&
    (b.maxEntries ≤ 0 || c.entries + 1 ≤ b.maxEntries)

namespace Bounded

variable {σ : Type} (l : EvictList σ) (b : Budgets)

def pickEvictVictim : Nat → Bounded σ → Bounded σ × Option Key
  | 0, w => (w, none)
  | n + 1, w =>
    match l.evictBounded maxSweepProbes w.list with
    | (none, list) => ({ w with list }, none)
    | (some cand, list) =>
      if w.store.index.lookup cand = none then pickEvictVictim n { w with list }
      else if w.isProtected cand then pickEvictVictim n { w with list := l.reinsert cand list }
      else ({ w with list }, some cand)

def evict (w : Bounded σ) (victim : Key) : Bounded σ :=
  { w with toCounted := w.toCounted.step (.evict victim), evicted := w.evicted ++ [victim] }

def evictOneLocked (w : Bounded σ) : Bounded σ × Bool :=
  if l.len w.list = 0 then (w, false)
  else
    match pickEvictVictim l maxWarmEvictSkips w with
    | (w, none) => (w, false)
    | (w, some victim) => (w.evict victim, true)

/-- The loop of `evictToFitBatchLocked`, or nothing if it takes more turns. -/
def evictToFit (size : Int) : Nat → Bounded σ → Option (Bounded σ × Option PutError)
  | 0, _ => none
  | n + 1, w =>
    if fitsBudgets b w.toCounted size then some (w, none)
    else
      match evictOneLocked l w with
      | (w, true) => evictToFit size n w
      | (w, false) => some (w, some .overBudget)

def evictToFitBatchLocked (w : Bounded σ) (size : Int) : Option (Bounded σ × Option PutError) :=
  if b.maxBytes ≤ 0 ∧ b.maxEntries ≤ 0 then some (w, none)
  else if 0 < b.maxBytes ∧ b.maxBytes < size then some (w, some .overBudget)
  else if fitsBudgets b w.toCounted size then some (w, none)
  else if w.store.full then some (w, some .segFull)
  else evictToFit l b size (w.store.index.entries.length + 1) w

def ensureBudgetLocked (w : Bounded σ) (size : Int) : Option (Bounded σ × Option PutError) :=
  if b.maxBytes ≤ 0 ∧ b.maxEntries ≤ 0 then some (w, none)
  else if fitsBudgets b w.toCounted size then some (w, none)
  else evictToFitBatchLocked l b w size

def newSegment (w : Bounded σ) : Bounded σ := { w with store := w.store.newSegment }

/-- The record of `Put` and its entry of the index, which is not protected. -/
def write (w : Bounded σ) (key : Key) (body : Bytes) : Bounded σ where
  toCounted := w.toCounted.step (.put key body)
  isProtected := Function.update w.isProtected key false
  list := l.access key w.list
  evicted := w.evicted

/-- The loop of `Put`, or nothing if it takes more turns. -/
def putLoop (key : Key) (body : Bytes) : Nat → Bounded σ → Option (Bounded σ × Option PutError)
  | 0, _ => none
  | n + 1, w =>
    match ensureBudgetLocked l b w (recSize body) with
    | none => none
    | some (w, some .segFull) => putLoop key body n w.newSegment
    | some (w, some .overBudget) => some (w, some .overBudget)
    | some (w, none) =>
      if w.store.full then putLoop key body n w.newSegment else some (w.write l key body, none)

def put (w : Bounded σ) (key : Key) (body : Bytes) : Option (Bounded σ × Option PutError) :=
  putLoop l b key body 3 w

end Bounded

/-! ## Evictions -/

def Budgets.Within (b : Budgets) (c : Counted) : Prop :=
  (0 < b.maxBytes → c.bytes ≤ b.maxBytes) ∧ (0 < b.maxEntries → c.entries ≤ b.maxEntries)

/-- The bytes of all segments, in the order in which they were written. -/
def onDisk (s : Store) : Bytes := s.segs.flatMap Segment.data

def tombstones (keys : List Key) : Bytes := keys.flatMap fun key => Record.encode ⟨key, [], true⟩

theorem onDisk_append {s : Store} (hne : s.segs ≠ []) (r : Record) :
    onDisk (s.append r) = onDisk s ++ r.encode := by
  obtain ⟨init, seg, hsegs⟩ := (List.eq_nil_or_concat' s.segs).resolve_left hne
  rw [append_eq hsegs]
  simp [onDisk, hsegs]

theorem onDisk_newSegment (s : Store) : onDisk s.newSegment = onDisk s := by
  cases hfull : s.full with
  | false => rw [newSegment_of_not_full hfull]
  | true => simp [newSegment_of_full hfull, onDisk]

namespace Bounded

variable {σ : Type} {w w' w'' : Bounded σ}

/-- What is done before the record is written: unprotected keys are evicted, each with a tombstone. -/
structure Evicts (w w' : Bounded σ) (victims : List Key) : Prop where
  disk : onDisk w'.store = onDisk w.store ++ tombstones victims
  segs : w.store.segs ≠ [] → w'.store.segs ≠ []
  isProtected : w'.isProtected = w.isProtected
  bytes : w'.bytes ≤ w.bytes
  entries : w'.entries ≤ w.entries
  evicted : w'.evicted = w.evicted ++ victims
  spared : ∀ v ∈ victims, w.isProtected v = false
  lookup : ∀ k, w'.store.index.lookup k = if k ∈ victims then none else w.store.index.lookup k

theorem Evicts.trans {vs vs' : List Key} (h : w.Evicts w' vs) (h' : w'.Evicts w'' vs') :
    w.Evicts w'' (vs ++ vs') where
  disk := by rw [h'.disk, h.disk, tombstones, tombstones, tombstones, List.flatMap_append, List.append_assoc]
  segs hne := h'.segs (h.segs hne)
  isProtected := h'.isProtected.trans h.isProtected
  bytes := Int.le_trans h'.bytes h.bytes
  entries := Int.le_trans h'.entries h.entries
  evicted := by rw [h'.evicted, h.evicted, List.append_assoc]
  spared := List.forall_mem_append.2 ⟨h.spared, h.isProtected ▸ h'.spared⟩
  lookup k := by
    rw [h'.lookup, h.lookup]
    by_cases hk : k ∈ vs <;> by_cases hk' : k ∈ vs' <;> simp [hk]

theorem evicts_nothing (w : Bounded σ) (list : σ) : w.Evicts { w with list } [] :=
  ⟨by simp [tombstones], id, rfl, Int.le_refl _, Int.le_refl _, by simp, by simp, by simp⟩

theorem evicts_newSegment (w : Bounded σ) : w.Evicts w.newSegment [] := by
  refine ⟨?_, fun _ => ?_, rfl, Int.le_refl _, Int.le_refl _, ?_, by simp, ?_⟩
  · simp [newSegment, onDisk_newSegment, tombstones]
  · obtain ⟨init, seg, hsegs, -⟩ := exists_active_newSegment (s := w.store)
    simp [newSegment, hsegs]
  all_goals simp [newSegment]

theorem evicts_evict {victim : Key} (hne : w.store.segs ≠ [])
    (hsome : (w.store.index.lookup victim).isSome) (hfree : w.isProtected victim = false) :
    w.Evicts (w.evict victim) [victim] ∧
      (w.evict victim).store.index.entries.length < w.store.index.entries.length := by
  have hstore : w.store.evictOne victim =
      { w.store.append ⟨victim, [], true⟩ with index := w.store.index.erase victim } := if_pos hsome
  obtain ⟨loc, hloc⟩ := isSome_iff_exists.1 hsome
  have hlookup := lookup_evictOne w.store victim
  have hstep : w.toCounted.step (.evict victim) =
      ⟨w.store.evictOne victim, w.entries - 1, w.bytes - loc.size⟩ := by
    simp [Counted.step, Counted.remove, Store.between, hlookup, share, hloc, size]
  have hfewer := total_erase (fun _ => 1) w.store.index victim
  rw [total_one, total_one, share, hloc] at hfewer
  simp only [evict, hstep]
  refine ⟨⟨?_, fun _ => ?_, rfl, Int.sub_le_self _ (Int.natCast_nonneg _),
    Int.sub_le_self _ (by decide), rfl, by simpa, by simpa using hlookup⟩, ?_⟩
  · rw [hstore]
    exact (onDisk_append hne _).trans (by simp [tombstones])
  · obtain ⟨init, seg, hsegs⟩ := (List.eq_nil_or_concat' w.store.segs).resolve_left hne
    simp [hstore, append_eq hsegs]
  · simp only [hstore, map_some, getD_some] at hfewer ⊢
    omega

variable (l : EvictList σ) (b : Budgets) (size : Int)

theorem pickEvictVictim_eq (n : Nat) (w : Bounded σ) :
    ∃ list, (pickEvictVictim l n w).1 = { w with list } ∧ ∀ v ∈ (pickEvictVictim l n w).2,
      (w.store.index.lookup v).isSome ∧ w.isProtected v = false := by
  induction n generalizing w with
  | zero => exact ⟨w.list, rfl, by simp [pickEvictVictim]⟩
  | succ n ih =>
    unfold pickEvictVictim
    split
    · next list _ => exact ⟨list, rfl, by simp⟩
    · next cand list _ =>
      split_ifs with hgone hprot
      · exact ih { w with list }
      · exact ih { w with list := l.reinsert cand list }
      · refine ⟨list, rfl, fun v hv => ?_⟩
        cases hv
        exact ⟨isSome_iff_ne_none.2 hgone, by simpa using hprot⟩

theorem evictOneLocked_cases (hne : w.store.segs ≠ []) :
    (∃ w', evictOneLocked l w = (w', false) ∧ w.Evicts w' []) ∨
      ∃ w' victim, evictOneLocked l w = (w', true) ∧ w.Evicts w' [victim] ∧
        w'.store.index.entries.length < w.store.index.entries.length := by
  obtain ⟨list, heq, hvictim⟩ := pickEvictVictim_eq l maxWarmEvictSkips w
  unfold evictOneLocked
  split_ifs
  · exact .inl ⟨w, rfl, evicts_nothing w w.list⟩
  split
  · next w' hpick =>
    rw [hpick] at heq
    obtain rfl : w' = { w with list } := heq
    exact .inl ⟨_, rfl, evicts_nothing w list⟩
  · next w' victim hpick =>
    rw [hpick] at heq hvictim
    obtain rfl : w' = { w with list } := heq
    obtain ⟨hsome, hfree⟩ := hvictim victim rfl
    obtain ⟨hevicts, hfewer⟩ := evicts_evict (w := { w with list }) hne hsome hfree
    exact .inr ⟨_, victim, rfl, (evicts_nothing w list).trans hevicts, hfewer⟩

/-! ## The loops -/

theorem evictToFit_ok {n : Nat} (hne : w.store.segs ≠ []) (hn : w.store.index.entries.length < n) :
    ∃ w' e, evictToFit l b size n w = some (w', e) ∧ (∃ vs, w.Evicts w' vs) ∧
      (e = none ∧ fitsBudgets b w'.toCounted size ∨ e = some .overBudget) := by
  induction n generalizing w with
  | zero => omega
  | succ n ih =>
    unfold evictToFit
    split_ifs with hfits
    · exact ⟨w, none, rfl, ⟨[], evicts_nothing w w.list⟩, .inl ⟨rfl, hfits⟩⟩
    rcases evictOneLocked_cases l hne with
      ⟨w', hone, hevicts⟩ | ⟨w', victim, hone, hevicts, hfewer⟩
    · rw [hone]
      exact ⟨w', _, rfl, ⟨[], hevicts⟩, .inr rfl⟩
    · obtain ⟨u, e, heq, ⟨vs, hu⟩, hres⟩ := ih (hevicts.segs hne) (by omega)
      rw [hone]
      exact ⟨u, e, heq, ⟨_, hevicts.trans hu⟩, hres⟩

theorem ensureBudget_ok (w : Bounded σ) :
    ∃ w' e, ensureBudgetLocked l b w size = some (w', e) ∧ (∃ vs, w.Evicts w' vs) ∧
      (e = none ∧ fitsBudgets b w'.toCounted size ∨ e = some .overBudget ∨
        e = some .segFull ∧ w.store.full) := by
  have hsame : ∃ vs, w.Evicts w vs := ⟨[], evicts_nothing w w.list⟩
  by_cases hfits : fitsBudgets b w.toCounted size = true
  · exact ⟨w, none, by simp [ensureBudgetLocked, hfits], hsame, .inl ⟨rfl, hfits⟩⟩
  have hbound : ¬ (b.maxBytes ≤ 0 ∧ b.maxEntries ≤ 0) := fun hno =>
    hfits (by simp [fitsBudgets, hno])
  rw [ensureBudgetLocked, evictToFitBatchLocked]
  split_ifs with hbig hfull
  · exact ⟨w, _, rfl, hsame, .inr (.inl rfl)⟩
  · exact ⟨w, _, rfl, hsame, .inr (.inr ⟨rfl, hfull⟩)⟩
  · obtain ⟨init, seg, hsegs, -⟩ := exists_active (by simpa using hfull)
    obtain ⟨w', e, heq, hevicts, hres⟩ := evictToFit_ok l b size (w := w) (by simp [hsegs])
      (Nat.lt_succ_self _)
    exact ⟨w', e, heq, hevicts, hres.imp_right .inl⟩

variable (key : Key) (body : Bytes)

/-- Three turns are enough: the evictions may need a new segment first, and fill one. -/
theorem putLoop_ok {n : Nat} (w : Bounded σ)
    (hn : (if w.store.full then 3 else if fitsBudgets b w.toCounted (recSize body) then 1 else 2) ≤ n) :
    ∃ u vs, w.Evicts u vs ∧ (putLoop l b key body n w = some (u, some .overBudget) ∨
      fitsBudgets b u.toCounted (recSize body) ∧
        putLoop l b key body n w = some (u.write l key body, none)) := by
  induction n generalizing w with
  | zero => split_ifs at hn <;> omega
  | succ n ih =>
    obtain ⟨w', e, heq, ⟨vs, hevicts⟩, hres⟩ := ensureBudget_ok l b (recSize body) w
    have hfresh := hevicts.trans (evicts_newSegment w')
    have hroom : w'.newSegment.store.full = false := not_full_newSegment
    rw [putLoop, heq]
    rcases hres with ⟨rfl, hfits⟩ | rfl | ⟨rfl, hfull⟩
    · dsimp only
      split_ifs with hfull
      · have hturn : 1 ≤ n := by
          by_contra hlast
          split_ifs at hn with hfull' hfits' <;> try omega
          rw [ensureBudgetLocked, if_pos hfits', ite_self] at heq
          cases heq
          exact hfull' hfull
        have hfits' : fitsBudgets b w'.newSegment.toCounted (recSize body) = true := hfits
        obtain ⟨u, us, hu, hdone⟩ := ih w'.newSegment (by simp [hroom, hfits', hturn])
        exact ⟨u, _, hfresh.trans hu, hdone⟩
      · exact ⟨w', vs, hevicts, .inr ⟨hfits, rfl⟩⟩
    · exact ⟨w', vs, hevicts, .inl rfl⟩
    · rw [if_pos hfull] at hn
      have hturns : (if fitsBudgets b w'.newSegment.toCounted (recSize body) then 1 else 2) ≤ n := by
        split_ifs <;> omega
      obtain ⟨u, us, hu, hdone⟩ := ih w'.newSegment (by simpa [hroom] using hturns)
      exact ⟨u, _, hfresh.trans hu, hdone⟩

theorem within_write {w : Bounded σ} (hfits : fitsBudgets b w.toCounted (recSize body)) :
    b.Within (w.write l key body).toCounted := by
  have hshare : 0 ≤ share Warm.size w.store.index key := by
    unfold share
    cases w.store.index.lookup key <;> simp [Warm.size]
  simp only [fitsBudgets, Bool.and_eq_true, Bool.or_eq_true, decide_eq_true_eq] at hfits
  simp only [Budgets.Within, write, Counted.step]
  split_ifs <;> omega

/-- A `Put` ends within both budgets. It has written tombstones for the keys it took from the index,
none of which was protected, and then its record, unless it is refused. -/
theorem put_keeps_budgets (w : Bounded σ) (hw : b.Within w.toCounted) :
    ∃ w' e vs, w.put l b key body = some (w', e) ∧ b.Within w'.toCounted ∧
      (e = some .overBudget ∧ onDisk w'.store = onDisk w.store ++ tombstones vs ∨
        e = none ∧ (w'.store.index.lookup key).isSome ∧ onDisk w'.store =
          onDisk w.store ++ tombstones vs ++ Record.encode ⟨key, body, false⟩) ∧
      w'.evicted = w.evicted ++ vs ∧ (∀ v ∈ vs, w.isProtected v = false) ∧
      ∀ k, (e = none → k ≠ key) →
        w'.store.index.lookup k = if k ∈ vs then none else w.store.index.lookup k := by
  obtain ⟨u, vs, hu, hput⟩ := putLoop_ok l b key body (n := 3) w (by split_ifs <;> omega)
  rcases hput with hput | ⟨hfits, hput⟩
  · refine ⟨u, _, vs, hput, ?_, .inl ⟨rfl, hu.disk⟩, hu.evicted, hu.spared, fun k _ => hu.lookup k⟩
    exact ⟨fun h => Int.le_trans hu.bytes (hw.1 h), fun h => Int.le_trans hu.entries (hw.2 h)⟩
  · have hindex : (u.write l key body).store.index = u.store.index.insert key
        ⟨u.store.newSegment.activeID, u.store.newSegment.activeSize, recSize body⟩ := by
      simp [write, Counted.step, Store.between, Store.put]
    obtain ⟨init, seg, hsegs, -⟩ := exists_active_newSegment (s := u.store)
    refine ⟨_, _, vs, hput, within_write l b key body hfits, .inr ⟨rfl, ?_, ?_⟩, hu.evicted,
      hu.spared, fun k hk => ?_⟩
    · simp [hindex]
    · rw [← hu.disk, ← onDisk_newSegment u.store]
      exact onDisk_append (by simp [hsegs]) _
    · rw [hindex, AList.lookup_insert_ne (hk rfl), hu.lookup]

end Bounded

/-- A list that evicts the oldest key. -/
def fifo : EvictList (List Key) where
  len := List.length
  evictBounded _ keys := (keys.head?, keys.tail)
  access key keys := keys ++ [key]
  reinsert key keys := keys ++ [key]

def oneEntry : Bounded (List Key) where
  toCounted := Counted.step ⟨Store.empty 64 exampleMax_pos, 0, 0⟩ (.put (exampleKey 1) [])
  isProtected _ := false
  list := [exampleKey 1]
  evicted := []

theorem second_put_evicts :
    ∃ w' e vs, oneEntry.put fifo ⟨40, 0⟩ (exampleKey 2) [] = some (w', e) ∧ vs = [exampleKey 1] ∧
      w'.evicted = vs ∧ w'.bytes ≤ 40 := by
  obtain ⟨w', e, vs, hput, hwithin, -, hevicted, -⟩ := Bounded.put_keeps_budgets fifo ⟨40, 0⟩
    (exampleKey 2) [] oneEntry ⟨by decide, by decide⟩
  have hrun : (oneEntry.put fifo ⟨40, 0⟩ (exampleKey 2) []).map (·.1.evicted) = some [exampleKey 1] := by
    decide
  rw [hput, map_some, hevicted] at hrun
  exact ⟨w', e, vs, hput, some.inj hrun, hevicted, hwithin.1 (by decide)⟩

end Bouine.Storage.Warm
