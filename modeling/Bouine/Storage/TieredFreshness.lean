import Mathlib.Data.List.Induction
import Bouine.Storage.Tiered

/-! # Freshness of the tiered store

A `Get` prefers the hot tier, so a warm copy that is older than the last `Put` does no harm while
the key stays hot. `Put` leaves such copies behind whenever the new object does not qualify for the
warm tier, and the tombstone that should remove the old copy is sent only if the overwritten hot
entry was marked as backed. Losing the hot entry of such a key is the one way in which a `Get` can
be stale.
-/

namespace Bouine.Storage.Tiered

open Api Lib.Transition Option Function

variable {Key Blob : Type} [DecidableEq Key]

/-- The version a `Get` of `k` finds when no ban is in force. -/
def visible (c : Config Key Blob) (s : State Key Blob) (k : Key) : Option Nat :=
  (hotVersion s k).or (warmVersion c s k)

/-- A `Get` of any key finds nothing but the last `Put`. -/
def Fresh (c : Config Key Blob) (s : State Key Blob) : Prop :=
  ∀ k v, visible c s k = some v → s.last k = some v

/-- The warm copy of `k`, if there is a readable one, stems from the last `Put`. -/
def WarmCurrent (c : Config Key Blob) (s : State Key Blob) (k : Key) : Prop :=
  ∀ v, warmVersion c s k = some v → s.last k = some v

/-! ## Which steps keep the store fresh -/

def RemovalOk (c : Config Key Blob) (s : State Key Blob) (k : Key) : Prop :=
  (s.hot k).isSome → WarmCurrent c s k

/-- The inline evictions of a `putStored` under `k`. -/
def VictimsOk (c : Config Key Blob) (s : State Key Blob) (k : Key) (victims : List Key) : Prop :=
  ∀ v ∈ victims, v ≠ k → RemovalOk c s v

/-- A `hot.Get` that finds a banned entry removes it. -/
def HotGetOk (c : Config Key Blob) (s : State Key Blob) (k : Key) (banned : Object Key → Bool) :
    Prop :=
  ∀ e, s.hot k = some e → banned e.obj → WarmCurrent c s k

/-- Every `hot.Get` of a sync batch. -/
def SyncOk (c : Config Key Blob) (banned : Object Key → Bool) :
    State Key Blob → List (Key × Bool) → Prop
  | _, [] => True
  | s, (k, true) :: rest => HotGetOk c s k banned ∧ SyncOk c banned (syncOne c banned s k) rest
  | s, (k, false) :: _ => HotGetOk c s k banned

/-- A `Get` reaches the warm tier: no hot entry, or a banned one. -/
def Misses (s : State Key Blob) (k : Key) (banned : Object Key → Bool) : Prop :=
  ∀ e, s.hot k = some e → banned e.obj

/-- **No key leaves the hot tier while its warm copy is older than the last `Put`.** -/
def StepOk (c : Config Key Blob) (s : State Key Blob) : Op Key → Prop
  | .put k _ victims _ => VictimsOk c s k victims
  | .get k banned victims =>
    HotGetOk c s k banned ∧
      (Misses s k banned → (warmVersion c s k).isSome → VictimsOk c s k victims)
  | .hotEvict k _ => RemovalOk c s k
  | .sync overBudget reconcile keys banned =>
    overBudget = false → SyncOk c banned (drainQueues s)
      (keys.filter fun ka => hotOnly (drainQueues s) reconcile ka.1)
  | .delete _ | .drain | .warmEvict _ => True

section

variable {c : Config Key Blob} {s s' : State Key Blob} {k : Key}

def FreshAt (c : Config Key Blob) (s : State Key Blob) (k : Key) : Prop :=
  ∀ v, visible c s k = some v → s.last k = some v

omit [DecidableEq Key] in
theorem freshAt_congr (hhot : hotVersion s' k = hotVersion s k)
    (hwarm : warmVersion c s' k = warmVersion c s k) (hlast : s'.last k = s.last k) :
    FreshAt c s' k ↔ FreshAt c s k := by
  simp [FreshAt, visible, hhot, hwarm, hlast]

omit [DecidableEq Key] in
theorem freshAt_of_hot {n : Nat} (hhot : hotVersion s k = some n) :
    FreshAt c s k ↔ s.last k = some n := by
  simp [FreshAt, visible, hhot]

omit [DecidableEq Key] in
theorem freshAt_of_none (hhot : hotVersion s k = none) : FreshAt c s k ↔ WarmCurrent c s k := by
  simp [FreshAt, visible, hhot, WarmCurrent]

omit [DecidableEq Key] in
theorem freshAt_removed (hf : FreshAt c s k) (hhot : hotVersion s' k = none)
    (hwarm : warmVersion c s' k = warmVersion c s k) (hlast : s'.last k = s.last k) :
    FreshAt c s' k ↔ RemovalOk c s k := by
  have hcur : WarmCurrent c s' k ↔ WarmCurrent c s k := by simp [WarmCurrent, hwarm, hlast]
  rw [freshAt_of_none hhot, hcur, RemovalOk]
  cases hk : s.hot k with
  | none =>
    have : WarmCurrent c s k := (freshAt_of_none (by simp [hotVersion, hk])).1 hf
    simp [this]
  | some e => simp

theorem fresh_others (victims : List Key) (hf : Fresh c s)
    (hhot : ∀ k', k' ≠ k → hotVersion s' k' = if k' ∈ victims then none else hotVersion s k')
    (hwarm : ∀ k', k' ≠ k → warmVersion c s' k' = warmVersion c s k')
    (hlast : ∀ k', k' ≠ k → s'.last k' = s.last k') :
    Fresh c s' ↔ FreshAt c s' k ∧ VictimsOk c s k victims := by
  constructor
  · intro h
    refine ⟨h k, fun v hv hvk => ?_⟩
    have hnone : hotVersion s' v = none := by rw [hhot v hvk, if_pos hv]
    exact (freshAt_removed (hf v) hnone (hwarm v hvk) (hlast v hvk)).1 (h v)
  · rintro ⟨hk, hv⟩ k'
    by_cases hkk : k' = k
    · subst hkk
      exact hk
    · by_cases hmem : k' ∈ victims
      · have hnone : hotVersion s' k' = none := by rw [hhot k' hkk, if_pos hmem]
        exact (freshAt_removed (hf k') hnone (hwarm k' hkk) (hlast k' hkk)).2 (hv k' hmem hkk)
      · have hsame : hotVersion s' k' = hotVersion s k' := by rw [hhot k' hkk, if_neg hmem]
        exact (freshAt_congr hsame (hwarm k' hkk) (hlast k' hkk)).2 (hf k')

theorem fresh_hotRemove (r : EvictReason) (hf : Fresh c s) :
    Fresh c (hotRemove c s k r) ↔ RemovalOk c s k := by
  have hat : FreshAt c (hotRemove c s k r) k ↔ RemovalOk c s k :=
    freshAt_removed (hf k) (by simp [hotRemove_hotVersion]) (by simp [warmVersion]) (by simp)
  rw [← hat]
  refine (fresh_others (k := k) [] hf (fun k' hk => ?_) (fun k' _ => ?_) fun k' _ => ?_).trans ?_
  · simp [hotRemove_hotVersion, hk]
  · simp [warmVersion]
  · simp
  · simp [VictimsOk]

theorem warmBack_hotVersion (obj : Object Key) (n : Nat) (accepted : Bool) (k' : Key) :
    hotVersion (warmBack c s k obj n accepted) k' = hotVersion s k' := by
  unfold warmBack
  split
  · exact warmWrite_hotVersion c s k obj n k'
  · rfl

theorem warmBack_warmVersion (obj : Object Key) (n : Nat) (accepted : Bool) {k' : Key}
    (hk : k' ≠ k) : warmVersion c (warmBack c s k obj n accepted) k' = warmVersion c s k' := by
  unfold warmBack
  split
  · rw [warmWrite_warmVersion, if_neg hk]
  · rfl

variable {banned : Object Key → Bool} {victims : List Key}

theorem fresh_put {obj : Object Key} {accepted : Bool} (hf : Fresh c s) :
    Fresh c (put c s k obj victims accepted) ↔ VictimsOk c s k victims := by
  have hhot : ∀ k', hotVersion (put c s k obj victims accepted) k' =
      if k' = k then some s.clock else if k' ∈ victims then none else hotVersion s k' := by
    intro k'
    show hotVersion (warmBack c _ k obj s.clock accepted) k' = _
    rw [warmBack_hotVersion, putStored_hotVersion]
  have hlast : ∀ k', (put c s k obj victims accepted).last k' =
      update s.last k (some s.clock) k' := fun _ => rfl
  rw [fresh_others (k := k) victims hf]
  · refine and_iff_right ((freshAt_of_hot (n := s.clock) (by simp [hhot])).2 (by simp [hlast]))
  · intro k' hk
    rw [hhot, if_neg hk]
  · intro k' hk
    show warmVersion c (warmBack c _ k obj s.clock accepted) k' = _
    rw [warmBack_warmVersion _ _ _ hk]
    simp [warmVersion]
  · intro k' hk
    rw [hlast, update_of_ne hk]

/-- What the warm half of a `Get` does: the readable warm copies and the last puts stay, the key
shows its warm copy, and the victims of a promotion are gone. -/
structure GetEffect (c : Config Key Blob) (s s' : State Key Blob) (k : Key)
    (victims : List Key) : Prop where
  warm : ∀ k', warmVersion c s' k' = warmVersion c s k'
  last : s'.last = s.last
  shown : visible c s' k = warmVersion c s k
  hot : ∀ k', k' ≠ k → hotVersion s' k' =
    if (warmVersion c s k).isSome ∧ k' ∈ victims then none else hotVersion s k'

theorem getWarm_effect (banned : Object Key → Bool) (victims : List Key)
    (hk : hotVersion s k = none) : GetEffect c s (getWarm c s k banned victims).1 k victims := by
  unfold getWarm
  split
  · rename_i hw
    have hnone : warmVersion c s k = none := by simp [warmVersion, hw]
    exact ⟨fun _ => rfl, rfl, by simp [visible, hk], by simp [hnone]⟩
  · rename_i w hw
    split
    · rename_i hd
      have hnone : warmVersion c s k = none := by simp [warmVersion, hw, recordVersion, hd]
      have hsame : ∀ k', warmVersion c (warmDelete s k) k' = warmVersion c s k' := by
        intro k'
        rw [warmDelete_warmVersion]
        split
        · rename_i hkk; rw [hkk, hnone]
        · rfl
      refine ⟨hsame, rfl, ?_, by simp [hnone]; exact fun _ _ => rfl⟩
      show (hotVersion s k).or _ = _
      rw [hk, hsame k, none_or]
    · rename_i loaded hd
      have hsome : warmVersion c s k = some w.version := by
        simp [warmVersion, hw, recordVersion, hd]
      have hput : ∀ k', warmVersion c (putStored c s k loaded w.version victims) k' =
          warmVersion c s k' := by
        intro k'; simp [warmVersion]
      split
      · refine ⟨fun k' => ?_, by simp, ?_, fun k' hkk => ?_⟩
        · simp [warmVersion]
        · simp [visible, hotRemove_hotVersion, warmVersion]
        · simp [hotRemove_hotVersion, putStored_hotVersion, hkk, hsome]
      · refine ⟨hput, by simp, ?_, fun k' hkk => ?_⟩
        · simp [visible, putStored_hotVersion, hsome]
        · simp [putStored_hotVersion, hkk, hsome]

theorem get_effect (victims : List Key)
    (hget : hotGet c s k banned = (hotRemove c s k .ban, none)) :
    GetEffect c s (get c s k banned victims).1 k victims := by
  have hw : ∀ k', warmVersion c (hotRemove c s k .ban) k' = warmVersion c s k' := by
    intro k'; simp [warmVersion]
  have h := getWarm_effect (c := c) (s := hotRemove c s k .ban) (k := k) banned victims
    (by simp [hotRemove_hotVersion])
  rw [get, hget]
  refine ⟨fun k' => (h.warm k').trans (hw k'), h.last.trans (by simp), h.shown.trans (hw k), ?_⟩
  intro k' hk
  rw [h.hot k' hk, hw, hotRemove_hotVersion, if_neg hk]

section

variable (hf : Fresh c s)
include hf

omit [DecidableEq Key] in
theorem warmCurrent_of_misses (hm : Misses s k banned) (hok : HotGetOk c s k banned) :
    WarmCurrent c s k := by
  cases hk : s.hot k with
  | none => exact (freshAt_of_none (by simp [hotVersion, hk])).1 (hf k)
  | some e => exact hok e hk (hm e hk)

theorem fresh_get :
    Fresh c (get c s k banned victims).1 ↔ StepOk c s (.get k banned victims) := by
  rcases hotGet_cases c s k banned with ⟨e, he, hb, heq⟩ | ⟨hm, heq⟩
  · -- a hit: nothing moves
    have hget : (get c s k banned victims).1 = s := by simp [get, heq]
    rw [hget]
    refine iff_of_true hf ⟨fun e' he' hb' => ?_, fun hm => absurd (hm e he) hb⟩
    exact absurd hb' (some.inj (he.symm.trans he') ▸ hb)
  · have hm : Misses s k banned := hm
    have h := get_effect victims heq
    have hat : FreshAt c (get c s k banned victims).1 k ↔ HotGetOk c s k banned := by
      have hcur : FreshAt c (get c s k banned victims).1 k ↔ WarmCurrent c s k := by
        simp [FreshAt, h.shown, h.last, WarmCurrent]
      exact hcur.trans ⟨fun hw _ _ _ => hw, warmCurrent_of_misses hf hm⟩
    have hothers (gone : List Key)
        (hgone : ∀ k', (warmVersion c s k).isSome ∧ k' ∈ victims ↔ k' ∈ gone) :
        Fresh c (get c s k banned victims).1 ↔
          FreshAt c (get c s k banned victims).1 k ∧ VictimsOk c s k gone :=
      fresh_others gone hf (fun k' hk => by simp [h.hot k' hk, hgone]) (fun k' _ => h.warm k')
        (fun k' _ => by rw [h.last])
    simp only [StepOk, hm, true_implies, ← hat]
    cases hv : (warmVersion c s k).isSome with
    | true => simpa using hothers victims (by simp [hv])
    | false => simpa [VictimsOk] using hothers [] (by simp [hv])

theorem fresh_delete : Fresh c (delete c s k) := by
  intro k'
  by_cases hk : k' = k
  · subst hk
    intro v hv
    simp [visible, hotVersion, warmVersion, delete, warmDelete] at hv
  · refine (freshAt_congr ?_ ?_ ?_).2 (hf k')
    · simp [hotVersion, delete, warmDelete, hk]
    · simp [warmVersion, delete, warmDelete, hk]
    · simp [delete, hk]

omit [DecidableEq Key] in
theorem fresh_of_warm_lost (hhot : ∀ k, hotVersion s' k = hotVersion s k)
    (hlast : s'.last = s.last)
    (hwarm : ∀ k, warmVersion c s' k = none ∨ warmVersion c s' k = warmVersion c s k) :
    Fresh c s' := by
  intro k v hv
  rw [hlast]
  refine hf k v ?_
  rw [visible, hhot] at hv
  rw [visible]
  rcases hwarm k with h | h <;> rw [h] at hv
  · rw [or_none] at hv
    rw [hv, some_or]
  · exact hv

theorem fresh_drainQueues : Fresh c (drainQueues s) := by
  obtain ⟨hh, hl, hw⟩ := drainQueues_effect c s
  exact fresh_of_warm_lost hf (fun k => by simp [hotVersion, hh]) hl hw

theorem fresh_warmEvict : Fresh c (warmEvict c s k) := by
  unfold warmEvict
  split
  · exact hf
  · split
    · exact hf
    · refine fresh_of_warm_lost hf (fun k' => clearBacked_hotVersion _ _ _) rfl fun k' => ?_
      show warmVersion c (warmDelete s k) k' = none ∨ warmVersion c (warmDelete s k) k' = _
      rw [warmDelete_warmVersion]
      split
      · exact .inl rfl
      · exact .inr rfl

/-! ### Sync batches -/

theorem fresh_hotGet :
    Fresh c (hotGet c s k banned).1 ↔ HotGetOk c s k banned := by
  rcases hotGet_cases c s k banned with ⟨e, he, hb, heq⟩ | ⟨hm, heq⟩ <;> rw [heq]
  · refine iff_of_true hf fun e' he' hb' => ?_
    exact absurd hb' (some.inj (he.symm.trans he') ▸ hb)
  · rw [fresh_hotRemove _ hf]
    refine ⟨fun h e he _ => h (by simp [he]), fun h hsome => ?_⟩
    obtain ⟨e, he⟩ := isSome_iff_exists.1 hsome
    exact h e he (hm e he)

theorem fresh_syncOne :
    Fresh c (syncOne c banned s k) ↔ HotGetOk c s k banned := by
  rw [← fresh_hotGet hf]
  unfold syncOne
  rcases hotGet_cases c s k banned with ⟨e, he, -, heq⟩ | ⟨-, heq⟩ <;> rw [heq]
  refine iff_of_true (fun k' => ?_) hf
  have hlast : (warmWrite c s k e.obj e.version).last = s.last := rfl
  by_cases hk : k' = k
  · subst hk
    have hv : hotVersion s k' = some e.version := by simp [hotVersion, he]
    rw [← FreshAt, freshAt_of_hot ((warmWrite_hotVersion c s k' _ _ k').trans hv)]
    exact (freshAt_of_hot hv).1 (hf k')
  · refine (freshAt_congr (warmWrite_hotVersion c s k _ _ k') ?_ (by rw [hlast])).2 (hf k')
    rw [warmWrite_warmVersion, if_neg hk]

end

theorem hotGet_of_cold (banned : Object Key → Bool) {d : Key} (hd : s.hot d = none) :
    (hotGet c s k banned).1.hot d = none ∧
      (FreshAt c (hotGet c s k banned).1 d ↔ FreshAt c s d) := by
  rcases hotGet_cases c s k banned with ⟨e, -, -, heq⟩ | ⟨-, heq⟩ <;> rw [heq]
  · exact ⟨hd, Iff.rfl⟩
  · refine ⟨by simp [update_apply, hd], freshAt_congr ?_ (by simp [warmVersion]) (by simp)⟩
    rw [hotRemove_hotVersion]
    split_ifs with hk
    · rw [hotVersion, hd, map_none]
    · rfl

theorem syncOne_of_cold (banned : Object Key → Bool) {d : Key} (hd : s.hot d = none) :
    (syncOne c banned s k).hot d = none ∧
      (FreshAt c (syncOne c banned s k) d ↔ FreshAt c s d) := by
  obtain ⟨hcold, hiff⟩ := hotGet_of_cold (c := c) (k := k) banned hd
  unfold syncOne
  rcases hotGet_cases c s k banned with ⟨e, he, -, heq⟩ | ⟨-, heq⟩ <;> rw [heq] at hcold hiff ⊢
  · have hne : d ≠ k := by
      rintro rfl
      rw [hd] at he
      cases he
    refine ⟨by simpa [warmWrite, setProtected, setBacked, warmPut, hne] using hcold, ?_⟩
    refine freshAt_congr (warmWrite_hotVersion c s k _ _ d) ?_ rfl
    rw [warmWrite_warmVersion, if_neg hne]
  · exact ⟨hcold, hiff⟩

theorem writeHotOnlyToWarm_of_cold {d : Key} {batch : List (Key × Bool)} (hd : s.hot d = none) :
    FreshAt c (writeHotOnlyToWarm c banned s batch) d ↔ FreshAt c s d := by
  induction batch generalizing s with
  | nil => rfl
  | cons ka rest ih =>
    obtain ⟨k, accepted⟩ := ka
    cases accepted with
    | true =>
      obtain ⟨hcold, hiff⟩ := syncOne_of_cold (c := c) (k := k) banned hd
      rw [writeHotOnlyToWarm, ih hcold, hiff]
    | false => exact (hotGet_of_cold banned hd).2

/-- A batch keeps the store fresh exactly if each of its removals is allowed: what one spoils, the
rest cannot repair. -/
theorem fresh_writeHotOnlyToWarm {batch : List (Key × Bool)} (hf : Fresh c s) :
    Fresh c (writeHotOnlyToWarm c banned s batch) ↔ SyncOk c banned s batch := by
  induction batch generalizing s with
  | nil => exact iff_of_true hf trivial
  | cons ka rest ih =>
    obtain ⟨k, accepted⟩ := ka
    cases accepted with
    | false => exact fresh_hotGet hf
    | true =>
      simp only [writeHotOnlyToWarm]
      by_cases hok : HotGetOk c s k banned
      · rw [ih ((fresh_syncOne hf).2 hok)]
        exact (and_iff_right hok).symm
      · refine iff_of_false (fun hF => ?_) fun h => hok h.1
        obtain ⟨e, he, hb, hcur⟩ : ∃ e, s.hot k = some e ∧ banned e.obj ∧ ¬ WarmCurrent c s k := by
          simpa [HotGetOk] using hok
        have hone : syncOne c banned s k = hotRemove c s k .ban := by
          simp [syncOne, hotGet, he, hb]
        rw [hone] at hF
        have hat := (writeHotOnlyToWarm_of_cold (by simp)).1 (hF k)
        rw [freshAt_removed (hf k) (by simp [hotRemove_hotVersion]) (by simp [warmVersion])
          (by simp)] at hat
        exact hcur (hat (by simp [he]))

/-- **One step.** From a fresh store, a step leads to a fresh store exactly if it takes no
key out of the hot tier whose warm copy is older than the last `Put`. -/
theorem fresh_step (op : Op Key) (hf : Fresh c s) : Fresh c (step c s op) ↔ StepOk c s op := by
  show Fresh c (apply c s op) ↔ StepOk c s op
  cases op with
  | put k obj victims accepted => exact fresh_put hf
  | get k banned victims => exact fresh_get hf
  | delete k => exact iff_of_true (fresh_delete hf) trivial
  | hotEvict k reason => exact fresh_hotRemove reason hf
  | drain => exact iff_of_true (fresh_drainQueues hf) trivial
  | warmEvict k => exact iff_of_true (fresh_warmEvict hf) trivial
  | sync overBudget reconcile keys banned =>
    simp only [apply, runWarmSyncCycle, StepOk]
    cases overBudget with
    | true => exact iff_of_true (fresh_drainQueues hf) (by simp)
    | false => simpa using fresh_writeHotOnlyToWarm (fresh_drainQueues hf)

/-- What a `Get` answers is the hot entry, or the warm record if that is missed. -/
theorem get_cases {obj : Object Key} {v : Nat} (h : (get c s k banned victims).2 = some (obj, v)) :
    (∃ e, s.hot k = some e ∧ e.obj = obj ∧ e.version = v) ∨
      Misses s k banned ∧ ∃ w, s.warm k = some w ∧ c.decode w.blob = some obj ∧ w.version = v := by
  rcases hotGet_cases c s k banned with ⟨e, he, -, heq⟩ | ⟨hm, heq⟩
  · simp only [get, heq] at h
    cases h
    exact .inl ⟨e, he, rfl, rfl⟩
  · simp only [get, heq, getWarm, hotRemove_warm] at h
    split at h
    · cases h
    · next w hw =>
      split at h
      · cases h
      · next loaded hd =>
        split at h
        · cases h
        · cases h
          exact .inr ⟨hm, w, hw, hd, rfl⟩

theorem get_answer {obj : Object Key} {v : Nat} (hf : Fresh c s) (hok : HotGetOk c s k banned)
    (h : (get c s k banned victims).2 = some (obj, v)) : s.last k = some v := by
  rcases get_cases h with ⟨e, he, -, rfl⟩ | ⟨hm, w, hw, hd, rfl⟩
  · exact (freshAt_of_hot (by simp [hotVersion, he])).1 (hf k)
  · exact warmCurrent_of_misses hf hm hok _ (by simp [warmVersion, hw, recordVersion, hd])

end

/-! ## Invariants of single keys

What a step can do to the two entries of a key: an invariant that relates them is kept by every
operation if these changes keep it.
-/

def Holds (R : Key → Option (HotEntry Key) → Option (WarmEntry Blob) → Prop)
    (s : State Key Blob) : Prop :=
  ∀ k, R k (s.hot k) (s.warm k)

/-- The changes that are neither a `Put` nor a tombstone. -/
structure PerKey (c : Config Key Blob)
    (R : Key → Option (HotEntry Key) → Option (WarmEntry Blob) → Prop) : Prop where
  remove : ∀ {k h w}, R k h w → R k none w
  lose : ∀ {k w}, R k none w → R k none none
  promote : ∀ {k w o}, R k none (some w) → c.decode w.blob = some o →
    R k (some ⟨o, false, w.version⟩) (some w)
  evict : ∀ {k h w}, R k h (some w) → R k (h.map fun e => { e with hasBackup := false }) none
  protect : ∀ {k h w b}, R k h (some w) → R k h (some { w with isProtected := b })
  write : ∀ {k e w}, R k (some e) w →
    R k (some { e with hasBackup := true }) (some ⟨c.encode e.obj, true, e.version⟩)

def Op.Drains : Op Key → Prop
  | .drain | .sync .. => True
  | .put .. | .get .. | .delete _ | .hotEvict .. | .warmEvict _ => False

section

variable {c : Config Key Blob} {s s' : State Key Blob} {k : Key} {banned : Object Key → Bool}
  {R : Key → Option (HotEntry Key) → Option (WarmEntry Blob) → Prop}

theorem Holds.update {a : Option (HotEntry Key)} {b : Option (WarmEntry Blob)} (h : Holds R s)
    (hhot : s'.hot = update s.hot k a) (hwarm : s'.warm = update s.warm k b)
    (hk : R k a b) : Holds R s' := by
  intro k'
  rw [hhot, hwarm]
  by_cases heq : k' = k
  · subst heq
    rwa [update_self, update_self]
  · rw [update_of_ne heq, update_of_ne heq]
    exact h k'

theorem Holds.warmDelete (h : Holds R s) (hk : R k (s.hot k) none) : Holds R (warmDelete s k) :=
  h.update (update_eq_self k s.hot).symm rfl hk

variable (hR : PerKey c R)
include hR

theorem PerKey.hotRemove (h : Holds R s) (r : EvictReason) : Holds R (hotRemove c s k r) :=
  h.update (hotRemove_hot c s k r) (by simp) (hR.remove (h k))

theorem PerKey.putStored {obj : Object Key} {n : Nat} (victims : List Key) (h : Holds R s)
    (hput : R k none (s.warm k) → R k (some ⟨obj, false, n⟩) (s.warm k)) :
    Holds R (putStored c s k obj n victims) := by
  have hevict : Holds R (evictInline c s victims) :=
    @run_preserves _ _ (fun s v => Tiered.hotRemove c s v .sieve) (Holds R)
      (fun _ _ ht => hR.hotRemove ht .sieve) s h victims
  have hremove := hR.hotRemove (k := k) hevict .delete
  refine hremove.update rfl (update_eq_self k _).symm ?_
  rw [putStored_warm]
  exact hput (hR.remove (h k))

section

variable (h : Holds R s)
include h

theorem PerKey.hotGet : Holds R (hotGet c s k banned).1 := by
  rcases hotGet_cases c s k banned with ⟨e, -, -, heq⟩ | ⟨-, heq⟩ <;> rw [heq]
  · exact h
  · exact hR.hotRemove h .ban

theorem PerKey.setProtected {b : Bool} : Holds R (setProtected s k b) := by
  refine h.update (update_eq_self k s.hot).symm rfl ?_
  have hk := h k
  cases hw : s.warm k with
  | none => rwa [hw] at hk
  | some w =>
    rw [hw] at hk
    exact hR.protect hk

theorem PerKey.warmWrite {e : HotEntry Key} (he : s.hot k = some e) :
    Holds R (warmWrite c s k e.obj e.version) := by
  have hk := h k
  rw [he] at hk
  refine h.update (k := k) ?_ ?_ (hR.write hk)
  · simp [Tiered.warmWrite, Tiered.setProtected, setBacked, warmPut, he]
  · simp [Tiered.warmWrite, Tiered.setProtected, setBacked, warmPut]

variable {victims : List Key}

theorem PerKey.put {obj : Object Key} {accepted : Bool}
    (hput : ∀ w, R k none w → R k (some ⟨obj, false, s.clock⟩) w) :
    Holds R (put c s k obj victims accepted) := by
  have hstored := hR.putStored victims h (hput _)
  show Holds R (warmBack c (Tiered.putStored c s k obj s.clock victims) k obj s.clock accepted)
  unfold warmBack
  split
  · exact hR.warmWrite hstored (update_self k _ _)
  · exact hstored

theorem PerKey.getWarm (hk : s.hot k = none) :
    Holds R (getWarm c s k banned victims).1 := by
  unfold Tiered.getWarm
  split
  · exact h
  · next w hw =>
    split
    · refine h.warmDelete ?_
      rw [hk]
      exact hR.lose (hR.remove (h k))
    · next loaded hd =>
      have hput : Holds R (Tiered.putStored c s k loaded w.version victims) :=
        hR.putStored victims h fun hnone => by
          rw [hw] at hnone ⊢
          exact hR.promote hnone hd
      split
      · exact hR.hotRemove hput .delete
      · exact hput

theorem PerKey.get : Holds R (get c s k banned victims).1 := by
  unfold Tiered.get
  rcases hotGet_cases c s k banned with ⟨e, -, -, heq⟩ | ⟨-, heq⟩ <;> rw [heq]
  · exact h
  · exact hR.getWarm (hR.hotRemove h .ban) (by simp)

theorem PerKey.drainQueues (hdrop : ∀ k ∈ s.tombstoneQueue, R k (s.hot k) none) :
    Holds R (drainQueues s) := by
  have htombs : ∀ (q : List Key) (t : State Key Blob), Holds R t →
      (∀ k ∈ q, R k (t.hot k) none) → Holds R (q.foldl Tiered.warmDelete t) := by
    intro q
    induction q with
    | nil => exact fun t ht _ => ht
    | cons d q ih =>
      intro t ht hq
      obtain ⟨hd, hq⟩ := List.forall_mem_cons.1 hq
      exact ih _ (ht.warmDelete hd) hq
  have ht : Holds R (drainWarmEvicts (drainTombstones s)) := htombs _ s h hdrop
  exact @run_preserves _ _ (fun s k => Tiered.setProtected s k false) (Holds R)
    (fun _ _ ht => hR.setProtected ht) _ ht _

theorem PerKey.warmEvict : Holds R (warmEvict c s k) := by
  unfold Tiered.warmEvict
  split
  · exact h
  · next w hw =>
    split
    · exact h
    · have hk := h k
      rw [hw] at hk
      exact h.update rfl rfl (hR.evict hk)

theorem PerKey.syncOne : Holds R (syncOne c banned s k) := by
  unfold Tiered.syncOne
  rcases hotGet_cases c s k banned with ⟨e, he, -, heq⟩ | ⟨-, heq⟩ <;> rw [heq]
  · exact hR.warmWrite h he
  · exact hR.hotRemove h .ban

theorem PerKey.writeHotOnlyToWarm {batch : List (Key × Bool)} :
    Holds R (writeHotOnlyToWarm c banned s batch) := by
  induction batch generalizing s with
  | nil => exact h
  | cons ka rest ih =>
    obtain ⟨k, accepted⟩ := ka
    cases accepted with
    | true => exact ih (hR.syncOne h)
    | false => exact hR.hotGet h

end

/-- A step keeps the invariant if its `Put` and the tombstones it applies do. -/
theorem PerKey.step (op : Op Key) (h : Holds R s)
    (hput : ∀ k obj victims accepted, op = .put k obj victims accepted →
      ∀ w, R k none w → R k (some ⟨obj, false, s.clock⟩) w)
    (hdrop : ∀ k ∈ s.tombstoneQueue, R k (s.hot k) none ∨ ¬ op.Drains) : Holds R (step c s op) := by
  show Holds R (apply c s op)
  have hdrain (hop : op.Drains) : Holds R (Tiered.drainQueues s) :=
    hR.drainQueues h fun k hk => (hdrop k hk).resolve_right (not_not.2 hop)
  cases op with
  | put k obj victims accepted => exact hR.put h (hput k obj victims accepted rfl)
  | get k banned victims => exact hR.get h
  | delete k =>
    refine Holds.warmDelete (hR.hotRemove h .delete) ?_
    rw [hotRemove_hot, update_self]
    exact hR.lose (hR.remove (h k))
  | hotEvict k reason => exact hR.hotRemove h reason
  | drain => exact hdrain trivial
  | warmEvict k => exact hR.warmEvict h
  | sync overBudget reconcile keys banned =>
    simp only [apply, runWarmSyncCycle]
    split
    · exact hdrain trivial
    · exact hR.writeHotOnlyToWarm (hdrain trivial)

end

/-! ## Where the objects come from

Versions name operations: version `n` belongs to the `n`-th operation of the run. -/

section

variable {c : Config Key Blob} {s : State Key Blob} {k : Key}
  {P : Key → Nat → Object Key → Prop}

/-- Every object in either tier has a version that `P` ties to it. -/
structure Recorded (c : Config Key Blob) (P : Key → Nat → Object Key → Prop)
    (s : State Key Blob) : Prop where
  hot : ∀ k e, s.hot k = some e → P k e.version e.obj
  warm : ∀ k w o, s.warm k = some w → c.decode w.blob = some o → P k w.version o

def Config.Faithful (c : Config Key Blob) : Prop :=
  ∀ o o', c.decode (c.encode o) = some o' → o' = o

/-- What `P` says of an object it says of the object that comes back from its record. -/
def CodecKeeps (c : Config Key Blob) (P : Key → Nat → Object Key → Prop) : Prop :=
  ∀ k n o o', c.decode (c.encode o) = some o' → P k n o → P k n o'

omit [DecidableEq Key] in
theorem Config.Faithful.keeps (hc : c.Faithful) : CodecKeeps c P :=
  fun _ _ o o' hd hP => hc o o' hd ▸ hP

def RecordedAt (c : Config Key Blob) (P : Key → Nat → Object Key → Prop) (k : Key)
    (h : Option (HotEntry Key)) (w : Option (WarmEntry Blob)) : Prop :=
  (∀ e ∈ h, P k e.version e.obj) ∧ ∀ r ∈ w, ∀ o, c.decode r.blob = some o → P k r.version o

omit [DecidableEq Key] in
theorem recorded_iff : Recorded c P s ↔ Holds (RecordedAt c P) s :=
  ⟨fun h k => ⟨h.hot k, fun r hr o => h.warm k r o hr⟩,
    fun h => ⟨fun k => (h k).1, fun k r o hr => (h k).2 r hr o⟩⟩

omit [DecidableEq Key] in
theorem perKey_recordedAt (hc : CodecKeeps c P) : PerKey c (RecordedAt c P) where
  remove h := ⟨by simp, h.2⟩
  lose _ := ⟨by simp, by simp⟩
  promote h hd := ⟨fun _ he => by cases he; exact h.2 _ rfl _ hd, h.2⟩
  evict h := by
    refine ⟨fun e he => ?_, by simp⟩
    obtain ⟨e', he', rfl⟩ := map_eq_some_iff.1 he
    exact h.1 e' he'
  protect h := ⟨h.1, fun r hr o ho => by cases hr; exact h.2 _ rfl o ho⟩
  write {_ e _} h := ⟨fun _ he => by cases he; exact h.1 e rfl,
    fun _ hr o ho => by cases hr; exact hc _ _ _ o ho (h.1 e rfl)⟩

theorem recorded_step (op : Op Key) (hc : CodecKeeps c P) (hr : Recorded c P s)
    (hP : ∀ k obj victims accepted, op = .put k obj victims accepted → P k s.clock obj) :
    Recorded c P (step c s op) := by
  refine recorded_iff.2 ((perKey_recordedAt hc).step op (recorded_iff.1 hr) ?_ ?_)
  · intro k obj victims accepted hop w hw
    exact ⟨fun _ he => by cases he; exact hP k obj victims accepted hop, hw.2⟩
  · exact fun k _ => .inl ⟨hr.hot k, by simp⟩

theorem get_recorded {banned : Object Key → Bool} {victims : List Key} {obj : Object Key} {v : Nat}
    (hr : Recorded c P s) (h : (get c s k banned victims).2 = some (obj, v)) : P k v obj := by
  rcases get_cases h with ⟨e, he, rfl, rfl⟩ | ⟨-, w, hw, hd, rfl⟩
  · exact hr.hot k e he
  · exact hr.warm k w _ hw hd

omit [DecidableEq Key] in
theorem Recorded.mono {P' : Key → Nat → Object Key → Prop} (hP : ∀ k n o, P k n o → P' k n o)
    (hr : Recorded c P s) : Recorded c P' s :=
  ⟨fun k e he => hP _ _ _ (hr.hot k e he), fun k w o hw ho => hP _ _ _ (hr.warm k w o hw ho)⟩

end

/-! ## Whole runs -/

def PutAt (ops : List (Op Key)) (k : Key) (n : Nat) (o : Object Key) : Prop :=
  ∃ victims accepted, ops[n]? = some (.put k o victims accepted)

/-- The operation is a `Put` or a `Delete` of `k`. -/
def Op.Writes (k : Key) : Op Key → Prop
  | .put k' _ _ _ => k' = k
  | .delete k' => k' = k
  | .get .. | .hotEvict .. | .drain | .warmEvict _ | .sync .. => False

/-- The `n`-th operation is the most recent `Put` of `k`, with no `Delete` after it. -/
def LastPut (ops : List (Op Key)) (k : Key) (n : Nat) : Prop :=
  (∃ o, PutAt ops k n o) ∧ ∀ i op, n < i → ops[i]? = some op → ¬ op.Writes k

section

variable {c : Config Key Blob} {s : State Key Blob} {k : Key}

theorem clock_run (ops : List (Op Key)) :
    (run (step c) State.fresh ops).clock = ops.length := by
  induction ops using List.reverseRecOn with
  | nil => rfl
  | append_singleton ops op ih =>
    rw [run_append, List.length_append]
    exact congrArg (· + 1) ih

theorem hotGet_last {banned : Object Key → Bool} : (hotGet c s k banned).1.last = s.last := by
  rcases hotGet_cases c s k banned with ⟨e, -, -, heq⟩ | ⟨-, heq⟩ <;> rw [heq]
  exact hotRemove_last c s k .ban

theorem writeHotOnlyToWarm_last {banned : Object Key → Bool} {batch : List (Key × Bool)} :
    (writeHotOnlyToWarm c banned s batch).last = s.last := by
  induction batch generalizing s with
  | nil => rfl
  | cons ka rest ih =>
    obtain ⟨k, accepted⟩ := ka
    cases accepted with
    | true =>
      have hone : (syncOne c banned s k).last = (hotGet c s k banned).1.last := by
        unfold syncOne
        split <;> rename_i hs' <;> rw [hs']
        rfl
      exact ih.trans (hone.trans hotGet_last)
    | false => exact hotGet_last

/-- Only a `Put` or a `Delete` of `k` changes what counts as the last `Put` of `k`. -/
theorem step_last {op : Op Key} (h : ¬ op.Writes k) : (step c s op).last k = s.last k := by
  show (apply c s op).last k = s.last k
  cases op with
  | put k' obj victims accepted => exact update_of_ne (Ne.symm h) _ _
  | get k' banned victims =>
    rcases hotGet_cases c s k' banned with ⟨e, -, -, heq⟩ | ⟨-, heq⟩
    · simp [apply, get, heq]
    · exact congrFun (get_effect victims heq).last k
  | delete k' => exact update_of_ne (Ne.symm h) _ _
  | hotEvict k' reason => simp [apply]
  | drain => exact congrFun (drainQueues_effect c s).2.1 k
  | warmEvict k' =>
    simp only [apply, warmEvict]
    split
    · rfl
    · split <;> rfl
  | sync overBudget reconcile keys banned =>
    simp only [apply, runWarmSyncCycle]
    split
    · exact congrFun (drainQueues_effect c s).2.1 k
    · rw [writeHotOnlyToWarm_last]
      exact congrFun (drainQueues_effect c s).2.1 k

omit [DecidableEq Key] in
theorem PutAt.append {ops : List (Op Key)} {n : Nat} {o : Object Key} (op : Op Key)
    (h : PutAt ops k n o) : PutAt (ops ++ [op]) k n o := by
  obtain ⟨victims, accepted, hn⟩ := h
  have hlt : n < ops.length := (getElem?_eq_some_iff.1 hn).1
  exact ⟨victims, accepted, by rw [List.getElem?_append_left hlt, hn]⟩

omit [DecidableEq Key] in
theorem putAt_append_self (ops : List (Op Key)) (o : Object Key) (victims : List Key)
    (accepted : Bool) : PutAt (ops ++ [.put k o victims accepted]) k ops.length o :=
  ⟨victims, accepted, by simp⟩

/-- The bookkeeping of `last` is what the list of operations says. -/
theorem lastPut_of_last {ops : List (Op Key)} {n : Nat}
    (h : (run (step c) State.fresh ops).last k = some n) : LastPut ops k n := by
  induction ops using List.reverseRecOn with
  | nil => cases h
  | append_singleton ops op ih =>
    rw [run_append] at h
    have hlater : ∀ i op', ops.length < i → (ops ++ [op])[i]? = some op' → ¬ op'.Writes k := by
      intro i op' hi hop
      have hlen := (getElem?_eq_some_iff.1 hop).1
      rw [List.length_append, List.length_singleton] at hlen
      omega
    by_cases hw : op.Writes k
    · cases op with
      | put k' obj victims accepted =>
        cases hw
        have hnow : (run (step c) State.fresh ops).clock = n := by
          simpa [step, apply, put] using h
        rw [clock_run] at hnow
        subst hnow
        exact ⟨⟨obj, putAt_append_self ops obj victims accepted⟩, hlater⟩
      | delete k' =>
        cases hw
        simp [step, apply, delete] at h
      | get | hotEvict | drain | warmEvict | sync => exact hw.elim
    · obtain ⟨⟨o, hput⟩, hno⟩ := ih ((step_last hw).symm.trans h)
      refine ⟨⟨o, hput.append op⟩, fun i op' hi hop => ?_⟩
      rcases Nat.lt_trichotomy i ops.length with hlt | heq | hgt
      · rw [List.getElem?_append_left hlt] at hop
        exact hno i op' hi hop
      · subst heq
        simp only [List.getElem?_concat_length, some.injEq] at hop
        rw [← hop]
        exact hw
      · exact hlater i op' hgt hop

theorem recorded_run (hc : c.Faithful) (ops : List (Op Key)) :
    Recorded c (PutAt ops) (run (step c) State.fresh ops) := by
  induction ops using List.reverseRecOn with
  | nil => exact ⟨fun _ _ h => (by cases h), fun _ _ _ h => (by cases h)⟩
  | append_singleton ops op ih =>
    rw [run_append]
    refine recorded_step op hc.keeps (ih.mono fun k n o h => h.append op) ?_
    rintro k obj victims accepted rfl
    rw [clock_run]
    exact putAt_append_self ops obj victims accepted

/-- **Every run.** Whatever the tiers dropped, moved or promoted, a `Get` answers with an object that
was put under its key and is not banned. -/
theorem get_answers_put (hc : c.Faithful) (ops : List (Op Key)) {banned : Object Key → Bool}
    {victims : List Key} {obj : Object Key} {v : Nat}
    (h : (get c (run (step c) State.fresh ops) k banned victims).2 = some (obj, v)) :
    PutAt ops k v obj ∧ banned obj = false := by
  refine ⟨get_recorded (recorded_run hc ops) h, ?_⟩
  rcases hotGet_cases c (run (step c) State.fresh ops) k banned with ⟨e, -, hb, hget⟩ | ⟨-, hget⟩
  · simp only [get, hget] at h
    grind
  · simp only [get, hget, getWarm] at h
    grind

omit [DecidableEq Key] in
theorem fresh_init : Fresh c (State.fresh : State Key Blob) := by
  intro k v hv
  cases hv

theorem always_fresh_iff (ops : List (Op Key)) :
    Always (step c) (Fresh c) State.fresh ops ↔ Along (step c) (StepOk c) State.fresh ops :=
  @always_iff_along _ _ (step c) (StepOk c) (Fresh c) (fun _ => True) (fun _ _ _ => trivial)
    (fun _ op _ hf => fresh_step op hf) _ ops trivial fresh_init

end

/-- **`Get` is never older than the last `Put`, in exactly the runs that respect `StepOk`.** Every
state of a run shows nothing but last puts if and only if each step respects `StepOk`; and then
whatever a `Get` returns stems from the most recent `Put` of its key, with no `Delete` after it, and
is the object of that `Put` if decoding inverts encoding. -/
theorem get_never_older_than_last_put (c : Config Key Blob) (ops : List (Op Key)) :
    (Always (step c) (Fresh c) State.fresh ops ↔ Along (step c) (StepOk c) State.fresh ops) ∧
    (Along (step c) (StepOk c) State.fresh ops →
      ∀ before k banned victims after, ops = before ++ .get k banned victims :: after →
      ∀ obj v, (get c (run (step c) State.fresh before) k banned victims).2 = some (obj, v) →
        LastPut before k v ∧ (c.Faithful → PutAt before k v obj)) := by
  refine ⟨always_fresh_iff ops, ?_⟩
  intro hok before k banned victims after hops obj v hget
  subst hops
  obtain ⟨hbefore, hrest⟩ := along_append.1 hok
  have hf : Fresh c (run (step c) State.fresh before) := ((always_fresh_iff before).2 hbefore).last
  refine ⟨lastPut_of_last (get_answer hf hrest.1.1 hget), fun hc => ?_⟩
  exact get_recorded (recorded_run hc before) hget

/-- A large object is evicted and promoted again, then a small one is put over it; the queues are
drained before that is evicted. -/
def promotedThenShrunkRun : List (Op Nat) :=
  [.put 0 (exampleObject 20) [] true, .hotEvict 0 .sieve, .get 0 (fun _ => false) [],
    .put 0 (exampleObject 1) [] true, .drain, .hotEvict 0 .sieve]

/-- The promoted entry carries no backup mark, so the second `Put` sends no tombstone and the first
object's record stays warm: the `Get` after the last eviction returns the object of operation 0,
although operation 3 put another. -/
theorem get_returns_overwritten_object :
    (get exampleConfig (run (step exampleConfig) State.fresh promotedThenShrunkRun) 0
      (fun _ => false) []).2 = some (exampleObject 20, 0) ∧
    LastPut promotedThenShrunkRun 0 3 := by
  refine ⟨rfl, ⟨_, _, _, rfl⟩, fun i op hi hop => ?_⟩
  have hlt : i < 6 := (getElem?_eq_some_iff.1 hop).1
  obtain rfl | rfl : i = 4 ∨ i = 5 := by omega
  · cases hop; exact id
  · cases hop; exact id

/-- Evicting, promoting and overwriting by an object that qualifies for the warm tier. -/
def promotedThenReplacedRun : List (Op Nat) :=
  [.put 0 (exampleObject 20) [] true, .hotEvict 0 .sieve, .get 0 (fun _ => false) [],
    .put 0 (exampleObject 30) [] true, .hotEvict 0 .sieve, .get 0 (fun _ => false) []]

theorem get_returns_replacing_object :
    Along (step exampleConfig) (StepOk exampleConfig) State.fresh promotedThenReplacedRun ∧
    ∀ obj v, (get exampleConfig (run (step exampleConfig) State.fresh
        (promotedThenReplacedRun.take 5)) 0 (fun _ => false) []).2 = some (obj, v) →
      LastPut (promotedThenReplacedRun.take 5) 0 v ∧
        PutAt (promotedThenReplacedRun.take 5) 0 v obj := by
  have hok : Along (step exampleConfig) (StepOk exampleConfig) State.fresh
      promotedThenReplacedRun := by
    refine ⟨fun v hv => ?_, ?_, ?_, fun v hv => ?_, ?_, ?_, trivial⟩
    · cases hv
    · intro _ v hv; cases hv; rfl
    · exact ⟨fun e he hb => (by cases hb), fun _ _ v hv => (by cases hv)⟩
    · cases hv
    · intro _ v hv; cases hv; rfl
    · exact ⟨fun e he hb => (by cases hb), fun _ _ v hv => (by cases hv)⟩
  refine ⟨hok, fun obj v hget => ?_⟩
  obtain ⟨hlast, hput⟩ := (get_never_older_than_last_put exampleConfig promotedThenReplacedRun).2 hok
    (promotedThenReplacedRun.take 5) 0 (fun _ => false) [] [] rfl obj v hget
  exact ⟨hlast, hput fun o o' h => (some.inj h).symm⟩

end Bouine.Storage.Tiered
