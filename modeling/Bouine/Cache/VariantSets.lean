import Mathlib.Data.Finset.Card
import Mathlib.Data.Finset.Insert
import Mathlib.Logic.Function.Basic
import Bouine.Lib.Transition
import Bouine.Api.Object

/-! # Variant sets and Purge

`Handler.variantSets` is the only record of which stored objects are Vary variants of a primary key,
and `Purge` deletes exactly the keys it lists. The file models the paths that write it
(`reserveVariantSlotMode` with its two reconciliations, `Purge`, a restart) and those that write the
store (a fill, a background revalidation or shed refill, an eviction), and says which runs keep
every stored variant listed.

The store may lose any entry at any moment: each operation takes the sets of keys that vanish right
before its store calls. A probe loop needs one such set only: dropping a key before its own probe is
dropping it before the loop, and after it, before the next store call.
-/

namespace Bouine.Cache.VariantSets

open Api Lib.Transition Finset Function

/-- A store entry. `variantOf` and `stamp`, which no modelled function reads, are the primary key
whose variant the entry is, and the position of the operation that stored it. -/
structure Stored (Key : Type) where
  obj : Object Key
  variantOf : Option Key
  stamp : Nat
deriving DecidableEq, Repr

/-- What a handler is configured with. `ownerFn` is absent on a single node; else it tells whether
this node owns a key. `variantKey` and `buildVaryKey` are `VariantKey` and `BuildVaryKey` under the
route's key policy. -/
structure Handler (Key Header : Type) where
  ownerFn : Option (Key → Bool)
  maxVariants : Nat
  stayinAlive : Bool
  variantKey : Key → String → Header → Key
  buildVaryKey : String → Header → String

/-- A handler and its store. No reader tells an absent variant set from an empty one, so the map is
total. -/
structure State (Key : Type) where
  store : Key → Option (Stored Key)
  variantSets : Key → Finset Key
  clock : Nat

variable {Key Header : Type} [DecidableEq Key]

/-! ## The store -/

namespace State

def fresh : State Key := ⟨fun _ => none, fun _ => ∅, 0⟩

def dropKeys (s : State Key) (ks : Finset Key) : State Key :=
  { s with store := fun k => if k ∈ ks then none else s.store k }

def put (s : State Key) (k : Key) (e : Stored Key) : State Key :=
  { s with store := update s.store k (some e) }

def delete (s : State Key) (k : Key) : State Key := s.dropKeys {k}

def has (s : State Key) (k : Key) : Bool := (s.store k).isSome

def setVariants (s : State Key) (p : Key) (set : Finset Key) : State Key :=
  { s with variantSets := update s.variantSets p set }

end State

/-! ## Filling -/

/-- `buildObject`, as far as the fields above go. -/
def buildObject (h : Handler Key Header) (key : Key) (vary : String) (hdr : Header)
    (body : List UInt8) : Object Key where
  key := key
  varyValue := vary
  varyKey := h.buildVaryKey vary hdr
  body := body
  bodySize := body.length
  pairedKey := none
  keepGrace := h.stayinAlive

def buildResolver (variant : Object Key) (primaryKey : Key) : Object Key :=
  { variant with
    key := primaryKey
    varyKey := ""
    body := []
    bodySize := 0
    pairedKey := some variant.key }

/-- `storeObject`: on a cluster only the owner of the key stores. -/
def storeObject (h : Handler Key Header) (s : State Key) (key : Key) (e : Stored Key) :
    State Key :=
  match h.ownerFn with
  | some isLocal => if isLocal key then s.put key e else s
  | none => s.put key e

/-- `pruneDeadVariants` over the whole set; `gone` vanishes before the probes. -/
def pruneDeadVariants (s : State Key) (primaryKey : Key) (gone : Finset Key) : State Key :=
  let s := s.dropKeys gone
  s.setVariants primaryKey ((s.variantSets primaryKey).filter fun k => s.has k)

/-- `reconcileStaleIncarnation`: with the primary gone a single node forgets the whole set, a
cluster node the members that are gone too. -/
def reconcileStaleIncarnation (h : Handler Key Header) (s : State Key) (primaryKey : Key)
    (gone goneProbes : Finset Key) : State Key :=
  let s := s.dropKeys gone
  if s.has primaryKey then s
  else if h.ownerFn.isNone then s.setVariants primaryKey ∅
  else pruneDeadVariants s primaryKey goneProbes

/-- The keys that vanish at each point where a fill reaches the store. -/
structure Drops (Key : Type) where
  reconcile : Finset Key
  reconcileProbes : Finset Key
  prune : Finset Key
  putVariant : Finset Key
  putPrimary : Finset Key

def Drops.none : Drops Key := ⟨∅, ∅, ∅, ∅, ∅⟩

def reservePruned (h : Handler Key Header) (s : State Key) (primaryKey storeKey : Key)
    (fromPeer : Bool) (gone : Finset Key) : State Key × Bool :=
  let s := pruneDeadVariants s primaryKey gone
  if (s.variantSets primaryKey).card < h.maxVariants ∨ fromPeer then
    (s.setVariants primaryKey (insert storeKey (s.variantSets primaryKey)), true)
  else (s, false)

def reserveIn (h : Handler Key Header) (s : State Key) (primaryKey storeKey : Key)
    (fromPeer : Bool) (gone : Finset Key) : State Key × Bool :=
  if (s.variantSets primaryKey).card < h.maxVariants then
    (s.setVariants primaryKey (insert storeKey (s.variantSets primaryKey)), true)
  else reservePruned h s primaryKey storeKey fromPeer gone

/-- `reserveVariantSlotMode`. -/
def reserveVariantSlotMode (h : Handler Key Header) (s : State Key)
    (primaryKey storeKey : Key) (fromPeer : Bool) (d : Drops Key) : State Key × Bool :=
  if storeKey ∈ s.variantSets primaryKey then (s, true)
  else if 0 < (s.variantSets primaryKey).card ∧ ¬ fromPeer then
    reserveIn h (reconcileStaleIncarnation h s primaryKey d.reconcile d.reconcileProbes)
      primaryKey storeKey fromPeer d.prune
  else reserveIn h s primaryKey storeKey fromPeer d.prune

/-- `reserveVariantSlot`: the mode of local fills. -/
def reserveVariantSlot (h : Handler Key Header) (s : State Key) (primaryKey storeKey : Key)
    (d : Drops Key) : State Key × Bool :=
  reserveVariantSlotMode h s primaryKey storeKey false d

def storeKeyOf (h : Handler Key Header) (primaryKey : Key) (vary : String) (hdr : Header) : Key :=
  if vary = "" then primaryKey else h.variantKey primaryKey vary hdr

def storeVariant (h : Handler Key Header) (s : State Key) (primaryKey storeKey : Key)
    (obj : Object Key) (d : Drops Key) : State Key :=
  let variant : Object Key := { obj with pairedKey := some primaryKey }
  let s' := storeObject h (s.dropKeys d.putVariant) storeKey ⟨variant, some primaryKey, s.clock⟩
  storeObject h (s'.dropKeys d.putPrimary) primaryKey
    ⟨buildResolver variant primaryKey, none, s.clock⟩

/-- The store half of a cacheable fill: a plain response goes under the primary
key, a varying one under its variant key if a slot can be reserved. -/
def fill (h : Handler Key Header) (s : State Key) (primaryKey : Key) (vary : String)
    (hdr : Header) (body : List UInt8) (d : Drops Key) : State Key :=
  let storeKey := storeKeyOf h primaryKey vary hdr
  let obj := buildObject h storeKey vary hdr body
  if storeKey = primaryKey then
    storeObject h (s.dropKeys d.putVariant) primaryKey ⟨obj, none, s.clock⟩
  else
    match reserveVariantSlot h s primaryKey storeKey d with
    | (s, true) => storeVariant h s primaryKey storeKey obj d
    | (s, false) => s

/-- A background revalidation or a shed refill (`doShedRefill`): the object goes under the key that
was looked up, with no slot reserved. -/
def backgroundStore (h : Handler Key Header) (s : State Key) (primaryKey key : Key)
    (vary : String) (hdr : Header) (body : List UInt8) (gone : Finset Key) : State Key :=
  storeObject h (s.dropKeys gone) key
    ⟨buildObject h key vary hdr body, if key = primaryKey then none else some primaryKey, s.clock⟩

/-! ## Looking up and purging -/

/-- What `lookup` hands back: the key finally probed, the entry there, and the resolver if only the
variant is missing. -/
structure LookupResult (Key : Type) where
  lookupKey : Key
  obj : Option (Stored Key)
  resolver : Option (Stored Key)

/-- `lookup`; `gone` vanishes before the first store read, `goneVariant` before the
second. -/
def lookup (h : Handler Key Header) (s : State Key) (primaryKey : Key) (hdr : Header)
    (gone goneVariant : Finset Key) : State Key × LookupResult Key :=
  let s := s.dropKeys gone
  match s.store primaryKey with
  | none => (s, ⟨primaryKey, none, none⟩)
  | some e =>
    if e.obj.varyValue = "" then (s, ⟨primaryKey, some e, none⟩)
    else
      let vk := h.variantKey primaryKey e.obj.varyValue hdr
      if vk = primaryKey then (s, ⟨primaryKey, some e, none⟩)
      else
        let s := s.dropKeys goneVariant
        match s.store vk with
        | some v => (s, ⟨vk, some v, none⟩)
        | none => (s, ⟨vk, none, some e⟩)

/-- `Purge`: detach the variant set, then delete every key it lists and the primary; nothing if the
set is empty and the primary not stored. -/
def purge (s : State Key) (primaryKey : Key) (gone : Finset Key) : State Key × Bool :=
  let set := s.variantSets primaryKey
  let s := (s.setVariants primaryKey ∅).dropKeys gone
  if set.card = 0 ∧ ¬ s.has primaryKey then (s, false)
  else ((s.dropKeys set).delete primaryKey, true)

def restart (s : State Key) : State Key := { s with variantSets := fun _ => ∅ }

/-! ## Operations -/

inductive Op (Key Header : Type) where
  | fill (primaryKey : Key) (vary : String) (hdr : Header) (body : List UInt8) (d : Drops Key)
  | background (primaryKey key : Key) (vary : String) (hdr : Header) (body : List UInt8)
      (gone : Finset Key)
  | evict (key : Key)
  | restart
  | lookup (primaryKey : Key) (hdr : Header) (gone goneVariant : Finset Key)
  | purge (primaryKey : Key) (gone : Finset Key)

def apply (h : Handler Key Header) (s : State Key) : Op Key Header → State Key
  | .fill p vary hdr body d => fill h s p vary hdr body d
  | .background p k vary hdr body gone => backgroundStore h s p k vary hdr body gone
  | .evict k => s.delete k
  | .restart => restart s
  | .lookup p hdr gone goneVariant => (lookup h s p hdr gone goneVariant).1
  | .purge p gone => (purge s p gone).1

def step (h : Handler Key Header) (s : State Key) (op : Op Key Header) : State Key :=
  { apply h s op with clock := s.clock + 1 }

/-! ## What the operations do to the stored variants -/

/-- The entry under `k` is a variant of `p`. -/
def VariantAt (s : State Key) (p k : Key) : Prop :=
  ∃ e, s.store k = some e ∧ e.variantOf = some p

def Tracked (s : State Key) : Prop := ∀ p k, VariantAt s p k → k ∈ s.variantSets p

def WellFormed (h : Handler Key Header) (s : State Key) : Prop :=
  ∀ p, p ∉ s.variantSets p ∧ (s.variantSets p).card ≤ h.maxVariants

/-- `storeObject` does store under this key. -/
def Handler.stores (h : Handler Key Header) (k : Key) : Bool :=
  match h.ownerFn with
  | some isLocal => isLocal k
  | none => true

section

variable (s : State Key) (h : Handler Key Header)

@[simp] theorem variantSets_dropKeys (ks : Finset Key) :
    (s.dropKeys ks).variantSets = s.variantSets := rfl

@[simp] theorem variantSets_put (k : Key) (e : Stored Key) :
    (s.put k e).variantSets = s.variantSets := rfl

@[simp] theorem variantSets_setVariants (p : Key) (set : Finset Key) :
    (s.setVariants p set).variantSets = update s.variantSets p set := rfl

theorem storeObject_eq (k : Key) (e : Stored Key) :
    storeObject h s k e = if h.stores k then s.put k e else s := by
  unfold storeObject Handler.stores
  cases h.ownerFn <;> simp

@[simp] theorem variantSets_storeObject (k : Key) (e : Stored Key) :
    (storeObject h s k e).variantSets = s.variantSets := by
  rw [storeObject_eq]; split <;> rfl

variable {p k : Key}

@[simp] theorem variantAt_setVariants {q : Key} {set : Finset Key} :
    VariantAt (s.setVariants q set) p k ↔ VariantAt s p k := Iff.rfl

@[simp] theorem variantAt_dropKeys {ks : Finset Key} :
    VariantAt (s.dropKeys ks) p k ↔ k ∉ ks ∧ VariantAt s p k := by
  by_cases hk : k ∈ ks <;> simp [VariantAt, State.dropKeys, hk]

theorem variantAt_put {k' : Key} {e : Stored Key} :
    VariantAt (s.put k' e) p k ↔ if k = k' then e.variantOf = some p else VariantAt s p k := by
  by_cases hk : k = k'
  · subst hk; simp [VariantAt, State.put]
  · simp [VariantAt, State.put, hk]

theorem variantAt_storeObject {k' : Key} {e : Stored Key} :
    VariantAt (storeObject h s k' e) p k ↔
      if k = k' ∧ h.stores k' then e.variantOf = some p else VariantAt s p k := by
  rw [storeObject_eq]
  by_cases hs : h.stores k' <;> simp [hs, variantAt_put]

end

/-! ## Reserving a slot -/

/-- The reservation forgets the set: a single node, a new key, a non-empty set and no resolver left.
-/
def Wipes (h : Handler Key Header) (s : State Key) (p storeKey : Key) (d : Drops Key) : Prop :=
  h.ownerFn = none ∧ storeKey ∉ s.variantSets p ∧ 0 < (s.variantSets p).card ∧
    ¬ (s.dropKeys d.reconcile).has p

section

variable {h : Handler Key Header} {s : State Key} {p storeKey : Key}

theorem tracked_dropKeys {ks : Finset Key} (ht : Tracked s) : Tracked (s.dropKeys ks) :=
  fun q k hv => ht q k ((variantAt_dropKeys s).1 hv).2

theorem tracked_setVariants {set : Finset Key} (ht : Tracked s)
    (hset : ∀ k, VariantAt s p k → k ∈ set) : Tracked (s.setVariants p set) := by
  intro q k hv
  by_cases hq : q = p
  · subst hq; simpa using hset k hv
  · simpa [update_of_ne hq] using ht q k hv

variable {gone : Finset Key} {d : Drops Key}

theorem tracked_pruneDeadVariants (ht : Tracked s) : Tracked (pruneDeadVariants s p gone) := by
  refine tracked_setVariants (tracked_dropKeys ht) fun k hv => ?_
  obtain ⟨e, he, _⟩ := id hv
  exact mem_filter.2 ⟨tracked_dropKeys ht p k hv, by simp [State.has, he]⟩

/-- What a reservation does to the state, as a rule for invariants. -/
theorem reserveVariantSlot_induction {P : State Key → Prop} (hs : P s)
    (hdrop : ∀ s ks, P s → P (s.dropKeys ks))
    (hprune : ∀ s gone, P s → P (pruneDeadVariants s p gone))
    (hinsert : ∀ s, P s → (s.variantSets p).card < h.maxVariants →
      P (s.setVariants p (insert storeKey (s.variantSets p))))
    (hwipe : Wipes h s p storeKey d → P ((s.dropKeys d.reconcile).setVariants p ∅)) :
    P (reserveVariantSlot h s p storeKey d).1 := by
  have hin : ∀ s, P s → P (reserveIn h s p storeKey false d.prune).1 := by
    intro s hs
    unfold reserveIn reservePruned
    dsimp only
    split_ifs with hroom hpruned
    · exact hinsert s hs hroom
    · exact hinsert _ (hprune s _ hs) (hpruned.resolve_right (by simp))
    · exact hprune s _ hs
  unfold reserveVariantSlot reserveVariantSlotMode
  split_ifs with hmem hcard
  · exact hs
  · refine hin _ ?_
    unfold reconcileStaleIncarnation
    dsimp only
    split_ifs with hp hown
    · exact hdrop s _ hs
    · exact hwipe ⟨Option.isNone_iff_eq_none.1 hown, hmem, hcard.1, hp⟩
    · exact hprune _ _ (hdrop s _ hs)
  · exact hin s hs

theorem tracked_reserveVariantSlot (ht : Tracked s) (hw : ¬ Wipes h s p storeKey d) :
    Tracked (reserveVariantSlot h s p storeKey d).1 :=
  reserveVariantSlot_induction ht (fun _ _ => tracked_dropKeys) (fun _ _ => tracked_pruneDeadVariants)
    (fun _ ht _ => tracked_setVariants ht fun k hv => mem_insert_of_mem (ht p k hv))
    fun h => absurd h hw

theorem mem_reserveIn {fromPeer : Bool} (hok : (reserveIn h s p storeKey fromPeer gone).2) :
    storeKey ∈ (reserveIn h s p storeKey fromPeer gone).1.variantSets p := by
  unfold reserveIn reservePruned at hok ⊢
  simp only at hok ⊢
  split <;> rename_i h1
  · simp
  · split <;> rename_i h2
    · simp
    · simp [h1, h2] at hok

theorem mem_reserveVariantSlot (hok : (reserveVariantSlot h s p storeKey d).2) :
    storeKey ∈ (reserveVariantSlot h s p storeKey d).1.variantSets p := by
  unfold reserveVariantSlot reserveVariantSlotMode at hok ⊢
  split <;> rename_i hmem
  · exact hmem
  · rw [if_neg hmem] at hok
    split <;> rename_i hcard
    · exact mem_reserveIn (by rwa [if_pos hcard] at hok)
    · exact mem_reserveIn (by rwa [if_neg hcard] at hok)

theorem reserveVariantSlot_of_wipes (hmax : 0 < h.maxVariants) (hw : Wipes h s p storeKey d) :
    reserveVariantSlot h s p storeKey d =
      (((s.dropKeys d.reconcile).setVariants p ∅).setVariants p {storeKey}, true) := by
  obtain ⟨hown, hmem, hcard, hp⟩ := hw
  simp [reserveVariantSlot, reserveVariantSlotMode, hmem, hcard, reconcileStaleIncarnation,
    hp, hown, reserveIn, hmax]

end

/-! ## The cap and the primary key -/

section

variable {h : Handler Key Header} {s : State Key} {p storeKey : Key}

omit [DecidableEq Key] in
theorem wellFormed_congr {s' : State Key} (hs : s'.variantSets = s.variantSets)
    (hwf : WellFormed h s) : WellFormed h s' := by
  intro q; rw [hs]; exact hwf q

theorem wellFormed_setVariants {set : Finset Key} (hwf : WellFormed h s) (hp : p ∉ set)
    (hcard : set.card ≤ h.maxVariants) : WellFormed h (s.setVariants p set) := by
  intro q
  by_cases hq : q = p
  · subst hq; simpa using ⟨hp, hcard⟩
  · simpa [update_of_ne hq] using hwf q

theorem wellFormed_insert (hwf : WellFormed h s) (hne : storeKey ≠ p)
    (hroom : (s.variantSets p).card < h.maxVariants) :
    WellFormed h (s.setVariants p (insert storeKey (s.variantSets p))) := by
  refine wellFormed_setVariants hwf ?_ ((card_insert_le _ _).trans hroom)
  rw [mem_insert, not_or]
  exact ⟨hne.symm, (hwf p).1⟩

theorem wellFormed_pruneDeadVariants {gone : Finset Key} (hwf : WellFormed h s) :
    WellFormed h (pruneDeadVariants s p gone) :=
  wellFormed_setVariants (s := s.dropKeys gone) hwf
    (fun hp => (hwf p).1 (mem_filter.1 hp).1)
    ((card_filter_le _ _).trans (hwf p).2)

theorem wellFormed_reserveVariantSlot {d : Drops Key} (hwf : WellFormed h s)
    (hne : storeKey ≠ p) : WellFormed h (reserveVariantSlot h s p storeKey d).1 :=
  reserveVariantSlot_induction hwf (fun _ _ h => h) (fun _ _ => wellFormed_pruneDeadVariants)
    (fun _ hwf => wellFormed_insert hwf hne) fun _ =>
      wellFormed_setVariants (s := s.dropKeys d.reconcile) hwf (by simp) (by simp)

end

/-! ## One step -/

section

variable {h : Handler Key Header} {s : State Key}

theorem store_of_dropKeys {ks : Finset Key} {k : Key} {e : Stored Key}
    (hk : (s.dropKeys ks).store k = some e) : s.store k = some e := by
  simp only [State.dropKeys] at hk
  split at hk
  · cases hk
  · exact hk

theorem lookup_state (p : Key) (hdr : Header) (gone goneVariant : Finset Key) :
    (∃ ks, (lookup h s p hdr gone goneVariant).1 = s.dropKeys ks) ∧
      ∀ e, (lookup h s p hdr gone goneVariant).2.obj = some e → ∃ k, s.store k = some e := by
  have hboth : (s.dropKeys gone).dropKeys goneVariant = s.dropKeys (goneVariant ∪ gone) := by
    simp only [State.dropKeys, mem_union, ite_or]
  unfold lookup
  dsimp only
  split
  · exact ⟨⟨_, rfl⟩, nofun⟩
  · next e he =>
    have hfound (e' : Stored Key) (h : some e = some e') : ∃ k, s.store k = some e' :=
      ⟨p, store_of_dropKeys (he.trans h)⟩
    split_ifs
    · exact ⟨⟨_, rfl⟩, hfound⟩
    · exact ⟨⟨_, rfl⟩, hfound⟩
    · split
      · next v hv =>
        exact ⟨⟨_, hboth⟩, fun e' h => ⟨_, store_of_dropKeys (store_of_dropKeys (hv.trans h))⟩⟩
      · exact ⟨⟨_, hboth⟩, nofun⟩

variable {gone : Finset Key} {d : Drops Key} {p : Key} {t : Nat} {body : List UInt8}
  {obj : Object Key} {hdr : Header} {vary : String} {e : Stored Key}

theorem wellFormed_fill (hwf : WellFormed h s) : WellFormed h (fill h s p vary hdr body d) := by
  unfold fill
  simp only
  split
  · exact wellFormed_congr (by simp) hwf
  · rename_i hne
    have hres := wellFormed_reserveVariantSlot (d := d) hwf hne
    split <;> rename_i s' hs' <;> rw [hs'] at hres
    · exact wellFormed_congr (by simp [storeVariant]) hres
    · exact hres

theorem wellFormed_purge (hwf : WellFormed h s) : WellFormed h (purge s p gone).1 := by
  have hset : WellFormed h (s.setVariants p ∅) := wellFormed_setVariants hwf (by simp) (by simp)
  unfold purge
  simp only
  split <;> exact hset

theorem wellFormed_step (op : Op Key Header) (hwf : WellFormed h s) :
    WellFormed h (step h s op) := by
  show WellFormed h (apply h s op)
  cases op with
  | fill p vary hdr body d => exact wellFormed_fill hwf
  | background p k vary hdr body gone =>
    exact wellFormed_congr (by simp [apply, backgroundStore]) hwf
  | evict k => exact hwf
  | restart => intro q; simp [apply, VariantSets.restart]
  | lookup p hdr gone goneVariant =>
    obtain ⟨⟨ks, hl⟩, -⟩ := lookup_state (h := h) (s := s) p hdr gone goneVariant
    exact wellFormed_congr (by simp [apply, hl]) hwf
  | purge p gone => exact wellFormed_purge hwf

/-! ## Which steps keep every variant listed -/

theorem tracked_storeObject {k : Key} (ht : Tracked s)
    (he : h.stores k → ∀ p, e.variantOf = some p → k ∈ s.variantSets p) :
    Tracked (storeObject h s k e) := by
  intro q k' hv
  rw [variantAt_storeObject] at hv
  rw [variantSets_storeObject]
  split at hv
  · rename_i hk
    obtain ⟨rfl, hst⟩ := hk
    exact he hst q hv
  · exact ht q k' hv

/-- A variant in the store after a fill is the one it stored, or was there and did not vanish. -/
theorem of_variantAt_storeVariant {p storeKey q k : Key}
    (hv : VariantAt (storeVariant h s p storeKey obj d) q k) :
    (q = p ∧ k = storeKey) ∨ (k ∉ d.putVariant ∪ d.putPrimary ∧ VariantAt s q k) := by
  simp only [storeVariant, variantAt_storeObject, variantAt_dropKeys] at hv
  split at hv
  · cases hv
  · obtain ⟨hgone, hv⟩ := hv
    split at hv
    · rename_i hk
      cases hv
      exact .inl ⟨rfl, hk.1⟩
    · exact .inr ⟨by simp [hv.1, hgone], hv.2⟩

theorem variantAt_storeVariant_other {p storeKey q k : Key} (hk : k ≠ storeKey) (hp : k ≠ p)
    (hgone : k ∉ d.putVariant ∪ d.putPrimary) (hv : VariantAt s q k) :
    VariantAt (storeVariant h s p storeKey obj d) q k := by
  rw [mem_union, not_or] at hgone
  simp [storeVariant, variantAt_storeObject, hk, hp, hgone, hv]

variable {p storeKey : Key}

theorem variantSets_storeVariant :
    (storeVariant h s p storeKey obj d).variantSets = s.variantSets := by
  simp [storeVariant]

/-- The fill forgets the set of `p` while a variant listed there outlives the fill. -/
def ForgetsLive (h : Handler Key Header) (s : State Key) (p storeKey : Key) (d : Drops Key) : Prop :=
  Wipes h s p storeKey d ∧
    ∃ k ∈ s.variantSets p, k ∉ d.reconcile ∪ d.putVariant ∪ d.putPrimary ∧ VariantAt s p k

def StepOk (h : Handler Key Header) (s : State Key) : Op Key Header → Prop
  | .fill p vary hdr _ d =>
    storeKeyOf h p vary hdr ≠ p → ¬ ForgetsLive h s p (storeKeyOf h p vary hdr) d
  | .background p k _ _ _ _ => k ≠ p → h.stores k → k ∈ s.variantSets p
  | .restart => ∀ p k, ¬ VariantAt s p k
  | .evict _ | .lookup .. | .purge .. => True

/-- When a fill forgets the set, the state is complete exactly if no listed variant outlives it. -/
theorem tracked_fill_of_wipes (obj : Object Key) (hwf : WellFormed h s)
    (ht : Tracked s) (hw : Wipes h s p storeKey d) :
    Tracked (storeVariant h (reserveVariantSlot h s p storeKey d).1 p storeKey obj d) ↔
      ¬ ForgetsLive h s p storeKey d := by
  have hmax : 0 < h.maxVariants := hw.2.2.1.trans_le (hwf p).2
  rw [reserveVariantSlot_of_wipes hmax hw]
  set s₁ : State Key := ((s.dropKeys d.reconcile).setVariants p ∅).setVariants p {storeKey} with hs₁
  have hset : s₁.variantSets p = {storeKey} := by simp [hs₁]
  have hother : ∀ q, q ≠ p → s₁.variantSets q = s.variantSets q := by
    intro q hq; simp [hs₁, update_of_ne hq]
  have hvar : ∀ q k, VariantAt s₁ q k ↔ k ∉ d.reconcile ∧ VariantAt s q k := by
    intro q k; simp [hs₁]
  constructor
  · rintro hT ⟨-, k, hk, hgone, hv⟩
    have hks : k ≠ storeKey := fun he => hw.2.1 (he ▸ hk)
    have hkp : k ≠ p := fun he => (hwf p).1 (he ▸ hk)
    simp only [mem_union, not_or] at hgone
    have hlive : VariantAt (storeVariant h s₁ p storeKey obj d) p k :=
      variantAt_storeVariant_other hks hkp (by simp [hgone]) ((hvar p k).2 ⟨hgone.1.1, hv⟩)
    have hin := hT p k hlive
    rw [variantSets_storeVariant, hset, mem_singleton] at hin
    exact hks hin
  · intro hno q k hv
    rw [variantSets_storeVariant]
    rcases of_variantAt_storeVariant hv with ⟨rfl, rfl⟩ | ⟨hgone, hold⟩
    · simp [hset]
    · obtain ⟨hkept, hbefore⟩ := (hvar q k).1 hold
      by_cases hq : q = p
      · subst hq
        refine absurd ⟨hw, k, ht q k hbefore, ?_, hbefore⟩ hno
        simp only [mem_union, not_or] at hgone ⊢
        exact ⟨⟨hkept, hgone.1⟩, hgone.2⟩
      · rw [hother q hq]; exact ht q k hbefore

theorem tracked_fill (hwf : WellFormed h s) (ht : Tracked s) :
    Tracked (fill h s p vary hdr body d) ↔ StepOk h s (.fill p vary hdr body d) := by
  simp only [StepOk, fill]
  split <;> rename_i hne
  · refine iff_of_true (tracked_storeObject (tracked_dropKeys ht) fun _ q hq => ?_)
      fun hne' => absurd hne hne'
    cases hq
  · rw [forall_prop_of_true hne]
    by_cases hw : Wipes h s p (storeKeyOf h p vary hdr) d
    · have hmax : 0 < h.maxVariants := hw.2.2.1.trans_le (hwf p).2
      have hres := reserveVariantSlot_of_wipes hmax hw
      have hfill := tracked_fill_of_wipes (buildObject h (storeKeyOf h p vary hdr) vary hdr body)
        hwf ht hw
      rw [hres] at hfill ⊢
      exact hfill
    · refine iff_of_true ?_ fun hlive => hw hlive.1
      have hT := tracked_reserveVariantSlot ht hw
      split <;> rename_i s' hs'
      · have hmem := mem_reserveVariantSlot (by rw [hs'])
        rw [hs'] at hT hmem
        intro q k hv
        rw [variantSets_storeVariant]
        rcases of_variantAt_storeVariant hv with ⟨rfl, rfl⟩ | ⟨_, hv⟩
        · exact hmem
        · exact hT q k hv
      · rwa [hs'] at hT

theorem tracked_backgroundStore {p k : Key} (ht : Tracked s) :
    Tracked (backgroundStore h s p k vary hdr body gone) ↔
      (k ≠ p → h.stores k → k ∈ s.variantSets p) := by
  constructor
  · intro hT hne hst
    have hv : VariantAt (backgroundStore h s p k vary hdr body gone) p k := by
      simp [backgroundStore, variantAt_storeObject, hst, hne]
    simpa [backgroundStore] using hT p k hv
  · intro hok
    refine tracked_storeObject (tracked_dropKeys ht) fun hst q hq => ?_
    by_cases hne : k = p
    · simp [hne] at hq
    · rw [if_neg hne] at hq
      cases hq
      exact hok hne hst

theorem variantAt_of_purge {p q k : Key} (hv : VariantAt (purge s p gone).1 q k) :
    k ∉ s.variantSets p ∧ VariantAt s q k := by
  unfold purge at hv
  simp only at hv
  split at hv
  · rename_i hempty
    rw [card_eq_zero.1 hempty.1]
    exact ⟨notMem_empty k, ((variantAt_dropKeys _).1 hv).2⟩
  · simp only [State.delete, variantAt_dropKeys] at hv
    exact ⟨hv.2.1, hv.2.2.2⟩

theorem not_variantAt_purge {p k : Key} (ht : Tracked s) : ¬ VariantAt (purge s p gone).1 p k :=
  fun hv => (variantAt_of_purge hv).1 (ht p k (variantAt_of_purge hv).2)

variable {p q : Key}

theorem variantSets_purge (hq : q ≠ p) :
    (purge s p gone).1.variantSets q = s.variantSets q := by
  unfold purge
  simp only
  split <;> simp [State.delete, update_of_ne hq]

theorem tracked_purge (ht : Tracked s) : Tracked (purge s p gone).1 := by
  intro q k hv
  by_cases hq : q = p
  · subst hq; exact absurd hv (not_variantAt_purge ht)
  · rw [variantSets_purge hq]; exact ht q k (variantAt_of_purge hv).2

/-- One operation keeps the variant sets complete exactly if it respects `StepOk`. -/
theorem tracked_step (op : Op Key Header) (hwf : WellFormed h s) (ht : Tracked s) :
    Tracked (step h s op) ↔ StepOk h s op := by
  show Tracked (apply h s op) ↔ StepOk h s op
  cases op with
  | fill p vary hdr body d => exact tracked_fill hwf ht
  | background p k vary hdr body gone => exact tracked_backgroundStore ht
  | evict k => exact iff_of_true (tracked_dropKeys ht) trivial
  | restart =>
    constructor
    · intro hT p k hv
      simpa [apply, VariantSets.restart] using hT p k hv
    · intro hnone p k hv
      exact absurd hv (hnone p k)
  | lookup p hdr gone goneVariant =>
    refine iff_of_true ?_ trivial
    obtain ⟨⟨ks, hl⟩, -⟩ := lookup_state (h := h) (s := s) p hdr gone goneVariant
    exact (congrArg Tracked hl).mpr (tracked_dropKeys ht)
  | purge p gone => exact iff_of_true (tracked_purge ht) trivial

/-! ## The age of what a lookup can return -/

/-- Every stored variant of `p` was stored at time `t` or later. -/
def Since (p : Key) (t : Nat) (s : State Key) : Prop :=
  t ≤ s.clock ∧ ∀ k e, s.store k = some e → e.variantOf = some p → t ≤ e.stamp

theorem since_dropKeys {ks : Finset Key} (hs : Since p t s) : Since p t (s.dropKeys ks) :=
  ⟨hs.1, fun k e hk => hs.2 k e (store_of_dropKeys hk)⟩

theorem since_storeObject {k : Key} (hs : Since p t s) (he : t ≤ e.stamp) :
    Since p t (storeObject h s k e) := by
  rw [storeObject_eq]
  split
  · refine ⟨hs.1, fun k' e' hk' hv => ?_⟩
    simp only [State.put, update_apply] at hk'
    split_ifs at hk'
    · exact Option.some.inj hk' ▸ he
    · exact hs.2 k' e' hk' hv
  · exact hs

theorem since_reserveVariantSlot (q storeKey : Key) (d : Drops Key) (hs : Since p t s) :
    Since p t (reserveVariantSlot h s q storeKey d).1 :=
  reserveVariantSlot_induction hs (fun _ _ => since_dropKeys) (fun _ _ hs => since_dropKeys hs)
    (fun _ hs _ => hs) fun _ => since_dropKeys (s := s) hs

theorem since_fill (hs : Since p t s) : Since p t (fill h s q vary hdr body d) := by
  unfold fill
  simp only
  split
  · exact since_storeObject (since_dropKeys hs) hs.1
  · have hres := since_reserveVariantSlot (h := h) q (storeKeyOf h q vary hdr) d hs
    split <;> rename_i s' hs' <;> rw [hs'] at hres
    · exact since_storeObject (since_dropKeys (since_storeObject (since_dropKeys hres) hres.1))
        hres.1
    · exact hres

theorem since_purge (hs : Since p t s) : Since p t (purge s q gone).1 := by
  have hset : Since p t (s.setVariants q ∅) := hs
  unfold purge
  simp only
  split
  · exact since_dropKeys hset
  · exact since_dropKeys (since_dropKeys (since_dropKeys hset))

theorem since_step (op : Op Key Header) (hs : Since p t s) : Since p t (step h s op) := by
  have happly : Since p t (apply h s op) := by
    cases op with
    | fill q vary hdr body d => exact since_fill hs
    | background q k vary hdr body gone => exact since_storeObject (since_dropKeys hs) hs.1
    | evict k => exact since_dropKeys hs
    | restart => exact hs
    | lookup q hdr gone goneVariant =>
      obtain ⟨⟨ks, hl⟩, -⟩ := lookup_state (h := h) (s := s) q hdr gone goneVariant
      exact (congrArg (Since p t) hl).mpr (since_dropKeys hs)
    | purge q gone => exact since_purge hs
  exact ⟨hs.1.trans (Nat.le_succ _), happly.2⟩

theorem since_of_purge (ht : Tracked s) : Since p (s.clock + 1) (step h s (.purge p gone)) := by
  refine ⟨le_rfl, fun k e hk hv => ?_⟩
  exact absurd ⟨e, hk, hv⟩ (not_variantAt_purge ht)

end

/-! ## Whole runs -/

section

variable {h : Handler Key Header}

theorem clock_run (ops : List (Op Key Header)) (s : State Key) :
    (run (step h) s ops).clock = s.clock + ops.length := by
  induction ops generalizing s with
  | nil => rfl
  | cons op ops ih =>
    rw [run_cons, ih, List.length_cons]
    show s.clock + 1 + ops.length = _
    omega

omit [DecidableEq Key] in
theorem wellFormed_fresh : WellFormed h (State.fresh : State Key) := by
  intro p; simp [State.fresh]

/-- In every run a resource has at most `maxVariants` variants, and never itself among them. -/
theorem always_wellFormed (h : Handler Key Header) (ops : List (Op Key Header)) :
    Always (step h) (WellFormed h) .fresh ops :=
  always_of_step (fun _ op hwf => wellFormed_step op hwf) wellFormed_fresh ops

omit [DecidableEq Key] in
theorem tracked_fresh : Tracked (State.fresh : State Key) := by
  rintro p k ⟨e, he, -⟩
  cases he

theorem always_tracked_iff (ops : List (Op Key Header)) :
    Always (step h) Tracked .fresh ops ↔ Along (step h) (StepOk h) .fresh ops :=
  always_iff_along (fun _ op hwf => wellFormed_step op hwf)
    (fun _ op hwf ht => tracked_step op hwf ht) wellFormed_fresh tracked_fresh

theorem since_run {s : State Key} (ht : Tracked s) (p : Key) (gone : Finset Key)
    (ops : List (Op Key Header)) :
    Since p (s.clock + 1) (run (step h) s (.purge p gone :: ops)) :=
  run_preserves (fun _ op hs => since_step op hs) (since_of_purge ht) ops

/-- **Purge reaches every variant, in exactly the runs that respect `StepOk`.** The variant sets are
complete in every state of a run if and only if each operation respects `StepOk`; and then a lookup
after a purge of `p`, whatever comes in between, never returns a variant of `p` stored before it. -/
theorem purge_reaches_every_variant (h : Handler Key Header) (ops : List (Op Key Header)) :
    (Always (step h) Tracked .fresh ops ↔ Along (step h) (StepOk h) .fresh ops) ∧
    (Along (step h) (StepOk h) .fresh ops →
      ∀ before p gone after, ops = before ++ .purge p gone :: after →
      ∀ hdr gone' goneVariant e,
        (lookup h (run (step h) .fresh ops) p hdr gone' goneVariant).2.obj = some e →
        e.variantOf = some p → before.length < e.stamp) := by
  refine ⟨always_tracked_iff ops, ?_⟩
  rintro hok before p gone after rfl hdr gone' goneVariant e he hv
  have hbefore : Tracked (run (step h) .fresh before) :=
    ((always_tracked_iff before).2 (along_append.1 hok).1).last
  have hsince := since_run (h := h) hbefore p gone after
  rw [← run_append, clock_run, State.fresh, Nat.zero_add] at hsince
  obtain ⟨k, hk⟩ := (lookup_state p hdr gone' goneVariant).2 e he
  exact hsince.2 k e hk hv

/-- A single node whose variant keys are the primary key plus the selecting value. -/
def exampleHandler : Handler Nat Nat where
  ownerFn := none
  maxVariants := 4
  stayinAlive := false
  variantKey := fun p _ hdr => p + 1 + hdr
  buildVaryKey := fun vary _ => vary

/-- Three variants of one resource; the resolver is evicted after the first fill, and the purge is
after the second. -/
def evictedResolverRun : List (Op Nat Nat) :=
  [.fill 0 "accept-language" 1 [1] .none, .evict 0, .fill 0 "accept-language" 2 [2] .none,
    .purge 0 ∅, .fill 0 "accept-language" 3 [3] .none]

/-- The second fill finds no resolver and forgets the first variant, so the purge (the fourth
operation) misses it: once a third fill restores the resolver, a lookup answers with the very first
object. -/
theorem purge_misses_forgotten_variant :
    ¬ Tracked (run (step exampleHandler) .fresh evictedResolverRun) ∧
    ∃ e, (lookup exampleHandler (run (step exampleHandler) .fresh evictedResolverRun)
        0 1 ∅ ∅).2.obj = some e ∧ e.variantOf = some 0 ∧ e.stamp = 0 := by
  refine ⟨fun ht => ?_, _, rfl, rfl, rfl⟩
  exact absurd (ht 0 2 ⟨_, rfl, rfl⟩) (by decide)

def keptResolverRun : List (Op Nat Nat) :=
  [.fill 0 "accept-language" 1 [1] .none, .fill 0 "accept-language" 2 [2] .none,
    .purge 0 ∅, .fill 0 "accept-language" 1 [3] .none]

theorem purge_reaches_kept_variants :
    Along (step exampleHandler) (StepOk exampleHandler) .fresh keptResolverRun ∧
    ∀ e, (lookup exampleHandler (run (step exampleHandler) .fresh keptResolverRun)
        0 1 ∅ ∅).2.obj = some e → e.variantOf = some 0 → 2 < e.stamp := by
  have hok : Along (step exampleHandler) (StepOk exampleHandler) .fresh keptResolverRun := by
    refine ⟨?_, ?_, trivial, ?_, trivial⟩
    · intro _ hlive
      exact absurd hlive.1.2.2.1 (by decide)
    · intro _ hlive
      exact hlive.1.2.2.2 (by decide)
    · intro _ hlive
      exact absurd hlive.1.2.2.1 (by decide)
  refine ⟨hok, fun e => ?_⟩
  exact (purge_reaches_every_variant exampleHandler keptResolverRun).2 hok
    (keptResolverRun.take 2) 0 ∅ (keptResolverRun.drop 3) rfl 1 ∅ ∅ e

end

end Bouine.Cache.VariantSets
