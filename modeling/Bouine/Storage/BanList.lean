import Bouine.Lib.SortedTable
import Bouine.Lib.Transition
import Bouine.Storage.BanSnapshot

/-! # The list of active bans and its views

`banListState` keeps every active ban in an ordered list, with an index by pattern, the bans of the
snapshot apart, and the surrogate bans in a sharded table. The bans are shared by pointer, so a
re-issue changes a ban in all views. Here a pointer is a number, and `heap` says what it points to.

Writers run one after the other under the lock. A lookup takes it only if it is free, which is an
input of the step.
-/

namespace Bouine.Storage

open Lib Lib.Regexp List Function

abbrev Ref := Nat

/-- `hash` is the seeded hash that spreads the surrogate keys. -/
structure BanConfig where
  ttl : Int
  capacity : Int
  hash : Bytes → Nat

def defaultBanTTL : Int := 24 * 3600 * 1000000000

def banListCap : Nat := 4096

def BanConfig.ttlOrDefault (cfg : BanConfig) : Int :=
  if cfg.ttl ≤ 0 then defaultBanTTL else cfg.ttl

def BanConfig.capOrDefault (cfg : BanConfig) : Nat :=
  if cfg.capacity ≤ 0 then banListCap else cfg.capacity.toNat

/-! ## The surrogate set -/

def surrogateSetMinShards : Nat := 1024

/-- The loop of `newSurrogateTable`: double until there are two bans for a shard. -/
def shardCount (n capacity : Nat) : Nat :=
  if 0 < n ∧ n < capacity / 2 then shardCount (2 * n) capacity else n
termination_by capacity - n

abbrev SurrogateTable := Sharded Bytes Ref

def newSurrogateTable (capacity : Nat) : SurrogateTable :=
  ⟨shardCount surrogateSetMinShards capacity, fun _ => []⟩

/-! ## State -/

structure BanListState (t : Tables) where
  heap : Ref → ActiveBan t
  next : Ref
  index : BanPattern → Option Ref
  list : List Ref
  rest : List Ref
  surr : Option SurrogateTable
  snap : Option (BanSnapshot t)
  dirty : Bool

variable {t : Tables} (cfg : BanConfig)

instance : Inhabited (ActiveBan t) where
  default := ⟨⟨⟨zeroTime, [], [], []⟩, none, [], none, [], rfl, rfl⟩, zeroTime, ⟨[], [], []⟩,
    encodeExempt zeroTime, false, rfl, rfl, rfl⟩

def BanListState.empty : BanListState t :=
  ⟨fun _ => default, 0, fun _ => none, [], [], none, none, false⟩

def BanListState.bans (s : BanListState t) : List (ActiveBan t) := s.list.map s.heap

def expired (now : Int) (b : ActiveBan t) : Bool := cfg.ttlOrDefault ≤ now - b.created

/-! ## Removing bans -/

def BanListState.forget (s : BanListState t) (r : Ref) : BanListState t :=
  let ban := s.heap r
  { s with
    index := update s.index ban.pattern none
    surr := if ban.surrogate then s.surr.map (·.remove cfg.hash ban.pattern.surrogateKey r)
      else s.surr }

def BanListState.evictHead (s : BanListState t) : BanListState t :=
  match s.list with
  | [] => s
  | r :: list =>
    let s' := { s.forget cfg r with list := list }
    if (s.heap r).surrogate then s'
    else
      { s' with
        rest := if s.rest.head? = some r then s.rest.drop 1 else s.rest.filter (· ≠ r)
        dirty := true }

/-- Every round shortens the list, which bounds their number. -/
def BanListState.evictWhile (cond : BanListState t → Bool) : Nat → BanListState t → BanListState t
  | 0, s => s
  | n + 1, s => if cond s then evictWhile cond n (s.evictHead cfg) else s

def BanListState.popExpiredHead (s : BanListState t) (now : Int) : BanListState t :=
  s.evictWhile cfg (fun s => s.list.head?.any fun r => expired cfg now (s.heap r)) s.list.length

def BanListState.makeRoom (s : BanListState t) : BanListState t :=
  s.evictWhile cfg (fun s => cfg.capOrDefault ≤ s.list.length) s.list.length

def BanListState.rebuild (s : BanListState t) (now : Int) : BanListState t :=
  { s with
    snap := some (compileBanSnapshot (s.rest.map s.heap) now cfg.ttlOrDefault)
    dirty := false }

/-- The sweep of `pruneExpired` over the list and its views. -/
def BanListState.dropExpired (s : BanListState t) (now : Int) : BanListState t :=
  let gone := s.list.filter fun r => expired cfg now (s.heap r)
  let s' := gone.foldl (·.forget cfg) s
  { s' with
    list := s.list.filter fun r => !expired cfg now (s.heap r)
    rest := if gone.any fun r => !(s.heap r).surrogate then
        s.rest.filter fun r => s'.index (s.heap r).pattern = some r
      else s.rest }

def BanListState.pruneExpired (s : BanListState t) (now : Int) : BanListState t :=
  (s.dropExpired cfg now).rebuild cfg now

/-! ## Registering bans -/

def ActiveBan.refresh (b : ActiveBan t) (createdAt : Int) : ActiveBan t :=
  { b with created := createdAt, exemptNanos := encodeExempt createdAt, exempt_eq := rfl }

def ActiveBan.new (pred : BanPredicate t) (createdAt : Int) : ActiveBan t where
  pred := pred
  created := createdAt
  pattern := patternOf pred.expr
  exemptNanos := encodeExempt createdAt
  surrogate := decide (classifyBan (patternOf pred.expr) = .literalSurrogate)
  pattern_eq := rfl
  exempt_eq := rfl
  surrogate_eq := rfl

def BanListState.refresh (s : BanListState t) (r : Ref) (createdAt : Int) : BanListState t :=
  { s with
    heap := update s.heap r ((s.heap r).refresh createdAt)
    dirty := s.dirty || !(s.heap r).surrogate }

def BanListState.append (s : BanListState t) (ban : ActiveBan t) : BanListState t :=
  let r := s.next
  let s' := { s with
    heap := update s.heap r ban
    next := r + 1
    index := update s.index ban.pattern (some r)
    list := s.list ++ [r] }
  if ban.surrogate then
    let table := s.surr.getD (newSurrogateTable cfg.capOrDefault)
    { s' with surr := some (table.put cfg.hash ban.pattern.surrogateKey r) }
  else { s' with rest := s.rest ++ [r], dirty := true }

def BanListState.register (s : BanListState t) (pred : BanPredicate t) (createdAt now : Int) :
    BanListState t :=
  let s := s.popExpiredHead cfg now
  match s.index (patternOf pred.expr) with
  | some r => s.refresh r createdAt
  | none => (s.makeRoom cfg).append cfg (.new pred createdAt)

/-! ## Lookups -/

/-- The state in which a lookup finds its snapshot: rebuilt, if need be and the lock is free. -/
def BanListState.snapshot (s : BanListState t) (free : Bool) (now : Int) : BanListState t :=
  if (s.snap.isNone || s.dirty) && free then s.rebuild cfg now else s

def BanListState.surrogateMatches (s : BanListState t) (obj : BanObject) : Bool :=
  match s.surr with
  | none => false
  | some table => obj.surrogateKeys.any fun k =>
    (SortedTable.find (table.shard cfg.hash k) k).any fun r =>
      subjectToNanos obj (s.heap r).exemptNanos

def BanListState.matches (s : BanListState t) (obj : BanObject) : Bool :=
  (s.snap.getD {}).matches obj || s.surrogateMatches cfg obj

/-! ## Runs -/

structure BanStore (t : Tables) where
  bans : BanListState t
  now : Int

/-- `Ban` of the hot store, as far as the list is concerned, the sweep of the reaper, a lookup, and
time. -/
inductive BanOp where
  | ban (expr : BanExpr)
  | prune
  | lookup (free : Bool)
  | tick (d : Nat)

/-- An expression that does not compile is refused; one without a time gets the present. -/
def BanStore.step (w : BanStore t) : BanOp → BanStore t
  | .ban expr =>
    match compileBanPredicate t expr with
    | none => w
    | some pred =>
      let createdAt := if isZero expr.createdAt then w.now else expr.createdAt
      { w with bans := w.bans.register cfg pred createdAt w.now }
  | .prune => { w with bans := w.bans.pruneExpired cfg w.now }
  | .lookup free => { w with bans := w.bans.snapshot cfg free w.now }
  | .tick d => { w with now := w.now + d }

/-! ## The views agree -/

variable {cfg}

def BanListState.Holds (cfg : BanConfig) (s : BanListState t) (key : Bytes) (r : Ref) : Prop :=
  ∃ table, s.surr = some table ∧ (key, r) ∈ table.shard cfg.hash key

structure Indexed (cfg : BanConfig) (s : BanListState t) (l : List Ref) : Prop where
  index : ∀ pat r, s.index pat = some r ↔ r ∈ l ∧ (s.heap r).pattern = pat
  ordered : ∀ table, s.surr = some table → table.Ordered
  surr : ∀ key r, s.Holds cfg key r ↔
    r ∈ l ∧ (s.heap r).surrogate = true ∧ (s.heap r).pattern.surrogateKey = key

variable {s : BanListState t} {now : Int} {l : List Ref} {r : Ref} {b : ActiveBan t}

theorem Indexed.eq_of_pattern (h : Indexed cfg s l) {r r' : Ref} (hr : r ∈ l) (hr' : r' ∈ l)
    (heq : (s.heap r).pattern = (s.heap r').pattern) : r = r' := by
  have := (h.index _ r).2 ⟨hr, rfl⟩
  rw [heq, (h.index _ r').2 ⟨hr', rfl⟩] at this
  exact (Option.some.inj this).symm

theorem holds_forget (h : Indexed cfg s l) {key : Bytes} {r' : Ref} :
    (s.forget cfg r).Holds cfg key r' ↔ s.Holds cfg key r' ∧
      ¬ ((s.heap r).surrogate ∧ key = (s.heap r).pattern.surrogateKey ∧ r' = r) := by
  by_cases hsurr : (s.heap r).surrogate = true
  · simp only [BanListState.forget, hsurr, true_and]
    constructor
    · rintro ⟨table', htable, hmem⟩
      obtain ⟨table, hs, rfl⟩ := Option.map_eq_some_iff.1 htable
      obtain ⟨hmem, hne⟩ := (Sharded.mem_remove (h.ordered table hs)).1 hmem
      exact ⟨⟨table, hs, hmem⟩, hne⟩
    · rintro ⟨⟨table, hs, hmem⟩, hne⟩
      exact ⟨_, by rw [hs]; rfl, (Sharded.mem_remove (h.ordered table hs)).2 ⟨hmem, hne⟩⟩
  · simp [BanListState.Holds, BanListState.forget, hsurr]

theorem Indexed.forget (h : Indexed cfg s l) (hr : r ∈ l) :
    Indexed cfg (s.forget cfg r) (l.filter (· ≠ r)) := by
  have hmem : ∀ r', r' ∈ l.filter (· ≠ r) ↔ r' ∈ l ∧ r' ≠ r := by simp
  refine ⟨fun pat r' => ?_, fun table' htable => ?_, fun key r' => ?_⟩
  · rw [hmem]
    show update s.index (s.heap r).pattern none pat = _ ↔ _
    rw [update_apply]
    split_ifs with hpat
    · -- the pattern is gone, and no other ban of the list has it
      refine ⟨fun h => (nomatch h), fun ⟨⟨hr', hne⟩, heq⟩ => absurd ?_ hne⟩
      exact h.eq_of_pattern hr' hr (heq.trans hpat)
    · rw [h.index]
      refine ⟨fun ⟨hr', heq⟩ => ⟨⟨hr', ?_⟩, heq⟩, fun ⟨⟨hr', _⟩, heq⟩ => ⟨hr', heq⟩⟩
      rintro rfl
      exact hpat heq.symm
  · simp only [BanListState.forget] at htable
    split_ifs at htable
    · obtain ⟨table, hs, rfl⟩ := Option.map_eq_some_iff.1 htable
      exact (h.ordered table hs).remove
    · exact h.ordered table' htable
  · rw [hmem, holds_forget h, h.surr]
    refine ⟨fun ⟨⟨hr', hsurr, hkey⟩, hne⟩ => ⟨⟨hr', ?_⟩, hsurr, hkey⟩,
      fun ⟨⟨hr', hne⟩, hsurr, hkey⟩ => ⟨⟨hr', hsurr, hkey⟩, fun heq => hne heq.2.2⟩⟩
    rintro rfl
    exact hne ⟨hsurr, hkey.symm, rfl⟩

theorem Indexed.foldl_forget {gone l : List Ref} (h : Indexed cfg s l) (hnodup : gone.Nodup)
    (hsub : ∀ r ∈ gone, r ∈ l) :
    Indexed cfg (gone.foldl (·.forget cfg) s) (l.filter (· ∉ gone)) := by
  induction gone generalizing s l with
  | nil => simpa using h
  | cons r gone ih =>
    obtain ⟨hr, hnodup⟩ := nodup_cons.1 hnodup
    have hrest := ih (h.forget (hsub r (.head _))) hnodup fun r' hr' => by
      refine mem_filter.2 ⟨hsub r' (.tail _ hr'), ?_⟩
      refine decide_eq_true fun heq => hr (heq ▸ hr')
    rw [filter_filter] at hrest
    refine (filter_congr fun r' _ => ?_) ▸ hrest
    simp [Bool.and_comm]

/-- The index, the part of the list that goes into the snapshot, and the surrogate set are views
of one list. -/
structure Views (cfg : BanConfig) (s : BanListState t) : Prop where
  nodup : s.list.Nodup
  fresh : ∀ r ∈ s.list, r < s.next
  indexed : Indexed cfg s s.list
  rest : s.rest = s.list.filter fun r => !(s.heap r).surrogate

theorem views_empty : Views cfg (BanListState.empty : BanListState t) := by
  refine ⟨nodup_nil, fun r hr => (nomatch hr), ⟨fun pat r => ?_, fun _ h => (nomatch h),
    fun key r => ?_⟩, rfl⟩
  · exact ⟨fun h => (nomatch h), fun h => (nomatch h.1)⟩
  · exact ⟨fun ⟨_, h, _⟩ => (nomatch h), fun h => (nomatch h.1)⟩

theorem Views.evictHead (h : Views cfg s) : Views cfg (s.evictHead cfg) := by
  unfold BanListState.evictHead
  split
  · exact h
  · rename_i r list hlist
    obtain ⟨hr, hnodup⟩ := nodup_cons.1 (hlist ▸ h.nodup)
    have hfresh : ∀ r' ∈ list, r' < s.next := fun r' hr' =>
      h.fresh r' (hlist ▸ .tail _ hr')
    have hindexed := h.indexed.forget (hlist ▸ (.head _) : r ∈ s.list)
    have hfilter : s.list.filter (· ≠ r) = list := by
      rw [hlist, filter_cons_of_neg (by simp), filter_eq_self]
      intro r' hr'
      exact decide_eq_true fun heq => hr (heq ▸ hr')
    rw [hfilter] at hindexed
    have hrest := h.rest
    rw [hlist] at hrest
    by_cases hsurr : (s.heap r).surrogate = true
    · rw [filter_cons_of_neg (by simp [hsurr])] at hrest
      rw [if_pos hsurr]
      exact ⟨hnodup, hfresh, ⟨hindexed.index, hindexed.ordered, hindexed.surr⟩, hrest⟩
    · rw [filter_cons_of_pos (by simp [hsurr])] at hrest
      rw [if_neg hsurr]
      refine ⟨hnodup, hfresh, ⟨hindexed.index, hindexed.ordered, hindexed.surr⟩, ?_⟩
      simp only [hrest, head?_cons]
      rfl

/-- The views agree, and a clean snapshot was made from them at some time up to now. -/
structure Valid (cfg : BanConfig) (s : BanListState t) (now : Int) : Prop extends Views cfg s where
  snap : s.dirty = false → ∀ sn, s.snap = some sn →
    ∃ τ ≤ now, sn = compileBanSnapshot (s.rest.map s.heap) τ cfg.ttlOrDefault

theorem Valid.evictHead (h : Valid cfg s now) : Valid cfg (s.evictHead cfg) now := by
  refine ⟨h.toViews.evictHead, ?_⟩
  unfold BanListState.evictHead
  split
  · exact h.snap
  · split
    · exact h.snap
    · exact fun hdirty => (nomatch hdirty)

/-- What the eviction of one ban keeps, the evictions of a loop keep. -/
theorem evictWhile_induction {P : BanListState t → Prop}
    (hstep : ∀ s, P s → P (s.evictHead cfg)) (h : P s) (cond : BanListState t → Bool) (n : Nat) :
    P (s.evictWhile cfg cond n) := by
  induction n generalizing s with
  | zero => exact h
  | succ n ih =>
    rw [BanListState.evictWhile]
    split_ifs
    · exact ih (hstep s h)
    · exact h

theorem Valid.evictWhile (h : Valid cfg s now) (cond : BanListState t → Bool) (n : Nat) :
    Valid cfg (s.evictWhile cfg cond n) now :=
  evictWhile_induction (P := (Valid cfg · now)) (fun _ h => h.evictHead) h cond n

theorem index_evictHead {pat : BanPattern} (h : s.index pat = none) :
    (s.evictHead cfg).index pat = none := by
  have hforget : ∀ r, (s.forget cfg r).index pat = none := by
    intro r
    simp only [BanListState.forget, update_apply]
    split_ifs
    · rfl
    · exact h
  unfold BanListState.evictHead
  split
  · exact h
  · split_ifs <;> exact hforget _

theorem index_evictWhile {pat : BanPattern} (h : s.index pat = none) (cond : BanListState t → Bool)
    (n : Nat) : (s.evictWhile cfg cond n).index pat = none :=
  evictWhile_induction (P := fun s => s.index pat = none) (fun _ h => index_evictHead h) h cond n

theorem Views.mem_rest (h : Views cfg s) :
    r ∈ s.rest ↔ r ∈ s.list ∧ (s.heap r).surrogate = false := by
  rw [h.rest, mem_filter, Bool.not_eq_true']

theorem Views.refresh (h : Views cfg s) (r : Ref) (createdAt : Int) :
    Views cfg (s.refresh r createdAt) := by
  have hsame : ∀ r', ((s.refresh r createdAt).heap r').pattern = (s.heap r').pattern ∧
      ((s.refresh r createdAt).heap r').surrogate = (s.heap r').surrogate := by
    intro r'
    simp only [BanListState.refresh, update_apply]
    split_ifs with heq
    · rw [heq]
      exact ⟨rfl, rfl⟩
    · exact ⟨rfl, rfl⟩
  refine ⟨h.nodup, h.fresh, ⟨fun pat r' => ?_, h.indexed.ordered, fun key r' => ?_⟩, ?_⟩
  · rw [(hsame r').1]
    exact h.indexed.index pat r'
  · rw [(hsame r').1, (hsame r').2]
    exact h.indexed.surr key r'
  · simp only [fun r' => (hsame r').2]
    exact h.rest

theorem Valid.refresh (h : Valid cfg s now) (r : Ref) (createdAt : Int) :
    Valid cfg (s.refresh r createdAt) now := by
  -- the snapshot stays clean only if the ban is not in it
  refine ⟨h.toViews.refresh r createdAt, fun hdirty sn hsn => ?_⟩
  obtain ⟨hclean, hr⟩ : s.dirty = false ∧ (s.heap r).surrogate = true := by
    simpa [BanListState.refresh] using hdirty
  obtain ⟨τ, hτ, hcompile⟩ := h.snap hclean sn hsn
  refine ⟨τ, hτ, hcompile.trans ?_⟩
  congr 1
  refine map_congr_left fun r' hr' => ?_
  have hne : r' ≠ r := by
    rintro rfl
    rw [(h.toViews.mem_rest.1 hr').2] at hr
    cases hr
  exact (update_of_ne hne ..).symm

theorem Valid.rebuild (h : Views cfg s) (now : Int) : Valid cfg (s.rebuild cfg now) now := by
  refine ⟨⟨h.nodup, h.fresh, ⟨h.indexed.index, h.indexed.ordered, h.indexed.surr⟩, h.rest⟩, ?_⟩
  intro _ sn hsn
  exact ⟨now, le_refl now, (Option.some.inj hsn).symm⟩

theorem ActiveBan.pattern_of_surrogate (h : b.surrogate) :
    b.pattern = ⟨[], [], b.pattern.surrogateKey⟩ := by
  rw [b.surrogate_eq, decide_eq_true_iff] at h
  have hspec := classifyBan_spec h
  cases hp : b.pattern with
  | mk hostRegex pathRegex surrogateKey =>
    rw [hp] at hspec
    obtain ⟨rfl, rfl, -⟩ := hspec
    rfl

theorem mem_table (s : BanListState t) (capacity : Nat) {key : Bytes} :
    (key, r) ∈ (s.surr.getD (newSurrogateTable capacity)).shard cfg.hash key ↔
      s.Holds cfg key r := by
  unfold BanListState.Holds
  cases s.surr with
  | none => simp [Sharded.shard, newSurrogateTable]
  | some table => simp

theorem ordered_table (h : Indexed cfg s l) (capacity : Nat) :
    (s.surr.getD (newSurrogateTable capacity)).Ordered := by
  cases hs : s.surr with
  | none => exact fun _ => List.Pairwise.nil
  | some table => exact h.ordered table hs

section

variable {s : BanListState t} {ban : ActiveBan t}

theorem heap_append (r : Ref) :
    (s.append cfg ban).heap r = if r = s.next then ban else s.heap r := by
  unfold BanListState.append
  split_ifs <;> simp_all

theorem Views.heap_append (h : Views cfg s) {r : Ref} (hr : r ∈ s.list) :
    (s.append cfg ban).heap r = s.heap r := by
  rw [Storage.heap_append, if_neg (ne_of_lt (h.fresh r hr))]

theorem list_append : (s.append cfg ban).list = s.list ++ [s.next] := by
  unfold BanListState.append
  split_ifs <;> rfl

theorem index_append :
    (s.append cfg ban).index = update s.index ban.pattern (some s.next) := by
  unfold BanListState.append
  split_ifs <;> rfl

theorem next_append : (s.append cfg ban).next = s.next + 1 := by
  unfold BanListState.append
  split_ifs <;> rfl

theorem holds_append {key : Bytes} {r : Ref} : (s.append cfg ban).Holds cfg key r ↔
    (ban.surrogate ∧ key = ban.pattern.surrogateKey ∧ r = s.next) ∨ s.Holds cfg key r := by
  unfold BanListState.append
  by_cases hsurr : ban.surrogate = true
  · simp only [hsurr, true_and]
    rw [← @mem_table _ cfg r s cfg.capOrDefault, ← Sharded.mem_put]
    simp [BanListState.Holds]
  · simp only [hsurr, Bool.false_eq_true, false_and, false_or]
    rfl

theorem heap_append_next : (s.append cfg ban).heap s.next = ban := by
  rw [heap_append, if_pos rfl]

theorem Views.pattern_ne (h : Views cfg s) (hnew : s.index ban.pattern = none) {r : Ref}
    (hr : r ∈ s.list) : (s.heap r).pattern ≠ ban.pattern := by
  intro heq
  rw [(h.indexed.index _ r).2 ⟨hr, heq⟩] at hnew
  cases hnew

/-- A ban of the list after an append is one from before, or the new one. -/
theorem Views.mem_append_iff (h : Views cfg s) (P : ActiveBan t → Prop) (r : Ref) :
    r ∈ (s.append cfg ban).list ∧ P ((s.append cfg ban).heap r) ↔
      r ∈ s.list ∧ P (s.heap r) ∨ r = s.next ∧ P ban := by
  rw [list_append, mem_append, mem_singleton, or_and_right]
  refine or_congr (and_congr_right fun hr => ?_) (and_congr_right fun hr => ?_)
  · rw [h.heap_append hr]
  · rw [hr, heap_append_next]

theorem Views.ordered_append (h : Views cfg s) (hnew : s.index ban.pattern = none)
    (table : SurrogateTable) (htable : (s.append cfg ban).surr = some table) : table.Ordered := by
  unfold BanListState.append at htable
  by_cases hsurr : ban.surrogate = true
  · simp only [hsurr, if_true, Option.some.injEq] at htable
    obtain rfl := htable
    refine (ordered_table h.indexed _).put fun r hr => ?_
    obtain ⟨hr, hrsurr, hkey⟩ := (h.indexed.surr _ r).1 ((mem_table s _).1 hr)
    refine h.pattern_ne hnew hr ?_
    rw [ActiveBan.pattern_of_surrogate hrsurr, hkey, ← ActiveBan.pattern_of_surrogate hsurr]
  · simp only [hsurr] at htable
    exact h.indexed.ordered table htable

theorem Views.indexed_append (h : Views cfg s) (hnew : s.index ban.pattern = none) :
    Indexed cfg (s.append cfg ban) (s.append cfg ban).list := by
  refine ⟨fun pat r => ?_, h.ordered_append hnew, fun key r => ?_⟩
  · rw [h.mem_append_iff (·.pattern = pat), ← h.indexed.index, index_append, update_apply]
    split_ifs with hpat
    · simp [hpat, hnew, eq_comm]
    · simp [Ne.symm hpat]
  · rw [h.mem_append_iff fun b => b.surrogate ∧ b.pattern.surrogateKey = key, holds_append,
      h.indexed.surr, or_comm, eq_comm (a := key)]
    exact or_congr_right and_rotate.symm

theorem Views.append (h : Views cfg s) (hnew : s.index ban.pattern = none) :
    Views cfg (s.append cfg ban) := by
  have hnext : s.next ∉ s.list := fun hr => lt_irrefl _ (h.fresh _ hr)
  have hrest : s.list.filter (fun r => !((s.append cfg ban).heap r).surrogate) = s.rest := by
    rw [h.rest]
    exact filter_congr fun r hr => by rw [h.heap_append hr]
  refine ⟨?_, fun r hr => ?_, h.indexed_append hnew, ?_⟩
  · rw [list_append, ← concat_eq_append]
    exact h.nodup.concat hnext
  · rw [list_append, mem_append, mem_singleton] at hr
    rw [next_append]
    rcases hr with hr | rfl
    · exact Nat.lt_succ_of_lt (h.fresh r hr)
    · exact Nat.lt_succ_self _
  · rw [list_append, filter_append, hrest, filter_singleton, heap_append_next]
    unfold BanListState.append
    split_ifs <;> simp_all

theorem Valid.append {now : Int} (h : Valid cfg s now) (hnew : s.index ban.pattern = none) :
    Valid cfg (s.append cfg ban) now := by
  refine ⟨h.toViews.append hnew, ?_⟩
  have hheap : s.rest.map (s.append cfg ban).heap = s.rest.map s.heap :=
    map_congr_left fun r hr => h.heap_append (h.toViews.mem_rest.1 hr).1
  unfold BanListState.append at hheap ⊢
  split_ifs at hheap ⊢
  · exact fun hdirty sn hsn => hheap ▸ h.snap hdirty sn hsn
  · exact fun hdirty => (nomatch hdirty)

end

theorem list_evictHead (s : BanListState t) : (s.evictHead cfg).list = s.list.drop 1 := by
  unfold BanListState.evictHead
  split
  · rename_i hlist
    simp [hlist]
  · rename_i hlist
    split_ifs <;> simp [hlist]

theorem length_makeRoom (s : BanListState t) : (s.makeRoom cfg).list.length < cfg.capOrDefault := by
  have hcap : 0 < cfg.capOrDefault := by
    unfold BanConfig.capOrDefault
    split_ifs
    · decide
    · omega
  have hloop (n : Nat) (s : BanListState t) (hn : s.list.length ≤ n) :
      (s.evictWhile cfg (fun s => cfg.capOrDefault ≤ s.list.length) n).list.length < cfg.capOrDefault := by
    induction n generalizing s with
    | zero => exact Nat.lt_of_le_of_lt hn hcap
    | succ n ih =>
      rw [BanListState.evictWhile]
      split_ifs with hfull
      · refine ih _ ?_
        rw [list_evictHead, length_drop]
        omega
      · simpa using hfull
  exact hloop _ s le_rfl

/-- What evictions, a re-issue and an append with room keep, a registration keeps. -/
theorem register_induction {P : BanListState t → Prop} {pred : BanPredicate t} {createdAt : Int}
    (hevict : ∀ s, P s → P (s.evictHead cfg)) (hrefresh : ∀ s r, P s → P (s.refresh r createdAt))
    (happend : ∀ s, P s → s.index (patternOf pred.expr) = none → s.list.length < cfg.capOrDefault →
      P (s.append cfg (.new pred createdAt))) (h : P s) (now : Int) :
    P (s.register cfg pred createdAt now) := by
  unfold BanListState.register
  have hpop : P (s.popExpiredHead cfg now) := evictWhile_induction hevict h _ _
  cases hindex : (s.popExpiredHead cfg now).index (patternOf pred.expr) with
  | some r => simpa [hindex] using hrefresh _ r hpop
  | none =>
    have hroom : P ((s.popExpiredHead cfg now).makeRoom cfg) := evictWhile_induction hevict hpop _ _
    simpa [hindex] using happend _ hroom (index_evictWhile hindex _ _) (length_makeRoom _)

theorem Valid.register (h : Valid cfg s now) (pred : BanPredicate t) (createdAt : Int) :
    Valid cfg (s.register cfg pred createdAt now) now :=
  register_induction (P := (Valid cfg · now)) (fun _ h => h.evictHead) (fun _ r h => h.refresh r createdAt)
    (fun _ h hnew _ => h.append hnew) h now

theorem foldl_forget_fields (gone : List Ref) (s : BanListState t) :
    (gone.foldl (·.forget cfg) s).heap = s.heap ∧ (gone.foldl (·.forget cfg) s).next = s.next := by
  induction gone generalizing s with
  | nil => exact ⟨rfl, rfl⟩
  | cons r gone ih => exact ih (s.forget cfg r)

theorem Views.dropExpired (h : Views cfg s) (now : Int) : Views cfg (s.dropExpired cfg now) := by
  have hnodup : (s.list.filter fun r => expired cfg now (s.heap r)).Nodup := h.nodup.filter _
  have hindexed := h.indexed.foldl_forget hnodup fun r hr => (mem_filter.1 hr).1
  obtain ⟨hheap, hnext⟩ :=
    @foldl_forget_fields _ cfg (s.list.filter fun r => expired cfg now (s.heap r)) s
  have hkept : s.list.filter (· ∉ s.list.filter fun r => expired cfg now (s.heap r)) =
      s.list.filter fun r => !expired cfg now (s.heap r) := by
    refine filter_congr fun r hr => ?_
    simp [hr]
  rw [hkept] at hindexed
  refine ⟨h.nodup.filter _, fun r hr => ?_, ⟨hindexed.index, hindexed.ordered, hindexed.surr⟩, ?_⟩
  · exact hnext ▸ h.fresh r (mem_filter.1 hr).1
  · unfold BanListState.dropExpired
    simp only [hheap]
    rw [filter_filter]
    split_ifs with hchanged
    · -- a ban that the index no longer has is an expired one
      rw [h.rest, filter_filter]
      refine filter_congr fun r hr => ?_
      have hin := hindexed.index (s.heap r).pattern r
      rw [hheap] at hin
      simp [hin, hr, Bool.and_comm]
    · rw [h.rest]
      refine filter_congr fun r hr => ?_
      have hkeep : (s.heap r).surrogate = false → expired cfg now (s.heap r) = false := by
        intro hsurr
        by_contra hexpired
        refine hchanged (any_eq_true.2 ⟨r, mem_filter.2 ⟨hr, ?_⟩, by simp [hsurr]⟩)
        simpa using hexpired
      cases hsurr : (s.heap r).surrogate <;> simp [hsurr, hkeep]

theorem Valid.pruneExpired (h : Views cfg s) (now : Int) : Valid cfg (s.pruneExpired cfg now) now :=
  .rebuild (h.dropExpired now) now

/-! ## Runs keep the views -/

theorem Valid.mono {now now' : Int} (h : Valid cfg s now) (hle : now ≤ now') :
    Valid cfg s now' := by
  refine ⟨h.toViews, fun hdirty sn hsn => ?_⟩
  obtain ⟨τ, hτ, hcompile⟩ := h.snap hdirty sn hsn
  exact ⟨τ, le_trans hτ hle, hcompile⟩

theorem Valid.step {w : BanStore t} (h : Valid cfg w.bans w.now) (op : BanOp) :
    Valid cfg (w.step cfg op).bans (w.step cfg op).now := by
  cases op with
  | ban expr =>
    simp only [BanStore.step]
    split
    · exact h
    · exact h.register _ _
  | prune => exact .pruneExpired h.toViews w.now
  | lookup free =>
    simp only [BanStore.step, BanListState.snapshot]
    split_ifs
    · exact .rebuild h.toViews w.now
    · exact h
  | tick d => exact h.mono (show w.now ≤ w.now + d by omega)

theorem valid_run (cfg : BanConfig) (start : Int) (ops : List BanOp) :
    let w := Transition.run (BanStore.step cfg) (⟨.empty, start⟩ : BanStore t) ops
    Valid cfg w.bans w.now :=
  @Transition.run_preserves _ _ (BanStore.step cfg) (fun w => Valid cfg w.bans w.now)
    (fun _ op h => h.step op) _ ⟨views_empty, fun _ _ h => by cases h⟩ ops

/-! ## The views decide as the list does -/

theorem Views.regular_rest (h : Views cfg s) (hreg : Regular s.bans) :
    Regular (s.rest.map s.heap) := by
  refine hreg.sublist ?_
  rw [h.rest]
  exact filter_sublist.map _

theorem snapshot_surrogateMatches (s : BanListState t) (free : Bool) (now : Int)
    (obj : BanObject) :
    (s.snapshot cfg free now).surrogateMatches cfg obj = s.surrogateMatches cfg obj := by
  unfold BanListState.snapshot
  split_ifs <;> rfl

theorem covers_surrogate (h : RegularBan b) (hsurr : b.surrogate) {obj : BanObject} :
    Covers (banPatternMatches t) b obj ↔
      b.pattern.surrogateKey ∈ obj.surrogateKeys ∧ subjectToNanos obj b.exemptNanos = true := by
  rw [b.surrogate_eq, decide_eq_true_iff] at hsurr
  obtain ⟨hhost, hpath, hkey⟩ := classifyBan_spec hsurr
  rw [h.subjectToNanos_iff, Covers, hhost, hpath]
  simp [hkey, and_comm]

theorem Views.surrogateMatches_iff (h : Views cfg s) (hreg : Regular s.bans) (obj : BanObject) :
    s.surrogateMatches cfg obj ↔
      ∃ r ∈ s.list, (s.heap r).surrogate ∧
        Covers (banPatternMatches t) (s.heap r) obj := by
  have hregular : ∀ r ∈ s.list, RegularBan (s.heap r) := fun r hr =>
    hreg.each _ (mem_map_of_mem hr)
  have hfind : s.surrogateMatches cfg obj ↔ ∃ k ∈ obj.surrogateKeys, ∃ r,
      s.Holds cfg k r ∧ subjectToNanos obj (s.heap r).exemptNanos = true := by
    unfold BanListState.surrogateMatches BanListState.Holds
    cases hs : s.surr with
    | none => simp
    | some table =>
      have hordered := h.indexed.ordered table hs
      simp [Option.any_eq_true, SortedTable.find_eq_some_iff (hordered _),
        Sharded.shard]
  rw [hfind]
  constructor
  · rintro ⟨k, hk, r, hholds, hsubject⟩
    obtain ⟨hr, hsurr, rfl⟩ := (h.indexed.surr k r).1 hholds
    exact ⟨r, hr, hsurr, (covers_surrogate (hregular r hr) hsurr).2 ⟨hk, hsubject⟩⟩
  · rintro ⟨r, hr, hsurr, hcov⟩
    obtain ⟨hk, hsubject⟩ := (covers_surrogate (hregular r hr) hsurr).1 hcov
    exact ⟨_, hk, r, (h.indexed.surr _ r).2 ⟨hr, hsurr, rfl⟩, hsubject⟩

/-- A lookup applies the surrogate bans, and those others that had not expired when its snapshot was
made. -/
theorem Valid.matches_iff_live (h : Valid cfg s now) (hreg : Regular s.bans) : ∃ τ ≤ now, ∀ obj,
      (s.snapshot cfg true now).matches cfg obj ↔
        ∃ b ∈ s.bans, (b.surrogate ∨ τ - b.created < cfg.ttlOrDefault) ∧
          Covers (banPatternMatches t) b obj := by
  obtain ⟨τ, hτ, hsnap⟩ : ∃ τ ≤ now, (s.snapshot cfg true now).snap =
      some (compileBanSnapshot (s.rest.map s.heap) τ cfg.ttlOrDefault) := by
    unfold BanListState.snapshot
    split_ifs with hstale
    · exact ⟨now, le_refl now, rfl⟩
    · obtain ⟨hsome, hclean⟩ : s.snap ≠ none ∧ s.dirty = false := by simpa using hstale
      obtain ⟨sn, hsn⟩ := Option.ne_none_iff_exists'.1 hsome
      obtain ⟨τ, hτ, hcompile⟩ := h.snap hclean sn hsn
      exact ⟨τ, hτ, hcompile ▸ hsn⟩
  refine ⟨τ, hτ, fun obj => ?_⟩
  have hrest : ∀ b ∈ s.rest.map s.heap, classifyBan b.pattern ≠ .literalSurrogate := by
    intro b hb hclass
    obtain ⟨r, hr, rfl⟩ := mem_map.1 hb
    have hsurr := (h.toViews.mem_rest.1 hr).2
    rw [ActiveBan.surrogate_eq, hclass] at hsurr
    cases hsurr
  rw [BanListState.matches, hsnap, Option.getD_some, snapshot_surrogateMatches, Bool.or_eq_true,
    compileBanSnapshot_matches_iff (h.toViews.regular_rest hreg) hrest,
    h.toViews.surrogateMatches_iff hreg]
  -- a ban of the list is in the snapshot or in the surrogate set
  constructor
  · rintro (⟨b, hb, hlive, hcov⟩ | ⟨r, hr, hsurr, hcov⟩)
    · obtain ⟨r, hr, rfl⟩ := mem_map.1 hb
      exact ⟨_, mem_map_of_mem (h.toViews.mem_rest.1 hr).1, .inr hlive, hcov⟩
    · exact ⟨_, mem_map_of_mem hr, .inl hsurr, hcov⟩
  · rintro ⟨b, hb, hlive, hcov⟩
    obtain ⟨r, hr, rfl⟩ := mem_map.1 hb
    cases hsurr : (s.heap r).surrogate with
    | true => exact .inr ⟨r, hr, hsurr, hcov⟩
    | false =>
      have hlive := hlive.resolve_left (by rw [hsurr]; exact Bool.false_ne_true)
      exact .inl ⟨_, mem_map_of_mem (h.toViews.mem_rest.2 ⟨hr, hsurr⟩), hlive, hcov⟩

theorem Valid.matches_of_covers (h : Valid cfg s now) (hreg : Regular s.bans) (hb : b ∈ s.bans)
    (hlive : now - b.created < cfg.ttlOrDefault) {obj : BanObject}
    (hcov : Covers (banPatternMatches t) b obj) :
    (s.snapshot cfg true now).matches cfg obj = true := by
  obtain ⟨τ, hτ, hmatches⟩ := h.matches_iff_live hreg
  exact (hmatches obj).2 ⟨b, hb, .inr (by omega), hcov⟩

theorem Valid.matches_iff (h : Valid cfg s now) (hreg : Regular s.bans)
    (hlive : ∀ b ∈ s.bans, now - b.created < cfg.ttlOrDefault) (obj : BanObject) :
    (s.snapshot cfg true now).matches cfg obj ↔
      ∃ b ∈ s.bans, Covers (banPatternMatches t) b obj := by
  constructor
  · intro hfound
    obtain ⟨τ, -, hmatches⟩ := h.matches_iff_live hreg
    obtain ⟨b, hb, -, hcov⟩ := (hmatches obj).1 hfound
    exact ⟨b, hb, hcov⟩
  · rintro ⟨b, hb, hcov⟩
    exact h.matches_of_covers hreg hb (hlive b hb) hcov

/-- After any run, a lookup that gets the lock finds a ban exactly if one of the list covers the
object, provided that the bans of the list are regular and have not expired. Patterns without
metacharacters ask for equality. -/
theorem compiled_bans_decide_as_list (cfg : BanConfig) (start : Int) (ops : List BanOp)
    (w : BanStore t) (hw : w = Transition.run (BanStore.step cfg) ⟨.empty, start⟩ ops)
    (hreg : Regular w.bans.bans)
    (hlive : ∀ b ∈ w.bans.bans, w.now - b.created < cfg.ttlOrDefault) (obj : BanObject) :
    (w.bans.snapshot cfg true w.now).matches cfg obj = true ↔
      ∃ b ∈ w.bans.bans, Covers (banPatternMatches t) b obj := by
  subst hw
  exact (valid_run cfg start ops).matches_iff hreg hlive obj

/-! ## Some bans -/

def plainTables : Tables := ⟨fun c => [c], fun _ => List.mem_singleton.2 rfl, fun _ => none⟩

def defaultBanConfig : BanConfig := ⟨0, 0, fun _ => 0⟩

def afterBans (exprs : List BanExpr) : BanStore plainTables :=
  Transition.run (BanStore.step defaultBanConfig) ⟨.empty, 100⟩ (exprs.map .ban)

def foundBanned (exprs : List BanExpr) (obj : BanObject) : Bool :=
  ((afterBans exprs).bans.snapshot defaultBanConfig true 100).matches defaultBanConfig obj

def storedPath (storedAt : Int) (path : Bytes) : BanObject :=
  ⟨storedAt, ascii "example.com", path, []⟩

theorem prefix_ban_found :
    foundBanned [⟨100, [], ascii "^/api/", []⟩] (storedPath 50 (ascii "/api/v1")) = true :=
  (compiled_bans_decide_as_list defaultBanConfig 100 [.ban ⟨100, [], ascii "^/api/", []⟩] _ rfl
    (by decide +kernel) (by decide +kernel) _).2 (by decide +kernel)

/-- A pattern without metacharacters is not searched for in the path, as `regexp` would. -/
theorem substring_not_banned :
    foundBanned [⟨100, [], ascii "api", []⟩] (storedPath 50 (ascii "/api/v1")) = false ∧
      ∃ b ∈ (afterBans [⟨100, [], ascii "api", []⟩]).bans.bans,
        100 - b.created < defaultBanConfig.ttlOrDefault ∧
          Covers (regexpMatches plainTables) b (storedPath 50 (ascii "/api/v1")) := by
  decide +kernel

-- a ban that is not regular can miss an object: an escaped digit, one literal with two times,
-- and a ban that is re-issued with a later time
example : ∃ b ∈ (afterBans [⟨100, [], ascii "^/v\\d$", []⟩]).bans.bans,
    Covers (banPatternMatches plainTables) b (storedPath 50 (ascii "/v1")) ∧
      foundBanned [⟨100, [], ascii "^/v\\d$", []⟩] (storedPath 50 (ascii "/v1")) = false := by
  decide

example : ∃ b ∈ (afterBans [⟨100, [], ascii "^/x$", []⟩, ⟨40, [], ascii "/x", []⟩]).bans.bans,
    Covers (banPatternMatches plainTables) b (storedPath 50 (ascii "/x")) ∧
      foundBanned [⟨100, [], ascii "^/x$", []⟩, ⟨40, [], ascii "/x", []⟩]
        (storedPath 50 (ascii "/x")) = false := by
  decide

example : ∃ b ∈ (afterBans [⟨40, [], ascii "^/x", []⟩, ⟨100, [], ascii "^/x", []⟩]).bans.bans,
    Covers (banPatternMatches plainTables) b (storedPath 50 (ascii "/x")) ∧
      foundBanned [⟨40, [], ascii "^/x", []⟩, ⟨100, [], ascii "^/x", []⟩]
        (storedPath 50 (ascii "/x")) = false := by
  decide

end Bouine.Storage
