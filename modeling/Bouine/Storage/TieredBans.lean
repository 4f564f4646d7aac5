import Bouine.Storage.BanReissue
import Bouine.Storage.TieredFreshness

/-! # Bans in the tiered store

Lookups ask the bans: whoever finds a banned object drops it from the hot tier and answers with a
miss. A ban expires, so an object must be gone from both tiers by then. Here the tiers and the list
of bans run side by side, and every lookup of the first asks the second.
-/

namespace Bouine.Storage.Tiered

open Api Lib Lib.Regexp Lib.Transition Nat

/-- `view` is what a ban looks at in an object: its `StoredAt`, two headers and its surrogate keys.
-/
structure BanTieredConfig (Key Blob : Type) where
  tier : Config Key Blob
  ban : BanConfig
  view : Object Key → BanObject

structure BanTiered (Key Blob : Type) (t : Tables) where
  tiers : State Key Blob
  bans : BanStore t

inductive BanTieredOp (Key : Type) where
  | put (k : Key) (obj : Object Key) (victims : List Key) (accepted : Bool)
  | get (k : Key) (victims : List Key)
  | delete (k : Key)
  /-- `scanned` are the keys that the eager scan visits, none if an earlier scan is recent. -/
  | ban (expr : BanExpr) (scanned : List Key)
  | hotEvict (k : Key) (reason : EvictReason)
  | drain
  | warmEvict (k : Key)
  | sync (overBudget reconcile : Bool) (keys : List (Key × Bool))
  | prune
  | tick (d : Nat)

variable {Key Blob : Type} [DecidableEq Key] {t : Tables} (c : BanTieredConfig Key Blob)

/-- `HotStore.matchesActiveBan`. -/
def matchesActiveBan (w : BanStore t) (obj : Object Key) : Bool :=
  (w.bans.snapshot c.ban true w.now).matches c.ban (c.view obj)

/-- A `Get` asks the bans about the object of the hot tier, and about that of the warm tier. -/
def getConsults (s : State Key Blob) (k : Key) : Bool :=
  (s.hot k).isSome || ((s.warm k).bind fun w => c.tier.decode w.blob).isSome

def syncConsults (s : State Key Blob) (overBudget reconcile : Bool) (keys : List (Key × Bool)) :
    Bool :=
  !overBudget && keys.any fun ka => hotOnly (drainQueues s) reconcile ka.1

def isSurrogateOnlyBan (expr : BanExpr) : Bool :=
  expr.surrogateKey != [] && expr.hostRegex == [] && expr.pathRegex == []

/-- `banShard`: the scanned entries that the predicate matches. -/
def scanVictims (w : BanTiered Key Blob t) (expr : BanExpr) (scanned : List Key) : List Key :=
  match compileBanPredicate t expr with
  | none => []
  | some pred =>
    if isSurrogateOnlyBan expr then []
    else scanned.filter fun k => (w.tiers.hot k).any fun e => pred.holds (c.view e.obj)

def tierOps (w : BanTiered Key Blob t) : BanTieredOp Key → List (Op Key)
  | .put k obj victims accepted => [.put k obj victims accepted]
  | .get k victims => [.get k (matchesActiveBan c w.bans) victims]
  | .delete k => [.delete k]
  | .ban expr scanned => (scanVictims c w expr scanned).map (.hotEvict · .ban)
  | .hotEvict k reason => [.hotEvict k reason]
  | .drain => [.drain]
  | .warmEvict k => [.warmEvict k]
  | .sync overBudget reconcile keys =>
    [.sync overBudget reconcile keys (matchesActiveBan c w.bans)]
  | .prune | .tick _ => []

def banOps (w : BanTiered Key Blob t) : BanTieredOp Key → List BanOp
  | .get k _ => if getConsults c w.tiers k then [.lookup true] else []
  | .sync overBudget reconcile keys =>
    if syncConsults w.tiers overBudget reconcile keys then [.lookup true] else []
  | .ban expr _ => [.ban expr]
  | .prune => [.prune]
  | .tick d => [.tick d]
  | .put .. | .delete _ | .hotEvict .. | .drain | .warmEvict _ => []

def banStep (w : BanTiered Key Blob t) (op : BanTieredOp Key) : BanTiered Key Blob t :=
  ⟨run (step c.tier) w.tiers (tierOps c w op), run (BanStore.step c.ban) w.bans (banOps c w op)⟩

def BanTiered.fresh (start : Int) : BanTiered Key Blob t := ⟨.fresh, ⟨.empty, start⟩⟩

/-- What a `Get` of the key answers. -/
def BanTiered.answer (w : BanTiered Key Blob t) (k : Key) (victims : List Key) : Found Key :=
  (get c.tier w.tiers k (matchesActiveBan c w.bans) victims).2

def Stores (w : BanTiered Key Blob t) (k : Key) (obj : Object Key) (version : Nat) : Prop :=
  (∃ e, w.tiers.hot k = some e ∧ e.obj = obj ∧ e.version = version) ∨
    ∃ rec, w.tiers.warm k = some rec ∧ c.tier.decode rec.blob = some obj ∧ rec.version = version

def BannedBy (w : BanStore t) (obj : Object Key) : Prop :=
  ∃ b ∈ w.bans.bans, w.now - b.created < c.ban.ttlOrDefault ∧
    Covers (banPatternMatches t) b (c.view obj)

/-- A `Get` finds no record in the warm tier that a ban matches, and none of an object that a ban
matches in the hot tier. Registrations are as for the list of bans. -/
def BanStepOk (w : BanTiered Key Blob t) : BanTieredOp Key → Prop
  | .get k _ =>
    (∀ rec obj, w.tiers.warm k = some rec → c.tier.decode rec.blob = some obj →
      matchesActiveBan c w.bans obj = false) ∧
    ∀ e, w.tiers.hot k = some e → matchesActiveBan c w.bans e.obj = true →
      warmVersion c.tier w.tiers k ≠ some e.version
  | .ban expr _ => BanOpOk c.ban w.bans (.ban expr)
  | _ => True

/-! ## The bans stay sound -/

variable {c}

variable {w : BanTiered Key Blob t} {s : State Key Blob} {victims : List Key} {obj : Object Key}
  {k : Key} {n : Nat}

theorem Sound.banStep (h : Sound c.ban w.bans) {op : BanTieredOp Key} (hok : BanStepOk c w op) :
    Sound c.ban (banStep c w op).bans := by
  refine h.run ?_
  cases op with
  | get k victims =>
    simp only [banOps]
    split_ifs <;> simp [Along, BanOpOk]
  | sync overBudget reconcile keys =>
    simp only [banOps]
    split_ifs <;> simp [Along, BanOpOk]
  | ban expr scanned => exact ⟨hok, trivial⟩
  | _ => simp [banOps, Along, BanOpOk]

omit [DecidableEq Key] in
theorem matchesActiveBan_of_bannedBy {w : BanStore t} (h : Sound c.ban w) (hban : BannedBy c w obj) :
    matchesActiveBan c w obj = true := by
  obtain ⟨b, hb, hlive, hcov⟩ := hban
  exact h.valid.matches_of_covers h.regular hb hlive hcov

/-! ## A version that is gone does not come back -/

def Dated (c : Config Key Blob) (s : State Key Blob) : Prop :=
  Recorded c (fun _ n _ => n < s.clock) s

/-- Neither tier has this version of the key, and no later `Put` will make it. -/
structure Gone (c : Config Key Blob) (k : Key) (n : Nat) (s : State Key Blob) : Prop where
  absent : Recorded c (fun k' n' _ => ¬ (k' = k ∧ n' = n)) s
  past : n < s.clock

theorem Dated.step {c : Config Key Blob} (h : Dated c s) (op : Op Key) : Dated c (step c s op) := by
  refine recorded_step op (fun _ _ _ _ _ hP => hP) (h.mono fun _ n _ hn => ?_) ?_
  · exact lt_succ_of_lt hn
  · intro _ _ _ _ _
    exact lt_succ_self _

theorem Gone.step {c : Config Key Blob} (h : Gone c k n s) (op : Op Key) :
    Gone c k n (step c s op) := by
  refine ⟨recorded_step op (fun _ _ _ _ _ hP => hP) h.absent ?_, lt_succ_of_lt h.past⟩
  intro _ _ _ _ _ heq
  exact absurd heq.2 (ne_of_gt h.past)

theorem Dated.banStep (h : Dated c.tier w.tiers) (op : BanTieredOp Key) :
    Dated c.tier (banStep c w op).tiers :=
  @run_preserves _ _ (Tiered.step c.tier) (Dated c.tier) (fun _ op h => h.step op) w.tiers h
    (tierOps c w op)

theorem Gone.banStep (h : Gone c.tier k n w.tiers) (op : BanTieredOp Key) :
    Gone c.tier k n (banStep c w op).tiers :=
  @run_preserves _ _ (Tiered.step c.tier) (Gone c.tier k n) (fun _ op h => h.step op) w.tiers h
    (tierOps c w op)

theorem Gone.answer (h : Gone c.tier k n w.tiers) : w.answer c k victims ≠ some (obj, n) :=
  fun hget => get_recorded h.absent hget ⟨rfl, rfl⟩

/-! ## A banned object goes -/

/-- A `Get` under a ban leaves no copy of the banned object if the warm tier had none. -/
theorem gone_of_get {banned : Object Key → Bool} {e : HotEntry Key} (he : s.hot k = some e)
    (hban : banned e.obj) (hwarm : warmVersion c.tier s k ≠ some e.version) :
    Recorded c.tier (fun k' n' _ => ¬ (k' = k ∧ n' = e.version))
      (get c.tier s k banned victims).1 := by
  have hremoved : Recorded c.tier (fun k' n' _ => ¬ (k' = k ∧ n' = e.version))
      (hotRemove c.tier s k .ban) := by
    refine ⟨fun k' e' he' heq => ?_, fun k' rec obj hrec hobj heq => hwarm ?_⟩
    · rw [hotRemove_hot, heq.1, Function.update_self] at he'
      cases he'
    · rw [hotRemove_warm, heq.1] at hrec
      simp [warmVersion, hrec, recordVersion, hobj, heq.2]
  have hget : get c.tier s k banned victims =
      getWarm c.tier (hotRemove c.tier s k .ban) k banned victims := by
    simp [get, hotGet, he, hban]
  rw [hget]
  exact recorded_iff.2 ((perKey_recordedAt fun _ _ _ _ _ hP => hP).getWarm
    (recorded_iff.1 hremoved) (by simp))

theorem gone_after_get (hsound : Sound c.ban w.bans) (hdated : Dated c.tier w.tiers)
    (hok : BanStepOk c w (.get k victims)) (hstores : Stores c w k obj n)
    (hban : BannedBy c w.bans obj) : Gone c.tier k n (banStep c w (.get k victims)).tiers := by
  have hmatch := matchesActiveBan_of_bannedBy hsound hban
  rcases hstores with ⟨e, he, rfl, rfl⟩ | ⟨rec, hrec, hobj, rfl⟩
  · have hrecorded := @gone_of_get _ _ _ c _ victims _ _ _ he hmatch (hok.2 e he hmatch)
    exact ⟨⟨hrecorded.hot, hrecorded.warm⟩, lt_succ_of_lt (hdated.hot k e he)⟩
  · rw [hok.1 rec obj hrec hobj] at hmatch
    cases hmatch

/-! ## Whole runs -/

theorem sound_and_dated (start : Int) {ops : List (BanTieredOp Key)}
    (hok : Along (banStep c) (BanStepOk c) (BanTiered.fresh start : BanTiered Key Blob t) ops) :
    Sound c.ban (run (banStep c) (BanTiered.fresh start : BanTiered Key Blob t) ops).bans ∧
      Dated c.tier (run (banStep c) (BanTiered.fresh start : BanTiered Key Blob t) ops).tiers := by
  have hstart : Sound c.ban (BanTiered.fresh start : BanTiered Key Blob t).bans ∧
      Dated c.tier (BanTiered.fresh start : BanTiered Key Blob t).tiers :=
    ⟨sound_empty start, fun _ _ h => (by cases h), fun _ _ _ h => (by cases h)⟩
  exact (always_of_along (Q := fun w => Sound c.ban w.bans ∧ Dated c.tier w.tiers)
    (fun w op h hok => ⟨Sound.banStep h.1 hok, h.2.banStep op⟩) hstart hok).last

/-- In a run whose steps all meet the condition, an object that a `Get` finds under an active ban
is never served again, whatever becomes of the ban. -/
theorem banned_object_stays_gone (c : BanTieredConfig Key Blob) (start : Int)
    (before between after : List (BanTieredOp Key)) (k : Key) (victims victims' : List Key)
    (w w' : BanTiered Key Blob t) (hw : w = run (banStep c) (.fresh start) before)
    (hw' : w' = run (banStep c) (banStep c w (.get k victims)) between)
    (hok : Along (banStep c) (BanStepOk c) (BanTiered.fresh start : BanTiered Key Blob t)
      (before ++ .get k victims :: between ++ .get k victims' :: after))
    (obj : Object Key) (n : Nat) (hstores : Stores c w k obj n) (hban : BannedBy c w.bans obj)
    (found : Object Key) : w'.answer c k victims' ≠ some (found, n) := by
  rw [List.append_assoc, along_append, ← hw] at hok
  obtain ⟨hsound, hdated⟩ := sound_and_dated start hok.1
  rw [← hw] at hsound hdated
  have hgone := @run_preserves _ _ (Tiered.banStep c) (fun w => Gone c.tier k n w.tiers)
    (fun _ op h => h.banStep op) _ (gone_after_get hsound hdated hok.2.1 hstores hban) between
  rw [hw']
  exact hgone.answer

/-! ## A banned object in the warm tier -/

def exampleBanConfig : BanTieredConfig Nat (Object Nat) :=
  ⟨exampleConfig, defaultBanConfig, fun _ => storedPath 50 (ascii "/x")⟩

abbrev exampleBanStart : BanTiered Nat (Object Nat) plainTables := .fresh 100

def banX : BanTieredOp Nat := .ban ⟨100, [], ascii "/x", []⟩ []

def demotedThenBanned : List (BanTieredOp Nat) :=
  [.put 0 (exampleObject 20) [] true, .hotEvict 0 .sieve, banX]

def dayPasses : List (BanTieredOp Nat) := [.tick 86400000000000, .prune]

/-- The `Get` under the ban promotes the record of the warm tier and takes it out of the hot tier
again, where it has no backup mark: the record stays, and is served when the ban has expired. -/
theorem banned_object_comes_back :
    Stores exampleBanConfig (run (banStep exampleBanConfig) exampleBanStart demotedThenBanned) 0
      (exampleObject 20) 0 ∧
    BannedBy exampleBanConfig
      (run (banStep exampleBanConfig) exampleBanStart demotedThenBanned).bans (exampleObject 20) ∧
    (run (banStep exampleBanConfig) exampleBanStart demotedThenBanned).answer exampleBanConfig 0 []
      = none ∧
    (run (banStep exampleBanConfig) exampleBanStart
      (demotedThenBanned ++ .get 0 [] :: dayPasses)).answer exampleBanConfig 0 []
      = some (exampleObject 20, 0) := by
  refine ⟨.inr ⟨⟨exampleObject 20, true, 0⟩, ?_, rfl, rfl⟩, ?_, ?_, ?_⟩
  · rfl
  · unfold BannedBy
    decide
  · decide
  · decide

/-- A small object has no record. -/
theorem small_banned_object_stays_gone :
    (run (banStep exampleBanConfig) exampleBanStart
      ([.put 0 (exampleObject 1) [] true, banX, .get 0 []] ++ dayPasses)).answer
        exampleBanConfig 0 [] ≠ some (exampleObject 1, 0) := by
  refine banned_object_stays_gone exampleBanConfig 100 [.put 0 (exampleObject 1) [] true, banX]
    dayPasses [] 0 [] [] _ _ rfl rfl ⟨trivial, fun pred hpred => ?_, ⟨?_, fun e he hban => ?_⟩,
      trivial, trivial, ⟨?_, fun e he hban => ?_⟩, trivial⟩ (exampleObject 1) 0
    (.inl ⟨_, rfl, rfl, rfl⟩) ?_ _
  · have hexpr := compileBanPredicate_expr hpred
    refine ⟨by decide, fun _ => by rw [hexpr]; decide, fun r hr => ?_,
      fun _ a ha => ?_⟩
    · cases hr
    · cases ha
  · intro rec obj hrec
    cases hrec
  · intro hwarm
    cases hwarm
  · intro rec obj hrec
    have hnone : (none : Option (WarmEntry (Object Nat))) = some rec := by
      rw [← hrec]
      rfl
    cases hnone
  · intro hwarm
    cases hwarm
  · unfold BannedBy
    decide

end Bouine.Storage.Tiered
