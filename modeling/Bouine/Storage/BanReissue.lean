import Bouine.Storage.BanList

/-! # Re-issued bans

A ban with a known pattern moves the times of the ban that is there. The new time replaces the old
one even if it is earlier, and the predicate of the first registration keeps its own. This file says
which registrations leave every object banned that an earlier one of the run banned.
-/

namespace Bouine.Storage

open Lib Lib.Regexp Lib.Transition List

variable {t : Tables} {cfg : BanConfig}

/-! ## Registrations -/

/-- The time that `registerBan` gives a ban. -/
def BanStore.registeredAt (w : BanStore t) (expr : BanExpr) : Int :=
  if isZero expr.createdAt then w.now else expr.createdAt

def BanPattern.Matches (t : Tables) (pat : BanPattern) (obj : BanObject) : Prop :=
  banPatternMatches t pat.hostRegex obj.host = true ∧
    banPatternMatches t pat.pathRegex obj.path = true ∧
    (pat.surrogateKey = [] ∨ pat.surrogateKey ∈ obj.surrogateKeys)

instance (pat : BanPattern) (obj : BanObject) : Decidable (pat.Matches t obj) := by
  unfold BanPattern.Matches; infer_instance

/-- The pattern and the time of a registration; nothing if the expression is refused. -/
def registered (w : BanStore t) : BanOp → List (BanPattern × Int)
  | .ban expr =>
    if (compileBanPredicate t expr).isSome then [(patternOf expr, w.registeredAt expr)] else []
  | _ => []

def registrations (cfg : BanConfig) : BanStore t → List BanOp → List (BanPattern × Int)
  | _, [] => []
  | w, op :: ops => registered w op ++ registrations cfg (w.step cfg op) ops

/-- A registration that brings in another pattern pushes this one's ban out of a full list. -/
def PushesOut (cfg : BanConfig) (pat : BanPattern) (w : BanStore t) : BanOp → Prop
  | .ban expr => (compileBanPredicate t expr).isSome ∧
    (w.bans.popExpiredHead cfg w.now).index pat ≠ none ∧
      (w.step cfg (.ban expr)).bans.index pat = none
  | _ => False

instance (pat : BanPattern) (w : BanStore t) (op : BanOp) :
    Decidable (PushesOut cfg pat w op) := by
  cases op <;> unfold PushesOut <;> infer_instance

/-- The ban of a re-issued pattern does not get an earlier time. If its predicate is asked, it does
not get a later one than that has; and if it stands for a literal, it keeps its place among the
times of the bans for that literal. -/
structure ReissueOk (s : BanListState t) (r : Ref) (createdAt : Int) : Prop where
  later : (s.heap r).created ≤ createdAt
  issued : (classifyBan (s.heap r).pattern).usesPredicate = true →
    isZero (s.heap r).pred.expr.createdAt = true ∨ createdAt ≤ (s.heap r).pred.expr.createdAt
  before : ∀ a, [a, r].Sublist s.list → SameLiteral (s.heap a) (s.heap r) →
    (s.heap a).created ≤ createdAt
  after : ∀ a, [r, a].Sublist s.list → SameLiteral (s.heap r) (s.heap a) →
    createdAt ≤ (s.heap a).created

/-- What a registration asks of the list once the expired bans at its head are gone. -/
structure RegisterOk (cfg : BanConfig) (s : BanListState t) (pred : BanPredicate t)
    (createdAt : Int) : Prop where
  in_range : -2 ^ 63 < createdAt ∧ createdAt < 2 ^ 63
  plain : classifyBan (patternOf pred.expr) ≠ .opaqueBan →
    plainPattern pred.expr.hostRegex = true ∧ plainPattern pred.expr.pathRegex = true
  reissue : ∀ r, s.index (patternOf pred.expr) = some r → ReissueOk s r createdAt
  append : s.index (patternOf pred.expr) = none → ∀ a ∈ (s.makeRoom cfg).list,
    SameLiteral (s.heap a) (.new pred createdAt) → (s.heap a).created ≤ createdAt

def BanOpOk (cfg : BanConfig) (w : BanStore t) : BanOp → Prop
  | .ban expr => ∀ pred, compileBanPredicate t expr = some pred →
    RegisterOk cfg (w.bans.popExpiredHead cfg w.now) pred (w.registeredAt expr)
  | _ => True

variable {w : BanStore t} {pred : BanPredicate t} {createdAt : Int} {s : BanListState t}
  {pat : BanPattern} {expr : BanExpr} {ops : List BanOp} {b : ActiveBan t} {op : BanOp} {r : Ref}
  {now : Int}

theorem compileBanPredicate_expr (h : compileBanPredicate t expr = some pred) :
    pred.expr = expr := by
  unfold compileBanPredicate at h
  split at h
  · cases h
  · split at h
    · cases h
    · rw [← Option.some.inj h]

theorem step_ban (h : compileBanPredicate t expr = some pred) : w.step cfg (.ban expr) =
      { w with bans := w.bans.register cfg pred (w.registeredAt expr) w.now } := by
  simp only [BanStore.step, h]
  rfl

theorem step_ban_none (h : compileBanPredicate t expr = none) : w.step cfg (.ban expr) = w := by
  simp [BanStore.step, h]

/-! ## Evictions take bans from the front -/

theorem heap_evictHead (s : BanListState t) : (s.evictHead cfg).heap = s.heap := by
  unfold BanListState.evictHead
  split
  · rfl
  · split_ifs <;> rfl

theorem heap_evictWhile (s : BanListState t) (cond : BanListState t → Bool) (n : Nat) :
    (s.evictWhile cfg cond n).heap = s.heap :=
  evictWhile_induction (P := (·.heap = s.heap)) (fun s' h => (heap_evictHead s').trans h) rfl cond n

theorem list_evictWhile (s : BanListState t) (cond : BanListState t → Bool) (n : Nat) :
    (s.evictWhile cfg cond n).list.Sublist s.list := by
  refine evictWhile_induction (P := (·.list.Sublist s.list)) (fun s' h => ?_) (.refl _) cond n
  rw [list_evictHead]
  exact (drop_sublist 1 s'.list).trans h

theorem mem_popExpiredHead (hr : r ∈ s.list) (hlive : expired cfg now (s.heap r) = false) :
    r ∈ (s.popExpiredHead cfg now).list := by
  unfold BanListState.popExpiredHead
  generalize s.list.length = n
  induction n generalizing s with
  | zero => exact hr
  | succ n ih =>
    rw [BanListState.evictWhile]
    split_ifs with hhead
    · refine ih ?_ (by rwa [heap_evictHead])
      rw [list_evictHead]
      cases hlist : s.list with
      | nil => rw [hlist] at hr; cases hr
      | cons r' list =>
        have hexpired : expired cfg now (s.heap r') = true := by simpa [hlist] using hhead
        rw [hlist] at hr
        refine (mem_cons.1 hr).resolve_left fun heq => ?_
        rw [heq, hexpired] at hlive
        cases hlive
    · exact hr

/-! ## Runs keep the bans regular -/

theorem bans_evictWhile (s : BanListState t) (cond : BanListState t → Bool) (n : Nat) :
    (s.evictWhile cfg cond n).bans.Sublist s.bans := by
  rw [BanListState.bans, heap_evictWhile]
  exact (list_evictWhile s cond n).map _

theorem heap_dropExpired (s : BanListState t) (now : Int) :
    (s.dropExpired cfg now).heap = s.heap :=
  (foldl_forget_fields _ s).1

theorem bans_pruneExpired (s : BanListState t) (now : Int) :
    (s.pruneExpired cfg now).bans.Sublist s.bans := by
  show ((s.dropExpired cfg now).list.map (s.dropExpired cfg now).heap).Sublist s.bans
  rw [heap_dropExpired]
  exact filter_sublist.map _

theorem bans_snapshot (s : BanListState t) (free : Bool) (now : Int) :
    (s.snapshot cfg free now).bans = s.bans := by
  unfold BanListState.snapshot
  split_ifs <;> rfl

theorem heap_refresh (s : BanListState t) (r : Ref) (createdAt : Int) (a : Ref) :
    (s.refresh r createdAt).heap a =
      if a = r then (s.heap r).refresh createdAt else s.heap a :=
  Function.update_apply ..

theorem Regular.refresh (h : Regular s.bans) (hr : r ∈ s.list)
    (hrange : -2 ^ 63 < createdAt ∧ createdAt < 2 ^ 63) (hok : ReissueOk s r createdAt) :
    Regular (s.refresh r createdAt).bans := by
  have hregular := h.each _ (mem_map_of_mem hr)
  constructor
  · intro b hb
    obtain ⟨a, ha, rfl⟩ := mem_map.1 hb
    rw [heap_refresh]
    split_ifs
    · exact ⟨hrange, hregular.plain, hok.issued⟩
    · exact h.each _ (mem_map_of_mem ha)
  · have hshared := h.shared
    rw [BanListState.bans, pairwise_map, pairwise_iff_forall_sublist] at hshared ⊢
    intro a b hab
    rw [heap_refresh, heap_refresh]
    split_ifs with ha hb hb
    · exact fun _ => le_rfl
    · exact fun hsame => hok.after b (ha ▸ hab) hsame
    · exact fun hsame => hok.before a (hb ▸ hab) hsame
    · exact hshared hab

theorem Views.bans_append (h : Views cfg s) (ban : ActiveBan t) :
    (s.append cfg ban).bans = s.bans ++ [ban] := by
  rw [BanListState.bans, list_append, map_append]
  refine congrArg₂ _ (map_congr_left fun r hr => h.heap_append hr) ?_
  rw [map_singleton, heap_append_next]

theorem Regular.register (hvalid : Valid cfg s now) (h : Regular s.bans)
    (hissued : isZero pred.expr.createdAt ∨ createdAt = pred.expr.createdAt)
    (hok : RegisterOk cfg (s.popExpiredHead cfg now) pred createdAt) :
    Regular (s.register cfg pred createdAt now).bans := by
  have hpop : Valid cfg (s.popExpiredHead cfg now) now := hvalid.evictWhile _ _
  have hreg : Regular (s.popExpiredHead cfg now).bans := h.sublist (bans_evictWhile s _ _)
  unfold BanListState.register
  cases hindex : (s.popExpiredHead cfg now).index (patternOf pred.expr) with
  | some r =>
    have hr := ((hpop.indexed.index _ r).1 hindex).1
    simpa [hindex] using hreg.refresh hr hok.in_range (hok.reissue r hindex)
  | none =>
    have hroom : Valid cfg ((s.popExpiredHead cfg now).makeRoom cfg) now := hpop.evictWhile _ _
    have hroomreg : Regular ((s.popExpiredHead cfg now).makeRoom cfg).bans :=
      hreg.sublist (bans_evictWhile _ _ _)
    have hnew : RegularBan (.new pred createdAt) :=
      ⟨hok.in_range, hok.plain, fun _ => hissued.imp_right le_of_eq⟩
    simp only [hindex]
    rw [hroom.toViews.bans_append]
    constructor
    · exact forall_mem_concat.2 ⟨hroomreg.each, hnew⟩
    · refine pairwise_append.2 ⟨hroomreg.shared, pairwise_singleton _ _, ?_⟩
      intro a ha b hb hsame
      obtain rfl := mem_singleton.1 hb
      obtain ⟨r, hr, rfl⟩ := mem_map.1 ha
      rw [BanListState.makeRoom, heap_evictWhile] at hsame ⊢
      exact hok.append hindex r hr hsame

theorem registeredAt_issued (h : compileBanPredicate t expr = some pred) :
    isZero pred.expr.createdAt ∨ w.registeredAt expr = pred.expr.createdAt := by
  rw [compileBanPredicate_expr h]
  by_cases hzero : isZero expr.createdAt = true
  · exact .inl hzero
  · exact .inr (if_neg hzero)

theorem Regular.step (hvalid : Valid cfg w.bans w.now) (h : Regular w.bans.bans)
    (hok : BanOpOk cfg w op) : Regular (w.step cfg op).bans.bans := by
  cases op with
  | ban expr =>
    cases hpred : compileBanPredicate t expr with
    | none => rwa [step_ban_none hpred]
    | some pred =>
      rw [step_ban hpred]
      exact h.register hvalid (registeredAt_issued hpred) (hok pred hpred)
  | prune => exact h.sublist (bans_pruneExpired w.bans w.now)
  | lookup free =>
    show Regular (w.bans.snapshot cfg free w.now).bans
    rwa [bans_snapshot]
  | tick d => exact h

/-! ## A registration is kept until it expires -/

/-- The ban of a pattern that was registered for a time has that time or a later one, unless it
has expired. -/
def Kept (cfg : BanConfig) (pat : BanPattern) (createdAt : Int) (w : BanStore t) : Prop :=
  w.now - createdAt < cfg.ttlOrDefault →
    ∃ r, w.bans.index pat = some r ∧ createdAt ≤ (w.bans.heap r).created

theorem register_kept (cfg : BanConfig) (s : BanListState t) (pred : BanPredicate t) (createdAt now : Int) :
    ∃ r, (s.register cfg pred createdAt now).index (patternOf pred.expr) = some r ∧
      ((s.register cfg pred createdAt now).heap r).created = createdAt := by
  unfold BanListState.register
  cases hindex : (s.popExpiredHead cfg now).index (patternOf pred.expr) with
  | some r =>
    simp only [hindex]
    refine ⟨r, hindex, ?_⟩
    rw [heap_refresh, if_pos rfl]
    rfl
  | none =>
    simp only [hindex]
    refine ⟨((s.popExpiredHead cfg now).makeRoom cfg).next, ?_, ?_⟩
    · rw [index_append]
      exact Function.update_self ..
    · rw [heap_append_next]
      rfl

theorem Valid.index_of_mem {s s' : BanListState t} {now now' : Int} (h : Valid cfg s now)
    (h' : Valid cfg s' now') (hindex : s.index pat = some r) (hheap : s'.heap = s.heap)
    (hr : r ∈ s'.list) : s'.index pat = some r :=
  (h'.indexed.index pat r).2 ⟨hr, hheap ▸ ((h.indexed.index pat r).1 hindex).2⟩

theorem Valid.index_makeRoom (h : Valid cfg s now) (hindex : s.index pat = some r) :
    (s.makeRoom cfg).index pat = none ∨ (s.makeRoom cfg).index pat = some r := by
  have hroom : Valid cfg (s.makeRoom cfg) now := h.evictWhile _ _
  have hheap : (s.makeRoom cfg).heap = s.heap := heap_evictWhile _ _ _
  cases hr' : (s.makeRoom cfg).index pat with
  | none => exact .inl rfl
  | some r' =>
    have hmem := (list_evictWhile s _ _).subset ((hroom.indexed.index pat r').1 hr').1
    exact .inr ((hroom.index_of_mem h hr' hheap.symm hmem).symm.trans hindex)

theorem Kept.register (hvalid : Valid cfg w.bans w.now) (h : Kept cfg pat createdAt w)
    (hpred : compileBanPredicate t expr = some pred)
    (hok : RegisterOk cfg (w.bans.popExpiredHead cfg w.now) pred (w.registeredAt expr))
    (hcap : ¬ PushesOut cfg pat w (.ban expr)) :
    Kept cfg pat createdAt (w.step cfg (.ban expr)) := by
  rw [PushesOut, step_ban hpred, hpred] at hcap
  rw [step_ban hpred]
  intro hlive
  obtain ⟨r, hr, hle⟩ := h hlive
  -- the ban has not expired, so it is not popped
  have hmem : r ∈ (w.bans.popExpiredHead cfg w.now).list := by
    refine mem_popExpiredHead ((hvalid.indexed.index pat r).1 hr).1 ?_
    have hnow : w.now - createdAt < cfg.ttlOrDefault := hlive
    rw [expired, decide_eq_false_iff_not]
    omega
  have hpop : Valid cfg (w.bans.popExpiredHead cfg w.now) w.now := hvalid.evictWhile _ _
  have hheap : (w.bans.popExpiredHead cfg w.now).heap = w.bans.heap := heap_evictWhile _ _ _
  have hindex := hvalid.index_of_mem hpop hr hheap hmem
  generalize hs : w.bans.popExpiredHead cfg w.now = s at *
  by_cases hpat : patternOf pred.expr = pat
  · subst hpat
    have hlater := (hok.reissue r hindex).later
    obtain ⟨r', hr', hcreated⟩ := register_kept cfg w.bans pred (w.registeredAt expr) w.now
    refine ⟨r', hr', ?_⟩
    rw [hcreated]
    rw [hheap] at hlater
    exact hle.trans hlater
  · unfold BanListState.register at hcap ⊢
    rw [hs] at hcap ⊢
    cases hother : s.index (patternOf pred.expr) with
    | some r' =>
      simp only [hother]
      refine ⟨r, hindex, ?_⟩
      have hne : r ≠ r' := by
        rintro rfl
        have heq := ((hpop.indexed.index _ r).1 hindex).2
        exact hpat (((hpop.indexed.index _ r).1 hother).2.symm.trans heq)
      rw [heap_refresh, if_neg hne, hheap]
      exact hle
    | none =>
      simp only [hother] at hcap ⊢
      have hroom : Valid cfg (s.makeRoom cfg) w.now := hpop.evictWhile _ _
      have hroomheap : (s.makeRoom cfg).heap = s.heap := heap_evictWhile _ _ _
      have hsame : ((s.makeRoom cfg).append cfg (.new pred (w.registeredAt expr))).index pat =
          (s.makeRoom cfg).index pat := by
        rw [index_append]
        exact Function.update_of_ne (Ne.symm hpat) ..
      have hin : (s.makeRoom cfg).index pat = some r := by
        refine (hpop.index_makeRoom hindex).resolve_left fun hnone => hcap ⟨rfl, ?_, ?_⟩
        · rw [hindex]
          exact Option.some_ne_none r
        · rw [hsame, hnone]
      refine ⟨r, hsame.trans hin, ?_⟩
      rw [hroom.toViews.heap_append ((hroom.indexed.index pat r).1 hin).1, hroomheap, hheap]
      exact hle

theorem Kept.step (hvalid : Valid cfg w.bans w.now) (h : Kept cfg pat createdAt w)
    (hok : BanOpOk cfg w op) (hcap : ¬ PushesOut cfg pat w op) :
    Kept cfg pat createdAt (w.step cfg op) := by
  cases op with
  | ban expr =>
    cases hpred : compileBanPredicate t expr with
    | none => rwa [step_ban_none hpred]
    | some pred => exact h.register hvalid hpred (hok pred hpred) hcap
  | prune =>
    intro hlive
    obtain ⟨r, hr, hle⟩ := h hlive
    have hheap : (w.bans.pruneExpired cfg w.now).heap = w.bans.heap := heap_dropExpired _ _
    refine ⟨r, hvalid.index_of_mem (.pruneExpired hvalid.toViews w.now) hr hheap ?_, ?_⟩
    · refine mem_filter.2 ⟨((hvalid.indexed.index pat r).1 hr).1, ?_⟩
      have hnow : w.now - createdAt < cfg.ttlOrDefault := hlive
      rw [expired, Bool.not_eq_true', decide_eq_false_iff_not]
      omega
    · show createdAt ≤ ((w.bans.pruneExpired cfg w.now).heap r).created
      rwa [hheap]
  | lookup free =>
    intro hlive
    obtain ⟨r, hr, hle⟩ := h hlive
    refine ⟨r, ?_⟩
    simp only [BanStore.step, BanListState.snapshot]
    split_ifs <;> exact ⟨hr, hle⟩
  | tick d =>
    intro hlive
    have hnow : w.now + d - createdAt < cfg.ttlOrDefault := hlive
    exact h (by omega)

/-! ## Whole runs -/

structure Sound (cfg : BanConfig) (w : BanStore t) : Prop where
  valid : Valid cfg w.bans w.now
  regular : Regular w.bans.bans

theorem sound_empty (start : Int) : Sound cfg (⟨.empty, start⟩ : BanStore t) :=
  ⟨⟨views_empty, nofun⟩, fun _ hb => (nomatch hb), List.Pairwise.nil⟩

theorem Sound.step (h : Sound cfg w) (hok : BanOpOk cfg w op) : Sound cfg (w.step cfg op) :=
  ⟨h.valid.step op, h.regular.step h.valid hok⟩

theorem Sound.run (h : Sound cfg w) (hok : Along (BanStore.step cfg) (BanOpOk cfg) w ops) :
    Sound cfg (run (BanStore.step cfg) w ops) :=
  (always_of_along (fun _ _ h => h.step) h hok).last

theorem Kept.run (hsound : Sound cfg w) (h : Kept cfg pat createdAt w) {ops : List BanOp}
    (hok : Along (BanStore.step cfg) (BanOpOk cfg) w ops)
    (hcap : Along (BanStore.step cfg) (fun w op => ¬ PushesOut cfg pat w op) w ops) :
    Kept cfg pat createdAt (run (BanStore.step cfg) w ops) := by
  induction ops generalizing w with
  | nil => exact h
  | cons op ops ih =>
    exact ih (hsound.step hok.1) (h.step hsound.valid hok.1 hcap.1) hok.2 hcap.2

theorem Kept.matches (h : Kept cfg pat createdAt w) (hsound : Sound cfg w)
    (hlive : w.now - createdAt < cfg.ttlOrDefault) {obj : BanObject} (hmatch : pat.Matches t obj)
    (hstored : obj.storedAt ≤ createdAt) :
    (w.bans.snapshot cfg true w.now).matches cfg obj = true := by
  obtain ⟨r, hr, hle⟩ := h hlive
  obtain ⟨hmem, hpat⟩ := (hsound.valid.indexed.index pat r).1 hr
  refine hsound.valid.matches_of_covers hsound.regular (mem_map_of_mem hmem) (by omega) ?_
  subst hpat
  exact ⟨le_trans hstored hle, hmatch⟩

theorem kept_of_ban (cfg : BanConfig) (w : BanStore t)
    (hpred : compileBanPredicate t expr = some pred) :
    Kept cfg (patternOf expr) (w.registeredAt expr) (w.step cfg (.ban expr)) := by
  intro _
  rw [step_ban hpred, ← compileBanPredicate_expr hpred]
  obtain ⟨r, hr, hcreated⟩ :=
    register_kept cfg w.bans pred (w.registeredAt pred.expr) w.now
  exact ⟨r, hr, hcreated.ge⟩

/-- A step of the run registers the pattern for the time, and no later step pushes it out. -/
def StaysRegistered (cfg : BanConfig) (w : BanStore t) (ops : List BanOp) (pat : BanPattern)
    (createdAt : Int) : Prop :=
  ∃ before expr after, ops = before ++ .ban expr :: after ∧
    (compileBanPredicate t expr).isSome = true ∧ patternOf expr = pat ∧
    (run (BanStore.step cfg) w before).registeredAt expr = createdAt ∧
    Along (BanStore.step cfg) (fun w op => ¬ PushesOut cfg pat w op)
      (run (BanStore.step cfg) w (before ++ [.ban expr])) after

theorem StaysRegistered.kept (h : StaysRegistered cfg w ops pat createdAt) (hsound : Sound cfg w)
    (hok : Along (BanStore.step cfg) (BanOpOk cfg) w ops) :
    Kept cfg pat createdAt (run (BanStore.step cfg) w ops) := by
  obtain ⟨before, expr, after, rfl, hsome, rfl, rfl, hcap⟩ := h
  obtain ⟨pred, hpred⟩ := Option.isSome_iff_exists.1 hsome
  obtain ⟨hbefore, hnow, hafter⟩ := along_append.1 hok
  rw [run_append] at hcap ⊢
  exact (kept_of_ban cfg _ hpred).run ((hsound.run hbefore).step hnow) hafter hcap

theorem staysRegistered_of_mem {p : BanPattern × Int} (hp : p ∈ registrations cfg w ops)
    (hcap : Along (BanStore.step cfg) (fun w op => ∀ pat, ¬ PushesOut cfg pat w op) w ops) :
    StaysRegistered cfg w ops p.1 p.2 := by
  induction ops generalizing w with
  | nil => cases hp
  | cons op ops ih =>
    rcases mem_append.1 hp with hnow | hlater
    · cases op with
      | ban expr =>
        rw [registered] at hnow
        split_ifs at hnow with hsome
        · obtain rfl := mem_singleton.1 hnow
          exact ⟨[], expr, ops, rfl, hsome, rfl, rfl, hcap.2.mono fun w op h => h _⟩
        · cases hnow
      | _ => cases hnow
    · obtain ⟨before, expr, after, rfl, hrest⟩ := ih hlater hcap.2
      exact ⟨op :: before, expr, after, rfl, hrest⟩

theorem mem_bans_register (hvalid : Valid cfg s now)
    (hb : b ∈ (s.register cfg pred createdAt now).bans) :
    b ∈ s.bans ∨ b.pattern = patternOf pred.expr ∧ b.created = createdAt := by
  have hpop : Valid cfg (s.popExpiredHead cfg now) now := hvalid.evictWhile _ _
  have hsub : (s.popExpiredHead cfg now).bans.Sublist s.bans := bans_evictWhile _ _ _
  unfold BanListState.register at hb
  cases hindex : (s.popExpiredHead cfg now).index (patternOf pred.expr) with
  | some r =>
    simp only [hindex] at hb
    obtain ⟨a, ha, rfl⟩ := mem_map.1 hb
    rw [heap_refresh]
    split_ifs with har
    · exact .inr ⟨((hpop.indexed.index _ r).1 hindex).2, rfl⟩
    · exact .inl (hsub.subset (mem_map_of_mem ha))
  | none =>
    have hroom : Valid cfg ((s.popExpiredHead cfg now).makeRoom cfg) now := hpop.evictWhile _ _
    simp only [hindex] at hb
    rw [hroom.toViews.bans_append] at hb
    rcases mem_append.1 hb with hb | hb
    · exact .inl (hsub.subset ((bans_evictWhile _ _ _).subset hb))
    · rw [mem_singleton.1 hb]
      exact .inr ⟨rfl, rfl⟩

theorem mem_bans_step (hvalid : Valid cfg w.bans w.now) (hb : b ∈ (w.step cfg op).bans.bans) :
    b ∈ w.bans.bans ∨ (b.pattern, b.created) ∈ registered w op := by
  cases op with
  | ban expr =>
    cases hpred : compileBanPredicate t expr with
    | none => exact .inl (by rwa [step_ban_none hpred] at hb)
    | some pred =>
      rw [step_ban hpred] at hb
      refine (mem_bans_register hvalid hb).imp_right fun ⟨hpat, hcreated⟩ => ?_
      rw [registered, hpred, hpat, hcreated, compileBanPredicate_expr hpred]
      exact mem_singleton.2 rfl
  | prune => exact .inl ((bans_pruneExpired w.bans w.now).subset hb)
  | lookup free =>
    have hb : b ∈ (w.bans.snapshot cfg free w.now).bans := hb
    rw [bans_snapshot] at hb
    exact .inl hb
  | tick d => exact .inl hb

theorem mem_bans_run (hvalid : Valid cfg w.bans w.now)
    (hb : b ∈ (run (BanStore.step cfg) w ops).bans.bans) :
    b ∈ w.bans.bans ∨ (b.pattern, b.created) ∈ registrations cfg w ops := by
  induction ops generalizing w with
  | nil => exact .inl hb
  | cons op ops ih =>
    rcases ih (hvalid.step op) hb with hb | hb
    · exact (mem_bans_step hvalid hb).imp_right fun hreg => mem_append_left _ hreg
    · exact .inr (mem_append_right _ hb)

/-- In a run whose registrations all meet the condition, one that has neither expired nor been
pushed out bans every object that matches its pattern and was stored up to its time. If that is so
of all registrations, what is banned depends on their set only. -/
theorem registrations_keep_banning (cfg : BanConfig) (start : Int) (ops : List BanOp)
    (w₀ w : BanStore t) (hw₀ : w₀ = ⟨.empty, start⟩) (hw : w = run (BanStore.step cfg) w₀ ops)
    (hok : Along (BanStore.step cfg) (BanOpOk cfg) w₀ ops) (obj : BanObject) :
    (∀ pat createdAt, StaysRegistered cfg w₀ ops pat createdAt →
      w.now - createdAt < cfg.ttlOrDefault → pat.Matches t obj → obj.storedAt ≤ createdAt →
        (w.bans.snapshot cfg true w.now).matches cfg obj = true) ∧
    ((∀ p ∈ registrations cfg w₀ ops, w.now - p.2 < cfg.ttlOrDefault) →
      Along (BanStore.step cfg) (fun w op => ∀ pat, ¬ PushesOut cfg pat w op) w₀ ops →
        ((w.bans.snapshot cfg true w.now).matches cfg obj = true ↔
          ∃ p ∈ registrations cfg w₀ ops, p.1.Matches t obj ∧ obj.storedAt ≤ p.2)) := by
  have hsound₀ : Sound cfg w₀ := hw₀ ▸ sound_empty start
  have hsound : Sound cfg w := hw ▸ hsound₀.run hok
  have hbans : ∀ pat createdAt, StaysRegistered cfg w₀ ops pat createdAt →
      w.now - createdAt < cfg.ttlOrDefault → pat.Matches t obj → obj.storedAt ≤ createdAt →
        (w.bans.snapshot cfg true w.now).matches cfg obj = true := by
    intro pat createdAt hstays hlive hmatch hstored
    have hkept : Kept cfg pat createdAt w := hw ▸ hstays.kept hsound₀ hok
    exact hkept.matches hsound hlive hmatch hstored
  refine ⟨hbans, fun hlive hcap => ⟨fun hfound => ?_, fun ⟨p, hp, hmatch, hstored⟩ => ?_⟩⟩
  · obtain ⟨τ, -, hmatches⟩ := hsound.valid.matches_iff_live hsound.regular
    obtain ⟨b, hb, -, hcov⟩ := (hmatches obj).1 hfound
    rw [hw] at hb
    have hreg := (mem_bans_run hsound₀.valid hb).resolve_left fun h => by
      rw [hw₀] at h
      cases h
    exact ⟨_, hreg, hcov.2, hcov.1⟩
  · exact hbans p.1 p.2 (staysRegistered_of_mem hp hcap) (hlive p hp) hmatch hstored

/-! ## Some re-issued bans -/

/-- A re-issue is good if its ban is alone in the list, does not go by its predicate and gets no
earlier time. -/
theorem reissueOk_alone (hlist : s.list = [r]) (hlater : (s.heap r).created ≤ createdAt)
    (hclass : (classifyBan (s.heap r).pattern).usesPredicate = false) :
    ReissueOk s r createdAt := by
  have hpair : ∀ a b, ¬ [a, b].Sublist s.list := by
    intro a b hsub
    have hlen := hsub.length_le
    rw [hlist] at hlen
    exact absurd hlen (by simp)
  refine ⟨hlater, fun h => ?_, fun a h => absurd h (hpair a r), fun a h => absurd h (hpair r a)⟩
  rw [hclass] at h
  cases h

def pathBan (createdAt : Int) (path : String) : BanOp := .ban ⟨createdAt, [], ascii path, []⟩

theorem reissued_ban_found :
    foundBanned [⟨40, [], ascii "/x", []⟩, ⟨100, [], ascii "/x", []⟩]
      (storedPath 50 (ascii "/x")) = true := by
  refine (registrations_keep_banning defaultBanConfig 100 [pathBan 40 "/x", pathBan 100 "/x"] _ _
    rfl rfl ⟨fun pred hpred => ?_, fun pred hpred => ?_, trivial⟩
    (storedPath 50 (ascii "/x"))).1 ⟨[], ascii "/x", []⟩ 100
    ⟨[pathBan 40 "/x"], _, [], rfl, by decide, rfl, by decide, trivial⟩
    (by decide) (by decide) (by decide)
  · have hexpr := compileBanPredicate_expr hpred
    refine ⟨by decide, fun _ => by rw [hexpr]; decide, fun r hr => ?_,
      fun _ a ha => ?_⟩
    · cases hr
    · cases ha
  · have hexpr := compileBanPredicate_expr hpred
    refine ⟨by decide, fun _ => by rw [hexpr]; decide, fun r hr => ?_,
      fun hnone => ?_⟩
    · rw [hexpr] at hr
      have hr' := hr.symm.trans (show _ = some 0 by decide)
      cases hr'
      exact reissueOk_alone (by decide) (by decide) (by decide)
    · rw [hexpr] at hnone
      exact absurd hnone (by decide)

/-- A ban that is delivered again with an earlier time, and one whose predicate keeps the time of
its first registration, no longer ban an object of an earlier one. -/
theorem reissued_ban_unbans :
    (StaysRegistered (t := plainTables) defaultBanConfig ⟨.empty, 100⟩
        [pathBan 100 "/x", pathBan 40 "/x"] ⟨[], ascii "/x", []⟩ 100 ∧
      foundBanned [⟨100, [], ascii "/x", []⟩, ⟨40, [], ascii "/x", []⟩]
        (storedPath 50 (ascii "/x")) = false) ∧
    (StaysRegistered (t := plainTables) defaultBanConfig ⟨.empty, 100⟩
        [pathBan 40 "^/x", pathBan 100 "^/x"] ⟨[], ascii "^/x", []⟩ 100 ∧
      foundBanned [⟨40, [], ascii "^/x", []⟩, ⟨100, [], ascii "^/x", []⟩]
        (storedPath 50 (ascii "/x")) = false) ∧
    BanPattern.Matches plainTables ⟨[], ascii "/x", []⟩ (storedPath 50 (ascii "/x")) ∧
    BanPattern.Matches plainTables ⟨[], ascii "^/x", []⟩ (storedPath 50 (ascii "/x")) ∧
    (100 - 100 < defaultBanConfig.ttlOrDefault) := by
  refine ⟨⟨⟨[], _, _, rfl, ?_, rfl, ?_, ?_, trivial⟩, ?_⟩,
    ⟨⟨[pathBan 40 "^/x"], _, [], rfl, ?_, rfl, ?_, trivial⟩, ?_⟩, ?_⟩
  all_goals decide

end Bouine.Storage
