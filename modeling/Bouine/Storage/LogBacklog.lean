import Bouine.Storage.Wal
import Bouine.Storage.WarmCrash

/-! # Deletes and a full queue of the log

`Enqueue` drops an entry when the queue is full, and leaves the change to the segment scan. But
`initWAL` scans only if the replayed index is empty: where a DELETE was dropped, the PUT still in
the log brings the record back.
-/

namespace Bouine.Storage.Warm

open Lib Lib.Transition List

inductive TierCall where
  /-- The body that the warm tier gets, none if the object does not qualify. -/
  | put (key : Key) (body : Option Bytes)
  | delete (key : Key)
  /-- a turn of `walSyncLoop` -/
  | sync

def Tier.walEnqueue (t : Tier) (e : LogEntry) : Tier :=
  if t.syncCh.length < Wal.syncChSize then t.complete (.enqueue e) else t.complete (.drop e)

/-- `warmBack`, `evictWarmErr` and `drainAndSync`. -/
def Tier.call (t : Tier) : TierCall → Tier
  | .put key (some body) =>
    let t := t.complete (.put key body)
    t.walEnqueue (key, t.warm.index.lookup key)
  | .put _ none => t
  | .delete key => (t.complete (.delete key)).walEnqueue (key, none)
  | .sync => t.complete .drain

/-- The warm store after a flush of the log, a crash and `initWAL`. -/
def Tier.recovered (t : Tier) : Store :=
  (recover (t.complete .drain).disk t.warm.segMax t.segMax_pos).warm

def Tier.logged (t : Tier) (key : Key) : Option (Option Loc) :=
  Journal.newest (t.wal ++ t.syncCh) key

def Tier.CallOk (t : Tier) : TierCall → Prop
  | .put _ body => ∀ b ∈ body, b.length < 2 ^ 32
  | .delete key => t.syncCh.length < Wal.syncChSize ∨ ∀ loc, t.logged key ≠ some (some loc)
  | .sync => True

/-- What the calls keep: the log has no PUT for a key that is not in the index. -/
structure Tier.Logs (t : Tier) : Prop where
  kept : Kept t.warm
  top : Topmost t.warm
  snap : t.snap = none
  held : t.held = []
  sized : ∀ e ∈ t.wal ++ t.syncCh, hasSize e = true
  silent : ∀ key, t.warm.index.lookup key = none → ∀ loc, t.logged key ≠ some (some loc)

section

variable {t : Tier} {e : LogEntry} {key : Key}

theorem walEnqueue_eq (h : t.held = [e]) : t.walEnqueue e = { t with
    held := []
    syncCh := if t.syncCh.length < Wal.syncChSize then t.syncCh ++ [e] else t.syncCh } := by
  unfold Tier.walEnqueue
  split_ifs <;> simp [Tier.complete, h]

theorem Tier.Logs.write (h : t.Logs) {warm : Store} {written : List (Key × Bytes)}
    (hkept : Kept warm) (htop : Topmost warm) (hsize : hasSize e)
    (hother : ∀ k, k ≠ e.1 → warm.index.lookup k = t.warm.index.lookup k)
    (hroom : warm.index.lookup e.1 = none → e.2 = none ∧
      (t.syncCh.length < Wal.syncChSize ∨ ∀ loc, t.logged e.1 ≠ some (some loc))) :
    (Tier.walEnqueue { t with warm, written, held := t.held ++ [e] } e).Logs := by
  rw [walEnqueue_eq (by simp [h.held])]
  refine ⟨hkept, htop, h.snap, rfl, ?_, fun k hk loc => ?_⟩
  · split_ifs
    · rw [← append_assoc]
      exact forall_mem_append.2 ⟨h.sized, by simpa using hsize⟩
    · exact h.sized
  · have hold : k ≠ e.1 → t.logged k ≠ some (some loc) :=
      fun hne => h.silent k ((hother k hne).symm.trans hk) loc
    unfold Tier.logged at hold ⊢
    by_cases hke : k = e.1
    · subst hke
      obtain ⟨hnone, hlogged⟩ := hroom hk
      split_ifs with hlt
      · rw [← append_assoc, Journal.newest_append, Journal.newest_singleton, hnone]
        simp
      · exact hlogged.resolve_left hlt loc
    · split_ifs
      · rw [← append_assoc, Journal.newest_append, Journal.newest_singleton,
          if_neg (Ne.symm hke)]
        exact hold hke
      · exact hold hke

theorem newestOnDisk_above (h : Layout t.warm) (ht : Topmost t.warm) :
    newestOnDisk t.warm.newSegment.above key = none := by
  rw [(ht.newSegment h).above_eq]
  rfl

theorem Tier.Logs.call (h : t.Logs) {c : TierCall} (hok : t.CallOk c) : (t.call c).Logs := by
  have hl := h.kept.layout
  cases c with
  | put key body =>
    cases body with
    | none => exact h
    | some body =>
      have hstep : Kept (t.warm.step (.put key body)) :=
        h.kept.step ⟨hok body rfl, by simp [newestOnDisk_above hl h.top]⟩
      have hlookup : (t.warm.put key body).index.lookup key =
          some ⟨t.warm.newSegment.activeID, t.warm.newSegment.activeSize, recSize body⟩ :=
        AList.lookup_insert _
      refine h.write hstep (h.top.put hl key body) ?_ (fun k hk => ?_) fun hnone => ?_
      · have hpos : 0 < recSize body := Nat.add_pos_left (Nat.add_pos_left (by decide) _) _
        simp [hlookup, hasSize, hpos]
      · exact (AList.lookup_insert_ne hk).trans (by rw [index_newSegment])
      · rw [hlookup] at hnone
        cases hnone
  | delete key =>
    have hstep : Kept (t.warm.step (.delete key)) :=
      h.kept.step (by simp [StepOk, newestOnDisk_above hl h.top])
    exact h.write hstep ((h.top.newSegment hl).append _) rfl
      (fun k hk => (lookup_delete t.warm key k).trans (if_neg hk)) fun _ => ⟨rfl, hok⟩
  | sync =>
    refine ⟨h.kept, h.top, h.snap, h.held, by simpa [Tier.call, Tier.complete] using h.sized, ?_⟩
    simpa [Tier.call, Tier.complete, Tier.logged] using h.silent

theorem lookup_call {c : TierCall} (hc : ∀ body, c ≠ .put key body)
    (hnone : t.warm.index.lookup key = none) : (t.call c).warm.index.lookup key = none := by
  have hwarm : ∀ (u : Tier) e, (u.walEnqueue e).warm = u.warm := by
    intro u e
    unfold Tier.walEnqueue
    simp only [Tier.complete]
    split_ifs <;> rfl
  cases c with
  | put k body =>
    cases body with
    | none => exact hnone
    | some body =>
      have hne : key ≠ k := fun he => hc (some body) (by rw [he])
      rw [Tier.call, hwarm]
      exact (AList.lookup_insert_ne hne).trans (by rwa [index_newSegment])
  | delete k =>
    rw [Tier.call, hwarm]
    refine (lookup_delete t.warm k key).trans ?_
    rw [hnone, ite_self]
  | sync => exact hnone

theorem lookup_run {calls : List TierCall} (hc : ∀ body, .put key body ∉ calls)
    (hnone : t.warm.index.lookup key = none) :
    (run Tier.call t calls).warm.index.lookup key = none := by
  induction calls generalizing t with
  | nil => exact hnone
  | cons c calls ih =>
    refine ih (fun body hmem => hc body (.tail _ hmem)) (lookup_call ?_ hnone)
    rintro body rfl
    exact hc body (.head _)

/-! ## The recovery -/

theorem recovered_eq (hsnap : t.snap = none) (hsized : ∀ e ∈ t.wal ++ t.syncCh, hasSize e) :
    t.recovered =
      if (Journal.replay (∅ : Index) (t.wal ++ t.syncCh)).entries = [] then t.warm.restart
      else { openExisting t.warm.segs t.warm.segMax t.warm.segMax_pos with
        index := Journal.replay ∅ (t.wal ++ t.syncCh) } := by
  simp only [Tier.recovered, recover, initWAL, Tier.complete, Tier.disk, hsnap, loadSnapshot,
    Option.bind_none, openExisting, Store.restart]
  split_ifs with hempty hall
  · rw [AList.ext (t := (∅ : Index)) hempty]
  · rfl
  · exact absurd (all_eq_true.2 hsized) hall

theorem lookup_recovered_of_logged {loc : Loc} (hsnap : t.snap = none)
    (hsized : ∀ e ∈ t.wal ++ t.syncCh, hasSize e) (hlogged : t.logged key = some (some loc)) :
    t.recovered.index.lookup key = some loc := by
  have hlookup : (Journal.replay (∅ : Index) (t.wal ++ t.syncCh)).lookup key = some loc := by
    rw [Journal.lookup_replay, ← Tier.logged, hlogged]
    rfl
  rw [recovered_eq hsnap hsized, if_neg]
  · exact hlookup
  · intro hnil
    rw [AList.lookup, hnil] at hlookup
    cases hlookup

theorem Tier.Logs.lookup_recovered (h : t.Logs) (hnone : t.warm.index.lookup key = none) :
    t.recovered.index.lookup key = none := by
  rw [recovered_eq h.snap h.sized]
  split_ifs
  · -- the scan finds the tombstone
    have hback := (backstop_iff h.kept.layout.files h.kept.points).2 h.kept.agrees key
    rw [hnone] at hback
    exact Option.map_eq_none_iff.1 hback
  · rw [Journal.lookup_replay, ← Tier.logged]
    cases hlogged : t.logged key with
    | none => rfl
    | some loc =>
      cases loc with
      | none => rfl
      | some loc => exact absurd hlogged (h.silent key hnone loc)

end

theorem logs_empty {segMax : Nat} (h : 0 < segMax) : (Tier.empty segMax h).Logs where
  kept := kept_empty h
  top _ hseg := nomatch hseg
  snap := rfl
  held := rfl
  sized _ he := nomatch he
  silent _ _ _ hlogged := by cases hlogged

/-- If no DELETE is dropped that the log needs, a key whose last call was a `Delete` is not in the
index after a crash. -/
theorem deletes_survive_crash {segMax : Nat} (h : 0 < segMax) (before after : List TierCall)
    (key : Key) (hok : Along Tier.call Tier.CallOk (Tier.empty segMax h)
      (before ++ .delete key :: after)) (hlast : ∀ body, .put key body ∉ after) :
    (run Tier.call (Tier.empty segMax h)
      (before ++ .delete key :: after)).recovered.index.lookup key = none := by
  have hlogs := (always_of_along (fun t c ht hc => ht.call hc) (logs_empty h) hok).last
  refine hlogs.lookup_recovered ?_
  rw [run_append, run_cons]
  refine lookup_run hlast ?_
  rw [Tier.call, Tier.walEnqueue, Tier.complete, Tier.complete]
  split_ifs <;> exact (lookup_delete _ key key).trans (if_pos rfl)

/-! ## A DELETE that is dropped -/

theorem run_deletes {t : Tier} {key : Key} (n : Nat) (h : t.syncCh.length + n ≤ Wal.syncChSize)
    (hheld : t.held = []) :
    (run Tier.call t (List.replicate n (.delete key))).syncCh =
        t.syncCh ++ List.replicate n (key, none) ∧
      (run Tier.call t (List.replicate n (.delete key))).held = [] ∧
      (run Tier.call t (List.replicate n (.delete key))).wal = t.wal ∧
      (run Tier.call t (List.replicate n (.delete key))).snap = t.snap := by
  induction n generalizing t with
  | zero => simp [hheld]
  | succ n ih =>
    have hroom : t.syncCh.length < Wal.syncChSize := by omega
    have hcall : t.call (.delete key) =
        { t with warm := t.warm.delete key, held := [], syncCh := t.syncCh ++ [(key, none)] } := by
      rw [Tier.call, walEnqueue_eq (by simp [Tier.complete, hheld])]
      simp [Tier.complete, hroom]
    have hrest := ih (t := t.call (.delete key)) (by rw [hcall]; simp; omega) (by rw [hcall])
    simp only [replicate_succ, run_cons]
    rw [hcall] at hrest ⊢
    simpa using hrest

/-- A `Put`, deletes of another key that fill the queue, and the `Delete`. -/
def backlog (n : Nat) : List TierCall :=
  .put (exampleKey 1) (some []) ::
    (List.replicate n (.delete (exampleKey 2)) ++ [.delete (exampleKey 1)])

theorem lookup_backlog {n : Nat} (hsize : Wal.syncChSize = n + 1) :
    (run Tier.call (Tier.empty 64 (by decide)) (backlog n)).recovered.index.lookup (exampleKey 1) =
      some ⟨0, 0, recSize []⟩ := by
  have hput : ((Tier.empty 64 (by decide)).call (.put (exampleKey 1) (some []))).syncCh =
      [(exampleKey 1, some ⟨0, 0, recSize []⟩)] := by decide
  have hrest : ((Tier.empty 64 (by decide)).call (.put (exampleKey 1) (some []))).held = [] ∧
      ((Tier.empty 64 (by decide)).call (.put (exampleKey 1) (some []))).wal = [] ∧
      ((Tier.empty 64 (by decide)).call (.put (exampleKey 1) (some []))).snap = none := by
    decide
  rw [backlog, run_cons, run_append]
  generalize (Tier.empty 64 (by decide)).call (.put (exampleKey 1) (some [])) = t at *
  obtain ⟨hheld, hwal, hsnap⟩ := hrest
  obtain ⟨hch, hheld', hwal', hsnap'⟩ :=
    @run_deletes t (exampleKey 2) n (by rw [hput]; simp; omega) hheld
  generalize run Tier.call t (replicate n (.delete (exampleKey 2))) = u at *
  have hfull : ¬ u.syncCh.length < Wal.syncChSize := by
    rw [hch, hput, hsize]
    simp
  have hlast : u.call (.delete (exampleKey 1)) =
      { u with warm := u.warm.delete (exampleKey 1), held := [] } := by
    rw [Tier.call, walEnqueue_eq (by simp [Tier.complete, hheld'])]
    simp [Tier.complete, hfull]
  rw [run_cons, hlast]
  have hne : exampleKey 2 ≠ exampleKey 1 := by decide
  refine lookup_recovered_of_logged (hsnap'.trans hsnap) ?_ ?_
  · simp [hch, hput, hwal', hwal, hasSize, recSize, footerLen]
  · simp [Tier.logged, hch, hput, Journal.newest, hne]

theorem dropped_delete_brings_record_back :
    (run Tier.call (Tier.empty 64 (by decide)) (backlog 4095)).recovered.index.lookup
      (exampleKey 1) = some ⟨0, 0, recSize []⟩ :=
  lookup_backlog (by decide)

theorem delete_with_room_survives :
    (run Tier.call (Tier.empty 64 (by decide))
      ([.put (exampleKey 1) (some []), .sync] ++
        .delete (exampleKey 1) :: [.sync])).recovered.index.lookup (exampleKey 1) = none := by
  refine deletes_survive_crash (by decide) _ _ _ ⟨?_, trivial, .inl ?_, trivial, trivial⟩ (by simp)
  · rintro b ⟨rfl⟩
    exact Nat.two_pow_pos 32
  · decide

end Bouine.Storage.Warm
