import Bouine.Storage.BanList

/-! # The ban list as operations and TTL changes leave it

Registrations, evictions, sweeps and changes of the TTL, in any order. A change of the TTL leaves the
list alone and decides which bans later operations take for expired.
-/

namespace Bouine.Storage

open Lib Lib.Regexp Lib.Transition List

variable {t : Tables}

inductive BanListOp (t : Tables) where
  | register (pred : BanPredicate t) (createdAt now : Int)
  | evictHead
  | popExpiredHead (now : Int)
  | pruneExpired (now : Int)
  | setTTL (ttl : Int)

structure BanListWorld (t : Tables) where
  cfg : BanConfig
  bans : BanListState t

def BanListWorld.step (w : BanListWorld t) : BanListOp t → BanListWorld t
  | .register pred createdAt now => { w with bans := w.bans.register w.cfg pred createdAt now }
  | .evictHead => { w with bans := w.bans.evictHead w.cfg }
  | .popExpiredHead now => { w with bans := w.bans.popExpiredHead w.cfg now }
  | .pruneExpired now => { w with bans := w.bans.pruneExpired w.cfg now }
  | .setTTL ttl => { w with cfg := { w.cfg with ttl } }

/-- Beside the views: no entry of the surrogate set is in another key's shard, and the list is
within its cap. -/
structure InStep (cfg : BanConfig) (s : BanListState t) : Prop extends Views cfg s where
  placed : ∀ table ∈ s.surr, table.Placed cfg.hash
  length : s.list.length ≤ cfg.capOrDefault

variable {cfg : BanConfig} {s : BanListState t}

theorem placed_forget (h : ∀ table ∈ s.surr, table.Placed cfg.hash) (r : Ref) :
    ∀ table ∈ (s.forget cfg r).surr, table.Placed cfg.hash := by
  intro table htable
  simp only [BanListState.forget] at htable
  split_ifs at htable
  · obtain ⟨table, hs, rfl⟩ := Option.map_eq_some_iff.1 htable
    refine (h table hs).update (v := r) fun e he => .inr ?_
    unfold SortedTable.remove at he
    split_ifs at he
    · exact mem_of_mem_eraseIdx he
    · exact he
  · exact h table htable

theorem InStep.evictHead (h : InStep cfg s) : InStep cfg (s.evictHead cfg) := by
  refine ⟨h.toViews.evictHead, ?_, ?_⟩
  · unfold BanListState.evictHead
    split
    · exact h.placed
    · split_ifs <;> exact placed_forget h.placed _
  · rw [list_evictHead, length_drop]
    exact (Nat.sub_le _ _).trans h.length

theorem InStep.append (h : InStep cfg s) {ban : ActiveBan t} (hnew : s.index ban.pattern = none)
    (hroom : s.list.length < cfg.capOrDefault) : InStep cfg (s.append cfg ban) := by
  refine ⟨h.toViews.append hnew, ?_, ?_⟩
  · have htable : (s.surr.getD (newSurrogateTable cfg.capOrDefault)).Placed cfg.hash := by
      cases hs : s.surr with
      | none => exact fun _ _ he => (nomatch he)
      | some table => exact h.placed table hs
    unfold BanListState.append
    split_ifs
    · rintro _ ⟨⟩
      exact htable.update fun e he => SortedTable.mem_put.1 he
    · exact h.placed
  · rw [list_append, length_append]
    exact hroom

theorem InStep.register (h : InStep cfg s) (pred : BanPredicate t) (createdAt now : Int) :
    InStep cfg (s.register cfg pred createdAt now) := by
  refine register_induction (fun _ h => h.evictHead) (fun s r h => ?_)
    (fun _ h hnew hroom => h.append hnew hroom) h now
  exact ⟨h.toViews.refresh r createdAt, h.placed, h.length⟩

theorem InStep.pruneExpired (h : InStep cfg s) (now : Int) : InStep cfg (s.pruneExpired cfg now) := by
  have hplaced (gone : List Ref) :
      ∀ table ∈ (gone.foldl (·.forget cfg) s).surr, table.Placed cfg.hash :=
    foldlRecOn (motive := fun s : BanListState t => ∀ table ∈ s.surr, table.Placed cfg.hash) gone _
      h.placed fun _ h r _ => placed_forget h r
  exact ⟨(Valid.pruneExpired h.toViews now).toViews, hplaced _, (length_filter_le _ _).trans h.length⟩

theorem InStep.step {w : BanListWorld t} (h : InStep w.cfg w.bans) (op : BanListOp t) :
    InStep (w.step op).cfg (w.step op).bans := by
  cases op with
  | register pred createdAt now => exact h.register pred createdAt now
  | evictHead => exact h.evictHead
  | popExpiredHead now => exact evictWhile_induction (fun _ h => h.evictHead) h _ _
  | pruneExpired now => exact h.pruneExpired now
  | setTTL ttl =>
    -- the views read the hash of the configuration only
    have hindexed := h.indexed
    exact ⟨⟨h.nodup, h.fresh, ⟨hindexed.index, hindexed.ordered, hindexed.surr⟩, h.rest⟩, h.placed,
      h.length⟩

theorem ban_list_in_step (cfg : BanConfig) (ops : List (BanListOp t)) :
    let w := run BanListWorld.step ⟨cfg, .empty⟩ ops
    InStep w.cfg w.bans ∧ (w.bans.list.map fun r => (w.bans.heap r).pattern).Nodup := by
  intro w
  have hstep : InStep w.cfg w.bans := by
    refine run_preserves (Q := fun w : BanListWorld t => InStep w.cfg w.bans) (fun _ op h => h.step op) ?_ ops
    exact ⟨views_empty, fun _ h => (nomatch h), Nat.zero_le _⟩
  refine ⟨hstep, (nodup_map_iff_inj_on hstep.nodup).2 fun r hr r' hr' heq => ?_⟩
  exact hstep.indexed.eq_of_pattern hr hr' heq

end Bouine.Storage
