import Bouine.Storage.TieredFreshness

/-! # Entries that are marked as backed

`hasBackup` tells that the warm tier has a copy of the hot object. Overwriting a backed entry sends
a tombstone for the old copy; it is applied by key, when the queue is drained, and by then the new
object may have a copy of its own.
-/

namespace Bouine.Storage.Tiered

open Api Lib.Transition

variable {Key Blob : Type} [DecidableEq Key]

def BackedAt (c : Config Key Blob) (_ : Key) (h : Option (HotEntry Key))
    (w : Option (WarmEntry Blob)) : Prop :=
  ∀ e ∈ h, e.hasBackup = true → w.map WarmEntry.blob = some (c.encode e.obj)

def Backed (c : Config Key Blob) (s : State Key Blob) : Prop := Holds (BackedAt c) s

def TombstonesOk (s : State Key Blob) (op : Op Key) : Prop :=
  op.Drains → ∀ k ∈ s.tombstoneQueue, ∀ e ∈ s.hot k, e.hasBackup = false

omit [DecidableEq Key] in
theorem perKey_backedAt (c : Config Key Blob) : PerKey c (BackedAt c) where
  remove _ := by simp [BackedAt]
  lose _ := by simp [BackedAt]
  promote _ _ := by simp [BackedAt]
  evict {_ h _} _ := by cases h <;> simp [BackedAt]
  protect h := h
  write _ := by simp [BackedAt]

theorem Backed.step {c : Config Key Blob} {s : State Key Blob} {op : Op Key} (h : Backed c s)
    (hok : TombstonesOk s op) : Backed c (step c s op) := by
  refine (perKey_backedAt c).step op h (fun _ _ _ _ _ _ _ => by simp [BackedAt]) fun k hk => ?_
  by_cases hop : op.Drains
  · refine .inl fun e he hb => ?_
    rw [hok hop k hk e he] at hb
    cases hb
  · exact .inr hop

/-- As long as no drain meets a tombstone of a key whose hot entry is marked as backed, every such
entry has a warm record of its object. -/
theorem backed_entries_have_backup (c : Config Key Blob) (ops : List (Op Key))
    (hok : Along (step c) TombstonesOk State.fresh ops) :
    Always (step c) (Backed c) State.fresh ops :=
  always_of_along (fun _ _ h hop => h.step hop) (nofun) hok

/-- The object of a key is overwritten; both qualify for the warm tier. -/
def overwrittenThenDrained : List (Op Nat) :=
  [.put 0 (exampleObject 20) [] true, .put 0 (exampleObject 30) [] true, .drain]

/-- The tombstone of the first object takes the copy of the second. The queues are empty, and the
entry is marked as backed. -/
theorem drained_tombstone_takes_new_copy :
    let s := run (step exampleConfig) State.fresh overwrittenThenDrained
    s.tombstoneQueue = [] ∧ s.warmUnprotectQueue = [] ∧ s.warmEvictQueue = [] ∧
      s.hot 0 = some ⟨exampleObject 30, true, 1⟩ ∧ s.warm 0 = none :=
  ⟨rfl, rfl, rfl, rfl, rfl⟩

/-- The queue is drained before the second object is mirrored. -/
theorem synced_entry_has_backup :
    Always (step exampleConfig) (Backed exampleConfig) State.fresh
      [.put 0 (exampleObject 20) [] true, .put 0 (exampleObject 30) [] false, .drain,
        .sync false false [(0, true)] fun _ => false] := by
  refine backed_entries_have_backup exampleConfig _ ⟨nofun, nofun, ?_, ?_, trivial⟩
  · rintro - k hk e he
    cases List.mem_singleton.1 hk
    cases he
    rfl
  · rintro - k hk
    cases hk

end Bouine.Storage.Tiered
