import Mathlib.Data.List.AList
import Bouine.Lib.Bytes
import Bouine.Lib.SlidingWindow

/-! # The tracker of invalidation events

`internal/cluster/seqtracker.go`: per issuer, a window over the sequence numbers that have come in.
A number on record, or too old for the window, is taken for a duplicate. Clock readings are in
nanoseconds from the zero time.
-/

namespace Bouine.Cluster

open Lib

def seqTrackerTTL : Int := 3600 * 1000000000

def seqTrackers : Nat := 256

def seqDedupWindow : Nat := 4096

abbrev Walk := { f : List Bytes → List Bytes // ∀ keys, (f keys).Perm keys }

structure SeqTracker where
  wins : AList fun _ : Bytes => Window
  lastSeen : AList fun _ : Bytes => Int

namespace SeqTracker

section

variable (t : SeqTracker) (issuer : Bytes)

def last : Int := (t.lastSeen.lookup issuer).getD 0

def expired (now : Int) : Bool := seqTrackerTTL < now - t.last issuer

def delete : SeqTracker := ⟨t.wins.erase issuer, t.lastSeen.erase issuer⟩

def put (w : Window) (now : Int) : SeqTracker := ⟨t.wins.insert issuer w, t.lastSeen.insert issuer now⟩

def recordLocked (w : Option Window) (seq : Nat) (now : Int) : Bool × SeqTracker :=
  match w with
  | none => (false, t.put issuer (Window.single seqDedupWindow seq) now)
  | some w =>
    if w.high < seq then
      (false, t.put issuer ((w.slideTo seqDedupWindow seq).mark seqDedupWindow seq) now)
    else if seqDedupWindow ≤ w.high - seq then (true, t)
    else if w.has seqDedupWindow seq then (true, t)
    else (false, t.put issuer (w.mark seqDedupWindow seq) now)

def oldest : List Bytes → Option Bytes
  | [] => none
  | issuer :: rest => some <|
    rest.foldl (fun old issuer => if t.last issuer < t.last old then issuer else old) issuer

def pruneLocked (walk : Walk) (now : Int) : SeqTracker :=
  let issuers := walk.1 t.lastSeen.keys
  match issuers.filter (t.expired · now) with
  | [] => (t.oldest issuers).elim t t.delete
  | gone => gone.foldl delete t

def seen (walk : Walk) (seq : Nat) (now : Int) : Bool × SeqTracker :=
  if issuer = [] then (false, t)
  else
    let w := t.wins.lookup issuer
    let stale := w.isSome && t.expired issuer now
    let r := (if stale then t.delete issuer else t).recordLocked issuer (if stale then none else w) seq now
    (r.1, if seqTrackers < r.2.wins.keys.length then r.2.pruneLocked walk now else r.2)

end

/-! ## What is on record of an issuer -/

/-- The tracker has a window of the issuer, last renewed at that time. -/
structure Tracked (t : SeqTracker) (issuer : Bytes) (w : Window) (time : Int) : Prop where
  win : t.wins.lookup issuer = some w
  last : t.last issuer = time

variable {t : SeqTracker} {i issuer : Bytes} {w : Window} {seq : Nat} {now time : Int} {walk : Walk}

theorem Tracked.of_delete (h : (t.delete issuer).Tracked i w time) : i ≠ issuer ∧ t.Tracked i w time := by
  have hne : i ≠ issuer := by
    intro he
    have hwin := h.win
    rw [he, delete, AList.lookup_erase] at hwin
    cases hwin
  refine ⟨hne, ?_, ?_⟩
  · rw [← h.win, delete, AList.lookup_erase_ne hne]
  · rw [← h.last, SeqTracker.last, SeqTracker.last, delete, AList.lookup_erase_ne hne]

theorem Tracked.of_put {v : Window} (h : (t.put issuer v now).Tracked i w time) :
    (i ≠ issuer ∧ t.Tracked i w time) ∨ (i = issuer ∧ w = v ∧ time = now) := by
  obtain ⟨hwin, hlast⟩ := h
  by_cases hi : i = issuer
  · subst hi
    rw [put, AList.lookup_insert] at hwin
    rw [SeqTracker.last, put, AList.lookup_insert] at hlast
    exact .inr ⟨rfl, (Option.some.inj hwin).symm, hlast.symm⟩
  · rw [put, AList.lookup_insert_ne hi] at hwin
    rw [SeqTracker.last, put, AList.lookup_insert_ne hi] at hlast
    exact .inl ⟨hi, hwin, hlast⟩

theorem Tracked.of_foldl_delete {gone : List Bytes} (h : (gone.foldl delete t).Tracked i w time) :
    t.Tracked i w time := by
  induction gone generalizing t with
  | nil => exact h
  | cons g gone ih => exact (ih h).of_delete.2

theorem Tracked.of_pruneLocked (h : (t.pruneLocked walk now).Tracked i w time) : t.Tracked i w time := by
  unfold pruneLocked at h
  dsimp only at h
  split at h
  · cases ho : t.oldest (walk.1 t.lastSeen.keys) with
    | none => rwa [ho] at h
    | some o =>
      rw [ho] at h
      exact h.of_delete.2
  · exact h.of_foldl_delete

/-! ## One event -/

def Extends (t : SeqTracker) (issuer : Bytes) (seq : Nat) (now : Int) (w : Window) : Prop :=
  w = Window.single seqDedupWindow seq ∨
    ∃ v time, t.Tracked issuer v time ∧ now - time ≤ seqTrackerTTL ∧
      ∀ seen, v.Tracks seqDedupWindow seen → w.Tracks seqDedupWindow fun n => n = seq ∨ seen n

theorem recordLocked_tracked {v : Option Window}
    (h : (t.recordLocked issuer v seq now).2.Tracked i w time) :
    t.Tracked i w time ∨ (i = issuer ∧ time = now ∧ (t.recordLocked issuer v seq now).1 = false ∧
      ((v = none ∧ w = Window.single seqDedupWindow seq) ∨
        ∃ u, v = some u ∧ ∀ seen, u.Tracks seqDedupWindow seen →
          w.Tracks seqDedupWindow fun n => n = seq ∨ seen n)) := by
  -- a number taken in puts one window, any other changes nothing
  have hput : ∀ u, (t.put issuer u now).Tracked i w time →
      t.Tracked i w time ∨ (i = issuer ∧ time = now ∧ w = u) := by
    intro u hu
    rcases hu.of_put with hu | ⟨hi, hw, hat⟩
    · exact .inl hu.2
    · exact .inr ⟨hi, hat, hw⟩
  unfold recordLocked at h ⊢
  cases v with
  | none =>
    refine (hput _ h).imp_right fun ⟨hi, hat, hw⟩ => ⟨hi, hat, rfl, .inl ⟨rfl, hw⟩⟩
  | some u =>
    dsimp only at h ⊢
    split_ifs at h ⊢ with hhigh hold hhas
    · refine (hput _ h).imp_right fun ⟨hi, hat, hw⟩ => ⟨hi, hat, rfl, .inr ⟨u, rfl, fun seen hu => ?_⟩⟩
      rw [hw]
      exact hu.slideTo hhigh (by decide)
    · exact .inl h
    · exact .inl h
    · refine (hput _ h).imp_right fun ⟨hi, hat, hw⟩ => ⟨hi, hat, rfl, .inr ⟨u, rfl, fun seen hu => ?_⟩⟩
      rw [hw]
      exact hu.mark (by omega) (by omega)

theorem tracked_of_seen (h : (t.seen issuer walk seq now).2.Tracked i w time) :
    t.Tracked i w time ∨
      (i = issuer ∧ time = now ∧ (t.seen issuer walk seq now).1 = false ∧ t.Extends issuer seq now w) := by
  unfold seen at h ⊢
  split_ifs at h ⊢ with hissuer
  · exact .inl h
  · dsimp only at h ⊢
    generalize hr : SeqTracker.recordLocked _ issuer _ seq now = r at h ⊢
    have h : r.2.Tracked i w time := by
      split_ifs at h
      · exact h.of_pruneLocked
      · exact h
    subst hr
    rcases recordLocked_tracked h with h | ⟨hi, hat, hdup, hw⟩
    · split_ifs at h
      · exact .inl h.of_delete.2
      · exact .inl h
    · refine .inr ⟨hi, hat, hdup, ?_⟩
      rcases hw with ⟨-, hw⟩ | ⟨u, hu, hw⟩
      · exact .inl hw
      · split_ifs at hu with hstale
        refine .inr ⟨u, t.last issuer, ⟨hu, rfl⟩, ?_, hw⟩
        simpa [hu, expired] using hstale

theorem tracked_of_seen_true (h : (t.seen issuer walk seq now).1) :
    ∃ w time, t.Tracked issuer w time ∧ now - time ≤ seqTrackerTTL ∧ seq ≤ w.high ∧
      (w.high < seq + seqDedupWindow → w.has seqDedupWindow seq) := by
  unfold seen at h
  split_ifs at h with hissuer
  dsimp only at h
  split_ifs at h with hstale
  · cases h
  · cases hw : t.wins.lookup issuer with
    | none =>
      rw [hw] at h
      cases h
    | some w =>
      refine ⟨w, t.last issuer, ⟨hw, rfl⟩, by simpa [hw, expired] using hstale, ?_⟩
      rw [hw] at h
      dsimp only [recordLocked] at h
      split_ifs at h with hhigh hold hhas
      · exact ⟨by omega, by omega⟩
      · exact ⟨by omega, fun _ => hhas⟩

end SeqTracker

end Bouine.Cluster
