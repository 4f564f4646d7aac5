import Bouine.Lib.Transition
import Bouine.Cluster.SeqTracker

/-! # Calls of `seen` in 64 bits

Of the arithmetic of the tracker only the loop of `slideTo` can leave the range of a `uint64`: it ends
when its counter is above the number, and no counter is above the greatest number.
-/

namespace Bouine.Cluster

open Lib Lib.Transition List Option Nat AList

/-- The loop of `slideTo`, or nothing if it takes more turns. -/
def unmarkTo (seq : Nat) : Nat → Nat → Window → Option Window
  | 0, _, _ => none
  | turns + 1, s, w =>
    if s ≤ seq then unmarkTo seq turns ((s + 1) % 2 ^ 64) (w.unmark seqDedupWindow s) else some w

def slideTo64 (turns : Nat) (w : Window) (seq : Nat) : Option Window :=
  if seqDedupWindow ≤ seq - w.high then some ⟨seq, fun _ => false⟩
  else (unmarkTo seq turns (w.high + 1) w).map fun w => { w with high := seq }

/-- The number is the greatest, and the window would move up to it slot by slot. -/
def Stuck (w : Window) (seq : Nat) : Prop :=
  seq = 2 ^ 64 - 1 ∧ w.high < seq ∧ seq < w.high + seqDedupWindow

section

variable {w : Window} {seq : Nat}

theorem unmarkTo_eq (hseq : seq < 2 ^ 64 - 1) (n : Nat) {turns s : Nat} (hn : s + n = seq + 1)
    (hturns : n < turns) :
    unmarkTo seq turns s w = some ((range' s n).foldl (Window.unmark seqDedupWindow) w) := by
  induction n generalizing turns s w with
  | zero =>
    obtain ⟨turns, rfl⟩ := exists_eq_add_one.2 hturns
    rw [unmarkTo, if_neg (by omega), range'_zero, foldl_nil]
  | succ n ih =>
    obtain ⟨turns, rfl⟩ := exists_eq_add_one.2 (zero_lt_of_lt hturns)
    rw [unmarkTo, if_pos (by omega), mod_eq_of_lt (by omega), ih (by omega) (by omega), range'_succ,
      foldl_cons]

theorem unmarkTo_greatest (turns : Nat) {s : Nat} (hs : s < 2 ^ 64) :
    unmarkTo (2 ^ 64 - 1) turns s w = none := by
  induction turns generalizing s w with
  | zero => rfl
  | succ turns ih => rw [unmarkTo, if_pos (by omega), ih (mod_lt _ (by decide))]

theorem slideTo64_eq (hseq : seq < 2 ^ 64) (hlt : w.high < seq) (h : ¬ Stuck w seq) {turns : Nat}
    (hturns : seqDedupWindow ≤ turns) : slideTo64 turns w seq = some (w.slideTo seqDedupWindow seq) := by
  unfold slideTo64 Window.slideTo
  split_ifs with hfar
  · rfl
  · have hmax : seq ≠ 2 ^ 64 - 1 := fun hmax => h ⟨hmax, hlt, by omega⟩
    rw [unmarkTo_eq (by omega) (seq - w.high) (by omega) (by omega)]
    rfl

theorem slideTo64_stuck (h : Stuck w seq) (turns : Nat) : slideTo64 turns w seq = none := by
  obtain ⟨rfl, hlt, hnear⟩ := h
  rw [slideTo64, if_neg (by omega), unmarkTo_greatest turns (by omega), map_none]

end

structure SeqCall where
  issuer : Bytes
  seq : UInt64
  now : Int
  walk : Walk

section

variable {α β : Type} [DecidableEq α]

theorem length_keys_erase_le (a : α) (s : AList fun _ : α => β) :
    (s.erase a).keys.length ≤ s.keys.length := by
  rw [keys_erase]
  exact length_erase_le

theorem length_keys_erase_lt {a : α} {s : AList fun _ : α => β} (ha : a ∈ s) :
    (s.erase a).keys.length < s.keys.length := by
  have hpos := length_pos_of_mem (mem_keys.1 ha)
  rw [keys_erase, length_erase_of_mem (mem_keys.1 ha)]
  omega

end

namespace SeqTracker

def recordLocked64 (turns : Nat) (t : SeqTracker) (issuer : Bytes) (w : Option Window) (seq : Nat)
    (now : Int) : Option (Bool × SeqTracker) :=
  match w with
  | none => some (t.recordLocked issuer none seq now)
  | some w =>
    if w.high < seq then
      (slideTo64 turns w seq).map fun w => (false, t.put issuer (w.mark seqDedupWindow seq) now)
    else some (t.recordLocked issuer (some w) seq now)

/-- `seen`, or nothing if the loop takes more turns. -/
def seen64 (turns : Nat) (t : SeqTracker) (c : SeqCall) : Option (Bool × SeqTracker) :=
  if c.issuer = [] then some (false, t)
  else
    let w := t.wins.lookup c.issuer
    let stale := w.isSome && t.expired c.issuer c.now
    ((if stale then t.delete c.issuer else t).recordLocked64 turns c.issuer (if stale then none else w)
      c.seq.toNat c.now).map fun r =>
        (r.1, if seqTrackers < r.2.wins.keys.length then r.2.pruneLocked c.walk c.now else r.2)

def call (t : SeqTracker) (c : SeqCall) : Bool × SeqTracker := t.seen c.issuer c.walk c.seq.toNat c.now

def after (t : SeqTracker) (c : SeqCall) : SeqTracker := (t.call c).2

/-- The issuer has a window that has not expired, and the loop that moves it up does not end. -/
def Endless (t : SeqTracker) (c : SeqCall) : Prop :=
  c.issuer ≠ [] ∧ t.expired c.issuer c.now = false ∧ ∃ w ∈ t.wins.lookup c.issuer, Stuck w c.seq.toNat

section

variable {t : SeqTracker} {c : SeqCall}

theorem recordLocked64_eq {issuer : Bytes} {v : Option Window} {seq : Nat} {now : Int}
    (hseq : seq < 2 ^ 64) (h : ∀ w ∈ v, ¬ Stuck w seq) {turns : Nat} (hturns : seqDedupWindow ≤ turns) :
    recordLocked64 turns t issuer v seq now = some (t.recordLocked issuer v seq now) := by
  unfold recordLocked64
  cases v with
  | none => rfl
  | some w =>
    dsimp only
    split_ifs with hlt
    · rw [slideTo64_eq hseq hlt (h w rfl) hturns, recordLocked]
      simp [if_pos hlt]
    · rfl

theorem seen64_eq (h : ¬ t.Endless c) {turns : Nat} (hturns : seqDedupWindow ≤ turns) :
    seen64 turns t c = some (t.call c) := by
  unfold seen64 call seen
  split_ifs with hissuer
  · rfl
  · dsimp only
    rw [recordLocked64_eq c.seq.toNat_lt _ hturns, map_some]
    intro w hw hstuck
    split_ifs at hw with hstale
    · cases hw
    · rw [hw, isSome_some, Bool.true_and, Bool.not_eq_true] at hstale
      exact h ⟨hissuer, hstale, w, hw, hstuck⟩

theorem seen64_endless (h : t.Endless c) (turns : Nat) : seen64 turns t c = none := by
  obtain ⟨hissuer, hfresh, w, hw, hstuck⟩ := h
  rw [mem_def] at hw
  simp [seen64, hissuer, hfresh, hw, recordLocked64, hstuck.2.1, slideTo64_stuck hstuck]

/-! ## The number of issuers -/

def SameKeys (t : SeqTracker) : Prop := ∀ i, i ∈ t.wins ↔ i ∈ t.lastSeen

theorem SameKeys.delete (h : t.SameKeys) (i : Bytes) : (t.delete i).SameKeys := fun j => by
  simp [SeqTracker.delete, mem_erase, h j]

theorem SameKeys.put (h : t.SameKeys) (i : Bytes) (w : Window) (now : Int) : (t.put i w now).SameKeys :=
  fun j => by simp [SeqTracker.put, mem_insert, h j]

theorem SameKeys.recordLocked (h : t.SameKeys) (i : Bytes) (v : Option Window) (seq : Nat) (now : Int) :
    (t.recordLocked i v seq now).2.SameKeys ∧
      (t.recordLocked i v seq now).2.wins.keys.length ≤ t.wins.keys.length + 1 := by
  have hput (w : Window) : (t.put i w now).SameKeys ∧
      (t.put i w now).wins.keys.length ≤ t.wins.keys.length + 1 := by
    refine ⟨h.put i w now, ?_⟩
    rw [SeqTracker.put, keys_insert, length_cons, ← keys_erase]
    exact succ_le_succ (length_keys_erase_le i t.wins)
  unfold SeqTracker.recordLocked
  cases v with
  | none => exact hput _
  | some w =>
    dsimp only
    split_ifs
    · exact hput _
    · exact ⟨h, le_succ _⟩
    · exact ⟨h, le_succ _⟩
    · exact hput _

theorem SameKeys.foldl_delete (h : t.SameKeys) (gone : List Bytes) :
    (gone.foldl SeqTracker.delete t).SameKeys ∧
      (gone.foldl SeqTracker.delete t).wins.keys.length ≤ t.wins.keys.length := by
  induction gone generalizing t with
  | nil => exact ⟨h, le_rfl⟩
  | cons i gone ih =>
    obtain ⟨hsame, hle⟩ := ih (h.delete i)
    exact ⟨hsame, hle.trans (length_keys_erase_le i t.wins)⟩

theorem exists_oldest {issuers : List Bytes} (hne : issuers ≠ []) :
    ∃ i ∈ issuers, t.oldest issuers = some i := by
  obtain ⟨i, rest, rfl⟩ := exists_cons_of_ne_nil hne
  refine ⟨_, foldlRecOn rest _ (.head _) fun old hold j hj => ?_, rfl⟩
  split_ifs
  · exact mem_cons_of_mem i hj
  · exact hold

theorem SameKeys.pruneLocked (h : t.SameKeys) (hne : t.wins.keys ≠ []) (walk : Walk) (now : Int) :
    (t.pruneLocked walk now).SameKeys ∧ (t.pruneLocked walk now).wins.keys.length < t.wins.keys.length := by
  have hmem (i : Bytes) : i ∈ walk.1 t.lastSeen.keys ↔ i ∈ t.wins := by
    rw [(walk.2 _).mem_iff, h i, AList.mem_keys]
  unfold SeqTracker.pruneLocked
  dsimp only
  cases hfilter : (walk.1 t.lastSeen.keys).filter (t.expired · now) with
  | nil =>
    obtain ⟨j, hj⟩ := exists_mem_of_ne_nil _ hne
    obtain ⟨i, hi, hold⟩ := exists_oldest (t := t) (ne_nil_of_mem ((hmem j).2 (mem_keys.2 hj)))
    rw [hold]
    exact ⟨h.delete i, length_keys_erase_lt ((hmem i).1 hi)⟩
  | cons i gone =>
    obtain ⟨hsame, hle⟩ := (h.delete i).foldl_delete gone
    have hi : i ∈ t.wins := (hmem i).1 (mem_of_mem_filter (hfilter ▸ mem_cons_self))
    exact ⟨hsame, hle.trans_lt (length_keys_erase_lt hi)⟩

def Bounded (t : SeqTracker) : Prop := t.SameKeys ∧ t.wins.keys.length ≤ seqTrackers

theorem Bounded.record (h : t.Bounded) (i : Bytes) (v : Option Window) (seq : Nat) (now : Int)
    (walk : Walk) :
    (if seqTrackers < (t.recordLocked i v seq now).2.wins.keys.length then
      (t.recordLocked i v seq now).2.pruneLocked walk now else (t.recordLocked i v seq now).2).Bounded := by
  obtain ⟨hsame, hle⟩ := h.1.recordLocked i v seq now
  have hlen := h.2
  split_ifs with hmany
  · obtain ⟨hsame, hlt⟩ := hsame.pruneLocked (length_pos_iff.1 (by omega)) walk now
    exact ⟨hsame, by omega⟩
  · exact ⟨hsame, by omega⟩

theorem Bounded.after (h : t.Bounded) (c : SeqCall) : (t.after c).Bounded := by
  unfold SeqTracker.after call seen
  split_ifs with hissuer
  · exact h
  · refine Bounded.record ?_ _ _ _ _ _
    split_ifs
    · exact ⟨h.1.delete _, (length_keys_erase_le _ _).trans h.2⟩
    · exact h

/-- A call returns unless it moves a window up to the greatest number slot by slot, and then it takes
4096 turns of the loop at most. After each call both maps have the same issuers, at most 256. -/
theorem calls_return_iff (calls : List SeqCall) :
    (Along after (fun t c => ∃ turns, t.seen64 turns c = some (t.call c)) ⟨∅, ∅⟩ calls ↔
      Along after (fun t c => ¬ t.Endless c) ⟨∅, ∅⟩ calls) ∧ Always after Bounded ⟨∅, ∅⟩ calls := by
  refine ⟨⟨fun h => h.mono ?_, fun h => h.mono ?_⟩,
    always_of_step (fun _ c ht => ht.after c) ⟨fun _ => Iff.rfl, by decide⟩ calls⟩
  · rintro t c ⟨turns, heq⟩ hendless
    rw [seen64_endless hendless] at heq
    cases heq
  · intro t c hends
    exact ⟨seqDedupWindow, seen64_eq hends (le_rfl)⟩

def exampleCall (seq : UInt64) : SeqCall := ⟨ascii "a", seq, 0, ⟨id, .refl⟩⟩

/-- The greatest number after the one before it, for every number of turns. -/
theorem greatest_number_hangs :
    (seen64 · (after ⟨∅, ∅⟩ (exampleCall 18446744073709551614)) (exampleCall 18446744073709551615)) =
      fun _ => none := by
  refine funext (seen64_endless ⟨by decide, by decide,
    Window.single seqDedupWindow 18446744073709551614, lookup_insert _, ?_⟩)
  exact ⟨by decide, by decide, by decide⟩

/-! ## Exactness -/

theorem recordLocked_exact {i : Bytes} {w : Window} {seen : Nat → Prop} (seq : Nat) (now : Int)
    (hw : w.Tracks seqDedupWindow seen) (hwin : t.wins = singleton i w) :
    ((t.recordLocked i (some w) seq now).1 = true ↔ seen seq ∨ ∃ n, seen n ∧ seq + seqDedupWindow ≤ n) ∧
      ∃ w', (t.recordLocked i (some w) seq now).2.wins = singleton i w' ∧
        w'.Tracks seqDedupWindow fun n => n = seq ∨ seen n := by
  have hold : (∃ n, seen n ∧ seq + seqDedupWindow ≤ n) ↔ seq + seqDedupWindow ≤ w.high :=
    ⟨fun ⟨n, hn, hle⟩ => hle.trans (hw.le_high n hn), fun hle => ⟨w.high, hw.high_seen, hle⟩⟩
  have hput (v : Window) : (t.put i v now).wins = singleton i v := by
    rw [put, hwin, insert_singleton_eq]
  rw [hold]
  unfold recordLocked
  dsimp only
  split_ifs with hhigh hfar hhas
  · refine ⟨iff_of_false (by decide) ?_, _, hput _, hw.slideTo hhigh (by decide)⟩
    rintro (hs | hle)
    · exact absurd (hw.le_high seq hs) (by omega)
    · omega
  · exact ⟨iff_of_true rfl (.inr (by omega)), w, hwin, hw.old (.inr (by omega))⟩
  · have hs := (hw.has_iff seq (by omega) (by omega)).1 hhas
    exact ⟨iff_of_true rfl (.inl hs), w, hwin, hw.old (.inl hs)⟩
  · refine ⟨iff_of_false (by decide) ?_, _, hput _, hw.mark (by omega) (by omega)⟩
    rintro (hs | hle)
    · exact hhas ((hw.has_iff seq (by omega) (by omega)).2 hs)
    · omega

/-- The tracker after calls for one issuer: its window tracks all their numbers. -/
def Exact (issuer : Bytes) (calls : List SeqCall) (t : SeqTracker) : Prop :=
  calls = [] ∧ t.wins = ∅ ∨ ∃ w, t.wins = singleton issuer w ∧
    w.Tracks seqDedupWindow fun n => ∃ d ∈ calls, d.seq.toNat = n

/-- The call finds nothing of the issuer, or something that has not expired. -/
def Unexpired (t : SeqTracker) (c : SeqCall) : Prop :=
  (t.wins.lookup c.issuer).isSome → t.expired c.issuer c.now = false

instance (t : SeqTracker) (c : SeqCall) : Decidable (t.Unexpired c) := inferInstanceAs (Decidable (_ → _))

theorem call_eq (hissuer : c.issuer ≠ []) (hfresh : t.Unexpired c) (hfew : (t.recordLocked c.issuer
      (t.wins.lookup c.issuer) c.seq.toNat c.now).2.wins.keys.length ≤ seqTrackers) :
    t.call c = t.recordLocked c.issuer (t.wins.lookup c.issuer) c.seq.toNat c.now := by
  have hstale : ((t.wins.lookup c.issuer).isSome && t.expired c.issuer c.now) = false := by
    cases hsome : (t.wins.lookup c.issuer).isSome with
    | false => rfl
    | true => rw [hfresh hsome, Bool.and_false]
  unfold call seen
  simp [if_neg hissuer, hstale, if_neg (not_lt.2 hfew)]

theorem Exact.call {calls : List SeqCall} (h : t.Exact c.issuer calls) (hissuer : c.issuer ≠ [])
    (hfresh : t.Unexpired c) :
    ((t.call c).1 = true ↔ ∃ d ∈ calls, d.seq = c.seq ∨ c.seq.toNat + seqDedupWindow ≤ d.seq.toNat) ∧
      (t.after c).Exact c.issuer (calls ++ [c]) := by
  rcases h with ⟨rfl, hwins⟩ | ⟨w, hwins, hw⟩
  · have hput : (t.put c.issuer (Window.single seqDedupWindow c.seq.toNat) c.now).wins =
        singleton c.issuer (Window.single seqDedupWindow c.seq.toNat) := by
      rw [put, hwins, insert_empty]
    have hnone : t.wins.lookup c.issuer = none := by rw [hwins, lookup_empty]
    rw [after, call_eq hissuer hfresh (by rw [hnone, recordLocked, hput]; exact le_add_left 1 255),
      hnone, recordLocked]
    refine ⟨by simp, .inr ⟨_, hput, ?_⟩⟩
    simpa [eq_comm] using Window.tracks_single c.seq.toNat
  · obtain ⟨hdup, w', hwins', hw'⟩ := recordLocked_exact c.seq.toNat c.now hw hwins
    have hsome : t.wins.lookup c.issuer = some w := by
      rw [hwins, ← insert_empty, lookup_insert]
    rw [after, call_eq hissuer hfresh (by rw [hsome, hwins']; exact le_add_left 1 255), hsome, hdup]
    refine ⟨⟨?_, ?_⟩, .inr ⟨w', hwins', ?_⟩⟩
    · rintro (⟨d, hd, heq⟩ | ⟨n, ⟨d, hd, rfl⟩, hle⟩)
      · exact ⟨d, hd, .inl (UInt64.toNat_inj.1 heq)⟩
      · exact ⟨d, hd, .inr hle⟩
    · rintro ⟨d, hd, heq | hle⟩
      · exact .inl ⟨d, hd, congrArg _ heq⟩
      · exact .inr ⟨_, ⟨d, hd, rfl⟩, hle⟩
    · simpa [eq_comm, or_comm] using hw'

theorem exact_run {issuer : Bytes} (hissuer : issuer ≠ []) {calls : List SeqCall}
    (hcalls : ∀ d ∈ calls, d.issuer = issuer)
    (hfresh : Along after Unexpired ⟨∅, ∅⟩ calls) :
    (run after ⟨∅, ∅⟩ calls).Exact issuer calls := by
  induction calls using reverseRecOn with
  | nil => exact .inl ⟨rfl, rfl⟩
  | append_singleton calls d ih =>
    obtain ⟨hcalls, hd⟩ := forall_mem_append.1 hcalls
    obtain ⟨hfresh, hlast, -⟩ := along_append.1 hfresh
    obtain rfl := hd d (.head _)
    rw [run_append]
    exact ((ih hcalls hfresh).call hissuer hlast).2

/-- Of calls for one issuer with numbers below `2 ^ 63`, and none that finds its state expired, each
returns, and says `true` just for a number that was passed before or is 4096 below one that was. -/
theorem window_exact {issuer : Bytes} (hissuer : issuer ≠ []) {calls : List SeqCall} {c : SeqCall}
    (hcalls : ∀ d ∈ calls ++ [c], d.issuer = issuer ∧ d.seq.toNat < 2 ^ 63)
    (hfresh : Along after Unexpired ⟨∅, ∅⟩ (calls ++ [c])) :
    (seen64 seqDedupWindow (run after ⟨∅, ∅⟩ calls) c).map Prod.fst = some
      (decide (∃ d ∈ calls, d.seq = c.seq ∨ c.seq.toNat + seqDedupWindow ≤ d.seq.toNat)) := by
  obtain ⟨hbefore, hc⟩ := forall_mem_append.1 hcalls
  obtain ⟨rfl, hlow⟩ := hc c (.head _)
  obtain ⟨hfresh, hlast, -⟩ := along_append.1 hfresh
  have hexact := (exact_run hissuer (fun d hd => (hbefore d hd).1) hfresh).call hissuer hlast
  rw [seen64_eq (fun ⟨_, _, w, _, hmax, _⟩ => by omega) (le_rfl), map_some,
    Bool.eq_iff_iff.2 (hexact.1.trans decide_eq_true_iff.symm)]

/-- The second of two equal numbers, below another. -/
theorem window_exact_duplicate :
    (seen64 seqDedupWindow (run after ⟨∅, ∅⟩ [exampleCall 7, exampleCall 5]) (exampleCall 5)).map Prod.fst =
      some true :=
  (@window_exact (ascii "a") (by decide) _ _ (by decide) (by decide)).trans (by decide)

end

end SeqTracker

end Bouine.Cluster
