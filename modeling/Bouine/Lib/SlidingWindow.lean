import Mathlib.Data.List.Range

/-! # A bitmap over a sliding window of numbers

The last `size` numbers up to the highest have a bit each, in a ring of `size` slots. Moving the
window up clears the slots of the numbers that come in.
-/

namespace Bouine.Lib

structure Window where
  high : Nat
  bits : Nat → Bool

namespace Window

section

variable (size : Nat) (w : Window) (n : Nat)

def has : Bool := w.bits (n % size)

def mark : Window := { w with bits := Function.update w.bits (n % size) true }

def unmark : Window := { w with bits := Function.update w.bits (n % size) false }

def single : Window := mark size ⟨n, fun _ => false⟩ n

/-- Moves the window up to `n`. -/
def slideTo : Window :=
  if size ≤ n - w.high then ⟨n, fun _ => false⟩
  else { (List.range' (w.high + 1) (n - w.high)).foldl (unmark size) w with high := n }

end

variable {size : Nat} {w : Window}

@[simp] theorem mark_high (n : Nat) : (w.mark size n).high = w.high := rfl

theorem has_mark (n m : Nat) :
    (w.mark size n).has size m ↔ m % size = n % size ∨ w.has size m = true := by
  unfold has mark
  by_cases h : m % size = n % size
  · simp [h]
  · simp [h]

theorem has_foldl_unmark (ns : List Nat) (m : Nat) :
    (ns.foldl (unmark size) w).has size m ↔
      w.has size m ∧ ∀ n ∈ ns, m % size ≠ n % size := by
  induction ns generalizing w with
  | nil => simp
  | cons n ns ih =>
    have hunmark : (w.unmark size n).has size m ↔
        w.has size m ∧ m % size ≠ n % size := by
      unfold has unmark
      by_cases h : m % size = n % size
      · simp [h]
      · simp [h]
    rw [List.foldl_cons, ih, hunmark, List.forall_mem_cons, and_assoc]

@[simp] theorem slideTo_high (n : Nat) : (w.slideTo size n).high = n := by
  unfold slideTo
  split_ifs <;> rfl

/-- Two numbers less than `size` apart share a slot only if they are equal. -/
theorem eq_of_mod_eq {a b : Nat} (h : a % size = b % size) (hab : a < b + size) (hba : b < a + size) :
    a = b := by
  have hzero : ∀ {x y : Nat}, x % size = y % size → x < y + size → x - y = 0 := by
    intro x y hxy hlt
    have hdvd := Nat.dvd_of_mod_eq_zero (Nat.sub_mod_eq_zero_of_mod_eq hxy)
    exact Nat.eq_zero_of_dvd_of_lt hdvd (by omega)
  have hle := hzero h hab
  have hge := hzero h.symm hba
  omega

/-- The window knows of every number within it whether it has been seen. -/
structure Tracks (size : Nat) (w : Window) (seen : Nat → Prop) : Prop where
  high_seen : seen w.high
  le_high : ∀ n, seen n → n ≤ w.high
  has_iff : ∀ n, n ≤ w.high → w.high < n + size → (w.has size n = true ↔ seen n)

theorem tracks_single (n : Nat) : Tracks size (single size n) (· = n) := by
  refine ⟨rfl, fun m hm => le_of_eq hm, fun m hle hlt => ?_⟩
  have hle : m ≤ n := hle
  rw [single, has_mark]
  constructor
  · rintro (h | h)
    · exact eq_of_mod_eq h (by omega) hlt
    · cases h
  · intro h
    exact .inl (by rw [h])

variable {seen : Nat → Prop}

theorem Tracks.mark (h : Tracks size w seen) {n : Nat} (hle : n ≤ w.high)
    (hlt : w.high < n + size) : Tracks size (w.mark size n) fun m => m = n ∨ seen m := by
  refine ⟨.inr h.high_seen, fun m hm => ?_, fun m hmle hmlt => ?_⟩
  · rcases hm with rfl | hm
    · exact hle
    · exact h.le_high m hm
  · rw [mark_high] at hmle hmlt
    rw [has_mark, h.has_iff m hmle hmlt]
    refine or_congr_left ⟨fun hmod => eq_of_mod_eq hmod (by omega) (by omega), fun hm => by rw [hm]⟩

/-- A number that is too old, or seen before, may be counted as seen. -/
theorem Tracks.old (h : Tracks size w seen) {n : Nat}
    (hn : seen n ∨ n + size ≤ w.high) : Tracks size w fun m => m = n ∨ seen m := by
  refine ⟨.inr h.high_seen, fun m hm => ?_, fun m hle hlt => ?_⟩
  · rcases hm with rfl | hm
    · exact hn.elim (h.le_high m) (by omega)
    · exact h.le_high m hm
  · rw [h.has_iff m hle hlt]
    refine ⟨.inr, fun hm => hm.elim ?_ id⟩
    rintro rfl
    exact hn.resolve_right (by omega)

theorem Tracks.slideTo (h : Tracks size w seen) {n : Nat} (hlt : w.high < n)
    (hsize : 0 < size) : Tracks size ((w.slideTo size n).mark size n) fun m => m = n ∨ seen m := by
  refine ⟨.inl (slideTo_high n), fun m hm => ?_, fun m hmle hmlt => ?_⟩
  · rw [mark_high, slideTo_high]
    rcases hm with rfl | hm
    · exact le_rfl
    · exact (h.le_high m hm).trans hlt.le
  · rw [mark_high, slideTo_high] at hmle hmlt
    rw [has_mark]
    have hself : m % size = n % size ↔ m = n :=
      ⟨fun hmod => eq_of_mod_eq hmod (by omega) hmlt, fun hm => by rw [hm]⟩
    rw [hself]
    refine or_congr_right ?_
    unfold Window.slideTo
    split_ifs with hfar
    · -- the window moves past everything that was seen
      refine iff_of_false (by simp [has]) fun hm => ?_
      have := h.le_high m hm
      omega
    · show (List.foldl (unmark size) w (List.range' (w.high + 1) (n - w.high))).has size m = true ↔ _
      rw [has_foldl_unmark]
      by_cases hnew : w.high < m
      · refine iff_of_false (fun hm => hm.2 m ?_ rfl) fun hm => ?_
        · exact List.mem_range'_1.2 (by omega)
        · have := h.le_high m hm
          omega
      · rw [← h.has_iff m (by omega) (by omega)]
        refine and_iff_left fun k hk hmod => ?_
        have hk := List.mem_range'_1.1 hk
        have := eq_of_mod_eq hmod (by omega) (by omega)
        omega

end Window

end Bouine.Lib
