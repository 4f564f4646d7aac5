import Bouine.Cache.Engine

/-! # Soft purges

`Handler.SoftPurge` (`internal/cache/handler.go`), on the objects stored under a key and its variants.
An object with a stale window is put back as if it had been stored a second ago with no lifetime, so
its windows begin again at the purge, whether they were over or not.
-/

namespace Bouine.Cache

open Header

/-- What is stored in the place of an object after a purge at `now`. -/
def Stored.softPurged (o : Stored) (now : Int) : Option Stored :=
  if o.staleWhileRevalidate = 0 ∧ o.staleIfError = 0 then none
  else some { o with storedAt := now - second, ttl := 0 }

/-- The engine takes the object for an answer on its own account. -/
def Stored.Servable (o : Stored) (now : Int) : Prop := o.fresh now ∨ o.staleForSWR now

instance (o : Stored) (now : Int) : Decidable (o.Servable now) := inferInstanceAs (Decidable (_ ∨ _))

variable {o o' : Stored} {p now : Int}

theorem fresh_softPurged (h : o.softPurged p = some o') (hnow : p ≤ now) : o'.fresh now = false := by
  unfold Stored.softPurged at h
  split_ifs at h
  cases h
  simp only [Stored.fresh, second]
  simp
  omega

theorem staleForSWR_softPurged (h : o.softPurged p = some o') (hnow : p ≤ now) :
    o'.staleForSWR now ↔ o.staleWhileRevalidate ≠ 0 ∧ now < p - second + o.staleWhileRevalidate := by
  have hfresh := fresh_softPurged h hnow
  unfold Stored.softPurged at h
  split_ifs at h
  cases h
  simp [Stored.staleForSWR, hfresh]

/-- A purged object is never fresh and its window is over in time, but an object that was out of its
window stays out of it if and only if the window is no longer than the second it is put back by. -/
theorem soft_purge_only_ages_iff (o : Stored) (p : Int) :
    (∀ o' ∈ o.softPurged p, ∀ now, p ≤ now →
      o'.fresh now = false ∧ (o'.staleForSWR now → now < p + o.staleWhileRevalidate)) ∧
    ((¬ o.Servable p → ∀ o' ∈ o.softPurged p, ∀ now, p ≤ now → ¬ o'.Servable now) ↔
      o.Servable p ∨ o.staleWhileRevalidate ≤ second) := by
  refine ⟨fun o' ho' now hnow => ⟨fresh_softPurged ho' hnow, fun hswr => ?_⟩, ?_⟩
  · have := ((staleForSWR_softPurged ho' hnow).1 hswr).2
    simp only [second] at this
    omega
  constructor
  · intro h
    by_contra hnot
    push Not at hnot
    obtain ⟨hserv, hlong⟩ := hnot
    have hne : o.staleWhileRevalidate ≠ 0 := by
      simp only [second] at hlong
      omega
    have hput : o.softPurged p = some { o with storedAt := p - second, ttl := 0 } := by
      rw [Stored.softPurged, if_neg (fun hz => hne hz.1)]
    refine h hserv _ hput p le_rfl (.inr ((staleForSWR_softPurged hput le_rfl).2 ⟨hne, ?_⟩))
    omega
  · rintro (hserv | hshort) hnot o' ho' now hnow hserv'
    · exact hnot hserv
    · rcases hserv' with hfresh | hswr
      · simp [fresh_softPurged ho' hnow] at hfresh
      · have := ((staleForSWR_softPurged ho' hnow).1 hswr).2
        omega

/-- Out of its window for more than two minutes, then purged and served stale. -/
theorem purge_brings_window_back :
    let o := { testObject [] (60 * second) 0 false with staleWhileRevalidate := 10 * second }
    ¬ o.Servable (200 * second) ∧
      (evaluate (some o) {} (respGateFromObject (some o)) (200 * second)).decision = .miss ∧
      ∃ o', o.softPurged (200 * second) = some o' ∧ o'.Servable (201 * second) ∧
        (evaluate (some o') {} (respGateFromObject (some o')) (201 * second)).decision = .staleHit := by
  refine ⟨?_, ?_, _, rfl, ?_, ?_⟩
  · decide
  · decide
  · decide
  · decide

end Bouine.Cache
