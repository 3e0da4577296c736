-- Runs of a system that takes one step after another, and what all their steps have in common.
import Mathlib

namespace Runs

variable {σ α : Type} (step : σ → α → σ)

/-- Each step of the run is taken as `ok` says. -/
def Along (ok : σ → α → Prop) : σ → List α → Prop
  | _, [] => True
  | s, a :: as => ok s a ∧ Along ok (step s a) as

instance (ok : σ → α → Prop) [∀ s a, Decidable (ok s a)] :
    (s : σ) → (as : List α) → Decidable (Along step ok s as)
  | _, [] => .isTrue trivial
  | s, a :: as =>
    haveI := instDecidableAlong ok (step s a) as
    inferInstanceAs (Decidable (_ ∧ _))

variable {step} {ok good : σ → α → Prop} {I : σ → Prop} {s : σ} {as : List α}

theorem keeps (hstep : ∀ s a, I s → I (step s a)) (hs : I s) (as : List α) :
    I (as.foldl step s) := by
  induction as generalizing s with
  | nil => exact hs
  | cons a as ih => exact ih (hstep s a hs)

theorem along (hstep : ∀ s a, I s → ok s a → I (step s a) ∧ good s a) (hs : I s)
    (h : Along step ok s as) : Along step good s as := by
  induction as generalizing s with
  | nil => trivial
  | cons a as ih =>
    obtain ⟨hnext, hgood⟩ := hstep s a hs h.1
    exact ⟨hgood, ih hnext h.2⟩

theorem along_iff (hiff : ∀ s a, I s → (good s a ↔ ok s a))
    (hstep : ∀ s a, I s → ok s a → I (step s a)) (hs : I s) :
    Along step good s as ↔ Along step ok s as := by
  induction as generalizing s with
  | nil => rfl
  | cons a as ih =>
    rw [Along, Along, hiff s a hs]
    exact and_congr_right fun hok => ih (hstep s a hs hok)

end Runs
