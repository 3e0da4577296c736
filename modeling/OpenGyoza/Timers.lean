-- Callbacks on timers: a state under a clock that never goes back, and the
-- functions that were started on it and have not run yet.
import Mathlib.Logic.Relation
import Mathlib.Data.List.Basic

namespace Timers

/-- A state under a clock. `timers` are the callbacks that have not run, each with the time at
which it is due. -/
structure Clocked (σ τ : Type) where
  clock : Int
  timers : List (Int × τ) := []
  state : σ

namespace Clocked

variable {σ τ : Type} {w : Clocked σ τ}

/-- The callback is due after the delay, and at once if the delay is not positive. -/
def afterFunc (delay : Int) (callback : τ) (w : Clocked σ τ) : Clocked σ τ :=
  { w with timers := (w.clock + max 0 delay, callback) :: w.timers }

def update (f : σ → σ) (w : Clocked σ τ) : Clocked σ τ := { w with state := f w.state }

variable [DecidableEq τ]

/-- The callback runs, and the timer is gone. -/
def run (effect : τ → σ → σ) (timer : Int × τ) (w : Clocked σ τ) : Clocked σ τ :=
  { w with timers := w.timers.erase timer, state := effect timer.2 w.state }

theorem mem_of_mem_run {effect : τ → σ → σ} {timer other : Int × τ}
    (h : other ∈ (w.run effect timer).timers) : other ∈ w.timers := List.mem_of_mem_erase h

theorem mem_run_of_ne {effect : τ → σ → σ} {timer other : Int × τ} (h : other ∈ w.timers)
    (hne : other.2 ≠ timer.2) : other ∈ (w.run effect timer).timers :=
  (List.mem_erase_of_ne fun heq => hne (congrArg Prod.snd heq)).mpr h

inductive Step (effect : τ → σ → σ) (limit : σ → Int → Prop)
    (calls : Clocked σ τ → Clocked σ τ → Prop) : Clocked σ τ → Clocked σ τ → Prop
  | wait {w : Clocked σ τ} {t : Int} : w.clock ≤ t → limit w.state t →
      Step effect limit calls w { w with clock := t }
  | fire {w : Clocked σ τ} {timer : Int × τ} : timer ∈ w.timers → timer.1 ≤ w.clock →
      Step effect limit calls w (w.run effect timer)
  | call {w w' : Clocked σ τ} : calls w w' → Step effect limit calls w w'

variable {effect : τ → σ → σ} {limit : σ → Int → Prop} {calls : Clocked σ τ → Clocked σ τ → Prop}

theorem run_induction {motive : Clocked σ τ → Prop} {w' : Clocked σ τ}
    (h : Relation.ReflTransGen (Step effect limit calls) w w') (start : motive w)
    (wait : ∀ w t, motive w → w.clock ≤ t → limit w.state t → motive { w with clock := t })
    (fire : ∀ w timer, motive w → timer ∈ w.timers → timer.1 ≤ w.clock →
      motive (w.run effect timer)) (call : ∀ w w', motive w → calls w w' → motive w') :
    motive w' := by
  induction h with
  | refl => exact start
  | tail _ hstep ih =>
    cases hstep with
    | wait hle hlimit => exact wait _ _ ih hle hlimit
    | fire hmem hdue => exact fire _ _ ih hmem hdue
    | call hcall => exact call _ _ ih hcall

end Clocked

end Timers
