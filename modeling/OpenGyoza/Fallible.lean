-- Programs that change a state and may fail. What was changed stays changed
-- when a program fails, and a caller may go on after the error.
import Mathlib.Order.Defs.Unbundled
import Mathlib.Tactic.Common

/-- A program on states `σ` that gives a value or an error. -/
def Fallible (ε σ α : Type) : Type := σ → Except ε α × σ

namespace Fallible

variable {ε σ α β : Type} {m : Fallible ε σ α} {k : β → Fallible ε σ α}

instance : Monad (Fallible ε σ) where
  pure a := fun s => (.ok a, s)
  bind m k := fun s =>
    match m s with
    | (.ok a, s') => k a s'
    | (.error e, s') => (.error e, s')

def fail (e : ε) : Fallible ε σ α := fun s => (.error e, s)

def read (f : σ → α) : Fallible ε σ α := fun s => (.ok (f s), s)

def update (f : σ → σ) : Fallible ε σ Unit := fun s => (.ok (), f s)

/-- Runs a program and hands its error on as a value. -/
def attempt (m : Fallible ε σ α) : Fallible ε σ (Except ε α) := fun s => (.ok (m s).1, (m s).2)

/-! ## What holds afterwards -/

/-- `Q` holds of the result of `m` and of the state after it, when it starts in `s`. -/
def wp (m : Fallible ε σ α) (Q : Except ε α → σ → Prop) (s : σ) : Prop := Q (m s).1 (m s).2

/-- What the first half of a sequence has to give: a value from which `k` goes on, or an error,
which ends the sequence. -/
def andThen (k : α → σ → Prop) (Q : Except ε β → σ → Prop) : Except ε α → σ → Prop
  | .ok a, s => k a s
  | .error e, s => Q (.error e) s

@[simp] theorem andThen_ok (k : α → σ → Prop) (Q : Except ε β → σ → Prop) (a : α) (s : σ) :
    andThen k Q (.ok a) s ↔ k a s := Iff.rfl

variable {Q : Except ε α → σ → Prop} {s : σ}

theorem bind_of_ok {k : α → Fallible ε σ β} {a : α} {s' : σ} (h : m s = (.ok a, s')) :
    (m >>= k) s = k a s' := by
  simp [Bind.bind, h]

theorem bind_of_error {k : α → Fallible ε σ β} {e : ε} {s' : σ} (h : m s = (.error e, s')) :
    (m >>= k) s = (.error e, s') := by
  simp [Bind.bind, h]

theorem wp_mono {P : Except ε α → σ → Prop} (h : wp m P s) (hPQ : ∀ r s', P r s' → Q r s') :
    wp m Q s := hPQ _ _ h

theorem wp_congr {m' : Fallible ε σ α} {s' : σ} (h : m s = m' s') : wp m Q s ↔ wp m' Q s' := by
  unfold wp
  rw [h]

@[simp] theorem wp_pure (a : α) : wp (pure a) Q s ↔ Q (.ok a) s := Iff.rfl

@[simp] theorem wp_read (f : σ → α) : wp (read f) Q s ↔ Q (.ok (f s)) s := Iff.rfl

@[simp] theorem wp_bind (m : Fallible ε σ β) (k : β → Fallible ε σ α) :
    wp (m >>= k) Q s ↔ wp m (andThen (fun b => wp (k b) Q) Q) s := by
  change Q ((m >>= k) s).1 ((m >>= k) s).2 ↔ andThen _ Q (m s).1 (m s).2
  simp only [bind]
  rcases m s with ⟨_ | _, _⟩ <;> rfl

@[simp] theorem wp_attempt (m : Fallible ε σ α) {Q : Except ε (Except ε α) → σ → Prop} :
    wp (attempt m) Q s ↔ wp m (fun r s' => Q (.ok r) s') s := Iff.rfl

theorem wp_seq {m : Fallible ε σ β} {P : Except ε β → σ → Prop} (h : wp m P s)
    (hok : ∀ b s', P (.ok b) s' → wp (k b) Q s')
    (herror : ∀ e s', P (.error e) s' → Q (.error e) s') : wp (m >>= k) Q s := by
  rw [wp_bind]
  refine wp_mono h fun r s' hr => ?_
  cases r with
  | error e => exact herror e s' hr
  | ok b => exact hok b s' hr

theorem wp_then {m : Fallible ε σ β} {P : β → σ → Prop}
    (h : wp m (fun r s' => ∃ b, r = .ok b ∧ P b s') s) (hok : ∀ b s', P b s' → wp (k b) Q s') :
    wp (m >>= k) Q s := by
  refine wp_seq h ?_ ?_
  · rintro b s' ⟨b', hb, hP⟩
    obtain rfl := Except.ok.inj hb
    exact hok b s' hP
  · rintro e s' ⟨b, hb, -⟩
    cases hb

/-! ## What happens to the state -/

/-- However the program ends, the state after it is related to the one before. -/
def Moves (R : σ → σ → Prop) (m : Fallible ε σ α) : Prop := ∀ s, R s (m s).2

section Moves

variable {R : σ → σ → Prop}

theorem Moves.pure [Std.Refl R] (a : α) : Moves R (pure a : Fallible ε σ α) := fun s => refl_of R s

theorem Moves.fail [Std.Refl R] (e : ε) : Moves R (fail e : Fallible ε σ α) := fun s => refl_of R s

theorem Moves.read [Std.Refl R] (f : σ → α) : Moves R (read f : Fallible ε σ α) :=
  fun s => refl_of R s

theorem Moves.bind [IsTrans σ R] {m : Fallible ε σ β} (hm : Moves R m) (hk : ∀ b, Moves R (k b)) :
    Moves R (m >>= k) := by
  intro s
  have hs := hm s
  rcases hrun : m s with ⟨e | b, s'⟩
  · rw [bind_of_error hrun]
    rw [hrun] at hs
    exact hs
  · rw [bind_of_ok hrun]
    rw [hrun] at hs
    exact trans_of R hs (hk b s')

theorem Moves.attempt (hm : Moves R m) : Moves R (attempt m) := fun s => hm s

theorem Moves.ite {c : Prop} [Decidable c] {m' : Fallible ε σ α} (hm : Moves R m)
    (hm' : Moves R m') : Moves R (if c then m else m') := by
  split
  · exact hm
  · exact hm'

end Moves

end Fallible
