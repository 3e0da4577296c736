-- Two runs side by side. Steps that start in related states go the same
-- way when they give the same value and related states again, or fail with
-- the same fault. A run beside itself is a run that keeps an invariant.
import OpenGyoza.Txn

namespace Memdb.Txn

open Txn

variable {σ τ α β : Type} {context : String → String}

/-- The same value, of which `P` holds, in related states, or the same fault, of which `E`
holds. -/
inductive Together (R : σ → τ → Prop) (E : Fault → Prop) (P : α → Prop) :
    Except Fault α × σ → Except Fault α × τ → Prop
  | ok {a : α} {s : σ} {t : τ} (ha : P a) (h : R s t) : Together R E P (.ok a, s) (.ok a, t)
  | fault {e : Fault} {s : σ} {t : τ} (he : E e) : Together R E P (.error e, s) (.error e, t)

variable {R R' : σ → τ → Prop} {E : Fault → Prop} {P : α → Prop} {Q : β → Prop}
  {m : Txn σ α} {m' : Txn τ α}

theorem Together.weaken {x : Except Fault α × σ} {y : Except Fault α × τ}
    (h : Together R' E P x y) (hback : ∀ s t, R' s t → R s t) : Together R E P x y := by
  cases h with
  | ok ha hR => exact .ok ha (hback _ _ hR)
  | fault he => exact .fault he

def Lockstep (R : σ → τ → Prop) (E : Fault → Prop) (m : Txn σ α) (m' : Txn τ α)
    (P : α → Prop) : Prop :=
  ∀ s t, R s t → Together R E P (m s) (m' t)

/-- A run beside itself. -/
abbrev Keeps (R : σ → σ → Prop) (E : Fault → Prop) (m : Txn σ α) (P : α → Prop) : Prop :=
  Lockstep R E m m P

theorem Together.bind {k : α → Txn σ β} {k' : α → Txn τ β} {s : σ} {t : τ}
    (h : Together R E P (m s) (m' t)) (hk : ∀ a, P a → Lockstep R E (k a) (k' a) Q) :
    Together R E Q ((m >>= k) s) ((m' >>= k') t) := by
  simp only [Bind.bind]
  generalize m s = x at h ⊢
  generalize m' t = y at h ⊢
  cases h with
  | ok ha hR => exact hk _ ha _ _ hR
  | fault he => exact .fault he

theorem Together.wrap {s : σ} {t : τ} (h : Together R E P (m s) (m' t))
    (hE : ∀ text, E (.error text) → E (.error (context text))) :
    Together R E P (wrap context m s) (wrap context m' t) := by
  unfold Txn.wrap
  generalize m s = x at h ⊢
  generalize m' t = y at h ⊢
  cases h with
  | ok ha hR => exact .ok ha hR
  | @fault e s t he =>
    cases e with
    | error text => exact .fault (hE text he)
    | panic text => exact .fault he

namespace Lockstep

theorem pure {a : α} (ha : P a) : Lockstep R E (Pure.pure a : Txn σ α) (Pure.pure a : Txn τ α) P :=
  fun _ _ hst => .ok ha hst

theorem fail {text : String} (he : E (.error text)) :
    Lockstep R E (fail text : Txn σ α) (fail text : Txn τ α) P :=
  fun _ _ _ => .fault he

theorem crash {text : String} (he : E (.panic text)) :
    Lockstep R E (crash text : Txn σ α) (crash text : Txn τ α) P :=
  fun _ _ _ => .fault he

theorem read {f : σ → α} {g : τ → α} (h : ∀ s t, R s t → g t = f s ∧ P (f s)) :
    Lockstep R E (read f) (read g) P := by
  intro s t hst
  obtain ⟨hfg, hP⟩ := h s t hst
  show Together R E P (.ok (f s), s) (.ok (g t), t)
  rw [hfg]
  exact .ok hP hst

theorem modify {f : σ → σ} {g : τ → τ} (h : ∀ s t, R s t → R (f s) (g t)) :
    Lockstep R E (modify f) (modify g) fun _ => True :=
  fun s t hst => .ok trivial (h s t hst)

theorem bind {k : α → Txn σ β} {k' : α → Txn τ β} (hm : Lockstep R E m m' P)
    (hk : ∀ a, P a → Lockstep R E (k a) (k' a) Q) : Lockstep R E (m >>= k) (m' >>= k') Q :=
  fun s t hst => (hm s t hst).bind hk

theorem wrap (h : Lockstep R E m m' P) (hE : ∀ text, E (.error text) → E (.error (context text))) :
    Lockstep R E (wrap context m) (wrap context m') P :=
  fun s t hst => (h s t hst).wrap hE

theorem next {n : Txn σ β} {n' : Txn τ β} (hm : Lockstep R E m m' P)
    (hn : Lockstep R E n n' Q) : Lockstep R E (m >>= fun _ => n) (m' >>= fun _ => n') Q :=
  hm.bind fun _ _ => hn

theorem ite {c : Prop} [Decidable c] {n : Txn σ α} {n' : Txn τ α}
    (hm : c → Lockstep R E m m' P) (hn : ¬c → Lockstep R E n n' P) :
    Lockstep R E (if c then m else n) (if c then m' else n') P := by
  split
  · exact hm ‹_›
  · exact hn ‹_›

theorem forEach {l : List β} {f : β → Txn σ Unit} {g : β → Txn τ Unit}
    (h : ∀ b ∈ l, Lockstep R E (f b) (g b) fun _ => True) :
    Lockstep R E (forEach l f) (forEach l g) fun _ => True := by
  induction l with
  | nil => exact .pure trivial
  | cons b l ih =>
    exact (h b List.mem_cons_self).next (ih fun c hc => h c (List.mem_cons_of_mem _ hc))

theorem frame {I : σ → Prop} (h : Lockstep R E m m' P) (hI : ∀ s, I s → I (m s).2) :
    Lockstep (fun s t => R s t ∧ I s) E m m' P := by
  intro s t hst
  have hrun := h s t hst.1
  have hkept := hI s hst.2
  generalize m s = x at hrun hkept ⊢
  generalize m' t = y at hrun ⊢
  cases hrun with
  | ok ha hR => exact .ok ha ⟨hR, hkept⟩
  | fault he => exact .fault he

end Lockstep

end Memdb.Txn
