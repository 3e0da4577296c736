-- Which rows of the catalog a token may write, and when a change of the catalog
-- keeps to them.
import OpenGyoza.AclResolver
import OpenGyoza.CatalogEndpoint
import OpenGyoza.CatalogRows

namespace OpenGyoza

open Memdb Table

/-! ## Steps that only check -/

variable {α : Type}

theorem forM_eq_ok {f : α → Except String Unit} {l : List α} :
    l.forM f = .ok () ↔ ∀ a ∈ l, f a = .ok () := by
  induction l with
  | nil => simp [pure, Except.pure]
  | cons a l ih =>
    cases h : f a with
    | error e => simp [h, bind, Except.bind]
    | ok _ => simpa [h, bind, Except.bind] using ih

theorem except_then_ok {β : Type} {m : Except String Unit} {k : Except String β} {b : β} :
    (m >>= fun _ => k) = .ok b ↔ m = .ok () ∧ k = .ok b := by
  rw [except_bind_ok]
  exact ⟨fun ⟨_, hm, hk⟩ => ⟨hm, hk⟩, fun ⟨hm, hk⟩ => ⟨(), hm, hk⟩⟩

theorem ite_error_ok {c : Prop} [Decidable c] {text : String} {m : Except String α} {a : α} :
    (if c then .error text else m) = .ok a ↔ ¬ c ∧ m = .ok a := by
  by_cases h : c
  · simp [h]
  · simp [h]

theorem mapM_some_ok {β : Type} {f : α → Except String β} {a : α} {o : Option β} :
    (some a).mapM f = .ok o ↔ ∃ b, f a = .ok b ∧ o = some b := by
  change (f a).map some = .ok o ↔ _
  cases f a with
  | error e => simp [Except.map]
  | ok b => simp [Except.map, eq_comm]

theorem mapM_none_ok {β : Type} {f : α → Except String β} {o : Option β} :
    (none : Option α).mapM f = .ok o ↔ o = none := by
  change Except.ok none = .ok o ↔ _
  simp [eq_comm]

/-! ## Permissions -/

variable [External]

def MayWriteNode (rule : Authorizer) (n : Node) : Prop := rule.nodeWrite (bytesOf n.node) = true

def MayWriteService (rule : Authorizer) (svc : ServiceNode) : Prop :=
  rule.serviceWrite (bytesOf svc.serviceName) = true

def MayWriteCheck (rule : Authorizer) (owner : HealthCheck → String) (c : HealthCheck) : Prop :=
  if c.serviceID = "" then rule.nodeWrite (bytesOf c.node) = true
  else rule.serviceWrite (bytesOf (owner c)) = true

/-- A row that changes may be written as it was and as it is. -/
def Allowed {α : Type} (mayOld mayNew : α → Prop) (old new : Option α) : Prop :=
  old ≠ new → (∀ a, old = some a → mayOld a) ∧ ∀ a, new = some a → mayNew a

section Allowed

variable {κ ν : Type} [LinearOrder κ] {key : ν → Except String κ} {t t' : Table key} {k : κ}
  {may : ν → Prop}

omit [External]

theorem allowed_puts {p : ν → Prop} (h : Puts k p t t') (hp : ∀ v, p v → may v) :
    (∀ j, Allowed may may (t.first j) (t'.first j)) ↔ ∀ old, t.first k = some old → may old := by
  obtain ⟨v, hv, hrow⟩ := h.written
  constructor
  · intro hall old hold
    by_cases heq : old = v
    · rw [heq]
      exact hp v hv
    · refine (hall k ?_).1 old hold
      rw [hold, hrow]
      simpa using heq
  · intro hold j hne
    by_cases hj : j = k
    · subst hj
      refine ⟨hold, fun new hnew => ?_⟩
      rw [hrow] at hnew
      cases hnew
      exact hp v hv
    · exact absurd (h.others j hj).symm hne

/-- A row is in one table, and the other has none under its key. -/
def Lost (t t' : Table key) (v : ν) : Prop := ∃ k, t.first k = some v ∧ t'.first k = none

theorem allowed_within {u : Table key} (heq : t' = u) (h : Within u t) :
    (∀ j, Allowed may may (t.first j) (t'.first j)) ↔ ∀ v, Lost t u v → may v := by
  subst heq
  constructor
  · rintro hall v ⟨j, hold, hgone⟩
    refine (hall j ?_).1 v hold
    rw [hold, hgone]
    nofun
  · intro hall j hne
    cases hnew : t'.first j with
    | none => exact ⟨fun v hold => hall v ⟨j, hold, hnew⟩, nofun⟩
    | some w => exact absurd ((h j w hnew).trans hnew.symm) hne

theorem allowed_same (h : t' = t) (j : κ) : Allowed may may (t.first j) (t'.first j) :=
  fun hne => absurd (by rw [h]) hne

end Allowed

omit [External] in
theorem Allowed.trans {may : α → Prop} {a b c : Option α} (h : Allowed may may a b)
    (h' : Allowed may may b c) : Allowed may may a c := by
  intro hne
  by_cases hab : a = b
  · subst hab
    exact h' hne
  · by_cases hbc : b = c
    · subst hbc
      exact h hne
    · exact ⟨(h hab).1, (h' hbc).2⟩

/-- Every row of the catalog that differs may be written. -/
structure Permitted (rule : Authorizer) (owner : State → HealthCheck → String) (s s' : State) :
    Prop where
  nodes : ∀ k, Allowed (MayWriteNode rule) (MayWriteNode rule) (s.nodes.first k) (s'.nodes.first k)
  services : ∀ k, Allowed (MayWriteService rule) (MayWriteService rule) (s.services.first k)
    (s'.services.first k)
  checks : ∀ k, Allowed (MayWriteCheck rule (owner s)) (MayWriteCheck rule (owner s'))
    (s.checks.first k) (s'.checks.first k)

open Classical in
/-- An authorizer that allows everything, but writes only of these nodes and services. -/
noncomputable def writesOnly (nodes services : String → Prop) : Authorizer :=
  { manageAll with
    nodeWrite := fun k => decide (∃ name, bytesOf name = k ∧ nodes name)
    serviceWrite := fun k => decide (∃ name, bytesOf name = k ∧ services name) }

section WritesOnly

variable {nodes services : String → Prop} {name : String}

omit [External]

theorem writesOnly_node :
    (writesOnly nodes services).nodeWrite (bytesOf name) = true ↔ nodes name := by
  simp only [writesOnly, decide_eq_true_eq]
  refine ⟨?_, fun h => ⟨name, rfl, h⟩⟩
  rintro ⟨other, heq, h⟩
  rw [← bytesOf_injective heq]
  exact h

theorem writesOnly_service :
    (writesOnly nodes services).serviceWrite (bytesOf name) = true ↔ services name := by
  simp only [writesOnly, decide_eq_true_eq]
  refine ⟨?_, fun h => ⟨name, rfl, h⟩⟩
  rintro ⟨other, heq, h⟩
  rw [← bytesOf_injective heq]
  exact h

end WritesOnly

end OpenGyoza
