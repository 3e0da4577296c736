-- Alias checks take over the status of other checks of the agent. The alias is
-- one of the checks it looks at, so a bad status can keep itself alive.
import OpenGyoza.Runs
import OpenGyoza.Structs

namespace OpenGyoza

/-- What an alias looks at of a check. -/
structure LocalCheck where
  serviceID : String
  status : String

/-- The checks of the agent, without those that wait for their removal. -/
abbrev LocalChecks := String → Option LocalCheck

def healthWarning : String := "warning"

structure CheckAlias where
  checkID : String
  serviceID : String

namespace CheckAlias

variable (a : CheckAlias)

/-- The loop of `processChecks` for an alias without a node. Only a critical check ends it. -/
def processChecks : List LocalCheck → String → String
  | [], health => health
  | chk :: l, health =>
    if chk.serviceID ≠ "" ∧ chk.serviceID ≠ a.serviceID then processChecks l health
    else if chk.status = healthCritical then healthCritical
    else processChecks l (if chk.status = healthWarning then healthWarning else health)

def updateCheck (id status : String) (checks : LocalChecks) : LocalChecks :=
  Function.update checks id ((checks id).map fun c => { c with status := status })

/-- An evaluation goes through the checks in some order. -/
inductive Act where
  | addCheck (id : String) (c : LocalCheck)
  | removeCheck (id : String)
  | updateCheck (id status : String)
  | evaluate (order : List String)

def step (checks : LocalChecks) : Act → LocalChecks
  | .addCheck id c => Function.update checks id (some c)
  | .removeCheck id => Function.update checks id none
  | .updateCheck id status => updateCheck id status checks
  | .evaluate order =>
    updateCheck a.checkID (a.processChecks (order.filterMap checks) healthPassing) checks

/-- A check of the node or of the aliased service. -/
def Reads (c : LocalCheck) : Prop := c.serviceID = "" ∨ c.serviceID = a.serviceID

/-- Some other check that the alias reads has the status. -/
def Others (checks : LocalChecks) (status : String) : Prop :=
  ∃ id c, id ≠ a.checkID ∧ checks id = some c ∧ a.Reads c ∧ c.status = status

/-- The order goes through all checks. -/
def Lists (order : List String) (checks : LocalChecks) : Prop :=
  ∀ id, (checks id).isSome → id ∈ order

/-- An evaluation sets the alias to the worst status among the other checks. -/
def Reflects (checks : LocalChecks) : Act → Prop
  | .evaluate order => Lists order checks →
    ∀ c, a.step checks (.evaluate order) a.checkID = some c →
    c.status = healthCritical ∧ a.Others checks healthCritical ∨
      ¬ a.Others checks healthCritical ∧ (c.status = healthWarning ∧ a.Others checks healthWarning ∨
        c.status = healthPassing ∧ ¬ a.Others checks healthWarning)
  | _ => True

/-- The alias does not read itself, or it was no worse than what else it reads. -/
def NotWorse (checks : LocalChecks) : Act → Prop
  | .evaluate order => Lists order checks → ∀ c, checks a.checkID = some c → a.Reads c →
    (c.status = healthCritical → a.Others checks healthCritical) ∧
      (c.status = healthWarning → a.Others checks healthCritical ∨ a.Others checks healthWarning)
  | _ => True

variable {a}

instance (c : LocalCheck) : Decidable (a.Reads c) := inferInstanceAs (Decidable (_ ∨ _))

theorem statuses_ne : healthCritical ≠ healthWarning ∧ healthCritical ≠ healthPassing ∧
    healthWarning ≠ healthPassing := by decide

theorem processChecks_eq (l : List LocalCheck) (health : String) :
    a.processChecks l health =
      if ∃ c ∈ l, a.Reads c ∧ c.status = healthCritical then healthCritical
      else if ∃ c ∈ l, a.Reads c ∧ c.status = healthWarning then healthWarning else health := by
  induction l generalizing health with
  | nil => simp [processChecks]
  | cons c l ih =>
    have hskip : (c.serviceID ≠ "" ∧ c.serviceID ≠ a.serviceID) ↔ ¬ a.Reads c := not_or.symm
    simp only [processChecks, hskip, ih, List.mem_cons, exists_eq_or_imp]
    have hne := statuses_ne.1.symm
    by_cases hreads : a.Reads c
    · by_cases hcritical : c.status = healthCritical
      · simp [hreads, hcritical]
      · by_cases hwarning : c.status = healthWarning
        · simp [hreads, hwarning, hne]
        · simp [hreads, hcritical, hwarning]
    · simp [hreads]

theorem exists_listed {order : List String} {checks : LocalChecks} {c : LocalCheck}
    (horder : Lists order checks) (hc : checks a.checkID = some c) (status : String) :
    (∃ d ∈ order.filterMap checks, a.Reads d ∧ d.status = status) ↔
      a.Others checks status ∨ a.Reads c ∧ c.status = status := by
  simp only [List.mem_filterMap]
  constructor
  · rintro ⟨d, ⟨id, -, hd⟩, hreads⟩
    by_cases hid : id = a.checkID
    · subst hid
      cases hc.symm.trans hd
      exact .inr hreads
    · exact .inl ⟨id, d, hid, hd, hreads⟩
  · rintro (⟨id, d, -, hd, hreads⟩ | hreads)
    · exact ⟨d, ⟨id, horder id (by simp [hd]), hd⟩, hreads⟩
    · exact ⟨c, ⟨_, horder _ (by simp [hc]), hc⟩, hreads⟩

/-- Every evaluation shows the worst of the other checks, in whatever order it sees them, exactly
if the alias is never found worse than they are. -/
theorem alias_reflects_iff (a : CheckAlias) (checks : LocalChecks) (acts : List Act) :
    Runs.Along a.step a.Reflects checks acts ↔ Runs.Along a.step a.NotWorse checks acts := by
  refine Runs.along_iff (I := fun _ => True) (fun checks act _ => ?_)
    (fun _ _ _ _ => trivial) trivial
  cases act with
  | addCheck | removeCheck | updateCheck => rfl
  | evaluate order =>
    refine imp_congr_right fun horder => ?_
    cases hc : checks a.checkID with
    | none => simp [step, updateCheck, hc]
    | some c =>
      simp only [step, updateCheck, hc, Function.update_self, Option.map_some, Option.some.injEq,
        forall_eq', processChecks_eq]
      have hcritical := exists_listed horder hc healthCritical
      have hwarning := exists_listed horder hc healthWarning
      have hne := statuses_ne
      split_ifs <;> grind

/-- An alias that belongs to the node starts as critical and stays so, with no other check. -/
theorem a_critical_alias_stays :
    ¬ Runs.Along (step ⟨"alias", "web"⟩) (Reflects ⟨"alias", "web"⟩) (fun _ => none)
      [.addCheck "alias" ⟨"", healthCritical⟩, .evaluate ["alias"]] := by
  rintro ⟨-, h, -⟩
  have hlists : Lists ["alias"] (step ⟨"alias", "web"⟩ (fun _ => none)
      (.addCheck "alias" ⟨"", healthCritical⟩)) := by
    intro id hid
    by_contra hne
    simp_all [step]
  rcases h hlists _ rfl with ⟨-, id, c, hne, hc, -⟩ | ⟨-, h | h⟩
  · simp_all [step]
  · exact absurd h.1 (by decide)
  · exact absurd h.1 (by decide)

end CheckAlias

end OpenGyoza
