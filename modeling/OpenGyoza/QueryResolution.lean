-- The resolution of prepared queries. The checks that are made when a query is
-- set keep names apart, so that a name selects one query at most: the one that
-- has it, or the template with the longest beginning of it.
import OpenGyoza.QueryIndexes

namespace OpenGyoza

open Memdb PrefixTree Table

section Model

variable [External]

/-! ## The resolution of a query -/

/-- Where a request comes from. -/
structure QuerySource where
  datacenter : String := ""
  segment : String := ""
  node : String := ""
  ip : String := ""

/-- How a template is filled in for the name it was found by. -/
class Templates where
  render : PreparedQuery → String → QuerySource → Except String PreparedQuery

variable [Templates]

/-- A template is filled in before it is returned. -/
def preparedForm (name : String) (source : QuerySource) (q : PreparedQuery) :
    Except String PreparedQuery :=
  if q.isTemplate then Templates.render q name source else .ok q

namespace Indexed

omit [Templates] in
/-- The query with an ID. What does not look like one is not looked up. -/
def queryByID (queryIDOrName : String) (w : Indexed) : Except String (Option PreparedQuery) :=
  if isUUID queryIDOrName then
    match uuidArg queryIDOrName with
    | .error text => .error ("failed prepared query lookup: " ++ text)
    | .ok key => .ok (w.state.preparedQueries.first key)
  else .ok none

omit [Templates] in
/-- The query that is selected by name: the one with the very name, and then the template with
the longest beginning of it. -/
def queryByName (name : String) (w : Indexed) : Option PreparedQuery :=
  match w.names.lookup (indexField name) with
  | some query => some query
  | none => w.templates.longestPrefix (templateKey name)

def preparedQueryResolve (queryIDOrName : String) (source : QuerySource) (w : Indexed) :
    Except String (Nat × Option PreparedQuery) := do
  let idx := maxIndexTxn ["prepared-queries"] w.state
  if queryIDOrName = "" then .error "Missing Query ID"
  else
    match ← w.queryByID queryIDOrName with
    | some query =>
      if query.isTemplate then
        .error "prepared query templates can only be resolved up by name, not by ID"
      else return (idx, some query)
    | none =>
      match w.queryByName queryIDOrName with
      | some query => return (idx, some (← preparedForm queryIDOrName source query))
      | none => return (idx, none)

end Indexed

end Model

section Laws

variable [External] {idx : Nat}

/-! ## Runs -/

/-- Queries are set and deleted and sessions are destroyed, each in a transaction of its own. All
else leaves the queries alone. -/
inductive QueryStep : Indexed → Indexed → Prop
  | set {w : Indexed} (idx : Nat) (query : PreparedQuery) :
      QueryStep w (Txn.commit (Indexed.preparedQuerySetTxn idx query) (fun _ => true) w)
  | delete {w : Indexed} (idx : Nat) (queryID : String) :
      QueryStep w (Txn.commit (Indexed.preparedQueryDeleteTxn idx queryID) (fun _ => true) w)
  | destroySession {w : Indexed} (idx : Nat) (sessionID : String) :
      QueryStep w (Txn.commit (Indexed.deleteSessionTxn idx sessionID) (fun _ => true) w)
  | other {w : Indexed} {s : State} (h : SameQueries w.state s) :
      QueryStep w { w with state := s }

theorem Consistent.commit {w : Indexed} (hw : Consistent w) {m : IndexedTxn Unit}
    {m' : StoreTxn Unit} (h : Txn.Lockstep Refines AnyFault m m' fun _ => True) :
    Consistent (Txn.commit m (fun _ => true) w) := by
  have hrun := h w w.state ⟨rfl, hw⟩
  unfold Txn.commit
  generalize m w = x at hrun ⊢
  generalize m' w.state = y at hrun
  cases hrun with
  | ok _ hR => exact hR.2
  | fault _ => exact hw

theorem Consistent.step {w w' : Indexed} (hw : Consistent w) (h : QueryStep w w') :
    Consistent w' := by
  cases h with
  | set idx query => exact hw.commit (preparedQuerySetTxn_lockstep query)
  | delete idx id => exact hw.commit (preparedQueryDeleteTxn_lockstep id)
  | destroySession idx id => exact hw.commit (deleteSessionTxn_lockstep id)
  | other hsame => exact hw.withState hsame

theorem Consistent.of_run {w : Indexed} (h : Relation.ReflTransGen QueryStep .empty w) :
    Consistent w := by
  induction h with
  | refl => exact ⟨.empty, .empty⟩
  | tail _ hstep ih => exact ih.step hstep

/-! ## The query that is selected -/

/-- A name is the beginning of another one up to case. -/
def NamePrefix (a b : String) : Prop := bytesOf (toLower a) <+: bytesOf (toLower b)

theorem templateKey_begins {a b : String} : templateKey a <+: templateKey b ↔ NamePrefix a b := by
  simp [templateKey, NamePrefix]

/-- The query with the name, up to case; without one, the template whose name is the longest
beginning of it. -/
def Selected (rows : List PreparedQuery) (name : String) (q : PreparedQuery) : Prop :=
  q ∈ rows ∧
    (toLower q.name = toLower name ∨
      (∀ r ∈ rows, toLower r.name ≠ toLower name) ∧ q.isTemplate = true ∧ NamePrefix q.name name ∧
        ∀ t ∈ rows, t.isTemplate = true → NamePrefix t.name name → NamePrefix t.name q.name)

section Resolve

variable {w : Indexed} {name : String} {q : PreparedQuery}

theorem Consistent.lookup_name (hw : Consistent w) (hname : name ≠ "") :
    w.names.lookup (indexField name) = some q ↔
      q ∈ w.state.preparedQueries.values ∧ toLower q.name = toLower name := by
  rw [hw.names, nameEntry_eq_some, indexField_inj]
  constructor
  · exact fun ⟨hq, _, hlower⟩ => ⟨hq, hlower⟩
  · rintro ⟨hq, hlower⟩
    refine ⟨hq, ?_, hlower⟩
    intro hempty
    rw [hempty] at hlower
    exact hname (toLower_eq_toLower_empty.mp hlower.symm)

theorem Consistent.lookup_template (hw : Consistent w) {path : List Byte} :
    w.templates.lookup path = some q ↔
      q ∈ w.state.preparedQueries.values ∧ q.isTemplate = true ∧ templateKey q.name = path := by
  rw [hw.templates, templateEntry_eq_some]

theorem Consistent.queryByName (hw : Consistent w) (hname : name ≠ "") :
    (∃ q, w.queryByName name = some q ∧ Selected w.state.preparedQueries.values name q) ∨
    w.queryByName name = none ∧ ∀ q ∈ w.state.preparedQueries.values,
      toLower q.name ≠ toLower name ∧ (q.isTemplate = true → ¬NamePrefix q.name name) := by
  unfold Indexed.queryByName
  cases hlookup : w.names.lookup (indexField name) with
  | some q =>
    obtain ⟨hq, hlower⟩ := (hw.lookup_name hname).mp hlookup
    exact .inl ⟨q, rfl, hq, .inl hlower⟩
  | none =>
    have hothers : ∀ r ∈ w.state.preparedQueries.values, toLower r.name ≠ toLower name := by
      intro r hr hlower
      rw [(hw.lookup_name hname).mpr ⟨hr, hlower⟩] at hlookup
      cases hlookup
    rcases w.templates.longestPrefix_cases (templateKey name) with
      ⟨hnone, hresult⟩ | ⟨p, q, hp, hq, hlongest, hresult⟩
    · refine .inr ⟨hresult, fun q hq => ⟨hothers q hq, fun htemplate hprefix => ?_⟩⟩
      have hstored := hw.lookup_template.mpr ⟨hq, htemplate, rfl⟩
      rw [hnone _ (templateKey_begins.mpr hprefix)] at hstored
      cases hstored
    · obtain ⟨hmem, htemplate, rfl⟩ := hw.lookup_template.mp hq
      refine .inl ⟨q, hresult, hmem, .inr ⟨hothers, htemplate, templateKey_begins.mp hp, ?_⟩⟩
      intro t ht htt hprefix
      refine templateKey_begins.mp (hlongest _ (templateKey_begins.mpr hprefix) ?_)
      rw [hw.lookup_template.mpr ⟨ht, htt, rfl⟩]
      exact Option.some_ne_none t

theorem Consistent.selected_unique (hw : Consistent w) (hname : name ≠ "") {r : PreparedQuery}
    (hq : Selected w.state.preparedQueries.values name q)
    (hr : Selected w.state.preparedQueries.values name r) : q = r := by
  obtain ⟨hqmem, hq⟩ := hq
  obtain ⟨hrmem, hr⟩ := hr
  rcases hq with hqname | ⟨hothers, hqt, hqp, hqlongest⟩
  · have hrname : toLower r.name = toLower name := by
      rcases hr with hrname | ⟨hothers, -⟩
      · exact hrname
      · exact absurd hqname (hothers q hqmem)
    have hlookup := (hw.lookup_name hname).mpr ⟨hqmem, hqname⟩
    rw [(hw.lookup_name hname).mpr ⟨hrmem, hrname⟩] at hlookup
    exact (Option.some.inj hlookup).symm
  · rcases hr with hrname | ⟨-, hrt, hrp, hrlongest⟩
    · exact absurd hrname (hothers r hrmem)
    · -- Each of the two names begins with the other one.
      have hsame : bytesOf (toLower q.name) = bytesOf (toLower r.name) :=
        (hrlongest q hqmem hqt hqp).eq_of_length_le (hqlongest r hrmem hrt hrp).length_le
      refine hw.templates.unique hqmem hrmem (templateEntry_eq_some.mpr ⟨hqt, rfl⟩)
        (templateEntry_eq_some.mpr ⟨hrt, ?_⟩)
      simp [templateKey, hsame]

theorem queryByID_eq_none
    (hid : ∀ q ∈ w.state.preparedQueries.values, isUUID name = true → uuidKey q.id ≠ uuidKey name) :
    w.queryByID name = .ok none := by
  unfold Indexed.queryByID
  split
  · rename_i huuid
    have hparse : ∃ k, parseUUID name = .ok k := by
      unfold isUUID at huuid
      split at huuid
      · exact ⟨_, ‹_›⟩
      · cases huuid
    obtain ⟨k, hk⟩ := hparse
    have hkey := uuidKey_of_parseUUID hk
    rw [uuidArg_of_uuidKey hkey]
    dsimp only
    cases hrow : w.state.preparedQueries.first k with
    | none => rfl
    | some q =>
      have hq := preparedQueryKey_eq_ok (key_of_first hrow)
      exact absurd (hq.trans hkey.symm) (hid q (mem_values_of_first hrow) huuid)
  · rfl

theorem Consistent.resolve [Templates] (hw : Consistent w) (hname : name ≠ "")
    (hid : ∀ q ∈ w.state.preparedQueries.values, isUUID name = true → uuidKey q.id ≠ uuidKey name)
    (hq : Selected w.state.preparedQueries.values name q) (source : QuerySource) :
    w.preparedQueryResolve name source = (preparedForm name source q).map fun result =>
      (maxIndexTxn ["prepared-queries"] w.state, some result) := by
  rcases hw.queryByName hname with ⟨r, hfound, hselected⟩ | ⟨-, hnone⟩
  · cases hw.selected_unique hname hq hselected
    unfold Indexed.preparedQueryResolve
    rw [if_neg hname, queryByID_eq_none hid]
    simp only [bind, Except.bind, hfound]
    cases preparedForm name source q <;> rfl
  · obtain ⟨hmem, hlower | ⟨-, htemplate, hprefix, -⟩⟩ := hq
    · exact absurd hlower (hnone q hmem).1
    · exact absurd hprefix ((hnone q hmem).2 htemplate)

end Resolve

/-- After every run names are unique up to case, at most one template has none, and a name that is
not an ID leads to the query it selects, or to nothing. -/
theorem queries_resolve_by_name [Templates] {w : Indexed}
    (hrun : Relation.ReflTransGen QueryStep .empty w) :
    let rows := w.state.preparedQueries.values
    (∀ q ∈ rows, ∀ r ∈ rows, q.name ≠ "" → toLower q.name = toLower r.name → q = r) ∧
    (∀ q ∈ rows, ∀ r ∈ rows, q.isTemplate = true → r.isTemplate = true → q.name = "" →
      r.name = "" → q = r) ∧
    ∀ name source, name ≠ "" →
      (∀ q ∈ rows, isUUID name = true → uuidKey q.id ≠ uuidKey name) →
      let idx := maxIndexTxn ["prepared-queries"] w.state
      (∃ q, Selected rows name q ∧ (∀ r, Selected rows name r → r = q) ∧
        w.preparedQueryResolve name source =
          (preparedForm name source q).map fun result => (idx, some result)) ∨
      (∀ q ∈ rows, toLower q.name ≠ toLower name ∧
        (q.isTemplate = true → ¬NamePrefix q.name name)) ∧
        w.preparedQueryResolve name source = .ok (idx, none) := by
  have hw := Consistent.of_run hrun
  refine ⟨?_, ?_, ?_⟩
  · intro q hq r hr hname hlower
    have hlookup := (hw.lookup_name hname).mpr ⟨hq, rfl⟩
    rw [(hw.lookup_name hname).mpr ⟨hr, hlower.symm⟩] at hlookup
    exact (Option.some.inj hlookup).symm
  · intro q hq r hr hqt hrt hqname hrname
    exact hw.templates.unique hq hr (templateEntry_eq_some.mpr ⟨hqt, rfl⟩)
      (templateEntry_eq_some.mpr ⟨hrt, by rw [hqname, hrname]⟩)
  · intro name source hname hid idx
    rcases hw.queryByName hname with ⟨q, hfound, hselected⟩ | ⟨hfound, hnone⟩
    · exact .inl ⟨q, hselected, fun r hr => hw.selected_unique hname hr hselected,
        hw.resolve hname hid hselected source⟩
    · refine .inr ⟨hnone, ?_⟩
      unfold Indexed.preparedQueryResolve
      rw [if_neg hname, queryByID_eq_none hid]
      simp only [bind, Except.bind, hfound]
      rfl

end Laws

/-! ## A template and a query of the longer name -/

section Example

attribute [local instance] ascii

/-- A template that only writes down the name it was found by. -/
@[reducible] def namedTemplates : Templates where
  render q name _ := .ok { q with definition := name }

attribute [local instance] namedTemplates

def webTemplate : PreparedQuery :=
  { id := "00000000-0000-0000-0000-000000000001"
    name := "Web"
    templateType := "name_prefix_match" }

def websocketQuery : PreparedQuery :=
  { id := "00000000-0000-0000-0000-000000000002", name := "websocket" }

def twoQueries : Indexed :=
  Txn.commit (Indexed.preparedQuerySetTxn 2 websocketQuery) (fun _ => true)
    (Txn.commit (Indexed.preparedQuerySetTxn 1 webTemplate) (fun _ => true) .empty)

/-- The name `WEB-1` leads to the template `Web`, which is filled in for it. -/
theorem a_template_is_selected :
    Relation.ReflTransGen QueryStep .empty twoQueries ∧
    ∃ q, Selected twoQueries.state.preparedQueries.values "WEB-1" q ∧
      twoQueries.preparedQueryResolve "WEB-1" {} =
        (preparedForm "WEB-1" {} q).map fun result => (2, some result) := by
  have hrun : Relation.ReflTransGen QueryStep .empty twoQueries :=
    .tail (.single (.set 1 webTemplate)) (.set 2 websocketQuery)
  refine ⟨hrun, ?_⟩
  rcases (queries_resolve_by_name hrun).2.2 "WEB-1" {} (by decide) (by decide +kernel) with
    ⟨q, hselected, -, hresult⟩ | ⟨hnone, -⟩
  · refine ⟨q, hselected, hresult.trans ?_⟩
    have hidx : maxIndexTxn ["prepared-queries"] twoQueries.state = 2 := by decide +kernel
    rw [hidx]
  · have hprefix : ∃ q ∈ twoQueries.state.preparedQueries.values, q.isTemplate = true ∧
        bytesOf (toLower q.name) <+: bytesOf (toLower "WEB-1") := by decide +kernel
    obtain ⟨q, hq, htemplate, hbegins⟩ := hprefix
    exact absurd hbegins ((hnone q hq).2 htemplate)

end Example

end OpenGyoza
