-- Prepared queries with the two indexes that find them by name: one of all
-- queries that have a name, and one of the templates. The steps read and write
-- these indexes as the database does, and go along with the steps that read
-- the rows themselves.
import OpenGyoza.UniqueIndex
import OpenGyoza.Lockstep
import OpenGyoza.WritePermissions

namespace OpenGyoza

open Memdb PrefixTree Txn Table List

/-! ## The indexes -/

section Model

variable [External]

/-- The state with the unique indexes of the prepared queries. -/
structure Indexed where
  state : State
  names : Tree Byte PreparedQuery
  templates : Tree Byte PreparedQuery

abbrev IndexedTxn (α : Type) := Txn Indexed α

/-- A query without a name is not in the index of names. -/
def nameEntry (q : PreparedQuery) : Option (List Byte) :=
  if q.name = "" then none else some (indexField q.name)

/-- The zero byte in front makes an entry even of the empty name. -/
def templateKey (name : String) : List Byte := 0 :: bytesOf (toLower name)

def templateEntry (q : PreparedQuery) : Option (List Byte) :=
  if q.isTemplate then some (templateKey q.name) else none

namespace Indexed

def empty : Indexed := { state := .empty, names := Table.empty, templates := Table.empty }

/-- A step that does not touch the prepared queries. -/
def onState {α : Type} (m : StoreTxn α) : IndexedTxn α := fun w =>
  ((m w.state).1, { w with state := (m w.state).2 })

/-- The row that a query replaces. -/
def stored (q : PreparedQuery) (w : Indexed) : Option PreparedQuery :=
  (preparedQueryKey q).toOption.bind w.state.preparedQueries.first

def insertQuery (q : PreparedQuery) : IndexedTxn Unit := do
  let old ← read (stored q)
  onState (insert Tables.preparedQueries q)
  modify fun w => { w with
    names := reindex nameEntry old q w.names
    templates := reindex templateEntry old q w.templates }

def deleteQuery (q : PreparedQuery) : IndexedTxn Unit := do
  let old ← read (stored q)
  onState (delete Tables.preparedQueries q)
  match old with
  | none => return
  | some old => modify fun w => { w with
      names := unindex nameEntry old w.names
      templates := unindex templateEntry old w.templates }

/-- Why a name cannot be given to a query, by what the indexes say. -/
def nameTaken (query : PreparedQuery) (existing : Option PreparedQuery) (w : Indexed) :
    Option String :=
  let isOther (other : PreparedQuery) := !existing.any (·.id == other.id)
  if query.name ≠ "" then
    if (w.names.lookup (indexField query.name)).any isOther then
      some ("name '" ++ query.name ++ "' aliases an existing query name")
    else none
  else if query.isTemplate then
    if (w.templates.lookup (templateKey query.name)).any isOther then
      some "a query template with an empty name already exists"
    else none
  else none

def preparedQuerySetTxn (idx : Nat) (query : PreparedQuery) : IndexedTxn Unit := do
  if query.id = "" then fail "Missing Query ID"
  else
    let existing ← onState (preparedQueryLookup query.id)
    let query := { query with
      createIndex := (existing.map (·.createIndex)).getD idx
      modifyIndex := idx }
    match ← read (nameTaken query existing) with
    | some text => fail text
    | none =>
      onState (nameIsNoID query.name)
      onState (querySessionExists query.session)
      onState (templateCompiles query)
      wrap ("failed inserting prepared query: " ++ ·) (insertQuery query)
      onState (setIndex (.table "prepared-queries") idx)

def preparedQueryDeleteTxn (idx : Nat) (queryID : String) : IndexedTxn Unit := do
  match ← onState (preparedQueryLookup queryID) with
  | none => return
  | some query =>
    wrap ("failed prepared query delete: " ++ ·) (deleteQuery query)
    onState (setIndex (.table "prepared-queries") idx)

def deleteSessionTxn (idx : Nat) (sessionID : String) : IndexedTxn Unit := do
  let id ← onState (wrap ("failed session lookup: " ++ ·) (ofExcept (uuidArg sessionID)))
  match ← onState (read fun s => s.sessions.first id) with
  | none => return
  | some session =>
    onState (wrap ("failed deleting session: " ++ ·) (delete Tables.sessions session))
    onState (setIndex (.table "sessions") idx)
    let kvs ← onState (read fun s => s.kvs.seek DirEntry.sessionEntry id)
    onState (invalidateLocks idx kvs session.behavior)
    let mappings ← onState (read fun s => s.sessionChecks.seek SessionCheck.sessionEntry id)
    forEach mappings fun mapping =>
      onState (wrap ("failed deleting session check: " ++ ·)
        (delete Tables.sessionChecks mapping))
    let queries ← onState (read fun s => s.preparedQueries.seek PreparedQuery.sessionEntry id)
    forEach queries fun query =>
      wrap ("failed prepared query delete: " ++ ·) (preparedQueryDeleteTxn idx query.id)

end Indexed

end Model

/-! ## The indexes and the rows -/

section Laws

variable [External] {idx : Nat} {existing : Option PreparedQuery}

/-- The indexes hold what the rows say. -/
structure Consistent (w : Indexed) : Prop where
  names : IsIndex nameEntry w.state.preparedQueries w.names
  templates : IsIndex templateEntry w.state.preparedQueries w.templates

/-- The state with indexes, beside the state that has only the rows. -/
def Refines (w : Indexed) (s : State) : Prop := w.state = s ∧ Consistent w

def SameQueries (s s' : State) : Prop := s'.preparedQueries = s.preparedQueries

variable {α : Type} {m : StoreTxn α} {w : Indexed} {s : State} {q : PreparedQuery}
  {k path : List Byte} {a : String}

theorem Consistent.withState (h : Consistent w) (hsame : SameQueries w.state s) :
    Consistent { w with state := s } := by
  constructor
  · change IsIndex nameEntry s.preparedQueries w.names
    rw [hsame]
    exact h.names
  · change IsIndex templateEntry s.preparedQueries w.templates
    rw [hsame]
    exact h.templates

/-- No fault is ruled out. -/
def AnyFault (_ : Fault) : Prop := True

theorem onState_lockstep (h : Does SameQueries m) :
    Lockstep Refines AnyFault (Indexed.onState m) m fun _ => True := by
  rintro w _ ⟨rfl, hw⟩
  have hsame := h.holds (fun _ => rfl) (fun _ _ _ h h' => h'.trans h) w.state
  unfold Indexed.onState
  generalize m w.state = x at hsame ⊢
  obtain ⟨_ | a, s'⟩ := x
  · exact .fault trivial
  · exact .ok trivial ⟨rfl, hw.withState hsame⟩

theorem onState_read {β : Type} {k : α → IndexedTxn β} {k' : α → StoreTxn β} {P : β → Prop}
    (hm : (m w.state).2 = w.state)
    (hk : ∀ a, (m w.state).1 = .ok a → Together Refines AnyFault P (k a w) (k' a w.state)) :
    Together Refines AnyFault P ((Indexed.onState m >>= k) w) ((m >>= k') w.state) := by
  simp only [Bind.bind, Indexed.onState]
  generalize m w.state = x at hm hk ⊢
  obtain ⟨r, s'⟩ := x
  subst hm
  cases r with
  | error e => exact .fault trivial
  | ok a => exact hk a rfl

/-! ## One step of the indexes -/

/-- No stored query under another key has the entries of `q`. -/
def EntriesFree (q : PreparedQuery) (w : Indexed) : Prop :=
  ∀ v ∈ w.state.preparedQueries.values, ∀ k, preparedQueryKey q = .ok k → ∀ path,
    (nameEntry q = some path ∧ nameEntry v = some path) ∨
      (templateEntry q = some path ∧ templateEntry v = some path) →
    preparedQueryKey v = .ok k

theorem insertQuery_together (hw : Consistent w) (hfree : EntriesFree q w) :
    Together Refines AnyFault (fun _ => True) (Indexed.insertQuery q w)
      (insert Tables.preparedQueries q w.state) := by
  unfold Indexed.insertQuery
  rw [read_bind]
  cases hkey : preparedQueryKey q with
  | error text =>
    have hfail : insert Tables.preparedQueries q w.state = (.error (.error text), w.state) := by
      simp [Txn.insert, hkey, Txn.fail]
    have hon : Indexed.onState (insert Tables.preparedQueries q) w =
        (.error (.error text), w) := by
      simp [Indexed.onState, hfail]
    rw [hfail, bind_of_error hon]
    exact .fault trivial
  | ok k =>
    let s' : State := { w.state with preparedQueries := w.state.preparedQueries.upsert q }
    have hinsert : Txn.insert Tables.preparedQueries q w.state = (.ok (), s') := by
      simp [Txn.insert, hkey, Txn.modify, s']
    have hon : Indexed.onState (insert Tables.preparedQueries q) w =
        (.ok (), { w with state := s' }) := by
      simp [Indexed.onState, hinsert]
    have hstored : Indexed.stored q w = w.state.preparedQueries.first k := by
      simp [Indexed.stored, hkey, Except.toOption]
    rw [hinsert, bind_of_ok hon, hstored]
    refine .ok trivial ⟨rfl, ?_, ?_⟩
    · exact hw.names.upsert hkey fun v hv path hq hv' => hfree v hv k hkey path (.inl ⟨hq, hv'⟩)
    · exact hw.templates.upsert hkey fun v hv path hq hv' => hfree v hv k hkey path (.inr ⟨hq, hv'⟩)

theorem deleteQuery_together (hw : Consistent w) (hrow : w.state.preparedQueries.first k = some q) :
    Together Refines AnyFault (fun _ => True) (Indexed.deleteQuery q w)
      (delete Tables.preparedQueries q w.state) := by
  have hkey := key_of_first hrow
  let s' : State := { w.state with preparedQueries := w.state.preparedQueries.erase k }
  have hdelete : Txn.delete Tables.preparedQueries q w.state = (.ok (), s') := by
    simp [Txn.delete, hkey, read_bind, hrow, Txn.modify, s']
  have hon : Indexed.onState (delete Tables.preparedQueries q) w =
      (.ok (), { w with state := s' }) := by
    simp [Indexed.onState, hdelete]
  have hstored : Indexed.stored q w = some q := by
    simp [Indexed.stored, hkey, Except.toOption, hrow]
  unfold Indexed.deleteQuery
  rw [read_bind, hdelete, bind_of_ok hon, hstored]
  exact .ok trivial ⟨rfl, hw.names.erase hrow, hw.templates.erase hrow⟩

/-! ## The checks of a name -/

theorem indexField_inj {b : String} : indexField a = indexField b ↔ toLower a = toLower b := by
  simp [indexField, bytesOf_injective.eq_iff]

theorem templateKey_inj {b : String} : templateKey a = templateKey b ↔ toLower a = toLower b := by
  simp [templateKey, bytesOf_injective.eq_iff]

theorem nameEntry_eq_some :
    nameEntry q = some path ↔ q.name ≠ "" ∧ indexField q.name = path := by
  unfold nameEntry
  split <;> simp_all

theorem templateEntry_eq_some :
    templateEntry q = some path ↔ q.isTemplate = true ∧ templateKey q.name = path := by
  unfold templateEntry
  split <;> simp_all

theorem find_eq_lookup {entry : PreparedQuery → Option (List Byte)}
    {index : Tree Byte PreparedQuery} (h : IsIndex entry s.preparedQueries index)
    {p : PreparedQuery → Bool} (hp : ∀ q, p q = true ↔ entry q = some path) :
    s.preparedQueries.values.find? p = index.lookup path := by
  cases hlookup : index.lookup path with
  | none =>
    rw [find?_eq_none]
    intro q hq hpq
    rw [(h path q).mpr ⟨hq, (hp q).mp hpq⟩] at hlookup
    cases hlookup
  | some q =>
    obtain ⟨hq, hentry⟩ := (h path q).mp hlookup
    cases hfind : s.preparedQueries.values.find? p with
    | none => exact absurd ((hp q).mpr hentry) (find?_eq_none.mp hfind q hq)
    | some r =>
      have hr := (hp r).mp (find?_some hfind)
      rw [h.unique (mem_of_find?_eq_some hfind) hq hr hentry]

theorem toLower_eq_toLower_empty : toLower a = toLower "" ↔ a = "" := by
  rw [(External.toLower_eq_empty "").mpr rfl, External.toLower_eq_empty]

theorem Consistent.queryWithName (hw : Consistent w) (name : String) :
    queryWithName name w.state = w.names.lookup (indexField name) := by
  refine find_eq_lookup hw.names fun q => ?_
  rw [nameEntry_eq_some, indexField_inj]
  simp

theorem Consistent.emptyTemplate (hw : Consistent w) :
    emptyTemplate w.state = w.templates.lookup (templateKey "") := by
  refine find_eq_lookup hw.templates fun q => ?_
  rw [templateEntry_eq_some, templateKey_inj, toLower_eq_toLower_empty]
  simp

theorem Consistent.nameTaken (hw : Consistent w) (query : PreparedQuery)
    (existing : Option PreparedQuery) :
    Indexed.nameTaken query existing w = OpenGyoza.nameTaken query existing w.state := by
  unfold Indexed.nameTaken OpenGyoza.nameTaken
  rw [hw.queryWithName, hw.emptyTemplate]
  by_cases hname : query.name = ""
  · simp [hname]
  · simp [hname]

theorem key_of_existing {v : PreparedQuery} (hexisting : existing = w.state.preparedQueries.first k)
    (hv : v ∈ w.state.preparedQueries.values) (hsame : existing.any (·.id == v.id) = true) :
    preparedQueryKey v = .ok k := by
  obtain ⟨kv, hkv⟩ := key_of_mem hv
  cases existing with
  | none => cases hsame
  | some old =>
    have heq : old.id = v.id := by simpa using hsame
    have hold := preparedQueryKey_eq_ok (key_of_first hexisting.symm)
    rw [heq, preparedQueryKey_eq_ok hkv] at hold
    rw [hkv, hold]

theorem entriesFree_of_nameTaken (hw : Consistent w) {query : PreparedQuery}
    (hid : uuidKey query.id = .ok k) (hexisting : existing = w.state.preparedQueries.first k)
    (hfree : Indexed.nameTaken query existing w = none) : EntriesFree query w := by
  intro v hv k' hk' path hentries
  obtain rfl : k' = k := by
    have := preparedQueryKey_eq_ok hk'
    rw [hid] at this
    exact (Except.ok.inj this).symm
  -- A query with the name of the new one is found by its name, a template without a name among
  -- the templates.
  have hfound : (w.names.lookup (indexField query.name) = some v ∧ query.name ≠ "") ∨
      (w.templates.lookup (templateKey query.name) = some v ∧ query.name = "" ∧
        query.isTemplate = true) := by
    rcases hentries with ⟨hquery, hentry⟩ | ⟨hquery, hentry⟩
    · obtain ⟨hname, rfl⟩ := nameEntry_eq_some.mp hquery
      exact .inl ⟨(hw.names _ v).mpr ⟨hv, hentry⟩, hname⟩
    · obtain ⟨htemplate, rfl⟩ := templateEntry_eq_some.mp hquery
      by_cases hname : query.name = ""
      · exact .inr ⟨(hw.templates _ v).mpr ⟨hv, hentry⟩, hname, htemplate⟩
      · have hlower := templateKey_inj.mp (templateEntry_eq_some.mp hentry).2
        have hnamed : v.name ≠ "" := by
          intro hempty
          rw [hempty] at hlower
          exact hname (toLower_eq_toLower_empty.mp hlower.symm)
        exact .inl ⟨(hw.names _ v).mpr
          ⟨hv, nameEntry_eq_some.mpr ⟨hnamed, indexField_inj.mpr hlower⟩⟩, hname⟩
  apply key_of_existing hexisting hv
  unfold Indexed.nameTaken at hfree
  rcases hfound with ⟨hlookup, hname⟩ | ⟨hlookup, hname, htemplate⟩
  · simpa [hname, hlookup] using hfree
  · rw [hname] at hlookup
    simpa [hname, hlookup, htemplate] using hfree

/-! ## The indexes go along with the rows -/

theorem setIndex_queries (name : IndexName) : Does SameQueries (setIndex name idx) :=
  setIndex_does fun _ => rfl

theorem preparedQueryLookup_ok {id : String} {found : Option PreparedQuery}
    (h : (preparedQueryLookup id s).1 = .ok found) :
    ∃ k, uuidKey id = .ok k ∧ found = s.preparedQueries.first k := by
  unfold preparedQueryLookup uuidArg at h
  cases hkey : uuidKey id with
  | error text =>
    rw [hkey] at h
    cases h
  | ok k =>
    rw [hkey] at h
    exact ⟨k, rfl, (Except.ok.inj h).symm⟩

theorem preparedQuerySetTxn_lockstep (query : PreparedQuery) :
    Lockstep Refines AnyFault (Indexed.preparedQuerySetTxn idx query)
      (preparedQuerySetTxn idx query) fun _ => True := by
  rintro w _ ⟨rfl, hw⟩
  unfold Indexed.preparedQuerySetTxn preparedQuerySetTxn
  by_cases hid : query.id = ""
  · simp only [hid, ↓reduceIte]
    exact .fault trivial
  simp only [hid, ↓reduceIte]
  refine onState_read ((preparedQueryLookup_looks _).state _) fun existing hfound => ?_
  obtain ⟨k, hkey, hexisting⟩ := preparedQueryLookup_ok hfound
  rw [read_bind, read_bind, hw.nameTaken]
  generalize hnew : { query with
    createIndex := (existing.map PreparedQuery.createIndex).getD idx, modifyIndex := idx } = new
  have hnewKey : uuidKey new.id = .ok k := by rw [← hnew]; exact hkey
  cases htaken : nameTaken new existing w.state with
  | some text => exact .fault trivial
  | none =>
    have hfree : EntriesFree new w :=
      entriesFree_of_nameTaken hw hnewKey hexisting ((hw.nameTaken new existing).trans htaken)
    refine onState_read ((nameIsNoID_looks _).state _) fun _ _ => ?_
    refine onState_read ((querySessionExists_looks _).state _) fun _ _ => ?_
    refine onState_read ((templateCompiles_looks _).state _) fun _ _ => ?_
    exact ((insertQuery_together hw hfree).wrap fun _ _ => trivial).bind fun _ _ =>
      onState_lockstep (setIndex_queries _)

theorem preparedQueryDeleteTxn_lockstep (id : String) :
    Lockstep Refines AnyFault (Indexed.preparedQueryDeleteTxn idx id)
      (preparedQueryDeleteTxn idx id) fun _ => True := by
  rintro w _ ⟨rfl, hw⟩
  refine onState_read ((preparedQueryLookup_looks _).state _) fun found hfound => ?_
  obtain ⟨k, -, rfl⟩ := preparedQueryLookup_ok hfound
  cases hrow : w.state.preparedQueries.first k with
  | none => exact .ok trivial ⟨rfl, hw⟩
  | some query =>
    exact ((deleteQuery_together hw hrow).wrap fun _ _ => trivial).bind fun _ _ =>
      onState_lockstep (setIndex_queries _)

theorem deleteSessionTxn_lockstep (id : String) :
    Lockstep Refines AnyFault (Indexed.deleteSessionTxn idx id) (deleteSessionTxn idx id)
      fun _ => True := by
  refine .bind (onState_lockstep (.wrap (.ofExcept _))) fun u _ =>
    .bind (onState_lockstep (.read _)) fun sess _ => ?_
  cases sess with
  | none => exact .pure trivial
  | some sess =>
    refine .next (onState_lockstep (.wrap (.delete fun _ _ _ => rfl))) ?_
    refine .next (onState_lockstep (setIndex_queries _)) ?_
    refine .bind (onState_lockstep (.read _)) fun kvs _ => ?_
    refine .next (onState_lockstep
      (invalidateLocks_steps (fun _ _ _ _ => rfl) (fun _ _ _ => rfl) _ _)) ?_
    refine .bind (onState_lockstep (.read _)) fun mappings _ => ?_
    refine .next (.forEach fun m _ => onState_lockstep (.wrap (.delete fun _ _ _ => rfl))) ?_
    refine .bind (onState_lockstep (.read _)) fun queries _ => ?_
    exact .forEach fun q _ => (preparedQueryDeleteTxn_lockstep q.id).wrap fun _ _ => trivial

end Laws

end OpenGyoza
