-- Prepared queries, which may belong to a session, and the intentions of
-- Connect.
import OpenGyoza.Store

namespace OpenGyoza

open Memdb Txn

variable [External]

/-! ## Prepared queries -/

/-- A string that looks like a UUID. -/
def isUUID (s : String) : Bool :=
  match parseUUID s with
  | .ok _ => true
  | .error _ => false

def queryWithName (name : String) (s : State) : Option PreparedQuery :=
  s.preparedQueries.values.find? fun q => q.name != "" && toLower q.name == toLower name

/-- The template with an empty name, which stands for all names that no other template has. -/
def emptyTemplate (s : State) : Option PreparedQuery :=
  s.preparedQueries.values.find? fun q => q.isTemplate && q.name == ""

/-- Why a name cannot be given to a query, when `existing` is the query it replaces. -/
def nameTaken (query : PreparedQuery) (existing : Option PreparedQuery) (s : State) :
    Option String :=
  let isOther (other : PreparedQuery) := !existing.any (·.id == other.id)
  if query.name ≠ "" then
    if (queryWithName query.name s).any isOther then
      some ("name '" ++ query.name ++ "' aliases an existing query name")
    else none
  else if query.isTemplate then
    if (emptyTemplate s).any isOther then
      some "a query template with an empty name already exists"
    else none
  else none

/-- A lookup of a query by its ID. -/
def preparedQueryLookup (id : String) : StoreTxn (Option PreparedQuery) := do
  let key ← wrap ("failed prepared query lookup: " ++ ·) (ofExcept (uuidArg id))
  read fun s => s.preparedQueries.first key

/-- A name must not be the ID of a query. -/
def nameIsNoID (name : String) : StoreTxn Unit := do
  if isUUID name then
    match ← preparedQueryLookup name with
    | some _ => fail ("name '" ++ name ++ "' aliases an existing query ID")
    | none => return

/-- The session of a query must exist. -/
def querySessionExists (session : String) : StoreTxn Unit := do
  if session ≠ "" then
    let id ← wrap ("failed session lookup: " ++ ·) (ofExcept (uuidArg session))
    match ← read fun s => s.sessions.first id with
    | none => fail ("invalid session " ++ quote session)
    | some _ => return

/-- A template must compile. -/
def templateCompiles (query : PreparedQuery) : StoreTxn Unit :=
  if query.isTemplate then
    match External.compile query with
    | some text => fail ("failed compiling template: " ++ text)
    | none => pure ()
  else pure ()

def preparedQuerySetTxn (idx : Nat) (query : PreparedQuery) : StoreTxn Unit := do
  if query.id = "" then fail "Missing Query ID"
  else
    let existing ← preparedQueryLookup query.id
    let query := { query with
      createIndex := (existing.map (·.createIndex)).getD idx
      modifyIndex := idx }
    match ← read (nameTaken query existing) with
    | some text => fail text
    | none =>
      nameIsNoID query.name
      querySessionExists query.session
      templateCompiles query
      wrap ("failed inserting prepared query: " ++ ·) (insert Tables.preparedQueries query)
      setIndex (.table "prepared-queries") idx

def preparedQueryDeleteTxn (idx : Nat) (queryID : String) : StoreTxn Unit := do
  match ← preparedQueryLookup queryID with
  | none => return
  | some query =>
    wrap ("failed prepared query delete: " ++ ·) (delete Tables.preparedQueries query)
    setIndex (.table "prepared-queries") idx

/-! ## Intentions -/

/-- The four names that make an intention unique. An intention with an empty one has none. -/
def Intention.sourceDestination (x : Intention) : Option (List Byte) :=
  if x.sourceNS = "" ∨ x.sourceName = "" ∨ x.destinationNS = "" ∨ x.destinationName = "" then none
  else some (indexField x.sourceNS ++ indexField x.sourceName ++ indexField x.destinationNS ++
    indexField x.destinationName)

def intentionWithNames (x : Intention) (s : State) : Option Intention :=
  match x.sourceDestination with
  | none => none
  | some names => s.intentions.values.find? fun y => y.sourceDestination == some names

def intentionLookup (id : String) : StoreTxn (Option Intention) := do
  let key ← wrap ("failed intention lookup: " ++ ·) (ofExcept (uuidArg id))
  read fun s => s.intentions.first key

def intentionSetTxn (idx : Nat) (ixn : Intention) : StoreTxn Unit := do
  if ixn.id = "" then fail "Missing Intention ID"
  else
    let existing ← intentionLookup ixn.id
    let ixn := { ixn.updatePrecedence with
      createIndex := (existing.map (·.createIndex)).getD idx
      createdAt := (existing.map (·.createdAt)).getD ixn.createdAt
      modifyIndex := idx
      metadata := some (ixn.metadata.getD .empty) }
    match ← read (intentionWithNames ixn) with
    | some dup =>
      if dup.id ≠ ixn.id then fail ("duplicate intention found: " ++ dup.toText)
    | none => pure ()
    insert Tables.intentions ixn
    setIndex (.table "connect-intentions") idx

def intentionDeleteTxn (idx : Nat) (id : String) : StoreTxn Unit := do
  match ← intentionLookup id with
  | none => return
  | some ixn =>
    wrap ("failed intention delete: " ++ ·) (delete Tables.intentions ixn)
    setIndex (.table "connect-intentions") idx

/-! ## Coordinates -/

/-- Stores coordinates. Those of nodes that are not registered, and those that are not valid,
are dropped without an error. -/
def coordinateBatchUpdateTxn (idx : Nat) (updates : List Coordinate) : StoreTxn Unit := do
  forEach updates fun update => do
    if External.coordIsValid update.coord then
      match ← read fun s => s.nodes.first (toLower update.node) with
      | none => return
      | some _ =>
        wrap ("failed inserting coordinate: " ++ ·) (insert Tables.coordinates update)
  setIndex (.table "coordinates") idx

end OpenGyoza
