-- Sessions. A session depends on its node and its checks; when it ends, the
-- locks it holds are released or deleted, and its check mappings and its
-- prepared queries go with it.
import OpenGyoza.Kvs
import OpenGyoza.Queries

namespace OpenGyoza

open Memdb Txn Table

variable [External]

def errMissingNode : String := "Missing node registration"
def errMissingService : String := "Missing service registration"
def errMissingSessionID : String := "Missing session ID"

/-! ## Creation -/

/-- The behavior that is stored. A session with none gets `release`. -/
def validBehavior : SessionBehavior → Except String SessionBehavior
  | .unset => .ok .release
  | .release => .ok .release
  | .delete => .ok .delete
  | .other text => .error ("Invalid session behavior: " ++ text)

/-- A check that a session names must exist and must not be critical. -/
def sessionCheckUsable (node checkID : String) : StoreTxn Unit := do
  match ← read fun s => s.checks.first (rowKey node checkID) with
  | none => fail ("Missing check '" ++ checkID ++ "' registration")
  | some check =>
    if check.status = healthCritical then
      fail ("Check '" ++ checkID ++ "' is in " ++ check.status ++ " state")

/-- The mapping of one check of a session. -/
def insertSessionCheck (sess : Session) (checkID : String) : StoreTxn Unit :=
  wrap ("failed inserting session check mapping: " ++ ·)
    (insert Tables.sessionChecks
      { node := sess.node, checkID := checkID, session := sess.id })

def sessionCreateTxn (idx : Nat) (sess : Session) : StoreTxn Unit := do
  if sess.id = "" then fail errMissingSessionID
  else
    let behavior ← ofExcept (validBehavior sess.behavior)
    let sess := { sess with behavior := behavior, createIndex := idx, modifyIndex := idx }
    match ← read fun s => s.nodes.first (toLower sess.node) with
    | none => fail errMissingNode
    | some _ =>
      forEach sess.checks (sessionCheckUsable sess.node)
      wrap ("failed inserting session: " ++ ·) (insert Tables.sessions sess)
      forEach sess.checks (insertSessionCheck sess)
      setIndex (.table "sessions") idx

/-! ## Destruction -/

/-- The entry of a key in the index of its session. The key of the row ends with a zero byte. -/
def DirEntry.sessionEntry (e : DirEntry) : Option (List Byte) :=
  (uuidValue e.session).map (· ++ (e.key ++ [0]))

def SessionCheck.sessionEntry : SessionCheck → Option (List Byte) :=
  entryOf sessionCheckKey fun c => uuidValue c.session

def PreparedQuery.sessionEntry : PreparedQuery → Option (List Byte) :=
  entryOf preparedQueryKey fun q => uuidValue q.session

/-- The lock of a session that ends is given back, and the key stays. -/
def releaseLock (idx : Nat) (e : DirEntry) : StoreTxn Unit := do
  let _ ← wrap ("failed kvs update: " ++ ·) (kvsSetTxn idx { e with session := "" } true)

def deleteLock (idx : Nat) (e : DirEntry) : StoreTxn Unit :=
  wrap ("failed kvs delete: " ++ ·) (kvsDeleteTxn idx e.key)

/-- What happens to the keys that a session holds when it ends. -/
def invalidateLocks (idx : Nat) (kvs : List DirEntry) : SessionBehavior → StoreTxn Unit
  | .release => forEach kvs (releaseLock idx)
  | .delete => forEach kvs (deleteLock idx)
  | behavior => fail ("unknown session behavior " ++ quote behavior.text)

def deleteSessionTxn (idx : Nat) (sessionID : String) : StoreTxn Unit := do
  let id ← wrap ("failed session lookup: " ++ ·) (ofExcept (uuidArg sessionID))
  match ← read fun s => s.sessions.first id with
  | none => return
  | some session =>
    wrap ("failed deleting session: " ++ ·) (delete Tables.sessions session)
    setIndex (.table "sessions") idx
    let kvs ← read fun s => s.kvs.seek DirEntry.sessionEntry id
    invalidateLocks idx kvs session.behavior
    let mappings ← read fun s => s.sessionChecks.seek SessionCheck.sessionEntry id
    forEach mappings fun mapping =>
      wrap ("failed deleting session check: " ++ ·) (delete Tables.sessionChecks mapping)
    let queries ← read fun s => s.preparedQueries.seek PreparedQuery.sessionEntry id
    forEach queries fun query =>
      wrap ("failed prepared query delete: " ++ ·) (preparedQueryDeleteTxn idx query.id)

/-- Several sessions end. -/
def deleteSessions (idx : Nat) (context : String) (ids : List String) : StoreTxn Unit :=
  forEach ids fun id => wrap (context ++ ": " ++ ·) (deleteSessionTxn idx id)

end OpenGyoza
