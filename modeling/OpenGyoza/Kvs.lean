-- The key/value store: sets, check-and-sets, locks and deletes of keys, the
-- graveyard of deleted keys, and the lists of keys under a prefix.
import OpenGyoza.Store

namespace OpenGyoza

open Memdb Txn

variable [External]

/-- The prefix search of an index, which ends every key with a zero byte. -/
def underPrefix (pfx key : Key) : Bool := pfx.isPrefixOf (key ++ [0])

/-! ## The graveyard -/

def graveyardInsertTxn (key : Key) (idx : Nat) : StoreTxn Unit := do
  wrap ("failed inserting tombstone: " ++ ·)
    (insert Tables.tombstones { key := key, index := idx })
  setIndex (.table "tombstones") idx

/-- The highest index of a tombstone under a prefix, or 0. -/
def graveyardGetMaxIndexTxn (pfx : Key) (s : State) : Nat :=
  maxOf (·.index) (s.tombstones.get fun t => underPrefix pfx t.key)

/-- Takes away the tombstones up to an index. -/
def graveyardReapTxn (idx : Nat) : StoreTxn Unit := do
  let stones ← read fun s => s.tombstones.get fun t => t.index ≤ idx
  forEach stones fun stone =>
    wrap ("failed deleting tombstone: " ++ ·) (delete Tables.tombstones stone)

def reapTombstonesTxn (idx : Nat) : StoreTxn Unit :=
  wrap ("failed to reap kvs tombstones: " ++ ·) (graveyardReapTxn idx)

/-! ## Sets -/

def storedEntry (idx : Nat) (entry : DirEntry) (updateSession : Bool)
    (existing : Option DirEntry) : DirEntry :=
  { entry with
    createIndex := (existing.map (·.createIndex)).getD idx
    modifyIndex := idx
    session := if updateSession then entry.session else (existing.map (·.session)).getD "" }

def kvsSetTxn (idx : Nat) (entry : DirEntry) (updateSession : Bool) : StoreTxn DirEntry := do
  let existing ← read fun s => s.kvs.first entry.key
  let entry := storedEntry idx entry updateSession existing
  if existing.any (·.equal entry) then
    return entry
  else
    wrap ("failed inserting kvs entry: " ++ ·) (insert Tables.kvs entry)
    setIndex (.table "kvs") idx
    return entry

/-- A set that counts only when the key still has the index that the caller saw. `none` means
that nothing was set. -/
def kvsSetCASTxn (idx : Nat) (entry : DirEntry) : StoreTxn (Option DirEntry) := do
  let existing ← read fun s => s.kvs.first entry.key
  if casRefuses entry.modifyIndex (existing.map (·.modifyIndex)) then return none
  else
    let entry ← kvsSetTxn idx entry false
    return some entry

/-! ## Deletes -/

def kvsDeleteTxn (idx : Nat) (key : Key) : StoreTxn Unit := do
  match ← read fun s => s.kvs.first key with
  | none => return
  | some entry =>
    wrap ("failed adding to graveyard: " ++ ·) (graveyardInsertTxn key idx)
    wrap ("failed deleting kvs entry: " ++ ·) (delete Tables.kvs entry)
    setIndex (.table "kvs") idx

/-- A delete that counts only when the key still has the index `cidx`. A key that is not there
counts as deleted. -/
def kvsDeleteCASTxn (idx cidx : Nat) (key : Key) : StoreTxn Bool := do
  match ← read fun s => s.kvs.first key with
  | none => return true
  | some e =>
    if e.modifyIndex ≠ cidx then return false
    else
      kvsDeleteTxn idx key
      return true

/-- Deletes all keys under a prefix. Only the prefix itself gets a tombstone. -/
def kvsDeleteTreeTxn (idx : Nat) (pfx : Key) : StoreTxn Unit := do
  let deleted ← read fun s => !(s.kvs.get fun e => underPrefix pfx e.key).isEmpty
  modify fun s => { s with kvs := s.kvs.keep fun e => !underPrefix pfx e.key }
  if deleted then
    if pfx ≠ [] then
      wrap ("failed adding to graveyard: " ++ ·) (graveyardInsertTxn pfx idx)
    setIndex (.table "kvs") idx

/-! ## Locks -/

/-- The entry that a lock writes over the old one, or `none` when another session holds it. -/
def lockedEntry (idx : Nat) (entry : DirEntry) : Option DirEntry → Option DirEntry
  | none => some { entry with createIndex := idx, lockIndex := 1, modifyIndex := idx }
  | some e =>
    if e.session = entry.session then
      some { entry with createIndex := e.createIndex, lockIndex := e.lockIndex, modifyIndex := idx }
    else if e.session ≠ "" then none
    else
      some { entry with
        createIndex := e.createIndex, lockIndex := e.lockIndex + 1, modifyIndex := idx }

/-- Takes a lock for the session of the entry. `none` means that another session holds it. -/
def kvsLockTxn (idx : Nat) (entry : DirEntry) : StoreTxn (Option DirEntry) := do
  if entry.session = "" then fail "missing session"
  else
    let id ← wrap ("failed session lookup: " ++ ·) (ofExcept (uuidArg entry.session))
    match ← read fun s => s.sessions.first id with
    | none => fail ("invalid session " ++ quote entry.session)
    | some _ =>
      match lockedEntry idx entry (← read fun s => s.kvs.first entry.key) with
      | none => return none
      | some entry =>
        let entry ← kvsSetTxn idx entry true
        return some entry

/-- Gives a lock back. `none` means that the session of the entry does not hold it. -/
def kvsUnlockTxn (idx : Nat) (entry : DirEntry) : StoreTxn (Option DirEntry) := do
  if entry.session = "" then fail "missing session"
  else
    match ← read fun s => s.kvs.first entry.key with
    | none => return none
    | some e =>
      if e.session ≠ entry.session then return none
      else
        let entry ← kvsSetTxn idx { entry with
          session := "", lockIndex := e.lockIndex, createIndex := e.createIndex,
          modifyIndex := idx } true
        return some entry

/-! ## Checks of a transaction -/

def kvsCheckSessionTxn (key : Key) (session : String) : StoreTxn DirEntry := do
  match ← read fun s => s.kvs.first key with
  | none =>
    fail ("failed to check session, key " ++ External.quote key ++ " doesn't exist")
  | some e =>
    if e.session ≠ session then
      fail ("failed session check for key " ++ External.quote key ++ ", current session " ++
        quote e.session ++ " != " ++ quote session)
    else return e

def kvsCheckIndexTxn (key : Key) (cidx : Nat) : StoreTxn DirEntry := do
  match ← read fun s => s.kvs.first key with
  | none =>
    fail ("failed to check index, key " ++ External.quote key ++ " doesn't exist")
  | some e =>
    if e.modifyIndex ≠ cidx then
      fail ("failed index check for key " ++ External.quote key ++
        ", current modify index " ++ toString e.modifyIndex ++ " != " ++ toString cidx)
    else return e

/-! ## Reads -/

def kvsGetTxn (key : Key) (s : State) : Nat × Option DirEntry :=
  (maxIndexTxn ["kvs", "tombstones"] s, s.kvs.first key)

def listIndex (pfx : Key) (ents : List DirEntry) (s : State) : Nat :=
  let idx := maxIndexTxn ["kvs", "tombstones"] s
  let lindex := maxOf (·.modifyIndex) ents
  let lindex := if pfx ≠ [] then max lindex (graveyardGetMaxIndexTxn pfx s) else idx
  if lindex ≠ 0 then lindex else idx

def kvsListTxn (pfx : Key) (s : State) : Nat × List DirEntry :=
  let ents := s.kvs.get fun e => underPrefix pfx e.key
  (listIndex pfx ents s, ents)

/-- Where `sep` first stands in a key. -/
def keyIndex (sep : Key) : Key → Option Nat
  | [] => if sep = [] then some 0 else none
  | b :: rest => if sep.isPrefixOf (b :: rest) then some 0 else (keyIndex sep rest).map (· + 1)

/-- One turn of the loop of `kvsListKeys`: the keys so far and the last key cut at a
separator. -/
def listKeysStep (pfx sep : Key) (acc : List Key × Key) (e : DirEntry) :
    Except Fault (List Key × Key) :=
  if sep = [] then .ok (acc.1 ++ [e.key], acc.2)
  else if e.key.length < pfx.length then
    .error (.panic "runtime error: slice bounds out of range")
  else
    match keyIndex sep (e.key.drop pfx.length) with
    | none => .ok (acc.1 ++ [e.key], acc.2)
    | some sepIdx =>
      let key := e.key.take (pfx.length + sepIdx + sep.length)
      if key = acc.2 then .ok acc else .ok (acc.1 ++ [key], key)

def kvsListKeys (pfx sep : Key) (s : State) : Except Fault (Nat × List Key) := do
  let ents := s.kvs.get fun e => underPrefix pfx e.key
  let acc ← ents.foldlM (listKeysStep pfx sep) ([], [])
  return (listIndex pfx ents s, acc.1)

end OpenGyoza
