-- Transactions of clients: lists of operations on keys, intentions, nodes,
-- services and checks, which are all stored or not at all.
import OpenGyoza.Catalog

namespace OpenGyoza

open Memdb Txn

/-! ## Operations -/

inductive KVOp where
  | set
  | delete
  | deleteCAS
  | deleteTree
  | cas
  | lock
  | unlock
  | get
  | getTree
  | checkSession
  | checkIndex
  | checkNotExists
  | unknown (text : String)
deriving DecidableEq

/-- The verbs of nodes, services and checks. -/
inductive CatalogOp where
  | get
  | set
  | cas
  | delete
  | deleteCAS
  | unknown (text : String)
deriving DecidableEq

inductive IntentionOp where
  | create
  | update
  | delete
  | unknown (text : String)
deriving DecidableEq

structure TxnKVOp where
  verb : KVOp
  dirEnt : DirEntry
deriving DecidableEq

structure TxnIntentionOp where
  op : IntentionOp
  intention : Intention
deriving DecidableEq

structure TxnNodeOp where
  verb : CatalogOp
  node : Node
deriving DecidableEq

structure TxnServiceOp where
  verb : CatalogOp
  node : String
  service : NodeService
deriving DecidableEq

structure TxnCheckOp where
  verb : CatalogOp
  check : HealthCheck
deriving DecidableEq

/-- One operation. The first part that is there decides what it is. -/
structure TxnOp where
  kv : Option TxnKVOp := none
  intention : Option TxnIntentionOp := none
  node : Option TxnNodeOp := none
  service : Option TxnServiceOp := none
  check : Option TxnCheckOp := none
deriving DecidableEq

inductive TxnResult where
  | kv (entry : DirEntry)
  | node (node : Node)
  | service (service : NodeService)
  | check (check : HealthCheck)
deriving DecidableEq

structure TxnError where
  opIndex : Nat
  what : String
deriving DecidableEq

variable [External]

/-! ## Keys -/

/-- A result without the value of the key. -/
def blankResult (entry : DirEntry) : List TxnResult := [.kv { entry with value := [] }]

/-- The entry that was written, or the error of an operation that did not count. -/
def writtenOr (text : String) : Option DirEntry → StoreTxn (List TxnResult)
  | some entry => pure (blankResult entry)
  | none => fail text

def txnKVS (idx : Nat) (op : TxnKVOp) : StoreTxn (List TxnResult) := do
  let entry := op.dirEnt
  let key := External.quote entry.key
  match op.verb with
  | .set => return blankResult (← kvsSetTxn idx entry false)
  | .delete =>
    kvsDeleteTxn idx entry.key
    return []
  | .deleteCAS =>
    if ← kvsDeleteCASTxn idx entry.modifyIndex entry.key then return []
    else fail ("failed to delete key " ++ key ++ ", index is stale")
  | .deleteTree =>
    kvsDeleteTreeTxn idx entry.key
    return []
  | .cas =>
    writtenOr ("failed to set key " ++ key ++ ", index is stale") (← kvsSetCASTxn idx entry)
  | .lock =>
    writtenOr ("failed to lock key " ++ key ++ ", lock is already held") (← kvsLockTxn idx entry)
  | .unlock =>
    writtenOr ("failed to unlock key " ++ key ++
      ", lock isn't held, or is held by another session") (← kvsUnlockTxn idx entry)
  | .get =>
    match ← read fun s => (kvsGetTxn entry.key s).2 with
    | some e => return [.kv e]
    | none => fail ("key " ++ key ++ " doesn't exist")
  | .getTree =>
    let entries ← read fun s => (kvsListTxn entry.key s).2
    return entries.map .kv
  | .checkSession => return blankResult (← kvsCheckSessionTxn entry.key entry.session)
  | .checkIndex => return blankResult (← kvsCheckIndexTxn entry.key entry.modifyIndex)
  | .checkNotExists =>
    match ← read fun s => (kvsGetTxn entry.key s).2 with
    | some _ => fail ("key " ++ key ++ " exists")
    | none => return []
  | .unknown text => fail ("unknown KV verb " ++ quote text)

/-! ## Intentions -/

def txnIntention (idx : Nat) (op : TxnIntentionOp) : StoreTxn (List TxnResult) := do
  match op.op with
  | .create | .update => intentionSetTxn idx op.intention
  | .delete => intentionDeleteTxn idx op.intention.id
  | .unknown text => fail ("unknown Intention op " ++ quote text)
  return []

/-! ## Nodes, services and checks -/

/-- The node that an operation names, by its ID if it has one. -/
def txnGetNode (node : Node) : StoreTxn (Option Node) :=
  if node.id ≠ "" then getNodeIDTxn node.id else read (nodeRow node.node)

def txnNode (idx : Nat) (op : TxnNodeOp) : StoreTxn (List TxnResult) := do
  let name := quote op.node.node
  match op.verb with
  | .get =>
    match ← txnGetNode op.node with
    | some node => return [.node node]
    | none => fail ("node " ++ name ++ " doesn't exist")
  | .set =>
    ensureNodeTxn idx op.node
    return (← txnGetNode op.node).toList.map .node
  | .cas =>
    match ← attempt (ensureNodeCASTxn idx op.node) with
    | .ok false => fail ("failed to set node " ++ name ++ ", index is stale")
    -- An error of the write is lost here: the read after it decides.
    | _ => return (← txnGetNode op.node).toList.map .node
  | .delete =>
    deleteNodeTxn idx op.node.node
    return []
  | .deleteCAS =>
    if ← deleteNodeCASTxn idx op.node.modifyIndex op.node.node then return []
    else fail ("failed to delete node " ++ name ++ ", index is stale")
  | .unknown text => fail ("unknown Node verb " ++ quote text)

/-- A service as a transaction reads it. -/
def getNodeServiceTxn (node serviceID : String) : StoreTxn (Option NodeService) :=
  read fun s => (serviceRow node serviceID s).map (·.toNodeService)

def txnService (idx : Nat) (op : TxnServiceOp) : StoreTxn (List TxnResult) := do
  let name := quote op.service.id ++ " on node " ++ quote op.node
  let readBack : StoreTxn (List TxnResult) := do
    return (← getNodeServiceTxn op.node op.service.id).toList.map .service
  match op.verb with
  | .get =>
    match ← getNodeServiceTxn op.node op.service.id with
    | some service => return [.service service]
    | none => fail ("service " ++ name ++ " doesn't exist")
  | .set =>
    -- The error of the write is lost: the read after it takes its place.
    let _ ← attempt (ensureServiceTxn idx op.node op.service)
    readBack
  | .cas =>
    match ← attempt (ensureServiceCASTxn idx op.node op.service) with
    | .ok false => fail ("failed to set service " ++ name ++ ", index is stale")
    | _ => readBack
  | .delete =>
    deleteServiceTxn idx op.node op.service.id
    return []
  | .deleteCAS =>
    if ← deleteServiceCASTxn idx op.service.modifyIndex op.node op.service.id then return []
    else fail ("failed to delete service " ++ name ++ ", index is stale")
  | .unknown text => fail ("unknown Service verb " ++ quote text)

def txnCheck (idx : Nat) (op : TxnCheckOp) : StoreTxn (List TxnResult) := do
  let hc := op.check
  let name := quote hc.checkID ++ " on node " ++ quote hc.node
  let readBack : StoreTxn (List TxnResult) := do
    return (← read (checkRow hc.node hc.checkID)).toList.map .check
  match op.verb with
  | .get =>
    match ← read (checkRow hc.node hc.checkID) with
    | some check => return [.check check]
    | none => fail ("check " ++ name ++ " doesn't exist")
  | .set =>
    ensureCheckTxn idx hc
    readBack
  | .cas =>
    match ← attempt (ensureCheckCASTxn idx hc) with
    | .ok false => fail ("failed to set check " ++ name ++ ", index is stale")
    | _ => readBack
  | .delete =>
    deleteCheckTxn idx hc.node hc.checkID
    return []
  | .deleteCAS =>
    if ← deleteCheckCASTxn idx hc.modifyIndex hc.node hc.checkID then return []
    else fail ("failed to delete check " ++ name ++ ", index is stale")
  | .unknown text => fail ("unknown Check verb " ++ quote text)

/-! ## Whole transactions -/

/-- Runs one operation. -/
def txnOp (idx : Nat) (op : TxnOp) : StoreTxn (List TxnResult) :=
  match op.kv, op.intention, op.node, op.service, op.check with
  | some kv, _, _, _, _ => txnKVS idx kv
  | none, some ixn, _, _, _ => txnIntention idx ixn
  | none, none, some node, _, _ => txnNode idx node
  | none, none, none, some service, _ => txnService idx service
  | none, none, none, none, some check => txnCheck idx check
  | none, none, none, none, none => fail "no operation specified"

def txnDispatchFrom (idx : Nat) : Nat → List TxnOp → StoreTxn (List TxnResult × List TxnError)
  | _, [] => return ([], [])
  | i, op :: ops => do
    let r ← attempt (txnOp idx op)
    let (results, errors) ← txnDispatchFrom idx (i + 1) ops
    match r with
    | .ok ret => return (ret ++ results, errors)
    | .error what => return (results, { opIndex := i, what := what } :: errors)

/-- The results, or the errors if there is one. -/
def txnDispatch (idx : Nat) (ops : List TxnOp) :
    StoreTxn (List TxnResult × List TxnError) := do
  let (results, errors) ← txnDispatchFrom idx 0 ops
  return (if errors.isEmpty then results else [], errors)

/-- What a client gets back: results or errors, or a crash of the server. -/
def txnRW (idx : Nat) (ops : List TxnOp) (s : State) :
    Except Fault (List TxnResult × List TxnError) :=
  (txnDispatch idx ops s).1

/-- The store after a transaction: it is left alone when there is an error. -/
def txnRWState (idx : Nat) (ops : List TxnOp) : State → State :=
  commit (txnDispatch idx ops) fun r => r.2.isEmpty

end OpenGyoza
