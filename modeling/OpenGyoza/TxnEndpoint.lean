-- Transactions before they are applied: the check of each operation, and the
-- names of nodes and services for which it claims the permission to write.
import OpenGyoza.WritePermissions

namespace OpenGyoza

open Memdb TxnOp

variable [External]

/-! ## The check of the operations -/

/-- The check of an operation on a key. `delayed` are the keys that cannot be locked yet. -/
def kvsPreApply (delayed : Key → Bool) (rule : Option Authorizer) (op : KVOp) (dirEnt : DirEntry) :
    Except String Bool :=
  let allowed : Bool :=
    match op with
    | .deleteTree => rule.all (·.keyWritePrefix dirEnt.key)
    -- Reads are filtered when they are answered.
    | .get | .getTree => true
    | .checkSession | .checkIndex => rule.all (·.keyRead dirEnt.key)
    | _ => rule.all (·.keyWrite dirEnt.key)
  if dirEnt.key = [] ∧ op ≠ .deleteTree then .error "Must provide key"
  else if !allowed then .error errPermissionDenied
  else .ok (!(op = .lock && delayed dirEnt.key))

def vetNodeTxnOp (op : TxnNodeOp) (rule : Option Authorizer) : Except String Unit :=
  if rule.all (·.nodeWrite (bytesOf op.node.node)) then .ok () else .error errPermissionDenied

def vetServiceTxnOp (op : TxnServiceOp) (rule : Option Authorizer) : Except String Unit :=
  if rule.all (·.serviceWrite (bytesOf op.service.service)) then .ok ()
  else .error errPermissionDenied

def vetCheckTxnOp (op : TxnCheckOp) (rule : Option Authorizer) : Except String Unit :=
  if op.check.serviceID = "" then
    if rule.all (·.nodeWrite (bytesOf op.check.node)) then .ok () else .error errPermissionDenied
  else
    if rule.all (·.serviceWrite (bytesOf op.check.serviceName)) then .ok ()
    else .error errPermissionDenied

/-- The check of one operation. It is the operation with its IDs filled in. -/
def TxnOp.preCheck [Definitions] (delayed : Key → Bool) (rule : Option Authorizer) (op : TxnOp) :
    Except String TxnOp :=
  match op.kv, op.node, op.service, op.check with
  | some kv, _, _, _ => do
    if ← kvsPreApply delayed rule kv.verb kv.dirEnt then return op
    else .error ("failed to lock key " ++ External.quote kv.dirEnt.key ++ " due to lock delay")
  | none, some node, _, _ =>
    if node.verb = .get then .ok op
    else do
      nodePreApply node.node.node node.node.id
      vetNodeTxnOp node rule
      return op
  | none, none, some service, _ =>
    if service.verb = .get then .ok op
    else do
      let svc ← servicePreApply service.service none
      let service := { service with service := svc }
      vetServiceTxnOp service rule
      return { op with service := some service }
  | none, none, none, some check =>
    if check.verb = .get then .ok op
    else do
      let check := { check with check := checkPreApply check.check }
      vetCheckTxnOp check rule
      return { op with check := some check }
  | none, none, none, none => .ok op

/-- The check of the operations from the one at position `i` on: the operations as they are
applied, and the errors. -/
def preCheckFrom [Definitions] (delayed : Key → Bool) (rule : Option Authorizer) :
    Nat → List TxnOp → List TxnOp × List TxnError
  | _, [] => ([], [])
  | i, op :: ops =>
    let (rest, errors) := preCheckFrom delayed rule (i + 1) ops
    match op.preCheck delayed rule with
    | .ok op => (op :: rest, errors)
    | .error what => (op :: rest, { opIndex := i, what := what } :: errors)

def txnPreCheck [Definitions] (delayed : Key → Bool) (rule : Option Authorizer)
    (ops : List TxnOp) : List TxnOp × List TxnError := preCheckFrom delayed rule 0 ops

/-! ## What the operations claim -/

/-- The node for which an operation claims the permission to write. -/
def TxnOp.claimedNode (op : TxnOp) : Option String :=
  match op.kv, op.node, op.service, op.check with
  | none, some node, _, _ => if node.verb = .get then none else some node.node.node
  | none, none, none, some check =>
    if check.verb = .get ∨ check.check.serviceID ≠ "" then none else some check.check.node
  | _, _, _, _ => none

/-- The service for which an operation claims the permission to write. -/
def TxnOp.claimedService (op : TxnOp) : Option String :=
  match op.kv, op.node, op.service, op.check with
  | none, none, some service, _ =>
    if service.verb = .get then none else some service.service.service
  | none, none, none, some check =>
    if check.verb = .get ∨ check.check.serviceID = "" then none else some check.check.serviceName
  | _, _, _, _ => none

/-- The permission to write a node, by its name. -/
def Authorizer.WritesNode (rule : Authorizer) (name : String) : Prop :=
  rule.nodeWrite (bytesOf name) = true

def Authorizer.WritesService (rule : Authorizer) (name : String) : Prop :=
  rule.serviceWrite (bytesOf name) = true

/-- What an operation claims is granted. -/
structure TxnOp.Claims (nodes services : String → Prop) (op : TxnOp) : Prop where
  node : ∀ name, op.claimedNode = some name → nodes name
  service : ∀ name, op.claimedService = some name → services name

/-- An operation that writes a node has a name for it. -/
def TxnOp.Named (op : TxnOp) : Prop :=
  ∀ x, op.kv = none → op.node = some x → x.verb ≠ .get → x.node.node ≠ ""

section PreCheck

variable [Definitions] {delayed : Key → Bool} {rule : Authorizer} {op op' : TxnOp}

omit [External] [Definitions] in
theorem vet_ok {c : Bool} : (if c then .ok () else .error errPermissionDenied :
    Except String Unit) = .ok () ↔ c = true := by
  cases c <;> simp

theorem preCheck_claims (h : op.preCheck delayed (some rule) = .ok op') :
    op'.Claims rule.WritesNode rule.WritesService ∧ op'.Named := by
  obtain ⟨kv, ixn, node, service, check⟩ := op
  unfold preCheck at h
  cases kv with
  | some kv =>
    obtain ⟨b, -, h⟩ := except_bind_ok.mp h
    cases b with
    | false => cases h
    | true =>
      cases h
      exact ⟨⟨nofun, nofun⟩, nofun⟩
  | none =>
  cases node with
  | some node =>
    dsimp only at h
    by_cases hget : node.verb = .get
    · rw [if_pos hget] at h
      cases h
      refine ⟨⟨fun name hname => ?_, nofun⟩, fun x _ hx hverb => ?_⟩
      · simp [claimedNode, hget] at hname
      · cases hx
        exact absurd hget hverb
    · rw [if_neg hget, except_then_ok, except_then_ok] at h
      obtain ⟨hnode, hvet, h⟩ := h
      cases h
      have hwrite := vet_ok.mp hvet
      refine ⟨⟨fun name hname => ?_, nofun⟩, fun x _ hx hverb => ?_⟩
      · simp only [claimedNode, hget, if_false, Option.some.injEq] at hname
        rw [← hname]
        exact hwrite
      · cases hx
        intro hempty
        simp [nodePreApply, hempty] at hnode
  | none =>
  cases service with
  | some service =>
    dsimp only at h
    by_cases hget : service.verb = .get
    · rw [if_pos hget] at h
      cases h
      refine ⟨⟨nofun, fun name hname => ?_⟩, nofun⟩
      simp [claimedService, hget] at hname
    · rw [if_neg hget, except_bind_ok] at h
      obtain ⟨svc, -, h⟩ := h
      rw [except_then_ok] at h
      obtain ⟨hvet, h⟩ := h
      cases h
      refine ⟨⟨nofun, fun name hname => ?_⟩, nofun⟩
      simp only [claimedService, hget, if_false, Option.some.injEq] at hname
      rw [← hname]
      exact vet_ok.mp hvet
  | none =>
  cases check with
  | some check =>
    dsimp only at h
    by_cases hget : check.verb = .get
    · rw [if_pos hget] at h
      cases h
      refine ⟨⟨fun name hname => ?_, fun name hname => ?_⟩, nofun⟩
      · simp [claimedNode, hget] at hname
      · simp [claimedService, hget] at hname
    · rw [if_neg hget, except_then_ok] at h
      obtain ⟨hvet, h⟩ := h
      cases h
      unfold vetCheckTxnOp at hvet
      by_cases hid : (checkPreApply check.check).serviceID = ""
      · simp only [hid, if_true] at hvet
        refine ⟨⟨fun name hname => ?_, fun name hname => ?_⟩, nofun⟩
        · simp [claimedNode, hget, hid] at hname
          rw [← hname]
          exact vet_ok.mp hvet
        · simp [claimedService, hid] at hname
      · simp only [hid, if_false] at hvet
        refine ⟨⟨fun name hname => ?_, fun name hname => ?_⟩, nofun⟩
        · simp [claimedNode, hid] at hname
        · simp [claimedService, hget, hid] at hname
          rw [← hname]
          exact vet_ok.mp hvet
  | none =>
    cases h
    exact ⟨⟨nofun, nofun⟩, nofun⟩

theorem preCheck_writesOnly {nodes services : String → Prop}
    (h : op.preCheck delayed (some rule) = .ok op') (hclaims : op'.Claims nodes services) :
    op.preCheck delayed (some (writesOnly nodes services)) = .ok op' := by
  obtain ⟨kv, ixn, node, service, check⟩ := op
  unfold preCheck at h ⊢
  cases kv with
  | some kv =>
    obtain ⟨b, hb, h⟩ := except_bind_ok.mp h
    refine except_bind_ok.mpr ⟨b, ?_, h⟩
    -- The new authorizer allows everything on keys.
    unfold kvsPreApply at hb ⊢
    rw [ite_error_ok, ite_error_ok] at hb ⊢
    refine ⟨hb.1, ?_, hb.2.2⟩
    cases kv.verb <;> simp [writesOnly, manageAll, staticAuthorizer]
  | none =>
  cases node with
  | some node =>
    dsimp only at h ⊢
    by_cases hget : node.verb = .get
    · rw [if_pos hget] at h ⊢
      exact h
    · rw [if_neg hget, except_then_ok, except_then_ok] at h ⊢
      obtain ⟨hnode, -, h⟩ := h
      cases h
      refine ⟨hnode, vet_ok.mpr (writesOnly_node.mpr (hclaims.node _ ?_)), rfl⟩
      simp [claimedNode, hget]
  | none =>
  cases service with
  | some service =>
    dsimp only at h ⊢
    by_cases hget : service.verb = .get
    · rw [if_pos hget] at h ⊢
      exact h
    · rw [if_neg hget, except_bind_ok] at h ⊢
      obtain ⟨svc, hsvc, h⟩ := h
      refine ⟨svc, hsvc, ?_⟩
      rw [except_then_ok] at h ⊢
      obtain ⟨-, h⟩ := h
      cases h
      refine ⟨vet_ok.mpr (writesOnly_service.mpr (hclaims.service _ ?_)), rfl⟩
      simp [claimedService, hget]
  | none =>
  cases check with
  | some check =>
    dsimp only at h ⊢
    by_cases hget : check.verb = .get
    · rw [if_pos hget] at h ⊢
      exact h
    · rw [if_neg hget, except_then_ok] at h ⊢
      obtain ⟨-, h⟩ := h
      cases h
      refine ⟨?_, rfl⟩
      unfold vetCheckTxnOp
      by_cases hid : (checkPreApply check.check).serviceID = ""
      · simp only [hid, if_true]
        refine vet_ok.mpr (writesOnly_node.mpr (hclaims.node _ ?_))
        simp [claimedNode, hget, hid]
      · simp only [hid, if_false]
        refine vet_ok.mpr (writesOnly_service.mpr (hclaims.service _ ?_))
        simp [claimedService, hget, hid]
  | none => exact h

end PreCheck

end OpenGyoza
