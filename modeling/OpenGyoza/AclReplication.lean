-- Policies, roles and tokens of the primary datacenter, copied to a
-- secondary one. A round compares the two sides, deletes what the primary no
-- longer has and writes what changed, in batches through the log. The three
-- kinds share the round; what they do with a refused batch differs.
import OpenGyoza.AclStore
import OpenGyoza.Replication

namespace OpenGyoza

open Memdb Replication

/-! ## What a round works with -/

/-- What is compared of an item. -/
structure ItemMeta where
  id : String
  modIndex : Nat
  hash : List Byte
deriving DecidableEq

inductive Phase where
  | deletes
  | updates
deriving DecidableEq

structure Surroundings where
  stoppedAtFetch : Bool := false
  raft : Phase → Nat → Except String Nat
  stopped : Phase → Nat → Bool := fun _ _ => false

def aclBatchDeleteSize : Nat := 4096

def aclBatchUpsertSize : Nat := 256 * 1024

/-- How one batch came out, or the whole of them. -/
inductive Outcome where
  | finished
  | exit
  | failed (text : String)
deriving DecidableEq

/-- What a round returns. `responses` are the answers of the state machine to its batches. -/
structure Round where
  index : Nat
  exit : Bool
  err : Option String
  responses : List (Except Fault Unit)

variable [External]

/-- One kind of item, as the interface `aclTypeReplicator` has it. -/
structure ACLTypeReplicator (α : Type) where
  singularNoun : String
  pluralNoun : String
  toMeta : α → ItemMeta
  /-- The list that the primary datacenter sends. -/
  fetchRemote : StoreTxn (List α)
  fetchLocal : StoreTxn (List α)
  /-- The items with the given IDs in full, from the list and the store of the primary. -/
  fetchUpdated : List α → List String → StoreTxn (List α)
  isRedacted : α → Bool
  estimatedSize : α → Nat
  deleteLocalBatch : Nat → List String → StoreTxn Unit
  updateLocalBatch : Nat → List α → StoreTxn Unit
  /-- Whether an error that the state machine answers to a batch ends the round. -/
  noticesDelete : Bool
  noticesUpdate : Bool

/-! ## The three kinds -/

def ACLServiceIdentity.estimateSize (svcid : ACLServiceIdentity) : Nat :=
  svcid.serviceName.utf8ByteSize + (svcid.datacenters.map String.utf8ByteSize).sum

def linkSize (link : ACLLink) : Nat := link.id.utf8ByteSize + link.name.utf8ByteSize

def ACLToken.estimateSize (t : ACLToken) : Nat :=
  41 + t.accessorID.utf8ByteSize + t.secretID.utf8ByteSize + t.description.utf8ByteSize +
    t.type.utf8ByteSize + t.rules.utf8ByteSize + t.authMethod.utf8ByteSize +
    (t.policies.map linkSize).sum + (t.roles.map linkSize).sum +
    (t.serviceIdentities.map ACLServiceIdentity.estimateSize).sum

def ACLPolicy.estimateSize (p : ACLPolicy) : Nat :=
  64 + p.name.utf8ByteSize + p.description.utf8ByteSize + p.rules.utf8ByteSize +
    (p.datacenters.map String.utf8ByteSize).sum

def ACLRole.estimateSize (r : ACLRole) : Nat :=
  60 + r.name.utf8ByteSize + r.description.utf8ByteSize + (r.policies.map linkSize).sum +
    (r.serviceIdentities.map ACLServiceIdentity.estimateSize).sum

def redactedToken : String := "<hidden>"

def errContainsRedactedData : String := "replication results contain redacted data"

def ACLToken.isExpired (t : ACLToken) (asOf : Time) : Bool :=
  asOf != zeroTime && t.hasExpirationTime && t.expirationTime.any (· < asOf)

def aclTokenReplicator (now : Time) (redacts : Bool) : ACLTypeReplicator ACLToken where
  singularNoun := "token"
  pluralNoun := "tokens"
  toMeta t := { id := t.accessorID, modIndex := t.modifyIndex, hash := t.hash }
  fetchRemote := return (← aclTokenListGlobal).filter (!·.isExpired now)
  fetchLocal := aclTokenListGlobal
  fetchUpdated _ updates := do
    if redacts then Txn.fail errContainsRedactedData
    else aclTokenBatchGet updates
  isRedacted t := t.secretID == redactedToken
  estimatedSize := ACLToken.estimateSize
  deleteLocalBatch := aclTokenBatchDelete
  updateLocalBatch idx := aclTokenBatchSet idx false true false
  noticesDelete := true
  noticesUpdate := true

/-- Policies. After an update the answer is only looked at when the log has failed, which has
ended the round before. -/
def aclPolicyReplicator : ACLTypeReplicator ACLPolicy where
  singularNoun := "policy"
  pluralNoun := "policies"
  toMeta p := { id := p.id, modIndex := p.modifyIndex, hash := p.hash }
  fetchRemote := Txn.read aclPolicyList
  fetchLocal := Txn.read aclPolicyList
  fetchUpdated _ updates := aclPolicyBatchGet updates
  isRedacted _ := false
  estimatedSize := ACLPolicy.estimateSize
  deleteLocalBatch := aclPolicyBatchDelete
  updateLocalBatch := aclPolicyBatchSet
  noticesDelete := true
  noticesUpdate := false

/-- Roles. Their list is sent in full, so nothing more is fetched. Both answers are only looked
at when the log has failed. -/
def aclRoleReplicator : ACLTypeReplicator ACLRole where
  singularNoun := "role"
  pluralNoun := "roles"
  toMeta r := { id := r.id, modIndex := r.modifyIndex, hash := r.hash }
  fetchRemote := aclRoleList
  fetchLocal := aclRoleList
  fetchUpdated remote updates := do
    let subset := remote.filter fun role => updates.contains role.id
    if subset.length ≠ updates.eraseDups.length then
      let missing := updates.eraseDups.filter fun id => !subset.any (·.id == id)
      Txn.fail ("role replication trying to replicated uncached roles with IDs: [" ++
        " ".intercalate missing ++ "]")
    else return subset
  isRedacted _ := false
  estimatedSize := ACLRole.estimateSize
  deleteLocalBatch := aclRoleBatchDelete
  updateLocalBatch idx := aclRoleBatchSet idx true
  noticesDelete := false
  noticesUpdate := false

/-! ## The round -/

section Round

variable {α : Type} (tr : ACLTypeReplicator α)

/-- Items in the order of their IDs. -/
def sortState (l : List α) : List α :=
  l.insertionSort fun a b => (tr.toMeta a).id ≤ (tr.toMeta b).id

omit [External] in
/-- The IDs to delete and the IDs to write. Items with an empty ID are passed over. -/
def diffACLType (lastRemoteIndex : Nat) (locals remotes : List ItemMeta) : Diff String String :=
  let diff := walk ItemMeta.id ItemMeta.id
    (fun l r => decide (lastRemoteIndex < r.modIndex) && r.hash != l.hash)
    (fun l => l.id == "") (fun r => r.id == "") locals remotes
  { deletes := diff.deletes.map (·.id)
    updates := diff.updates.map (·.id) }

def applyBatches {β : Type} (around : Surroundings) (phase : Phase)
    (apply : Nat → List β → StoreTxn Unit) (redacted : β → Bool) (notices : Bool)
    (redactedText failedText : String) :
    Nat → List (List β) → State → (Outcome × List (Except Fault Unit)) × State
  | _, [], s => ((.finished, []), s)
  | i, batch :: batches, s =>
    if batch.any redacted then ((.failed redactedText, []), s)
    else
      match around.raft phase i with
      | .error text => ((.failed (failedText ++ text), []), s)
      | .ok idx =>
        let response := (apply idx batch s).1
        let s' := Txn.commit (apply idx batch) (fun _ => true) s
        match notices, response with
        | _, .error (.panic text) => ((.failed text, [response]), s')
        | true, .error (.error text) => ((.failed (failedText ++ text), [response]), s')
        | _, _ =>
          if !batches.isEmpty && around.stopped phase i then ((.exit, [response]), s')
          else
            let (rest, s'') := applyBatches around phase apply redacted notices redactedText
              failedText (i + 1) batches s'
            ((rest.1, response :: rest.2), s'')

def deleteLocalACLType (around : Surroundings) (deletions : List String) (s : State) :
    (Outcome × List (Except Fault Unit)) × State :=
  applyBatches around .deletes tr.deleteLocalBatch (fun _ => false) tr.noticesDelete ""
    ("Failed to apply " ++ tr.singularNoun ++ " deletions: ") 0
    (batches (fun _ => 1) aclBatchDeleteSize deletions) s

def updateLocalACLType (around : Surroundings) (updated : List α) (s : State) :
    (Outcome × List (Except Fault Unit)) × State :=
  applyBatches around .updates tr.updateLocalBatch tr.isRedacted tr.noticesUpdate
    ("Detected redacted " ++ tr.singularNoun ++ " secrets: stopping " ++ tr.singularNoun ++
      " update round - verify that the replication token in use has acl:write permissions.")
    ("Failed to apply " ++ tr.singularNoun ++ " upserts: ") 0
    (batches tr.estimatedSize aclBatchUpsertSize updated) s

/-- A round that ends with an error. -/
def roundError (text : String) (responses : List (Except Fault Unit)) : Round :=
  { index := 0, exit := false, err := some text, responses := responses }

def roundExit (responses : List (Except Fault Unit)) : Round :=
  { index := 0, exit := true, err := none, responses := responses }

omit [External] in
def faultText : Fault → String
  | .error text => text
  | .panic text => text

/-- The items to write, if there are any. -/
def fetchPending (remotes : List α) (updates : List String) : StoreTxn (List α) :=
  let context (text : String) :=
    if text = errContainsRedactedData then
      "failed to retrieve unredacted " ++ tr.pluralNoun ++
        " - replication token in use does not grant acl:write"
    else "failed to retrieve ACL " ++ tr.singularNoun ++ " updates: " ++ text
  if updates.isEmpty then pure []
  else Txn.wrap context (tr.fetchUpdated remotes updates)

def replicateACLType (around : Surroundings) (primary : State) (remoteIndex lastRemoteIndex : Nat)
    (s : State) : Round × State :=
  match (tr.fetchRemote primary).1 with
  | .error fault =>
    (roundError ("failed to retrieve remote ACL " ++ tr.pluralNoun ++ ": " ++ faultText fault) [],
      s)
  | .ok remotes =>
    if around.stoppedAtFetch then (roundExit [], s)
    else
      match (tr.fetchLocal s).1 with
      | .error fault =>
        (roundError ("failed to retrieve local ACL " ++ tr.pluralNoun ++ ": " ++ faultText fault)
          [], s)
      | .ok locals =>
        -- When the index of the primary went backwards everything is compared.
        let lastRemoteIndex := if remoteIndex < lastRemoteIndex then 0 else lastRemoteIndex
        let remotes := sortState tr remotes
        let res := diffACLType lastRemoteIndex ((sortState tr locals).map tr.toMeta)
          (remotes.map tr.toMeta)
        match (fetchPending tr remotes res.updates primary).1 with
        | .error fault => (roundError (faultText fault) [], s)
        | .ok updated =>
          match deleteLocalACLType tr around res.deletes s with
          | ((.exit, responses), s₁) => (roundExit responses, s₁)
          | ((.failed text, responses), s₁) =>
            (roundError ("failed to delete local ACL " ++ tr.pluralNoun ++ ": " ++ text) responses,
              s₁)
          | ((.finished, responses), s₁) =>
            match updateLocalACLType tr around updated s₁ with
            | ((.exit, responses'), s₂) => (roundExit (responses ++ responses'), s₂)
            | ((.failed text, responses'), s₂) =>
              (roundError ("failed to update local ACL " ++ tr.pluralNoun ++ ": " ++ text)
                (responses ++ responses'), s₂)
            | ((.finished, responses'), s₂) =>
              ({ index := remoteIndex, exit := false, err := none
                 responses := responses ++ responses' }, s₂)

end Round

/-! ## The kinds of items -/

/-- The three kinds that are replicated. Of tokens only the global ones are, and the primary
lists those that are not expired. -/
inductive ACLKind where
  | policies
  | roles
  | tokens (now : Time) (redacts : Bool)

/-- One round for a kind of items. -/
def ACLKind.replicate (around : Surroundings) (primary : State)
    (remoteIndex lastRemoteIndex : Nat) (s : State) : ACLKind → Round × State
  | policies => replicateACLType aclPolicyReplicator around primary remoteIndex lastRemoteIndex s
  | roles => replicateACLType aclRoleReplicator around primary remoteIndex lastRemoteIndex s
  | tokens now redacts =>
    replicateACLType (aclTokenReplicator now redacts) around primary remoteIndex lastRemoteIndex s

end OpenGyoza
