-- The authorizer of a list of policies. The policies are merged into one,
-- the strongest rule for a segment first, and the merged rules are put into
-- trees. Rules for services are merged in place: they stand in a heap, and
-- a policy holds their addresses.
import OpenGyoza.AclRules
import OpenGyoza.PrefixTree

namespace OpenGyoza

open Memdb PrefixTree

/-! ## The heap -/

structure Heap where
  cells : Matching → Nat → ServicePolicy
  next : Nat := 0

/-- A policy whose rules for services stand in the heap. -/
abbrev StoredPolicy := Policy Nat

/-- Puts the rules of a parsed policy at new addresses. -/
def Heap.store (h : Heap) (p : Policy ServicePolicy) : StoredPolicy × Heap :=
  ({ p with services := fun m => List.range' h.next (p.services m).length },
   { cells := fun m a =>
       if a < h.next then h.cells m a else ((p.services m)[a - h.next]?).getD (h.cells m a)
     next := h.next + (p.services .exact).length + (p.services .byPrefix).length })

/-- The rules of a policy as they now are. -/
def Heap.load (h : Heap) (p : StoredPolicy) : Policy ServicePolicy :=
  { p with services := fun m => (p.services m).map (h.cells m) }

/-! ## Merging -/

/-- When the permission `a` takes the place of `b`. A missing one is `none`. -/
def takesPrecedenceOver (a b : Option Access) : Bool :=
  if a = some .deny then true
  else if b = some .deny then false
  else if a = some .write then true
  else if b = some .write then false
  else if a = some .list then true
  else if b = some .list then false
  else if a = some .read then true
  else if b = some .read then false
  else false

def stronger (a b : Option Access) : Option Access := if takesPrecedenceOver a b then a else b

/-- Adds a rule to the rules by segment. -/
def mergeRule (merged : List Rule) (r : Rule) : List Rule :=
  match merged.find? (·.segment = r.segment) with
  | none => merged ++ [r]
  | some permission =>
    if takesPrecedenceOver (some r.policy) (some permission.policy) then
      merged.map fun q => if q.segment = r.segment then r else q
    else merged

/-- The rule that is already there, with what the new one grants beyond it. -/
def ServicePolicy.combine (existing sp : ServicePolicy) : ServicePolicy :=
  { existing with
    policy := if takesPrecedenceOver (some sp.policy) (some existing.policy) then sp.policy
      else existing.policy
    intentions := stronger sp.intentions existing.intentions }

/-- Adds a rule for services to those by name. The first rule with a name is kept, and is
changed by those that follow. -/
def mergeService (merged : List Nat × (Nat → ServicePolicy)) (sp : Nat) :
    List Nat × (Nat → ServicePolicy) :=
  match merged.1.find? fun a => (merged.2 a).name = (merged.2 sp).name with
  | none => (merged.1 ++ [sp], merged.2)
  | some existing =>
    (merged.1, Function.update merged.2 existing ((merged.2 existing).combine (merged.2 sp)))

/-- The maps that are filled by a merge, and the heap. -/
structure Merging where
  acl : Option Access := none
  rules : Family → Matching → List Rule := fun _ _ => []
  services : Matching → List Nat := fun _ => []
  keyring : Option Access := none
  operator : Option Access := none
  heap : Heap

def mergePolicy (acc : Merging) (p : StoredPolicy) : Merging :=
  let services := fun m => (p.services m).foldl mergeService (acc.services m, acc.heap.cells m)
  { acl := stronger p.acl acc.acl
    rules := fun f m => (p.rules f m).foldl mergeRule (acc.rules f m)
    services := fun m => (services m).1
    keyring := stronger p.keyring acc.keyring
    operator := stronger p.operator acc.operator
    heap := { acc.heap with cells := fun m => (services m).2 } }

/-- The order in which Go walks the entries of a map. It is not the same in every walk. -/
structure MapOrder where
  rules : List Rule → List Rule
  addresses : List Nat → List Nat
  rules_perm : ∀ l, (rules l).Perm l
  addresses_perm : ∀ l, (addresses l).Perm l

/-- The hash function of the IDs, which gives no two texts the same hash. -/
class Blake2b where
  sum256 : List Byte → List Byte
  hex : List Byte → String
  sum256_injective : Function.Injective sum256
  hex_injective : Function.Injective hex

/-- A number of 64 bits, most significant byte first. -/
def bigEndian (n : Nat) : List Byte :=
  (List.range 8).reverse.map fun i => Fin.ofNat 256 (n / 256 ^ i)

section Merge

variable [Blake2b]

def multiPolicyID (policies : List StoredPolicy) : List Byte :=
  Blake2b.sum256 (policies.flatMap fun p => bytesOf p.id ++ bigEndian p.revision)

def mergePolicies (order : MapOrder) (policies : List StoredPolicy) (heap : Heap) :
    StoredPolicy × Heap :=
  let merging := policies.foldl mergePolicy { heap := heap }
  ({ id := Blake2b.hex (multiPolicyID policies)
     acl := merging.acl
     rules := fun f m => order.rules (merging.rules f m)
     services := fun m => order.addresses (merging.services m)
     keyring := merging.keyring
     operator := merging.operator }, merging.heap)

end Merge

/-! ## Trees of rules -/

structure Leaf where
  exactRule : Option Access := none
  prefixRule : Option Access := none
deriving DecidableEq

abbrev RuleTree := Tree Byte Leaf

/-- The exact rule for a segment, or else the rule for its longest beginning. -/
def getPolicy (segment : Key) (tree : RuleTree) : Option Access :=
  tree.walkPath segment (fun found path leaf =>
    if leaf.exactRule.isSome ∧ path = segment then (leaf.exactRule, true)
    else (leaf.prefixRule.or found, false)) none

def insertPolicyIntoRadix (segment : Key) (exactPolicy prefixPolicy : Option Access)
    (tree : RuleTree) : RuleTree :=
  match tree.lookup segment with
  | some leaf =>
    tree.insert segment { exactRule := exactPolicy.or leaf.exactRule
                          prefixRule := prefixPolicy.or leaf.prefixRule }
  | none => tree.insert segment { exactRule := exactPolicy, prefixRule := prefixPolicy }

def insertRule (m : Matching) (tree : RuleTree) (r : Rule) : RuleTree :=
  match m with
  | .exact => insertPolicyIntoRadix r.segment (some r.policy) none tree
  | .byPrefix => insertPolicyIntoRadix r.segment none (some r.policy) tree

/-- A tree with exact rules and rules for beginnings of names. -/
def loadRules (exact prefixes : List Rule) : RuleTree :=
  prefixes.foldl (insertRule .byPrefix) (exact.foldl (insertRule .exact) Table.empty)

/-- Whether a rule grants what is asked for, and whether the parent has to be asked. -/
def enforce (rule : Option Access) (requiredPermission : Access) : Bool × Bool :=
  match rule with
  | some .write => (true, false)
  | some .list =>
    if requiredPermission = .list ∨ requiredPermission = .read then (true, false)
    else (false, false)
  | some .read => if requiredPermission = .read then (true, false) else (false, false)
  | some .deny => (false, false)
  | none => (false, true)

/-! ## Authorizers -/

/-- What an authorizer decides. -/
structure Authorizer where
  aclRead : Bool
  aclWrite : Bool
  agentRead : Key → Bool
  agentWrite : Key → Bool
  eventRead : Key → Bool
  eventWrite : Key → Bool
  intentionDefaultAllow : Bool
  intentionRead : Key → Bool
  intentionWrite : Key → Bool
  keyList : Key → Bool
  keyRead : Key → Bool
  keyWrite : Key → Bool
  keyWritePrefix : Key → Bool
  keyringRead : Bool
  keyringWrite : Bool
  nodeRead : Key → Bool
  nodeWrite : Key → Bool
  operatorRead : Bool
  operatorWrite : Bool
  preparedQueryRead : Key → Bool
  preparedQueryWrite : Key → Bool
  serviceRead : Key → Bool
  serviceWrite : Key → Bool
  sessionRead : Key → Bool
  sessionWrite : Key → Bool
  snapshot : Bool

/-- An authorizer that allows all or nothing. -/
def staticAuthorizer (allowManage defaultAllow : Bool) : Authorizer where
  aclRead := allowManage
  aclWrite := allowManage
  agentRead _ := defaultAllow
  agentWrite _ := defaultAllow
  eventRead _ := defaultAllow
  eventWrite _ := defaultAllow
  intentionDefaultAllow := defaultAllow
  intentionRead _ := defaultAllow
  intentionWrite _ := defaultAllow
  keyList _ := defaultAllow
  keyRead _ := defaultAllow
  keyWrite _ := defaultAllow
  keyWritePrefix _ := defaultAllow
  keyringRead := defaultAllow
  keyringWrite := defaultAllow
  nodeRead _ := defaultAllow
  nodeWrite _ := defaultAllow
  operatorRead := defaultAllow
  operatorWrite := defaultAllow
  preparedQueryRead _ := defaultAllow
  preparedQueryWrite _ := defaultAllow
  serviceRead _ := defaultAllow
  serviceWrite _ := defaultAllow
  sessionRead _ := defaultAllow
  sessionWrite _ := defaultAllow
  snapshot := allowManage

def allowAll : Authorizer := staticAuthorizer false true

def denyAll : Authorizer := staticAuthorizer false false

def manageAll : Authorizer := staticAuthorizer true true

/-- An authorizer that decides by rules, and asks its parent when there is none. -/
structure PolicyAuthorizer where
  parent : Authorizer
  aclRule : Option Access
  agentRules : RuleTree
  intentionRules : RuleTree
  keyRules : RuleTree
  nodeRules : RuleTree
  serviceRules : RuleTree
  sessionRules : RuleTree
  eventRules : RuleTree
  preparedQueryRules : RuleTree
  keyringRule : Option Access
  operatorRule : Option Access

/-- What a rule for services says about its intentions. -/
def ServicePolicy.intention (sp : ServicePolicy) : Access :=
  match sp.intentions with
  | some intention => intention
  | none =>
    match sp.policy with
    | .read => .read
    | .write => .read
    | _ => .deny

def ServicePolicy.rule (sp : ServicePolicy) : Rule := { segment := sp.name, policy := sp.policy }

def ServicePolicy.intentionRule (sp : ServicePolicy) : Rule :=
  { segment := sp.name, policy := sp.intention }

section New

variable [Blake2b]

def newPolicyAuthorizer (order : MapOrder) (parent : Authorizer) (policies : List StoredPolicy)
    (heap : Heap) : PolicyAuthorizer × Heap :=
  let (merged, heap) := mergePolicies order policies heap
  let policy := heap.load merged
  ({ parent := parent
     aclRule := policy.acl
     agentRules := loadRules policy.agents policy.agentPrefixes
     intentionRules := loadRules ((policy.services .exact).map ServicePolicy.intentionRule)
       (policy.servicePrefixes.map ServicePolicy.intentionRule)
     keyRules := loadRules policy.keys policy.keyPrefixes
     nodeRules := loadRules policy.nodes policy.nodePrefixes
     serviceRules := loadRules ((policy.services .exact).map ServicePolicy.rule)
       (policy.servicePrefixes.map ServicePolicy.rule)
     sessionRules := loadRules policy.sessions policy.sessionPrefixes
     eventRules := loadRules policy.events policy.eventPrefixes
     preparedQueryRules := loadRules policy.preparedQueries policy.preparedQueryPrefixes
     keyringRule := policy.keyring
     operatorRule := policy.operator }, heap)

end New

namespace PolicyAuthorizer

/-- Decides by a rule, or asks the parent. -/
def byRule (rule : Option Access) (required : Access) (parent : Bool) : Bool :=
  match enforce rule required with
  | (allow, false) => allow
  | (_, true) => parent

/-- Decides by the rule for a name, or asks the parent. -/
def byTree (tree : RuleTree) (name : Key) (required : Access) (parent : Key → Bool) : Bool :=
  byRule (getPolicy name tree) required (parent name)

def keyWritePrefix (p : PolicyAuthorizer) (path : Key) : Bool :=
  let parentAllows := p.parent.keyWritePrefix path
  let (found, prefixAllowed) := p.keyRules.walkPath path (fun state _ leaf =>
    match leaf.prefixRule with
    | some rule => ((true, rule == .write), false)
    | none => (state, false)) (false, parentAllows)
  if !prefixAllowed then false
  else
    let denied := p.keyRules.walkPrefix path (fun denied _ leaf =>
      if leaf.prefixRule.any (· ≠ .write) then (true, true)
      else if leaf.exactRule.any (· ≠ .write) then (true, true)
      else (denied, false)) false
    if denied then false
    else if found then true
    else parentAllows

variable (p : PolicyAuthorizer)

def toAuthorizer : Authorizer where
  aclRead := byRule p.aclRule .read p.parent.aclRead
  aclWrite := byRule p.aclRule .write p.parent.aclWrite
  agentRead node := byTree p.agentRules node .read p.parent.agentRead
  agentWrite node := byTree p.agentRules node .write p.parent.agentWrite
  eventRead name := byTree p.eventRules name .read p.parent.eventRead
  eventWrite name := byTree p.eventRules name .write p.parent.eventWrite
  intentionDefaultAllow := p.parent.intentionDefaultAllow
  intentionRead name := byTree p.intentionRules name .read p.parent.intentionRead
  intentionWrite name := byTree p.intentionRules name .write p.parent.intentionWrite
  keyList key := byTree p.keyRules key .list p.parent.keyList
  keyRead key := byTree p.keyRules key .read p.parent.keyRead
  keyWrite key := byTree p.keyRules key .write p.parent.keyWrite
  keyWritePrefix := p.keyWritePrefix
  keyringRead := byRule p.keyringRule .read p.parent.keyringRead
  keyringWrite := byRule p.keyringRule .write p.parent.keyringWrite
  nodeRead name := byTree p.nodeRules name .read p.parent.nodeRead
  nodeWrite name := byTree p.nodeRules name .write p.parent.nodeWrite
  operatorRead := byRule p.operatorRule .read p.parent.operatorRead
  operatorWrite := byRule p.operatorRule .write p.parent.operatorWrite
  preparedQueryRead name := byTree p.preparedQueryRules name .read p.parent.preparedQueryRead
  preparedQueryWrite name := byTree p.preparedQueryRules name .write p.parent.preparedQueryWrite
  serviceRead name := byTree p.serviceRules name .read p.parent.serviceRead
  serviceWrite name := byTree p.serviceRules name .write p.parent.serviceWrite
  sessionRead node := byTree p.sessionRules node .read p.parent.sessionRead
  sessionWrite node := byTree p.sessionRules node .write p.parent.sessionWrite
  snapshot := byRule p.aclRule .write p.parent.snapshot

end PolicyAuthorizer

end OpenGyoza
