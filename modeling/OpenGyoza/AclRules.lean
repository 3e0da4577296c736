-- The rules of an access control policy, and how they are read from their
-- text. The text is HCL; what its decoder gives is checked rule by rule.
import OpenGyoza.AclStructs

namespace OpenGyoza

/-! ## Rules -/

/-- What a rule grants. -/
inductive Access where
  | deny
  | read
  | write
  | list
deriving DecidableEq

/-- The kinds of resources that have plain rules. Services have rules of their own. -/
inductive Family where
  | agent
  | key
  | node
  | session
  | event
  | preparedQuery
deriving DecidableEq

/-- Whether a rule is for one name or for all names that begin with it. -/
inductive Matching where
  | exact
  | byPrefix
deriving DecidableEq

/-- A rule for the names that its segment matches. -/
structure Rule where
  segment : Key
  policy : Access
deriving DecidableEq

/-- A rule for services. `intentions` may be left out. -/
structure ServicePolicy where
  name : Key
  policy : Access
  intentions : Option Access := none
deriving DecidableEq

/-- A policy, whose rules for services are of the type `ρ`: the rules themselves, or the
addresses at which they stand. -/
structure Policy (ρ : Type) where
  id : String := ""
  revision : Nat := 0
  acl : Option Access := none
  rules : Family → Matching → List Rule := fun _ _ => []
  services : Matching → List ρ := fun _ => []
  keyring : Option Access := none
  operator : Option Access := none

namespace Policy

variable {ρ : Type} (p : Policy ρ)

def agents : List Rule := p.rules .agent .exact

def agentPrefixes : List Rule := p.rules .agent .byPrefix

def keys : List Rule := p.rules .key .exact

def keyPrefixes : List Rule := p.rules .key .byPrefix

def nodes : List Rule := p.rules .node .exact

def nodePrefixes : List Rule := p.rules .node .byPrefix

def sessions : List Rule := p.rules .session .exact

def sessionPrefixes : List Rule := p.rules .session .byPrefix

def events : List Rule := p.rules .event .exact

def eventPrefixes : List Rule := p.rules .event .byPrefix

def preparedQueries : List Rule := p.rules .preparedQuery .exact

def preparedQueryPrefixes : List Rule := p.rules .preparedQuery .byPrefix

def servicePrefixes : List ρ := p.services .byPrefix

end Policy

/-! ## What the decoder gives -/

/-- A rule as it is written. -/
structure RawRule where
  segment : Key
  policy : String

structure RawServicePolicy where
  name : Key
  policy : String
  intentions : String := ""

structure RawPolicy where
  acl : String := ""
  rules : Family → Matching → List RawRule := fun _ _ => []
  services : Matching → List RawServicePolicy := fun _ => []
  keyring : String := ""
  operator : String := ""

/-- A policy in the old form, which has no rules for beginnings of names. -/
structure LegacyPolicy where
  rules : Family → List RawRule := fun _ => []
  services : List RawServicePolicy := []
  keyring : String := ""
  operator : String := ""

/-- The decoder of HCL. -/
class Hcl where
  decode : String → Except String RawPolicy
  decodeLegacy : String → Except String LegacyPolicy

/-! ## Checks -/

/-- What a text grants. Only keys may be listed. -/
def validPolicy (lists : Bool) : String → Option Access
  | "deny" => some .deny
  | "read" => some .read
  | "write" => some .write
  | "list" => if lists then some .list else none
  | _ => none

namespace Family

def noun : Family → String
  | agent => "agent"
  | key => "key"
  | node => "node"
  | session => "session"
  | event => "event"
  | preparedQuery => "query"

/-- The type of a rule and the name of its segment, as Go prints them. -/
def goType : Family → String × String
  | agent => ("AgentPolicy", "Node")
  | key => ("KeyPolicy", "Prefix")
  | node => ("NodePolicy", "Name")
  | session => ("SessionPolicy", "Node")
  | event => ("EventPolicy", "Event")
  | preparedQuery => ("PreparedQueryPolicy", "Prefix")

end Family

def Matching.suffix : Matching → String
  | exact => ""
  | byPrefix => "_prefix"

variable [External]

def RawRule.goString (f : Family) (r : RawRule) : String :=
  "acl." ++ f.goType.1 ++ "\x7b" ++ f.goType.2 ++ ":" ++ External.quote r.segment ++ ", Policy:" ++
    quote r.policy ++ "\x7d"

def RawServicePolicy.goString (sp : RawServicePolicy) : String :=
  "acl.ServicePolicy\x7bName:" ++ External.quote sp.name ++ ", Policy:" ++ quote sp.policy ++
    ", Intentions:" ++ quote sp.intentions ++ "\x7d"

def parseRule (f : Family) (noun : String) (r : RawRule) : Except String Rule :=
  match validPolicy (f == .key) r.policy with
  | some policy => .ok { segment := r.segment, policy := policy }
  | none => .error ("Invalid " ++ noun ++ " policy: " ++ r.goString f)

def parseService (noun : String) (sp : RawServicePolicy) : Except String ServicePolicy :=
  match validPolicy false sp.policy with
  | none => .error ("Invalid " ++ noun ++ " policy: " ++ sp.goString)
  | some policy =>
    if sp.intentions = "" then .ok { name := sp.name, policy := policy }
    else
      match validPolicy false sp.intentions with
      | none => .error ("Invalid " ++ noun ++ " intentions policy: " ++ sp.goString)
      | some intentions =>
        .ok { name := sp.name, policy := policy, intentions := some intentions }

/-- A rule without a segment, which may be left out. -/
def parseSingle (noun policy : String) : Except String (Option Access) :=
  if policy = "" then .ok none
  else
    match validPolicy false policy with
    | some policy => .ok (some policy)
    | none => .error ("Invalid " ++ noun ++ " policy: " ++ quote policy)

/-- What is given for exact names, then what is given for beginnings of names. -/
def parseBoth {α β : Type} (parse : String → α → Except String β) (noun : String)
    (raw : Matching → List α) : Except String (Matching → List β) := do
  let exact ← (raw .exact).mapM (parse noun)
  let prefixes ← (raw .byPrefix).mapM (parse (noun ++ Matching.byPrefix.suffix))
  return fun
    | .exact => exact
    | .byPrefix => prefixes

def parseFamily (f : Family) (raw : Family → Matching → List RawRule) :
    Except String (Matching → List Rule) :=
  parseBoth (parseRule f) f.noun (raw f)

variable [Hcl]

def decodeError (text : String) : String := "Failed to parse ACL rules: " ++ text

def parseCurrent (rules : String) : Except String (Policy ServicePolicy) := do
  let p ← (Hcl.decode rules).mapError decodeError
  let acl ← parseSingle "acl" p.acl
  let agents ← parseFamily .agent p.rules
  let keys ← parseFamily .key p.rules
  let nodes ← parseFamily .node p.rules
  let services ← parseBoth parseService "service" p.services
  let sessions ← parseFamily .session p.rules
  let events ← parseFamily .event p.rules
  let queries ← parseFamily .preparedQuery p.rules
  let keyring ← parseSingle "keyring" p.keyring
  let operator ← parseSingle "operator" p.operator
  let allRules : Family → Matching → List Rule
    | .agent => agents
    | .key => keys
    | .node => nodes
    | .session => sessions
    | .event => events
    | .preparedQuery => queries
  return { acl, rules := allRules, services, keyring, operator }

/-- All rules of the old form are for beginnings of names. -/
def parseLegacy (rules : String) : Except String (Policy ServicePolicy) := do
  let lp ← (Hcl.decodeLegacy rules).mapError decodeError
  let agents ← (lp.rules .agent).mapM (parseRule .agent "agent")
  let keys ← (lp.rules .key).mapM (parseRule .key "key")
  let nodes ← (lp.rules .node).mapM (parseRule .node "node")
  let services ← lp.services.mapM (parseService "service")
  let sessions ← (lp.rules .session).mapM (parseRule .session "session")
  let events ← (lp.rules .event).mapM (parseRule .event "event")
  let queries ← (lp.rules .preparedQuery).mapM (parseRule .preparedQuery "query")
  let keyring ← parseSingle "keyring" lp.keyring
  let operator ← parseSingle "operator" lp.operator
  let prefixes : Family → List Rule
    | .agent => agents
    | .key => keys
    | .node => nodes
    | .session => sessions
    | .event => events
    | .preparedQuery => queries
  return {
    rules := fun f m => match m with
      | .exact => []
      | .byPrefix => prefixes f
    services := fun m => match m with
      | .exact => []
      | .byPrefix => services
    keyring := keyring
    operator := operator }

def newPolicyFromSource (id : String) (revision : Nat) (rules : String)
    (version : SyntaxVersion) : Except String (Policy ServicePolicy) :=
  if rules = "" then .ok { id := id, revision := revision }
  else do
    let policy ← match version with
      | .legacy => parseLegacy rules
      | .current => parseCurrent rules
    return { policy with id := id, revision := revision }

end OpenGyoza
