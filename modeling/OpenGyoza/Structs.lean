-- The records of the state store, as in the package structs: what a node, a
-- service, a check, a session, a key or a query holds, and when two of them
-- count as the same.
import OpenGyoza.Txn

namespace OpenGyoza

open Memdb

/-! ## Values of Go -/

abbrev Byte := Fin 256

instance byteCount : NeZero 256 := ⟨by decide⟩

/-- A Go map with string keys. `none` is the nil map, which is not equal to an empty one. -/
abbrev GoMap (α : Type) :=
  Option (Table (fun p : String × α => (.ok p.1 : Except String String)))

/-- A Go slice of strings. `none` is the nil slice. -/
abbrev GoStrings := Option (List String)

/-- The bytes of a string. -/
def bytesOf (s : String) : List Byte := s.toUTF8.data.toList.map UInt8.toFin

theorem bytesOf_injective : Function.Injective bytesOf := by
  intro a b h
  have hfin : Function.Injective UInt8.toFin := fun x y h => UInt8.toFin_inj.mp h
  have hbytes : a.toUTF8 = b.toUTF8 := by
    apply ByteArray.ext
    exact Array.toList_inj.mp (List.map_injective_iff.mpr hfin h)
  exact String.toByteArray_inj.mp hbytes

theorem zero_mem_bytesOf {s : String} : 0 ∈ bytesOf s ↔ Char.ofNat 0 ∈ s.toList := by
  obtain ⟨l, rfl⟩ : ∃ l, s = String.ofList l := ⟨s.toList, by simp⟩
  have hbytes : bytesOf (String.ofList l) = (l.flatMap String.utf8EncodeChar).map UInt8.toFin := by
    simp [bytesOf, List.utf8Encode]
  have hzero : ∀ n : Nat, n < 256 → ((UInt8.ofNat n).toFin = 0 ↔ n = 0) := by
    intro n hn
    rw [← Fin.val_inj]
    simp [Nat.mod_eq_of_lt hn]
  have hchar : ∀ c : Char, 0 ∈ (String.utf8EncodeChar c).map UInt8.toFin ↔ Char.ofNat 0 = c := by
    intro c
    have hc : Char.ofNat 0 = c ↔ c.val.toNat = 0 := by
      rw [eq_comm, ← Char.toNat_inj]
      rfl
    rw [hc]
    unfold String.utf8EncodeChar
    grind
  rw [hbytes, String.toList_ofList, List.map_flatMap]
  simp [-List.mem_map, hchar]

theorem bytesOf_append (s t : String) : bytesOf (s ++ t) = bytesOf s ++ bytesOf t := by
  simp [bytesOf]

/-! ## Nodes -/

/-- A node. `node` is its name. -/
structure Node where
  id : String := ""
  node : String
  address : String := ""
  datacenter : String := ""
  taggedAddresses : GoMap String := none
  metadata : GoMap String := none
  createIndex : Nat := 0
  modifyIndex : Nat := 0
deriving DecidableEq

/-- Equal but for the raft indexes. -/
def Node.isSame (n other : Node) : Bool :=
  n.id == other.id && n.node == other.node && n.address == other.address &&
    n.datacenter == other.datacenter && n.taggedAddresses == other.taggedAddresses &&
    n.metadata == other.metadata

/-! ## Services -/

inductive ServiceKind where
  | typical
  | connectProxy
  | meshGateway
  | other (text : String)
deriving DecidableEq

structure Weights where
  passing : Int
  warning : Int
deriving DecidableEq

structure ServiceAddress where
  address : String
  port : Int
deriving DecidableEq

structure ConnectProxyConfig where
  destinationServiceName : String := ""
  destinationServiceID : String := ""
  localServiceAddress : String := ""
  localServicePort : Int := 0
  settings : String := ""
deriving DecidableEq

/-- `sidecarService` is the encoded form of the nested definition. -/
structure ServiceConnect where
  native : Bool := false
  sidecarService : Option String := none
deriving DecidableEq

/-- A service as it is registered, without its node. -/
structure NodeService where
  kind : ServiceKind := .typical
  id : String
  service : String
  tags : GoStrings := none
  address : String := ""
  taggedAddresses : GoMap ServiceAddress := none
  metadata : GoMap String := none
  port : Int := 0
  weights : Option Weights := none
  enableTagOverride : Bool := false
  proxy : ConnectProxyConfig := {}
  connect : ServiceConnect := {}
  createIndex : Nat := 0
  modifyIndex : Nat := 0
deriving DecidableEq

/-- A service as the store holds it: one instance on one node. -/
structure ServiceNode where
  node : String
  serviceKind : ServiceKind
  serviceID : String
  serviceName : String
  serviceTags : GoStrings
  serviceAddress : String
  serviceTaggedAddresses : GoMap ServiceAddress
  serviceWeights : Weights
  serviceMeta : GoMap String
  servicePort : Int
  serviceEnableTagOverride : Bool
  serviceProxy : ConnectProxyConfig
  serviceConnect : ServiceConnect
  createIndex : Nat
  modifyIndex : Nat
deriving DecidableEq

def ServiceNode.toNodeService (s : ServiceNode) : NodeService where
  kind := s.serviceKind
  id := s.serviceID
  service := s.serviceName
  tags := s.serviceTags
  address := s.serviceAddress
  taggedAddresses := s.serviceTaggedAddresses
  metadata := s.serviceMeta
  port := s.servicePort
  weights := some s.serviceWeights
  enableTagOverride := s.serviceEnableTagOverride
  proxy := s.serviceProxy
  connect := s.serviceConnect
  createIndex := s.createIndex
  modifyIndex := s.modifyIndex

def validateWeights : Option Weights → Except String Unit
  | none => .ok ()
  | some w =>
    if w.passing < 1 then .error "Passing must be greater than 0"
    else if w.warning < 0 then .error "Warning must be greater or equal than 0"
    else if w.passing > 65535 ∨ w.warning > 65535 then
      .error "DNS Weight must be between 0 and 65535"
    else .ok ()

/-- The weights that are stored: weights that are missing or not valid become 1 and 1. -/
def NodeService.storedWeights (s : NodeService) : Weights :=
  match s.weights, validateWeights s.weights with
  | some w, .ok () => w
  | _, _ => { passing := 1, warning := 1 }

def NodeService.toServiceNode (s : NodeService) (node : String) : ServiceNode where
  node := node
  serviceKind := s.kind
  serviceID := s.id
  serviceName := s.service
  serviceTags := s.tags
  serviceAddress := s.address
  serviceTaggedAddresses := s.taggedAddresses
  serviceWeights := s.storedWeights
  serviceMeta := s.metadata
  servicePort := s.port
  serviceEnableTagOverride := s.enableTagOverride
  serviceProxy := s.proxy
  serviceConnect := s.connect
  createIndex := s.createIndex
  modifyIndex := s.modifyIndex

/-- Equal but for the raft indexes. -/
def NodeService.isSame (s other : NodeService) : Bool :=
  s.id == other.id && s.service == other.service && s.tags == other.tags &&
    s.address == other.address && s.port == other.port &&
    s.taggedAddresses == other.taggedAddresses && s.weights == other.weights &&
    s.metadata == other.metadata && s.enableTagOverride == other.enableTagOverride &&
    s.kind == other.kind && s.proxy == other.proxy && s.connect == other.connect

/-- Equal but for the raft indexes. -/
def ServiceNode.isSameService (s other : ServiceNode) : Bool :=
  s.node == other.node && s.serviceKind == other.serviceKind &&
    s.serviceID == other.serviceID && s.serviceName == other.serviceName &&
    s.serviceTags == other.serviceTags && s.serviceAddress == other.serviceAddress &&
    s.serviceTaggedAddresses == other.serviceTaggedAddresses &&
    s.servicePort == other.servicePort && s.serviceMeta == other.serviceMeta &&
    s.serviceWeights == other.serviceWeights &&
    s.serviceEnableTagOverride == other.serviceEnableTagOverride &&
    s.serviceProxy == other.serviceProxy && s.serviceConnect == other.serviceConnect

/-! ## Metadata of a service -/

def metaMaxKeyPairs : Nat := 64
def metaKeyMaxLength : Nat := 128
def metaValueMaxLength : Nat := 512
def metaKeyReservedPrefix : String := "consul-"

/-- The characters of a metadata key: letters, digits, `_` and `-`. -/
def metaKeyFormat (key : String) : Bool :=
  key.toList.all fun c => c.isAlphanum || c == '_' || c == '-'

def validateMetaPair (key value : String) (allowConsulPrefix : Bool) : Except String Unit :=
  if key = "" then .error "Key cannot be blank"
  else if !metaKeyFormat key then .error "Key contains invalid characters"
  else if key.utf8ByteSize > metaKeyMaxLength then
    .error ("Key is too long (limit: " ++ toString metaKeyMaxLength ++ " characters)")
  else if metaKeyReservedPrefix.toList.isPrefixOf key.toList && !allowConsulPrefix then
    .error ("Key prefix '" ++ metaKeyReservedPrefix ++ "' is reserved for internal use")
  else if value.utf8ByteSize > metaValueMaxLength then
    .error ("Value is too long (limit: " ++ toString metaValueMaxLength ++ " characters)")
  else .ok ()

/-- The pairs of a map. The nil map has none. -/
def pairsOf {α : Type} (m : GoMap α) : List (String × α) := (m.map Table.values).getD []

/-- A failing pair is named in the error, the first one in key order. -/
def validateMetaPairs (allowConsulPrefix : Bool) : List (String × String) → Except String Unit
  | [] => .ok ()
  | (key, value) :: rest =>
    match validateMetaPair key value allowConsulPrefix with
    | .error text =>
      .error ("Couldn't load metadata pair ('" ++ key ++ "', '" ++ value ++ "'): " ++ text)
    | .ok () => validateMetaPairs allowConsulPrefix rest

def validateMetadata (m : GoMap String) (allowConsulPrefix : Bool) : Except String Unit :=
  if (pairsOf m).length > metaMaxKeyPairs then
    .error ("Node metadata cannot contain more than " ++ toString metaMaxKeyPairs ++
      " key/value pairs")
  else validateMetaPairs allowConsulPrefix (pairsOf m)

/-! ## Health checks -/

/-- The status of a check is an open set of strings. Only this one has a meaning of its own
for the store. -/
def healthCritical : String := "critical"

def healthPassing : String := "passing"

/-- The check that gossip keeps for the health of a whole node. -/
def serfCheckID : String := "serfHealth"

structure HealthCheck where
  node : String
  checkID : String
  name : String := ""
  status : String := ""
  notes : String := ""
  output : String := ""
  serviceID : String := ""
  serviceName : String := ""
  serviceTags : GoStrings := none
  type : String := ""
  definition : String := ""
  createIndex : Nat := 0
  modifyIndex : Nat := 0
deriving DecidableEq

/-- What an update of a check compares. The type of the check is not among it. -/
def HealthCheck.isSame (c other : HealthCheck) : Bool :=
  c.node == other.node && c.checkID == other.checkID && c.name == other.name &&
    c.status == other.status && c.notes == other.notes && c.output == other.output &&
    c.serviceID == other.serviceID && c.serviceName == other.serviceName &&
    c.serviceTags == other.serviceTags && c.definition == other.definition

/-- A registration: the node, and what comes with it. -/
structure RegisterRequest where
  datacenter : String := ""
  id : String := ""
  node : String
  address : String := ""
  taggedAddresses : GoMap String := none
  nodeMeta : GoMap String := none
  service : Option NodeService := none
  check : Option HealthCheck := none
  checks : List HealthCheck := []
  skipNodeUpdate : Bool := false
deriving DecidableEq

def RegisterRequest.changesNode (r : RegisterRequest) : Option Node → Bool
  | none => true
  | some node =>
    if r.skipNodeUpdate then false
    else
      r.id != node.id || r.node != node.node || r.address != node.address ||
        r.datacenter != node.datacenter || r.taggedAddresses != node.taggedAddresses ||
        r.nodeMeta != node.metadata

/-- A node with one of its services and the checks that count for it. -/
structure CheckServiceNode where
  node : Node
  service : NodeService
  checks : List HealthCheck
deriving DecidableEq

/-! ## Sessions -/

inductive SessionBehavior where
  | unset
  | release
  | delete
  | other (text : String)
deriving DecidableEq

def SessionBehavior.text : SessionBehavior → String
  | unset => ""
  | release => "release"
  | delete => "delete"
  | other text => text

structure Session where
  id : String
  name : String := ""
  node : String
  checks : List String := []
  lockDelay : Int := 0
  behavior : SessionBehavior := .unset
  ttl : String := ""
  createIndex : Nat := 0
  modifyIndex : Nat := 0
deriving DecidableEq

/-- A check that a session depends on. -/
structure SessionCheck where
  node : String
  checkID : String
  session : String
deriving DecidableEq

/-! ## Keys and values -/

/-- A key is a string of bytes, and so is a prefix of keys. -/
abbrev Key := List Byte

/-- A key with its value. `session` holds the lock when it is not empty, and `lockIndex`
counts how often the lock was taken. -/
structure DirEntry where
  lockIndex : UInt64 := 0
  key : Key
  flags : UInt64 := 0
  value : List Byte := []
  session : String := ""
  createIndex : Nat := 0
  modifyIndex : Nat := 0
deriving DecidableEq

/-- Equal but for the raft indexes. -/
def DirEntry.equal (d o : DirEntry) : Bool :=
  d.lockIndex == o.lockIndex && d.key == o.key && d.flags == o.flags && d.value == o.value &&
    d.session == o.session

/-- What is left of deleted keys: the key, or the prefix of a deleted tree. -/
structure Tombstone where
  key : Key
  index : Nat
deriving DecidableEq

/-! ## Prepared queries, intentions and coordinates -/

structure PreparedQuery where
  id : String
  name : String := ""
  session : String := ""
  templateType : String := ""
  templateRegexp : String := ""
  removeEmptyTags : Bool := false
  definition : String := ""
  createIndex : Nat := 0
  modifyIndex : Nat := 0
deriving DecidableEq

def PreparedQuery.isTemplate (q : PreparedQuery) : Bool := q.templateType != ""

inductive IntentionAction where
  | allow
  | deny
  | other (text : String)
deriving DecidableEq

def IntentionAction.text : IntentionAction → String
  | allow => "allow"
  | deny => "deny"
  | other text => text

def intentionWildcard : String := "*"

structure Intention where
  id : String
  description : String := ""
  sourceNS : String := ""
  sourceName : String := ""
  destinationNS : String := ""
  destinationName : String := ""
  sourceType : String := ""
  action : IntentionAction := .allow
  defaultAddr : String := ""
  defaultPort : Int := 0
  metadata : GoMap String := none
  precedence : Int := 0
  createdAt : Int := 0
  updatedAt : Int := 0
  hash : List Byte := []
  createIndex : Nat := 0
  modifyIndex : Nat := 0
deriving DecidableEq

/-- How many of a namespace and a name are no wildcard. -/
def countExact (ns n : String) : Int :=
  if ns = intentionWildcard then 0 else if n = intentionWildcard then 1 else 2

def Intention.updatePrecedence (x : Intention) : Intention :=
  let max :=
    match countExact x.destinationNS x.destinationName with
    | 2 => 9
    | 1 => 6
    | _ => 3
  { x with precedence := max - (2 - countExact x.sourceNS x.sourceName) }

/-- The network coordinate of a node. `coord` is its encoded form. -/
structure Coordinate where
  node : String
  segment : String := ""
  coord : String := ""
deriving DecidableEq

/-! ## What the store takes from other packages -/

/-- Functions outside of the store: the string functions of Go, the template compiler of
prepared queries and the test for a valid coordinate. -/
class External where
  toLower : String → String
  toUpper : String → String
  equalFold : String → String → Bool
  /-- The form `%q` of a string of bytes. -/
  quote : List Byte → String
  /-- The text of `encoding/hex` for a character that is no digit. -/
  invalidByte : Char → String
  /-- The error of a template that does not compile. -/
  compile : PreparedQuery → Option String
  coordIsValid : String → Bool
  toLower_eq_empty : ∀ s, toLower s = "" ↔ s = ""

export External (toLower toUpper equalFold)

/-- Strings of ASCII letters, templates that all compile and coordinates that are all valid. -/
@[reducible] def ascii : External where
  toLower s := String.ofList (s.toList.map Char.toLower)
  toUpper s := String.ofList (s.toList.map Char.toUpper)
  equalFold s t := s.toList.map Char.toLower == t.toList.map Char.toLower
  quote bytes := "\"" ++ String.ofList (bytes.map fun b => Char.ofNat b.val) ++ "\""
  invalidByte c := "encoding/hex: invalid byte: " ++ c.toString
  compile _ := none
  coordIsValid _ := true
  toLower_eq_empty s := by
    constructor
    · intro h
      have hl : (String.ofList (s.toList.map Char.toLower)).toList = [] := by rw [h]; rfl
      rw [String.toList_ofList, List.map_eq_nil_iff] at hl
      exact String.toList_eq_nil_iff.mp hl
    · rintro rfl
      rfl

variable [External]

/-- The form `%q` of a string. -/
def quote (s : String) : String := External.quote (bytesOf s)

def Intention.toText (x : Intention) : String :=
  toUpper x.action.text ++ " " ++ x.sourceNS ++ "/" ++ x.sourceName ++ " => " ++
    x.destinationNS ++ "/" ++ x.destinationName ++ " (ID: " ++ x.id ++ ", Precedence: " ++
    toString x.precedence ++ ")"

end OpenGyoza
