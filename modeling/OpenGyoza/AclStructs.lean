-- The records of the access control tables: tokens, policies, roles, binding
-- rules and auth methods.
import OpenGyoza.Structs

namespace OpenGyoza

/-- A moment in nanoseconds after the start of 1970. -/
abbrev Time := Int

/-- The zero value of a Go time, the start of the year 1. -/
def zeroTime : Time := -62135596800000000000

/-- A link from a token or a role to a policy, or from a token to a role. -/
structure ACLLink where
  id : String
  name : String := ""
deriving DecidableEq

structure ACLServiceIdentity where
  serviceName : String
  datacenters : List String := []
deriving DecidableEq

/-- A token. `rules` is only set on tokens of the legacy system. -/
structure ACLToken where
  accessorID : String
  secretID : String
  description : String := ""
  policies : List ACLLink := []
  roles : List ACLLink := []
  serviceIdentities : List ACLServiceIdentity := []
  type : String := ""
  rules : String := ""
  isLocal : Bool := false
  authMethod : String := ""
  expirationTime : Option Time := none
  expirationTTL : Int := 0
  createTime : Time := zeroTime
  hash : List Byte := []
  createIndex : Nat := 0
  modifyIndex : Nat := 0
deriving DecidableEq

def ACLToken.hasExpirationTime (t : ACLToken) : Bool :=
  t.expirationTime.any (· != zeroTime)

inductive SyntaxVersion where
  | current
  | legacy
deriving DecidableEq

structure ACLPolicy where
  id : String
  name : String
  description : String := ""
  rules : String := ""
  syntaxVersion : SyntaxVersion := .current
  datacenters : List String := []
  hash : List Byte := []
  createIndex : Nat := 0
  modifyIndex : Nat := 0
deriving DecidableEq

structure ACLRole where
  id : String
  name : String
  description : String := ""
  policies : List ACLLink := []
  serviceIdentities : List ACLServiceIdentity := []
  hash : List Byte := []
  createIndex : Nat := 0
  modifyIndex : Nat := 0
deriving DecidableEq

structure ACLBindingRule where
  id : String
  description : String := ""
  authMethod : String
  selector : String := ""
  bindType : String := ""
  bindName : String := ""
  createIndex : Nat := 0
  modifyIndex : Nat := 0
deriving DecidableEq

/-- An auth method. `config` is the encoded form of its settings. -/
structure ACLAuthMethod where
  name : String
  type : String := ""
  description : String := ""
  config : String := ""
  createIndex : Nat := 0
  modifyIndex : Nat := 0
deriving DecidableEq

end OpenGyoza
