-- The table of config entries, and the entries that the discovery chain of
-- a service is compiled from.
import OpenGyoza.ChainCompiler
import OpenGyoza.Store

namespace OpenGyoza

open Memdb

section ConfigStore

variable [External]

/-- The texts of the kinds are in lower case. -/
def configEntryKey (e : ConfigEntry) : Except String (String ×ₗ String) :=
  if e.content.name = "" then .error missingPrimary
  else .ok (toLex (e.content.kind.text, toLower e.content.name))

abbrev ConfigTable := Table configEntryKey

def configEntryTxn (t : ConfigTable) (kind : ConfigKind) (name : String) : Option ConfigEntry :=
  t.first (toLex (kind.text, toLower name))

end ConfigStore

/-! ## Entries of one kind -/

namespace ConfigContent

def proxy? : ConfigContent → Option ProxyConfigEntry
  | proxyDefaults e => some e
  | _ => none

def service? : ConfigContent → Option ServiceConfigEntry
  | serviceDefaults e => some e
  | _ => none

def router? : ConfigContent → Option ServiceRouterConfigEntry
  | serviceRouter e => some e
  | _ => none

def splitter? : ConfigContent → Option ServiceSplitterConfigEntry
  | serviceSplitter e => some e
  | _ => none

def resolver? : ConfigContent → Option ServiceResolverConfigEntry
  | serviceResolver e => some e
  | _ => none

end ConfigContent

section Readers

variable (find : ConfigKind → String → Option ConfigContent)

/-- An entry is found under its own kind, so it never has another type than the one asked for. -/
def getConfigEntry {α : Type} (kind : ConfigKind) (typed : ConfigContent → Option α)
    (name : String) : Option α :=
  (find kind name).bind typed

def getProxyConfigEntry : String → Option ProxyConfigEntry :=
  getConfigEntry find .proxyDefaults (·.proxy?)

def getServiceConfigEntry : String → Option ServiceConfigEntry :=
  getConfigEntry find .serviceDefaults (·.service?)

def getRouterConfigEntry : String → Option ServiceRouterConfigEntry :=
  getConfigEntry find .serviceRouter (·.router?)

def getSplitterConfigEntry : String → Option ServiceSplitterConfigEntry :=
  getConfigEntry find .serviceSplitter (·.splitter?)

def getResolverConfigEntry : String → Option ServiceResolverConfigEntry :=
  getConfigEntry find .serviceResolver (·.resolver?)

/-- What the reader starts with: the services that the router refers to, or else the service
itself. -/
def firstServices (router : Option ServiceRouterConfigEntry) (serviceName : String) :
    List String :=
  match router with
  | some router => router.listRelatedServices
  | none => [serviceName]

def readDiscoveryChainConfigEntries (w : Nat → Walks String) (n : Nat) (serviceName : String) :
    Except Fault DiscoveryChainConfigEntries := do
  let router := getRouterConfigEntry find serviceName
  let splitters ← (w 0).collect (.panic "out of steps") (getSplitterConfigEntry find)
    (·.listRelatedServices) n (firstServices router serviceName)
  let resolvers ← (w 1).collect (.panic "out of steps") (getResolverConfigEntry find)
    (·.listRelatedServices) n splitters.keys
  let services ← (w 2).collect (.panic "out of steps") (getServiceConfigEntry find)
    (fun _ => []) n (serviceName :: splitters.keys ++ resolvers.keys)
  .ok {
    routers := (router.map (KeyMap.empty.insert serviceName)).getD .empty
    splitters := splitters.strip
    resolvers := resolvers.strip
    services := services.strip
    globalProxy := getProxyConfigEntry find proxyConfigGlobal }

end Readers

end OpenGyoza
