-- The entries that are read for a chain have all that its compilation asks
-- for, when no two names differ in case only and no plain destination has
-- the ID of another service. Without entries that are not asked for the
-- compilation goes the same way.
import OpenGyoza.ChainTargets
import OpenGyoza.ChainWords
import OpenGyoza.ConfigStore

namespace OpenGyoza

open Memdb List Walks Table

/-! ## A request and its entries -/

section Entries

variable [External] [ConfigExternal] (req : CompileRequest)
  (entries : Option DiscoveryChainConfigEntries) (e : DiscoveryChainConfigEntries) (n : Nat)

theorem resolveAgain_entries (order : List String) (t : DiscoveryTarget) :
    resolveAgain { req with entries := entries } e n order t = resolveAgain req e n order t := by
  induction n generalizing order t with
  | zero => rfl
  | succ n ih =>
    unfold resolveAgain
    simp only [ih]
    rfl

theorem compileFailover_entries (t : DiscoveryTarget) (f : ServiceResolverFailover) :
    compileFailover { req with entries := entries } e n t f = compileFailover req e n t f := by
  have hadd : ∀ id, addFailover { req with entries := entries } e n id =
      addFailover req e n id := by
    intro id
    funext u
    unfold addFailover failoverNode
    simp only [resolveAgain_entries]
    rfl
  have htargets : ∀ dcs, failoverTargets { req with entries := entries } t f dcs =
      failoverTargets req t f dcs := by
    intro dcs
    induction dcs with
    | nil => rfl
    | cons dc dcs ih =>
      unfold failoverTargets
      rw [ih]
      rfl
  unfold compileFailover
  simp only [hadd, htargets]

theorem getResolverNode_entries (t : DiscoveryTarget) :
    getResolverNode { req with entries := entries } e n t = getResolverNode req e n t := by
  unfold getResolverNode
  simp only [resolveAgain_entries, compileFailover_entries]
  rfl

theorem getSplitterNode_entries (m : Nat) (name : String) :
    getSplitterNode { req with entries := entries } e n m name =
      getSplitterNode req e n m name := by
  induction m generalizing name with
  | zero => rfl
  | succ m ih =>
    have hget : getSplitterNode { req with entries := entries } e n m =
        getSplitterNode req e n m := funext ih
    have hsplit : ∀ get name split,
        compileSplit { req with entries := entries } e get n name split =
        compileSplit req e get n name split := by
      intro get name split
      unfold compileSplit splitNext
      simp only [getResolverNode_entries]
      rfl
    have hcompile : ∀ get name, compileSplit { req with entries := entries } e get n name =
        compileSplit req e get n name := fun get name => funext (hsplit get name)
    unfold getSplitterNode
    rw [hget]
    simp only [hcompile]
    rfl

theorem defaultNext_entries :
    defaultNext { req with entries := entries } e n = defaultNext req e n := by
  unfold defaultNext getSplitterOrResolverNode
  simp only [getSplitterNode_entries, getResolverNode_entries]
  rfl

theorem compileRoutes_entries (routes : List ServiceRoute) :
    compileRoutes { req with entries := entries } e n routes = compileRoutes req e n routes := by
  induction routes with
  | nil => rfl
  | cons route routes ih =>
    unfold compileRoutes
    rw [ih]
    unfold routeNext getSplitterOrResolverNode
    simp only [getSplitterNode_entries, getResolverNode_entries]
    rfl

theorem assembleChain_entries :
    assembleChain { req with entries := entries } e n = assembleChain req e n := by
  unfold assembleChain assembleRouter
  simp only [compileRoutes_entries, defaultNext_entries]
  rfl

end Entries

/-! ## All entries of a table -/

variable {α : Type} {x : String} {e : ConfigEntry} {kind : ConfigKind} {name : α → String}

section Table

variable [External]

def ConfigTable.find (t : ConfigTable) (kind : ConfigKind) (name : String) :
    Option ConfigContent :=
  (configEntryTxn t kind name).map (·.content)

/-- The entries of one kind by their names. -/
def ConfigTable.named {α : Type} (t : ConfigTable) (typed : ConfigContent → Option α)
    (name : α → String) : KeyMap String α :=
  namedEntries name (t.values.filterMap fun e => typed e.content)

def ConfigTable.allEntries (t : ConfigTable) : DiscoveryChainConfigEntries where
  routers := t.named (·.router?) (·.name)
  splitters := t.named (·.splitter?) (·.name)
  resolvers := t.named (·.resolver?) (·.name)
  services := t.named (·.service?) (·.name)
  globalProxy := getProxyConfigEntry t.find proxyConfigGlobal

/-- A type of entries that belongs to a kind. -/
def OfKind {α : Type} (kind : ConfigKind) (typed : ConfigContent → Option α) (name : α → String) :
    Prop :=
  ∀ c e, typed c = some e → c.kind = kind ∧ c.name = name e

omit [External] in
theorem get_namedEntries {l : List α} (h : (l.map name).Nodup) {e : α} :
    (namedEntries name l).get x = some e ↔ e ∈ l ∧ name e = x := by
  induction l with
  | nil => simp [namedEntries]
  | cons a l ih =>
    obtain ⟨hnew, hnodup⟩ := nodup_cons.mp h
    show ((namedEntries name l).insert (name a) a).get x = some e ↔ _
    by_cases hx : x = name a
    · subst hx
      rw [KeyMap.get_insert_self]
      constructor
      · intro heq
        cases heq
        exact ⟨mem_cons_self, rfl⟩
      · rintro ⟨hmem, hname⟩
        rcases mem_cons.mp hmem with rfl | hmem
        · rfl
        · exact absurd (hname ▸ mem_map_of_mem hmem) hnew
    · rw [KeyMap.get_insert_of_ne hx, ih hnodup]
      constructor
      · rintro ⟨hmem, hname⟩
        exact ⟨mem_cons_of_mem _ hmem, hname⟩
      · rintro ⟨hmem, hname⟩
        refine ⟨(mem_cons.mp hmem).resolve_left ?_, hname⟩
        rintro rfl
        exact hx hname.symm

variable {t : ConfigTable} {α : Type} {kind : ConfigKind} {typed : ConfigContent → Option α}
  {name : α → String}

theorem configEntryKey_eq {k : String ×ₗ String} (h : configEntryKey e = .ok k) :
    e.content.name ≠ "" ∧ k = toLex (e.content.kind.text, toLower e.content.name) := by
  unfold configEntryKey at h
  split at h
  · cases h
  · cases h
    exact ⟨‹_›, rfl⟩

omit [External] in
theorem ConfigKind.text_injective {kind' : ConfigKind} (h : kind.text = kind'.text) :
    kind = kind' := by
  cases kind <;> cases kind' <;> first | rfl | exact absurd h (by decide)

theorem configEntryTxn_eq_some :
    configEntryTxn t kind x = some e ↔
      e ∈ t.values ∧ e.content.kind = kind ∧ toLower e.content.name = toLower x := by
  constructor
  · intro h
    obtain ⟨-, hkey⟩ := configEntryKey_eq (key_of_first h)
    have hpair := congrArg ofLex hkey
    simp only [ofLex_toLex, Prod.mk.injEq] at hpair
    exact ⟨mem_values_of_first h, ConfigKind.text_injective hpair.1.symm, hpair.2.symm⟩
  · rintro ⟨hmem, rfl, hname⟩
    obtain ⟨k, hk⟩ := key_of_mem hmem
    obtain ⟨-, rfl⟩ := configEntryKey_eq hk
    rw [configEntryTxn, ← hname]
    exact first_of_mem hmem hk

theorem getConfigEntry_eq_some (htyped : OfKind kind typed name) {a : α} :
    getConfigEntry t.find kind typed x = some a ↔
      ∃ e ∈ t.values, typed e.content = some a ∧ toLower (name a) = toLower x := by
  unfold getConfigEntry ConfigTable.find
  rw [Option.bind_eq_some_iff]
  constructor
  · rintro ⟨c, hc, ha⟩
    obtain ⟨e, he, rfl⟩ := Option.map_eq_some_iff.mp hc
    obtain ⟨hmem, -, hname⟩ := configEntryTxn_eq_some.mp he
    refine ⟨e, hmem, ha, ?_⟩
    rw [← (htyped _ _ ha).2]
    exact hname
  · rintro ⟨e, hmem, ha, hname⟩
    obtain ⟨hkind, hsame⟩ := htyped _ _ ha
    refine ⟨e.content, ?_, ha⟩
    rw [configEntryTxn_eq_some.mpr ⟨hmem, hkind, hsame ▸ hname⟩]
    rfl

theorem named_eq_some (htyped : OfKind kind typed name) {a : α} :
    (t.named typed name).get x = some a ↔
      ∃ e ∈ t.values, typed e.content = some a ∧ name a = x := by
  have hnodup : ((t.values.filterMap fun e => typed e.content).map name).Nodup := by
    rw [nodup_iff_pairwise_ne, pairwise_map, pairwise_filterMap]
    refine t.values_pairwise.imp_of_mem fun {e e'} he he' hne a ha a' ha' hsame => hne ?_
    obtain ⟨k, hk⟩ := key_of_mem he
    obtain ⟨k', hk'⟩ := key_of_mem he'
    rw [hk, hk', (configEntryKey_eq hk).2, (configEntryKey_eq hk').2, (htyped _ _ ha).1,
      (htyped _ _ ha').1, (htyped _ _ ha).2, (htyped _ _ ha').2, hsame]
  unfold ConfigTable.named
  rw [get_namedEntries hnodup, mem_filterMap]
  constructor
  · rintro ⟨⟨e, he, ha⟩, hname⟩
    exact ⟨e, he, ha, hname⟩
  · rintro ⟨e, he, ha, hname⟩
    exact ⟨⟨e, he, ha⟩, hname⟩

end Table

theorem router_ofKind : OfKind .serviceRouter (·.router?) (·.name) := by
  rintro (_ | _ | _ | _ | _) e h <;> cases h
  exact ⟨rfl, rfl⟩

theorem splitter_ofKind : OfKind .serviceSplitter (·.splitter?) (·.name) := by
  rintro (_ | _ | _ | _ | _) e h <;> cases h
  exact ⟨rfl, rfl⟩

theorem resolver_ofKind : OfKind .serviceResolver (·.resolver?) (·.name) := by
  rintro (_ | _ | _ | _ | _) e h <;> cases h
  exact ⟨rfl, rfl⟩

theorem service_ofKind : OfKind .serviceDefaults (·.service?) (·.name) := by
  rintro (_ | _ | _ | _ | _) e h <;> cases h
  exact ⟨rfl, rfl⟩

/-! ## What is read -/

section Reading

variable {find : ConfigKind → String → Option ConfigContent} {serviceName : String}
  {e : DiscoveryChainConfigEntries}

/-- The entries that are read: the splitters of some services, the resolvers of more, and the
defaults of these. -/
structure Reading (find : ConfigKind → String → Option ConfigContent) (serviceName : String)
    (e : DiscoveryChainConfigEntries) (splitters resolvers : List String) : Prop where
  router : e.routers.get serviceName = getRouterConfigEntry find serviceName
  first : ∀ s ∈ firstServices (getRouterConfigEntry find serviceName) serviceName, s ∈ splitters
  splitter : ∀ s ∈ splitters, e.splitters.get s = getSplitterConfigEntry find s
  splitterNext : ∀ s ∈ splitters, ∀ splitter, getSplitterConfigEntry find s = some splitter →
    ∀ j ∈ splitter.listRelatedServices, j ∈ splitters
  leastSplitters : ∀ P : String → Prop,
    (∀ s ∈ firstServices (getRouterConfigEntry find serviceName) serviceName, P s) →
    (∀ s splitter, P s → getSplitterConfigEntry find s = some splitter →
      ∀ j ∈ splitter.listRelatedServices, P j) → ∀ s, (e.splitters.get s).isSome → P s
  paired : ∀ s ∈ splitters, s ∈ resolvers
  resolver : ∀ s ∈ resolvers, e.resolvers.get s = getResolverConfigEntry find s
  resolverNext : ∀ s ∈ resolvers, ∀ resolver, getResolverConfigEntry find s = some resolver →
    ∀ j ∈ resolver.listRelatedServices, j ∈ resolvers
  service : ∀ s, s = serviceName ∨ s ∈ resolvers → e.services.get s = getServiceConfigEntry find s
  globalProxy : e.globalProxy = getProxyConfigEntry find proxyConfigGlobal

theorem collected_get_strip {κ ν : Type} {find : κ → Option ν} {related : ν → List κ}
    {roots : List κ} {m : KeyMap κ (Option ν)} (h : Collected find related roots m) {k : κ}
    (hk : k ∈ m.keys) : m.strip.get k = find k := by
  rw [KeyMap.get_strip, h.get k hk]
  rfl

theorem readEntries_eq_ok {w : Nat → Walks String} {n : Nat}
    (h : readDiscoveryChainConfigEntries find w n serviceName = .ok e) :
    ∃ splitters resolvers, Reading find serviceName e splitters resolvers := by
  unfold readDiscoveryChainConfigEntries at h
  obtain ⟨splitters, hsplitters, h⟩ := except_bind_ok.mp h
  obtain ⟨resolvers, hresolvers, h⟩ := except_bind_ok.mp h
  obtain ⟨services, hservices, h⟩ := except_bind_ok.mp h
  cases h
  have hsp := collect_eq_ok hsplitters
  have hre := collect_eq_ok hresolvers
  have hse := collect_eq_ok hservices
  refine ⟨splitters.keys, resolvers.keys, ?_, hsp.root, fun s hs => collected_get_strip hsp hs,
    hsp.next, ?_, hre.root, fun s hs => collected_get_strip hre hs, hre.next, ?_, rfl⟩
  · cases getRouterConfigEntry find serviceName with
    | none => rfl
    | some router => exact KeyMap.get_insert_self ..
  · intro P hroots hnext s hs
    refine hsp.least P hroots hnext s ((splitters.mem_keys s).mpr ?_)
    rw [KeyMap.get_strip] at hs
    cases hget : splitters.get s with
    | none => rw [hget] at hs; cases hs
    | some o => rfl
  · intro s hs
    refine collected_get_strip hse (hse.root s ?_)
    rcases hs with rfl | hs
    · exact mem_cons_self
    · exact mem_cons_of_mem _ (mem_append_right _ hs)

theorem readEntries_ends [External] (t : ConfigTable) (serviceName : String) :
    ∃ b, ∀ w n, b ≤ n →
      ∃ e, readDiscoveryChainConfigEntries t.find w n serviceName = .ok e := by
  let related := t.values.flatMap fun e => e.content.listRelatedServices
  let router := getRouterConfigEntry t.find serviceName
  let all := serviceName :: firstServices router serviceName ++ related
  have hrelated : ∀ {α : Type} (kind : ConfigKind) (typed : ConfigContent → Option α)
      (list : α → List String), (∀ c a, typed c = some a → c.listRelatedServices = list a) →
      ∀ k a, getConfigEntry t.find kind typed k = some a → ∀ j ∈ list a, j ∈ all := by
    intro α kind typed list htyped k a ha j hj
    obtain ⟨c, hc, ha⟩ := Option.bind_eq_some_iff.mp ha
    obtain ⟨e, he, rfl⟩ := Option.map_eq_some_iff.mp hc
    refine mem_append_right _ (mem_flatMap.mpr ⟨e, ?_, ?_⟩)
    · exact (configEntryTxn_eq_some.mp he).1
    · rw [htyped _ _ ha]
      exact hj
  have hsplitters := hrelated .serviceSplitter (·.splitter?) (·.listRelatedServices)
    (by rintro (_ | _ | _ | _ | _) a h <;> cases h; rfl)
  have hresolvers := hrelated .serviceResolver (·.resolver?) (·.listRelatedServices)
    (by rintro (_ | _ | _ | _ | _) a h <;> cases h; rfl)
  have hservices : ∀ k v, getServiceConfigEntry t.find k = some v → ∀ j ∈ ([] : List String),
      j ∈ all := by simp
  obtain ⟨b1, h1⟩ := collect_ends (Fault.panic "out of steps") _ hsplitters
  obtain ⟨b2, h2⟩ := collect_ends (Fault.panic "out of steps") _ hresolvers
  obtain ⟨b3, h3⟩ := collect_ends (Fault.panic "out of steps") (fun _ => []) hservices
  refine ⟨b1 + b2 + b3, fun w n hn => ?_⟩
  have hfirst : ∀ k ∈ firstServices router serviceName, k ∈ all := fun k hk =>
    mem_append_left _ (mem_cons_of_mem _ hk)
  obtain ⟨splitters, hsp⟩ := h1 (w 0) n _ hfirst (by omega)
  have hspall := (collect_eq_ok hsp).least (· ∈ all) hfirst fun k v _ => hsplitters k v
  obtain ⟨resolvers, hre⟩ := h2 (w 1) n _ hspall (by omega)
  have hreall := (collect_eq_ok hre).least (· ∈ all) hspall fun k v _ => hresolvers k v
  obtain ⟨services, hse⟩ := h3 (w 2) n (serviceName :: splitters.keys ++ resolvers.keys) (by
    intro k hk
    rcases mem_append.mp hk with hk | hk
    · rcases mem_cons.mp hk with rfl | hk
      · exact mem_append_left _ mem_cons_self
      · exact hspall k hk
    · exact hreall k hk) (by omega)
  exact ⟨_, except_bind_ok.mpr ⟨splitters, hsp, except_bind_ok.mpr ⟨resolvers, hre,
    except_bind_ok.mpr ⟨services, hse, rfl⟩⟩⟩⟩

end Reading

/-! ## Names -/

variable {q : Destination} {typed : ConfigContent → Option α} {router : ServiceRouterConfigEntry}
  {splitter : ServiceSplitterConfigEntry}

section Names

variable [External] {V : String → Prop} {req : CompileRequest} {t : ConfigTable}

def ConfigContent.words : ConfigContent → List String
  | serviceDefaults e => [e.name]
  | proxyDefaults e => [e.name]
  | serviceRouter e => e.name :: e.words
  | serviceSplitter e => e.name :: e.words
  | serviceResolver e => e.name :: e.words

/-- All names in the entries and in the request belong to `V`. -/
structure Over (V : String → Prop) (t : ConfigTable) (req : CompileRequest) : Prop where
  entries : ∀ e ∈ t.values, ∀ x ∈ e.content.words, x = "" ∨ V x
  request : ∀ x ∈ [req.serviceName, req.evaluateInNamespace, req.evaluateInDatacenter],
    x = "" ∨ V x

/-- A destination that is made of such names. -/
structure Made (V : String → Prop) (q : Destination) : Prop where
  service : q.service ≠ "" ∧ V q.service
  serviceSubset : q.serviceSubset = "" ∨ V q.serviceSubset
  namespaceName : q.namespaceName ≠ "" ∧ V q.namespaceName
  datacenter : q.datacenter ≠ "" ∧ V q.datacenter

/-- No two names differ in case only. -/
def CasesApart (V : String → Prop) : Prop :=
  ∀ x y, V x → V y → toLower x = toLower y → x = y

/-- The labels of a service without a subset are not those of a destination of another service. -/
def ServicesApart (V : String → Prop) : Prop :=
  ∀ p q, Made V p → p.serviceSubset = "" → Made V q → q.labels = p.labels →
    q.service = p.service

omit [External] in
theorem defaultIfEmpty_name {val defaultVal : String} (h : val = "" ∨ V val)
    (h' : defaultVal ≠ "" ∧ V defaultVal) :
    defaultIfEmpty val defaultVal ≠ "" ∧ V (defaultIfEmpty val defaultVal) := by
  unfold defaultIfEmpty
  split
  · exact ⟨‹_›, h.resolve_left ‹_›⟩
  · exact h'

omit [External] in
theorem defaultIfEmpty_word {val defaultVal : String} (h : val = "" ∨ V val)
    (h' : defaultVal = "" ∨ V defaultVal) :
    defaultIfEmpty val defaultVal = "" ∨ V (defaultIfEmpty val defaultVal) := by
  unfold defaultIfEmpty
  split
  · exact h
  · exact h'

omit [External] in
theorem made_rewrite (hns : req.evaluateInNamespace ≠ "" ∧ V req.evaluateInNamespace)
    (hdc : req.evaluateInDatacenter ≠ "" ∧ V req.evaluateInDatacenter) (hq : Made V q)
    {service serviceSubset namespaceName datacenter : String} (hservice : service = "" ∨ V service)
    (hsubset : serviceSubset = "" ∨ V serviceSubset)
    (hnamespace : namespaceName = "" ∨ V namespaceName)
    (hdatacenter : datacenter = "" ∨ V datacenter) :
    Made V (req.rewrite q service serviceSubset namespaceName datacenter) := by
  have hnamespace' := defaultIfEmpty_name
    (.inr (defaultIfEmpty_name hnamespace hq.namespaceName).2) hns
  have hdatacenter' := defaultIfEmpty_name
    (.inr (defaultIfEmpty_name hdatacenter hq.datacenter).2) hdc
  unfold CompileRequest.rewrite
  dsimp only
  by_cases hmoved : service ≠ "" ∧ service ≠ q.service
  · rw [if_pos hmoved, if_pos hmoved]
    exact ⟨⟨hmoved.1, hservice.resolve_left hmoved.1⟩, defaultIfEmpty_word hsubset (.inl rfl),
      hnamespace', hdatacenter'⟩
  · rw [if_neg hmoved, if_neg hmoved]
    exact ⟨hq.service, defaultIfEmpty_word hsubset hq.serviceSubset, hnamespace', hdatacenter'⟩

theorem named_eq_getConfigEntry (htyped : OfKind kind typed name) (hcases : CasesApart V)
    (hnames : ∀ e ∈ t.values, V e.content.name) (hx : V x) :
    (t.named typed name).get x = getConfigEntry t.find kind typed x := by
  ext a
  rw [named_eq_some htyped, getConfigEntry_eq_some htyped]
  refine exists_congr fun e => and_congr_right fun he => and_congr_right fun ha => ?_
  constructor
  · rintro rfl
    rfl
  · intro hlower
    refine hcases _ _ ?_ hx hlower
    rw [← (htyped _ _ ha).2]
    exact hnames e he

theorem name_over (h : Over V t req) (he : e ∈ t.values) : V e.content.name := by
  obtain ⟨k, hk⟩ := key_of_mem he
  refine (h.entries e he _ ?_).resolve_left (configEntryKey_eq hk).1
  rcases e with ⟨_ | _ | _ | _ | _, _, _⟩ <;> exact mem_cons_self

theorem found_over (h : Over V t req) {words : α → List String}
    (htyped : ∀ c a, typed c = some a → ∀ x ∈ words a, x ∈ c.words) {name : String} {a : α}
    (ha : getConfigEntry t.find kind typed name = some a) : ∀ x ∈ words a, x = "" ∨ V x := by
  intro x hx
  obtain ⟨c, hc, ha⟩ := Option.bind_eq_some_iff.mp ha
  obtain ⟨e, he, rfl⟩ := Option.map_eq_some_iff.mp hc
  exact h.entries e (configEntryTxn_eq_some.mp he).1 x (htyped _ _ ha x hx)

theorem router_over (h : Over V t req) {name : String}
    (hrouter : getRouterConfigEntry t.find name = some router) :
    ∀ x ∈ router.words, x = "" ∨ V x := by
  refine found_over h ?_ hrouter
  rintro (_ | _ | _ | _ | _) a h x hx <;> cases h
  exact mem_cons_of_mem _ hx

theorem splitter_over (h : Over V t req) {name : String}
    (hsplitter : getSplitterConfigEntry t.find name = some splitter) :
    ∀ x ∈ splitter.words, x = "" ∨ V x := by
  refine found_over h ?_ hsplitter
  rintro (_ | _ | _ | _ | _) a h x hx <;> cases h
  exact mem_cons_of_mem _ hx

theorem resolver_over (h : Over V t req) {name : String} {resolver : ServiceResolverConfigEntry}
    (hresolver : getResolverConfigEntry t.find name = some resolver) :
    ∀ x ∈ resolver.words, x = "" ∨ V x := by
  refine found_over h ?_ hresolver
  rintro (_ | _ | _ | _ | _) a h x hx <;> cases h
  exact mem_cons_of_mem _ hx

end Names

/-! ## Nothing that is asked for is missing -/

section Same

variable [External] {V : String → Prop} {t : ConfigTable} {req : CompileRequest}
  {e : DiscoveryChainConfigEntries} {splitters resolvers : List String}

/-- The entries that are read for a complete request, when no two names differ in case only. -/
structure ReadFor (V : String → Prop) (t : ConfigTable) (req : CompileRequest)
    (e : DiscoveryChainConfigEntries) (splitters resolvers : List String) : Prop where
  words : Over V t req
  cases : CasesApart V
  serviceName : req.serviceName ≠ ""
  evaluateInNamespace : req.evaluateInNamespace ≠ ""
  evaluateInDatacenter : req.evaluateInDatacenter ≠ ""
  reading : Reading t.find req.serviceName e splitters resolvers

/-- The destinations whose resolvers are read. -/
def Asked (V : String → Prop) (resolvers : List String) (q : Destination) : Prop :=
  Made V q ∧ q.service ∈ resolvers

namespace ReadFor

variable (h : ReadFor V t req e splitters resolvers)

include h

theorem service : req.serviceName ≠ "" ∧ V req.serviceName :=
  ⟨h.serviceName, (h.words.request _ (by simp)).resolve_left h.serviceName⟩

theorem namespaceName : req.evaluateInNamespace ≠ "" ∧ V req.evaluateInNamespace :=
  ⟨h.evaluateInNamespace, (h.words.request _ (by simp)).resolve_left h.evaluateInNamespace⟩

theorem datacenter : req.evaluateInDatacenter ≠ "" ∧ V req.evaluateInDatacenter :=
  ⟨h.evaluateInDatacenter, (h.words.request _ (by simp)).resolve_left h.evaluateInDatacenter⟩

theorem named (htyped : OfKind kind typed name) (hx : V x) :
    (t.named typed name).get x = getConfigEntry t.find kind typed x :=
  named_eq_getConfigEntry htyped h.cases (fun _ hmem => name_over h.words hmem) hx

theorem routers : t.allEntries.routers.get req.serviceName =
    getRouterConfigEntry t.find req.serviceName := h.named router_ofKind h.service.2

theorem agrees :
    Agree req t.allEntries e (Asked V resolvers) (fun s => V s ∧ s ∈ splitters) := by
  constructor
  case router => exact h.reading.router.trans h.routers.symm
  case splitter =>
    rintro s ⟨hs, hmem⟩
    exact (h.reading.splitter s hmem).trans (h.named splitter_ofKind hs).symm
  case resolver =>
    rintro q ⟨hq, hmem⟩
    have hsame := (h.reading.resolver _ hmem).trans (h.named resolver_ofKind hq.service.2).symm
    unfold DiscoveryChainConfigEntries.resolverFor
    rw [hsame]
    rfl
  case service =>
    rintro q ⟨hq, hmem⟩
    exact (h.reading.service _ (.inr hmem)).trans (h.named service_ofKind hq.service.2).symm
  case routerService =>
    intro router hrouter _
    obtain ⟨x, -, -, hsame⟩ := (named_eq_some router_ofKind).mp hrouter
    rw [hsame]
    exact (h.reading.service _ (.inl rfl)).trans (h.named service_ofKind h.service.2).symm
  case globalProxy => exact h.reading.globalProxy

theorem resolverFor_cases {s : String} (hs : V s) :
    t.allEntries.resolverFor s = newDefaultServiceResolver s ∨
      getResolverConfigEntry t.find s = some (t.allEntries.resolverFor s) := by
  have hsame : t.allEntries.resolvers.get s = getResolverConfigEntry t.find s :=
    h.named resolver_ofKind hs
  unfold DiscoveryChainConfigEntries.resolverFor
  rw [hsame]
  cases getResolverConfigEntry t.find s with
  | none => exact .inl rfl
  | some resolver => exact .inr rfl

theorem asked_rewrite (hq : Asked V resolvers q)
    {service serviceSubset namespaceName datacenter : String} (hservice : service = "" ∨ V service)
    (hread : service ≠ "" → service ∈ resolvers) (hsubset : serviceSubset = "" ∨ V serviceSubset)
    (hnamespace : namespaceName = "" ∨ V namespaceName)
    (hdatacenter : datacenter = "" ∨ V datacenter) :
    Asked V resolvers (req.rewrite q service serviceSubset namespaceName datacenter) := by
  refine ⟨made_rewrite h.namespaceName h.datacenter hq.1 hservice hsubset hnamespace hdatacenter,
    ?_⟩
  show (if service ≠ "" ∧ service ≠ q.service then service else q.service) ∈ resolvers
  split
  · rename_i hmoved
    exact hread hmoved.1
  · exact hq.2

theorem settling : Settling req t.allEntries (Asked V resolvers) (Asked V resolvers) where
  toPart := .refl _
  redirect := by
    intro q r hq hr
    rcases h.resolverFor_cases hq.1.service.2 with hdefault | hfound
    · rw [hdefault] at hr
      cases hr
    · have hword : ∀ x ∈ [r.service, r.serviceSubset, r.namespaceName, r.datacenter],
          x = "" ∨ V x := by
        intro x hx
        apply resolver_over h.words hfound
        refine mem_append_left _ (mem_cons_of_mem _ ?_)
        exact mem_flatMap.mpr ⟨r, by rw [hr]; exact mem_singleton.mpr rfl, hx⟩
      refine h.asked_rewrite hq (hword _ (by simp)) (fun hne => ?_) (hword _ (by simp))
        (hword _ (by simp)) (hword _ (by simp))
      refine h.reading.resolverNext _ hq.2 _ hfound _ (mem_sortedNames.mpr ?_)
      rw [hr]
      simp [hne]
  defaultSubset := by
    intro q hq _ _ hsome
    rcases h.resolverFor_cases hq.1.service.2 with hdefault | hfound
    · rw [hdefault] at hsome
      exact absurd rfl hsome
    · have hword := resolver_over h.words hfound _ (mem_append_left _ mem_cons_self)
      exact h.asked_rewrite hq (.inl rfl) (by simp) hword (.inl rfl) (.inl rfl)

theorem failover {f : ServiceResolverFailover} (hq : Asked V resolvers q)
    (hf : (t.allEntries.resolverFor q.service).failoverFor q.serviceSubset = some f) {dc : String}
    (hdc : dc ∈ f.places) : Asked V resolvers (req.failover q f dc) := by
  obtain ⟨subset, hmem⟩ := mem_failover hf
  rcases h.resolverFor_cases hq.1.service.2 with hdefault | hfound
  · rw [hdefault] at hmem
    cases hmem
  · have hword : ∀ x ∈ f.service :: f.serviceSubset :: f.namespaceName :: f.datacenters,
        x = "" ∨ V x := fun x hx => resolver_over h.words hfound x
          (mem_append_right _ (mem_flatMap.mpr ⟨(subset, f), hmem, hx⟩))
    have hplace : dc = "" ∨ V dc := by
      unfold ServiceResolverFailover.places at hdc
      split at hdc
      · exact hword dc (by simp [hdc])
      · exact .inl (mem_singleton.mp hdc)
    refine h.asked_rewrite hq (hword _ (by simp)) (fun hne => ?_) (hword _ (by simp))
      (hword _ (by simp)) hplace
    refine h.reading.resolverNext _ hq.2 _ hfound _ (mem_sortedNames.mpr (mem_filter.mpr
      ⟨mem_append_right _ ?_, by simpa⟩))
    exact mem_map_of_mem hmem

theorem self : req.serviceName ∈ splitters := by
  have hfirst := h.reading.first
  have hrouters := h.routers
  cases hrouter : getRouterConfigEntry t.find req.serviceName with
  | none =>
    rw [hrouter] at hfirst
    exact hfirst _ (mem_singleton.mpr rfl)
  | some router =>
    rw [hrouter] at hfirst hrouters
    obtain ⟨x, -, -, hsame⟩ := (named_eq_some router_ofKind).mp hrouters
    exact hfirst _ (mem_sortedNames.mpr (hsame ▸ mem_cons_self))

theorem start : Made V req.startDestination :=
  ⟨h.service, .inl rfl, defaultIfEmpty_name (.inl rfl) h.namespaceName,
    defaultIfEmpty_name (.inl rfl) h.datacenter⟩

theorem route (hrouter : t.allEntries.routers.get req.serviceName = some router)
    {route : ServiceRoute} (hroute : route ∈ router.routes) {dest : ServiceRouteDestination}
    (hdest : route.destination = some dest) :
    Made V (req.routeDestination dest) ∧ (req.routeDestination dest).service ∈ splitters := by
  rw [h.routers] at hrouter
  have hmem : dest ∈ router.routes.filterMap (·.destination) :=
    mem_filterMap.mpr ⟨route, hroute, hdest⟩
  have hword : ∀ x ∈ [dest.service, dest.serviceSubset, dest.namespaceName], x = "" ∨ V x :=
    fun x hx => router_over h.words hrouter x (mem_flatMap.mpr ⟨dest, hmem, hx⟩)
  refine ⟨⟨defaultIfEmpty_name (hword _ (by simp)) h.service, hword dest.serviceSubset (by simp),
    defaultIfEmpty_name (hword _ (by simp)) h.namespaceName,
    defaultIfEmpty_name (.inl rfl) h.datacenter⟩, ?_⟩
  show defaultIfEmpty dest.service req.serviceName ∈ splitters
  unfold defaultIfEmpty
  split
  · refine h.reading.first _ ?_
    rw [hrouter]
    refine mem_sortedNames.mpr (mem_cons_of_mem _ (mem_filter.mpr ⟨?_, by simpa⟩))
    exact mem_map_of_mem hmem
  · exact h.self

theorem split {name : String} (hname : V name) (hread : name ∈ splitters)
    (hsplitter : t.allEntries.splitters.get name = some splitter) {split : ServiceSplit}
    (hsplit : split ∈ splitter.splits) :
    Made V (req.splitDestination name split) ∧
      (req.splitDestination name split).service ∈ splitters := by
  have hne : name ≠ "" := by
    rintro rfl
    obtain ⟨x, hx, hsome, hempty⟩ := (named_eq_some splitter_ofKind).mp hsplitter
    obtain ⟨k, hk⟩ := key_of_mem hx
    exact (configEntryKey_eq hk).1 ((splitter_ofKind _ _ hsome).2.trans hempty)
  have hfound : getSplitterConfigEntry t.find name = some splitter :=
    (h.named splitter_ofKind hname).symm.trans hsplitter
  have hword : ∀ x ∈ [split.service, split.serviceSubset, split.namespaceName], x = "" ∨ V x :=
    fun x hx => splitter_over h.words hfound x (mem_flatMap.mpr ⟨split, hsplit, hx⟩)
  refine ⟨⟨defaultIfEmpty_name (hword _ (by simp)) ⟨hne, hname⟩,
    hword split.serviceSubset (by simp), defaultIfEmpty_name (hword _ (by simp)) h.namespaceName,
    defaultIfEmpty_name (.inl rfl) h.datacenter⟩, ?_⟩
  show defaultIfEmpty split.service name ∈ splitters
  unfold defaultIfEmpty
  split
  · refine h.reading.splitterNext name hread splitter hfound _ (mem_sortedNames.mpr ?_)
    exact mem_filter.mpr ⟨mem_map_of_mem hsplit, by simpa⟩
  · exact hread

omit [External] h in
theorem plain (hapart : ServicesApart V) {p : Destination} (hp : Made V p)
    (hplain : p.serviceSubset = "") (hmem : p.service ∈ splitters) (hq : Asked V resolvers q)
    (hid : q.id = p.id) : V q.service ∧ q.service ∈ splitters := by
  have hsame := hapart p q hp hplain hq.1 (Destination.id_eq_iff.mp hid)
  exact ⟨hq.1.service.2, hsame ▸ hmem⟩

theorem closed (hapart : ServicesApart V) :
    Closed req t.allEntries (Asked V resolvers) (Asked V resolvers) (Asked V resolvers)
      (fun s => V s ∧ s ∈ splitters) where
  named _ hq := hq.1.service.1
  main := h.settling
  settles := h.settling
  start := ⟨h.start, h.reading.paired _ h.self⟩
  startService _ hq hid := plain hapart h.start rfl h.self hq hid
  startMain _ hq _ _ := hq
  route _ hrouter _ _ hmem _ hdest :=
    ⟨(h.route hrouter hmem hdest).1, h.reading.paired _ (h.route hrouter hmem hdest).2⟩
  routeService _ hrouter _ _ hmem _ hdest hplain _ hq hid :=
    plain hapart (h.route hrouter hmem hdest).1 hplain.1 (h.route hrouter hmem hdest).2 hq hid
  routeMain _ _ _ _ _ _ _ _ hq _ _ := hq
  split _ _ hN hsplitter _ _ hmem _ :=
    ⟨(h.split hN.1 hN.2 hsplitter hmem).1,
      h.reading.paired _ (h.split hN.1 hN.2 hsplitter hmem).2⟩
  splitService _ _ hN hsplitter _ _ hmem _ :=
    ⟨(h.split hN.1 hN.2 hsplitter hmem).1.service.2, (h.split hN.1 hN.2 hsplitter hmem).2⟩
  failover _ _ hq _ _ hf _ hdc := h.failover hq hf hdc

end ReadFor

variable [ConfigExternal] [Hashstructure]

theorem ReadFor.compile_eq (h : ReadFor V t req e splitters resolvers) (hapart : ServicesApart V)
    (w : Walks String) (n : Nat) :
    CompileRequest.compile w n { req with entries := some e } =
      CompileRequest.compile w n { req with entries := some t.allEntries } := by
  have hfaults : Faults req t.allEntries (Asked V resolvers) n n fun _ => True :=
    ⟨fun _ => trivial, .inl rfl, fun _ => trivial, fun _ _ _ _ _ _ => trivial⟩
  have hwalk := assembleChain_together (h.closed hapart) h.agrees hfaults _ _
    (Beside.start req t.allEntries e (Asked V resolvers))
  unfold CompileRequest.compile
  dsimp only
  rw [assembleChain_entries req _ e, assembleChain_entries req _ t.allEntries]
  congr 5
  generalize assembleChain req t.allEntries n { resolvers := t.allEntries.resolvers } = x at hwalk ⊢
  generalize assembleChain req e n { resolvers := e.resolvers } = y at hwalk ⊢
  cases hwalk with
  | fault _ => rfl
  | ok _ hbeside =>
    cases hbeside with
    | mk _ _ _ _ _ => rfl

end Same

end OpenGyoza
