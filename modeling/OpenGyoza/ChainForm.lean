-- The form of a compiled chain: a graph without cycles in which everything
-- can be reached, no split leads to a splitter, and the targets are those
-- that the resolvers use.
import OpenGyoza.ChainAssembly

namespace OpenGyoza

open Memdb Relation KeyMap ChainNodes

structure CompiledDiscoveryChain.WellFormed (chain : CompiledDiscoveryChain) : Prop where
  start : chain.startNode ∈ chain.nodes.keys
  next : ∀ k node, chain.nodes.get k = some node → ∀ b ∈ node.nextNodes, b ∈ chain.nodes.keys
  acyclic : ∀ k, ¬TransGen (Leads chain.nodes) k k
  reachable : ∀ k ∈ chain.nodes.keys,
    ReflTransGen (Leads chain.nodes) chain.startNode k
  joined : ∀ k name splits, chain.nodes.get k = some (.splitter name splits) →
    ∀ s ∈ splits, ∀ name' splits', chain.nodes.get s.nextNode ≠ some (.splitter name' splits')
  targets : ∀ k name r, chain.nodes.get k = some (.resolver name r) →
    r.target ∈ chain.targets.keys ∧ ∀ t ∈ r.failover.getD [], t ∈ chain.targets.keys
  used : ∀ t ∈ chain.targets.keys, ∃ k name r, chain.nodes.get k = some (.resolver name r) ∧
    (r.target = t ∨ t ∈ r.failover.getD [])

/-! ## From the start on -/

variable {k : String}

section Kept

variable {nodes nodes' : ChainNodes} {start : String}
  (hkept : ∀ k node, nodes'.get k = some node ↔
    nodes.get k = some node ∧ ReflTransGen nodes.Leads start k)

include hkept

theorem leads_of_kept {a b : String} (h : nodes'.Leads a b) :
    nodes.Leads a b ∧ ReflTransGen nodes.Leads start a := by
  obtain ⟨node, hnode, hb⟩ := h
  obtain ⟨hold, hreach⟩ := (hkept a node).mp hnode
  exact ⟨⟨node, hold, hb⟩, hreach⟩

theorem reach_of_kept (h : ReflTransGen nodes.Leads start k) :
    ReflTransGen nodes'.Leads start k := by
  induction h with
  | refl => exact .refl
  | tail hreach hab ih =>
    obtain ⟨node, hnode, hb⟩ := hab
    exact ih.tail ⟨node, (hkept _ node).mpr ⟨hnode, hreach⟩, hb⟩

theorem mem_keys_of_kept (hkeys : ∀ k, ReflTransGen nodes.Leads start k → k ∈ nodes.keys) :
    k ∈ nodes'.keys ↔ ReflTransGen nodes.Leads start k := by
  rw [mem_keys, Option.isSome_iff_exists]
  constructor
  · rintro ⟨node, hnode⟩
    exact ((hkept k node).mp hnode).2
  · intro hreach
    obtain ⟨node, hnode⟩ := Option.isSome_iff_exists.mp ((nodes.mem_keys k).mp (hkeys k hreach))
    exact ⟨node, (hkept k node).mpr ⟨hnode, hreach⟩⟩

end Kept

variable {nodes nodes' : ChainNodes}

theorem Flattened.transGen (h : Flattened nodes nodes') {a b : String}
    (hab : TransGen nodes'.Leads a b) : TransGen nodes.Leads a b :=
  TransGen.trans_induction_on hab (fun hstep => h.leads _ _ hstep) fun _ _ hxy hyz => hxy.trans hyz

theorem Flattened.reflTransGen (h : Flattened nodes nodes') {a b : String}
    (hab : ReflTransGen nodes'.Leads a b) : ReflTransGen nodes.Leads a b := by
  induction hab with
  | refl => exact .refl
  | tail _ hstep ih => exact ih.trans (h.leads _ _ hstep).to_reflTransGen

theorem mem_keys_of_flattened (h : Flattened nodes nodes')
    (hnext : ∀ a b, nodes.Leads a b → b ∈ nodes.keys) {start : String} (hstart : start ∈ nodes.keys)
    (hk : ReflTransGen nodes'.Leads start k) : k ∈ nodes.keys := by
  rcases ReflTransGen.cases_tail (h.reflTransGen hk) with rfl | ⟨j, _, hjk⟩
  · exact hstart
  · exact hnext j k hjk

theorem Flattened.get_resolver (h : Flattened nodes nodes') {name : String}
    {r : DiscoveryResolver} :
    nodes'.get k = some (.resolver name r) ↔ nodes.get k = some (.resolver name r) := by
  rcases h.same k with hsame | ⟨⟨n, splits, hk⟩, n', splits', hk'⟩
  · rw [hsame]
  · simp [hk, hk']

/-! ## The whole compilation -/

section Compile

variable [External] [ConfigExternal] [Hashstructure] {chain : CompiledDiscoveryChain}

theorem Compiler.compile_eq_ok {w : Walks String} {n : Nat} {req : CompileRequest} {c : Compiler}
    (h : c.compile w n req = .ok chain) :
    detectCircularReferences n c.nodes c.startNode = .ok () ∧
    ∃ nodes, flattenAdjacentSplitterNodes w n c.nodes = .ok nodes ∧
      removeUnusedNodes w n nodes c.startNode = .ok chain.nodes ∧
      chain.startNode = c.startNode ∧
      chain.targets = c.loadedTargets.filter (· ∈ c.retainedTargets) := by
  unfold Compiler.compile at h
  split at h
  · cases h
  cases hdetect : detectCircularReferences n c.nodes c.startNode with
  | error e => rw [hdetect] at h; cases h
  | ok _ =>
    rw [hdetect] at h
    cases hflatten : flattenAdjacentSplitterNodes w n c.nodes with
    | error e => rw [hflatten] at h; cases h
    | ok nodes =>
      rw [hflatten] at h
      simp only [bind, Except.bind] at h
      cases hremove : removeUnusedNodes w n nodes c.startNode with
      | error e => rw [hremove] at h; cases h
      | ok nodes' =>
        rw [hremove] at h
        dsimp only at h
        split at h
        · cases h
        · split at h
          · cases h
          · cases h
            exact ⟨rfl, nodes, rfl, hremove, rfl, rfl⟩

theorem CompileRequest.compile_eq_ok {w : Walks String} {n : Nat} {req : CompileRequest}
    (h : req.compile w n = .ok chain) :
    ∃ entries c, req.serviceName ≠ "" ∧ req.entries = some entries ∧
      assembleChain req entries n { resolvers := entries.resolvers } = (.ok (), c) ∧
        c.compile w n req = .ok chain := by
  unfold CompileRequest.compile at h
  split at h
  · cases h
  rename_i hname
  iterate 4
    split at h
    · cases h
  split at h
  · cases h
  · rename_i entries hentries
    split at h
    · cases h
    · rename_i c hassemble
      exact ⟨entries, c, hname, hentries, hassemble, h⟩

/-- Every chain that is compiled is well formed, whatever the entries and the request. -/
theorem compiled_chains_are_well_formed (w : Walks String) (n : Nat) (req : CompileRequest)
    (chain : CompiledDiscoveryChain) (h : req.compile w n = .ok chain) : chain.WellFormed := by
  obtain ⟨entries, c, -, -, hassemble, hcompile⟩ := CompileRequest.compile_eq_ok h
  have hc := assembleChain_assembled hassemble
  obtain ⟨hdetect, nodes, hflatten, hremove, hstart, htargets⟩ := Compiler.compile_eq_ok hcompile
  obtain ⟨hflat, hjoined⟩ := flattenAdjacentSplitterNodes_joined hflatten
  have hnamed : ∀ k, ReflTransGen (Leads nodes) c.startNode k → k ≠ "" := by
    rintro k hk rfl
    exact hc.keyed (mem_keys_of_flattened hflat hc.next hc.start hk)
  obtain ⟨hkept, hkeys⟩ := removeUnusedNodes_kept hnamed hremove
  have hmem : ∀ {k : String}, k ∈ chain.nodes.keys ↔
      ReflTransGen (Leads nodes) c.startNode k := mem_keys_of_kept hkept hkeys
  have htarget : ∀ {t : String}, t ∈ chain.targets.keys ↔ t ∈ c.retainedTargets := by
    intro t
    rw [htargets]
    show t ∈ List.filter _ _ ↔ _
    rw [List.mem_filter, decide_eq_true_eq]
    exact ⟨And.right, fun ht => ⟨hc.loaded t ht, ht⟩⟩
  constructor
  · rw [hmem, hstart]
  · intro k node hk b hb
    obtain ⟨hold, hreach⟩ := (hkept k node).mp hk
    exact hmem.mpr (hreach.tail ⟨node, hold, hb⟩)
  · intro k hcycle
    obtain ⟨b, hkb, _⟩ := TransGen.head'_iff.mp hcycle
    have hreach := hflat.reflTransGen (leads_of_kept hkept hkb).2
    have hold : TransGen (Leads nodes) k k :=
      TransGen.mono (fun _ _ hstep => (leads_of_kept hkept hstep).1) _ _ hcycle
    exact acyclic_of_detect hdetect hreach (hflat.transGen hold)
  · intro k hk
    rw [hstart]
    exact reach_of_kept hkept (hmem.mp hk)
  · intro k name splits hk s hs name' splits' hs'
    exact hjoined k name splits ((hkept k _).mp hk).1 s hs
      ⟨name', splits', ((hkept _ _).mp hs').1⟩
  · intro k name r hk
    have hold := hflat.get_resolver.mp ((hkept k _).mp hk).1
    obtain ⟨hr, hfailover⟩ := hc.kept k name r hold
    exact ⟨htarget.mpr hr, fun t ht => htarget.mpr (hfailover t ht)⟩
  · intro t ht
    obtain ⟨k, name, r, hr, huse⟩ := hc.used t (htarget.mp ht)
    have hother : ¬SplitterAt c.nodes k := by
      rintro ⟨n', splits, hsplits⟩
      cases hr.symm.trans hsplits
    have hreach := hflat.reach _ k (hc.reached k (mem_keys_of_get hr)) hother
    exact ⟨k, name, r, (hkept k _).mpr ⟨hflat.get_resolver.mpr hr, hreach⟩, huse⟩

end Compile

section Example

/-- Numbers without rounding, and configurations that are the name of the protocol. -/
@[reducible] def exactNumbers : ConfigExternal where
  round32 := id
  formatFloat q := toString (mathRound q)
  formatDuration d := toString d
  weakDecodeProtocol config := config

@[reducible] def noHash : Hashstructure where
  hash _ _ _ := 2 ^ 28

attribute [local instance] ascii exactNumbers noHash

def listOrder : Walks String where
  order _ l := l
  perm _ _ := .refl _

/-- A map with the entries of a list, by their names. -/
def namedEntries {ν : Type} (name : ν → String) (l : List ν) : KeyMap String ν :=
  l.foldr (fun e m => m.insert (name e) e) .empty

/-- The splitter of `web` leads to the splitter of `api`, which leads to `api` and to `old`. -/
def adjacentSplitters : DiscoveryChainConfigEntries where
  splitters := namedEntries (·.name) [
    { name := "web", splits := [{ weight := 40 }, { weight := 60, service := "api" }] },
    { name := "api", splits := [{ weight := 50 }, { weight := 50, service := "old" }] }]
  globalProxy := some { name := "global", config := "http" }

def webRequest (entries : DiscoveryChainConfigEntries) : CompileRequest where
  serviceName := "web"
  evaluateInNamespace := "default"
  evaluateInDatacenter := "dc1"
  evaluateInTrustDomain := "consul"
  useInDatacenter := "dc1"
  entries := some entries

def startOf (r : Except Fault CompiledDiscoveryChain) : Option String :=
  match r with
  | .ok chain => some chain.startNode
  | .error _ => none

theorem adjacent_splitters_compile : ∃ chain,
    (webRequest adjacentSplitters).compile listOrder 20 = .ok chain ∧
      chain.startNode = "splitter:web" ∧ chain.WellFormed := by
  have hstart : startOf ((webRequest adjacentSplitters).compile listOrder 20) =
      some "splitter:web" := by decide +kernel
  cases hcompile : (webRequest adjacentSplitters).compile listOrder 20 with
  | error e => rw [hcompile] at hstart; cases hstart
  | ok chain =>
    rw [hcompile] at hstart
    exact ⟨chain, rfl, Option.some.inj hstart,
      compiled_chains_are_well_formed listOrder 20 _ chain hcompile⟩

end Example

end OpenGyoza
