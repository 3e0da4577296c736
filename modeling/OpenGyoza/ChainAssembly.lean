-- The assembly of a chain. Every node that is recorded can be reached from
-- the start, and the targets that are kept are those of the resolvers and
-- of their failovers.
import OpenGyoza.ChainPasses

namespace OpenGyoza

open Memdb Relation Txn KeyMap List ChainNodes

/-! ## Keys -/

theorem splitterKey_inj {a b : String} (h : splitterKey a = splitterKey b) : a = b := by
  unfold splitterKey at h
  simpa using h

theorem resolverKey_inj {a b : String} (h : resolverKey a = resolverKey b) : a = b := by
  unfold resolverKey at h
  simpa using h

theorem splitterKey_ne_resolverKey (a b : String) : splitterKey a ≠ resolverKey b := by
  intro h
  have hfirst := congrArg (fun s => s.toList.head?) h
  simp [splitterKey, resolverKey] at hfirst

theorem routerKey_ne_splitterKey (a b : String) : routerKey a ≠ splitterKey b := by
  intro h
  have hfirst := congrArg (fun s => s.toList.head?) h
  simp [routerKey, splitterKey] at hfirst

theorem routerKey_ne_resolverKey (a b : String) : routerKey a ≠ resolverKey b := by
  intro h
  have hsecond := congrArg (fun s => s.toList[1]?) h
  simp [routerKey, resolverKey] at hsecond

theorem routerKey_ne_empty (name : String) : routerKey name ≠ "" := by
  intro h
  simp [routerKey] at h

theorem resolverKey_ne_empty (id : String) : resolverKey id ≠ "" := by
  intro h
  simp [resolverKey] at h

theorem splitterKey_ne_empty (name : String) : splitterKey name ≠ "" := by
  intro h
  simp [splitterKey] at h

/-! ## Steps that leave the nodes alone -/

/-- No node is recorded and no target kept. -/
structure Quiet (c c' : Compiler) : Prop where
  nodes : c'.nodes = c.nodes
  splitterNodes : c'.splitterNodes = c.splitterNodes
  resolveNodes : c'.resolveNodes = c.resolveNodes
  retained : c'.retainedTargets = c.retainedTargets
  loaded : ∀ id ∈ c.loadedTargets.keys, id ∈ c'.loadedTargets.keys

theorem Quiet.refl (c : Compiler) : Quiet c c := ⟨rfl, rfl, rfl, rfl, fun _ h => h⟩

variable {c c' c'' : Compiler}

theorem Quiet.trans (h : Quiet c c') (h' : Quiet c' c'') : Quiet c c'' where
  nodes := h'.nodes.trans h.nodes
  splitterNodes := h'.splitterNodes.trans h.splitterNodes
  resolveNodes := h'.resolveNodes.trans h.resolveNodes
  retained := h'.retained.trans h.retained
  loaded id hid := h'.loaded id (h.loaded id hid)

instance : Std.Refl Quiet := ⟨Quiet.refl⟩

instance : IsTrans Compiler Quiet := ⟨fun _ _ _ => Quiet.trans⟩

theorem Quiet.of_does {α : Type} {m : Txn Compiler α} {r : Except Fault α} (h : Does Quiet m)
    (hrun : m c = (r, c')) : Quiet c c' := by
  have hsteps := h c
  rwa [hrun, reflTransGen_eq_self] at hsteps

section Steps

variable (req : CompileRequest) (entries : DiscoveryChainConfigEntries)

theorem newTarget_quiet (service serviceSubset namespaceName datacenter : String) :
    Does Quiet (newTarget req service serviceSubset namespaceName datacenter) := by
  refine .ite (.crash _) (.bind (.read _) fun prev => ?_)
  cases prev with
  | some prev => exact .pure _
  | none =>
    refine .bind (.modify fun c => ?_) fun _ => .pure _
    refine ⟨rfl, rfl, rfl, rfl, fun id hid => ?_⟩
    unfold KeyMap.insert
    split
    · exact hid
    · exact mem_cons_of_mem _ hid

theorem rewriteTarget_quiet (t : DiscoveryTarget)
    (service serviceSubset namespaceName datacenter : String) :
    Does Quiet (rewriteTarget req t service serviceSubset namespaceName datacenter) :=
  newTarget_quiet req _ _ _ _

theorem fetchResolver_quiet (service : String) : Does Quiet (fetchResolver service) := by
  refine .bind (.read _) fun found => ?_
  cases found with
  | some resolver => exact .pure _
  | none =>
    refine .bind (.modify fun c => ?_) fun _ => .pure _
    exact ⟨rfl, rfl, rfl, rfl, fun _ h => h⟩

theorem redirectedTarget_quiet (target : DiscoveryTarget) (resolver : ServiceResolverConfigEntry) :
    Does Quiet (redirectedTarget req target resolver) := by
  unfold redirectedTarget
  cases resolver.redirect with
  | none => exact .pure _
  | some r => exact .bind (rewriteTarget_quiet req _ _ _ _ _) fun _ => .pure _

theorem failoverTargets_quiet (target : DiscoveryTarget) (failover : ServiceResolverFailover)
    (dcs : List String) : Does Quiet (failoverTargets req target failover dcs) := by
  induction dcs with
  | nil => exact .pure _
  | cons dc dcs ih =>
    exact .bind (rewriteTarget_quiet req _ _ _ _ _) fun _ => .bind ih fun _ => .pure _

variable [External]

theorem recordProtocol_quiet (fromService protocol : String) :
    Does Quiet (recordProtocol req fromService protocol) := by
  refine .bind (.read _) fun current => .ite (.modify fun c => ?_) (.ite (.fail _) (.pure _))
  exact ⟨rfl, rfl, rfl, rfl, fun _ h => h⟩

variable [ConfigExternal]

theorem recordServiceProtocol_quiet (serviceName : String) :
    Does Quiet (recordServiceProtocol req entries serviceName) := by
  unfold recordServiceProtocol
  cases entries.services.get serviceName with
  | some serviceDefault => exact recordProtocol_quiet req _ _
  | none => cases entries.globalProxy <;> exact recordProtocol_quiet req _ _

theorem resolveAgain_quiet (n : Nat) (order : List String) (target : DiscoveryTarget) :
    Does Quiet (resolveAgain req entries n order target) := by
  induction n generalizing order target with
  | zero => exact .crash _
  | succ n ih =>
    refine .bind (.read _) fun known => .ite (.pure _) ?_
    refine .bind (recordServiceProtocol_quiet req entries _) fun _ => ?_
    refine .bind (fetchResolver_quiet _) fun resolver => .ite (.fail _) ?_
    refine .bind (redirectedTarget_quiet req _ _) fun redirected => ?_
    cases redirected with
    | some t => exact ih _ t
    | none =>
      refine .ite (.bind (rewriteTarget_quiet req _ _ _ _ _) fun t => ih _ t) ?_
      exact .ite (.fail _) (.pure _)

end Steps

/-! ## What holds of the nodes -/

/-- A resolver has the target, or fails over to it. -/
def ChainNodes.Uses (nodes : ChainNodes) (t : String) : Prop :=
  ∃ k name r, nodes.get k = some (.resolver name r) ∧ (r.target = t ∨ t ∈ r.failover.getD [])

structure Assembled (pending : String → Prop) (c : Compiler) : Prop where
  splitter : ∀ name ∈ c.splitterNodes, ∃ splits,
    c.nodes.get (splitterKey name) = some (.splitter name splits)
  splitterKnown : ∀ name, splitterKey name ∈ c.nodes.keys → name ∈ c.splitterNodes
  resolver : ∀ id ∈ c.resolveNodes, ∃ r,
    c.nodes.get (resolverKey id) = some (.resolver id r) ∧ r.target = id
  resolverKnown : ∀ id, resolverKey id ∈ c.nodes.keys → id ∈ c.resolveNodes
  kept : ∀ k name r, c.nodes.get k = some (.resolver name r) →
    r.target ∈ c.retainedTargets ∧ ∀ t ∈ r.failover.getD [], t ∈ c.retainedTargets
  loaded : ∀ t ∈ c.retainedTargets, t ∈ c.loadedTargets.keys
  used : ∀ t ∈ c.retainedTargets, Uses c.nodes t ∨ pending t
  next : ∀ a b, Leads c.nodes a b → b ∈ c.nodes.keys
  keyed : "" ∉ c.nodes.keys
  noRouter : ∀ name, routerKey name ∉ c.nodes.keys

/-- No target is pending. -/
abbrev FullyAssembled (c : Compiler) : Prop := Assembled (fun _ => False) c

theorem Quiet.assembled {pending : String → Prop} (h : Quiet c c') (hc : Assembled pending c) :
    Assembled pending c' := by
  obtain ⟨hnodes, hsplitters, hresolvers, hretained, hloaded⟩ := h
  constructor <;> simp only [hnodes, hsplitters, hresolvers, hretained]
  exacts [hc.splitter, hc.splitterKnown, hc.resolver, hc.resolverKnown, hc.kept,
    fun t ht => hloaded t (hc.loaded t ht), hc.used, hc.next, hc.keyed, hc.noRouter]

/-- Edges stay, and what is new can be reached from a root. -/
structure Extends (root : String → Prop) (c c' : Compiler) : Prop where
  keys : ∀ k ∈ c.nodes.keys, k ∈ c'.nodes.keys
  leads : ∀ a b, Leads c.nodes a b → Leads c'.nodes a b
  splitterNodes : ∀ name ∈ c.splitterNodes, name ∈ c'.splitterNodes
  resolveNodes : ∀ id ∈ c.resolveNodes, id ∈ c'.resolveNodes
  new : ∀ k ∈ c'.nodes.keys, k ∈ c.nodes.keys ∨
    ∃ r, root r ∧ ReflTransGen (Leads c'.nodes) r k

theorem Extends.of_nodes (hnodes : c'.nodes = c.nodes)
    (hsplitters : c'.splitterNodes = c.splitterNodes)
    (hresolvers : c'.resolveNodes = c.resolveNodes) (root : String → Prop) : Extends root c c' := by
  constructor <;> simp +contextual [hnodes, hsplitters, hresolvers]

theorem Quiet.extends (h : Quiet c c') (root : String → Prop) : Extends root c c' :=
  .of_nodes h.nodes h.splitterNodes h.resolveNodes root

variable {root : String → Prop} {name : String} {k j : String} {node : DiscoveryGraphNode}
  {nodes : ChainNodes}

theorem Extends.reach (h : Extends root c c') {a b : String}
    (hab : ReflTransGen (Leads c.nodes) a b) :
    ReflTransGen (Leads c'.nodes) a b :=
  ReflTransGen.mono h.leads _ _ hab

theorem Extends.trans {root' root'' : String → Prop} (h : Extends root c c')
    (h' : Extends root' c' c'') (hroot : ∀ r, root r ∨ root' r →
      ∃ s, root'' s ∧ ReflTransGen (Leads c''.nodes) s r) : Extends root'' c c'' where
  keys k hk := h'.keys k (h.keys k hk)
  leads a b hab := h'.leads a b (h.leads a b hab)
  splitterNodes name hname := h'.splitterNodes name (h.splitterNodes name hname)
  resolveNodes id hid := h'.resolveNodes id (h.resolveNodes id hid)
  new := by
    intro k hk
    rcases h'.new k hk with hk | ⟨r, hr, hrk⟩
    · rcases h.new k hk with hk | ⟨r, hr, hrk⟩
      · exact .inl hk
      · obtain ⟨s, hs, hsr⟩ := hroot r (.inl hr)
        exact .inr ⟨s, hs, hsr.trans (h'.reach hrk)⟩
    · obtain ⟨s, hs, hsr⟩ := hroot r (.inr hr)
      exact .inr ⟨s, hs, hsr.trans hrk⟩

theorem Extends.then (h : Extends root c c') (h' : Extends root c' c'') : Extends root c c'' :=
  h.trans h' fun r hr => ⟨r, hr.elim id id, .refl⟩

theorem Extends.mono {root' : String → Prop} (h : Extends root c c')
    (hroot : ∀ r, root r → root' r) : Extends root' c c' :=
  { h with new := fun k hk => (h.new k hk).imp_right fun ⟨r, hr, hrk⟩ => ⟨r, hroot r hr, hrk⟩ }

/-! ## Recording a node -/

theorem mem_keys_insert {m : ChainNodes} {v : DiscoveryGraphNode} :
    j ∈ (m.insert k v).keys ↔ j = k ∨ j ∈ m.keys := by
  rw [KeyMap.mem_keys, m.mem_keys]
  by_cases hj : j = k
  · subst hj
    simp
  · simp [get_insert_of_ne hj, hj]

theorem mem_of_mem_insert {m : ChainNodes} {v : DiscoveryGraphNode} (hk : k ∈ m.keys)
    (hj : j ∈ (m.insert k v).keys) : j ∈ m.keys :=
  (mem_keys_insert.mp hj).elim (· ▸ hk) id

theorem extends_insert (hnew : k ∉ c.nodes.keys) (hnodes : c'.nodes = c.nodes.insert k node)
    (hsplitters : ∀ name ∈ c.splitterNodes, name ∈ c'.splitterNodes)
    (hresolvers : ∀ id ∈ c.resolveNodes, id ∈ c'.resolveNodes) : Extends (· = k) c c' where
  keys := by
    intro j hj
    rw [hnodes, mem_keys_insert]
    exact .inr hj
  leads := by
    rintro a b ⟨node', hnode', hb⟩
    have ha : a ≠ k := by
      rintro rfl
      exact hnew (mem_keys_of_get hnode')
    rw [hnodes, leads_insert]
    exact .inr ⟨ha, node', hnode', hb⟩
  splitterNodes := hsplitters
  resolveNodes := hresolvers
  new := by
    intro j hj
    rw [hnodes, mem_keys_insert] at hj
    rcases hj with rfl | hj
    · exact .inr ⟨_, rfl, .refl⟩
    · exact .inl hj

theorem get_insert_new {old : DiscoveryGraphNode} (hnew : k ∉ nodes.keys)
    (h : nodes.get j = some old) : (nodes.insert k node).get j = some old := by
  refine (get_insert_of_ne ?_).trans h
  rintro rfl
  exact hnew (mem_keys_of_get h)

theorem uses_insert {t : String} (hnew : k ∉ nodes.keys) :
    nodes.Uses t → Uses (nodes.insert k node) t :=
  fun ⟨j, name, r, hr, ht⟩ => ⟨j, name, r, get_insert_new hnew hr, ht⟩

theorem next_insert (hnext : ∀ b ∈ node.nextNodes, b ∈ nodes.keys)
    (h : ∀ a b, Leads nodes a b → b ∈ nodes.keys) (a b : String)
    (hab : Leads (nodes.insert k node) a b) : b ∈ (nodes.insert k node).keys := by
  refine mem_keys_insert.mpr (.inr ?_)
  rcases (leads_insert a b).mp hab with ⟨_, hb⟩ | ⟨_, hab⟩
  · exact hnext b hb
  · exact h a b hab

theorem not_mem_insert (hne : k ≠ j) (h : j ∉ nodes.keys) :
    j ∉ (nodes.insert k node).keys := fun hj =>
  (mem_keys_insert.mp hj).elim hne.symm h

theorem Assembled.putSplitter (hc : FullyAssembled c) {splits : List DiscoverySplit}
    {known : List String} (hknown : ∀ n, n ∈ known ↔ n = name ∨ n ∈ c.splitterNodes)
    (hnext : ∀ s ∈ splits, s.nextNode ∈ c.nodes.keys)
    (hold : ∀ n r, c.nodes.get (splitterKey name) ≠ some (.resolver n r)) :
    FullyAssembled { c with
      nodes := c.nodes.insert (splitterKey name) (.splitter name splits)
      splitterNodes := known } := by
  have hresolver {j n : String} {r : DiscoveryResolver} :
      (c.nodes.insert (splitterKey name) (.splitter name splits)).get j = some (.resolver n r) ↔
        c.nodes.get j = some (.resolver n r) := by
    by_cases hj : j = splitterKey name
    · subst hj
      simp [hold]
    · rw [get_insert_of_ne hj]
  constructor
  · intro n hn
    by_cases hkey : splitterKey n = splitterKey name
    · obtain rfl := splitterKey_inj hkey
      exact ⟨splits, get_insert_self ..⟩
    · obtain ⟨old, hget⟩ := hc.splitter n (((hknown n).mp hn).resolve_left fun h => hkey (h ▸ rfl))
      exact ⟨old, (get_insert_of_ne hkey).trans hget⟩
  · intro n hn
    exact (hknown n).mpr ((mem_keys_insert.mp hn).imp splitterKey_inj (hc.splitterKnown n))
  · intro id hid
    obtain ⟨r, hr, htarget⟩ := hc.resolver id hid
    exact ⟨r, hresolver.mpr hr, htarget⟩
  · intro id hid
    exact hc.resolverKnown id
      ((mem_keys_insert.mp hid).resolve_left (splitterKey_ne_resolverKey _ _).symm)
  · exact fun j n r hj => hc.kept j n r (hresolver.mp hj)
  · exact hc.loaded
  · intro t ht
    obtain ⟨j, n, r, hr, huse⟩ := (hc.used t ht).resolve_right id
    exact .inl ⟨j, n, r, hresolver.mpr hr, huse⟩
  · exact next_insert (forall_mem_map.mpr hnext) hc.next
  · exact not_mem_insert (splitterKey_ne_empty name) hc.keyed
  · exact fun n => not_mem_insert (routerKey_ne_splitterKey n _).symm (hc.noRouter n)

theorem Assembled.putResolver {pending : String → Prop} (hc : Assembled pending c) {id : String}
    {r : DiscoveryResolver} {known : List String}
    (hknown : ∀ i, i ∈ known ↔ i = id ∨ i ∈ c.resolveNodes) (htarget : r.target = id)
    (hkept : id ∈ c.retainedTargets ∧ ∀ t ∈ r.failover.getD [], t ∈ c.retainedTargets)
    (huses : ∀ t, Uses c.nodes t ∨ pending t →
      Uses (c.nodes.insert (resolverKey id) (.resolver id r)) t) :
    FullyAssembled { c with
      nodes := c.nodes.insert (resolverKey id) (.resolver id r)
      resolveNodes := known } := by
  constructor
  · intro n hn
    obtain ⟨splits, hsplits⟩ := hc.splitter n hn
    exact ⟨splits, (get_insert_of_ne (splitterKey_ne_resolverKey _ _)).trans hsplits⟩
  · intro n hn
    exact hc.splitterKnown n
      ((mem_keys_insert.mp hn).resolve_left (splitterKey_ne_resolverKey _ _))
  · intro i hi
    by_cases hkey : resolverKey i = resolverKey id
    · obtain rfl := resolverKey_inj hkey
      exact ⟨r, get_insert_self .., htarget⟩
    · obtain ⟨old, hget⟩ := hc.resolver i (((hknown i).mp hi).resolve_left fun h => hkey (h ▸ rfl))
      exact ⟨old, (get_insert_of_ne hkey).trans hget.1, hget.2⟩
  · intro i hi
    exact (hknown i).mpr ((mem_keys_insert.mp hi).imp resolverKey_inj (hc.resolverKnown i))
  · intro j n r' hj
    rcases get_insert_cases hj with ⟨-, h⟩ | hj
    · cases h
      exact ⟨htarget ▸ hkept.1, hkept.2⟩
    · exact hc.kept j n r' hj
  · exact hc.loaded
  · exact fun t ht => .inl (huses t (hc.used t ht))
  · exact next_insert nofun hc.next
  · exact not_mem_insert (resolverKey_ne_empty id) hc.keyed
  · exact fun n => not_mem_insert (routerKey_ne_resolverKey n _).symm (hc.noRouter n)

theorem recordSplitter_assembled (hc : FullyAssembled c) (hname : name ∉ c.splitterNodes)
    (h : recordNode (.splitter name []) c = (.ok (), c')) :
    FullyAssembled c' ∧ Extends (· = splitterKey name) c c' ∧ name ∈ c'.splitterNodes := by
  obtain rfl := congrArg Prod.snd h
  have hnew : splitterKey name ∉ c.nodes.keys := fun hk => hname (hc.splitterKnown name hk)
  refine ⟨hc.putSplitter (fun _ => mem_cons) nofun fun n r hr => hnew (mem_keys_of_get hr), ?_,
    mem_cons_self⟩
  exact extends_insert hnew rfl (fun _ h => mem_cons_of_mem _ h) fun _ h => h

theorem recordResolver_assembled {id : String} (hc : Assembled (· = id) c)
    (hid : id ∉ c.resolveNodes) (hkept : id ∈ c.retainedTargets) {r : DiscoveryResolver}
    (htarget : r.target = id) (hfailover : r.failover = none)
    (h : recordNode (.resolver id r) c = (.ok (), c')) :
    FullyAssembled c' ∧ Extends (· = resolverKey id) c c' ∧
      c'.nodes.get (resolverKey id) = some (.resolver id r) := by
  obtain rfl := congrArg Prod.snd h
  subst htarget
  have hnew : resolverKey r.target ∉ c.nodes.keys := fun hk => hid (hc.resolverKnown _ hk)
  refine ⟨hc.putResolver (fun _ => mem_cons) rfl ⟨hkept, by simp [hfailover]⟩ ?_,
    extends_insert hnew rfl (fun _ h => h) fun _ h => mem_cons_of_mem _ h, get_insert_self ..⟩
  rintro t (huse | rfl)
  · exact uses_insert hnew huse
  · exact ⟨_, _, r, get_insert_self .., .inl rfl⟩

/-! ## Changing a node -/

theorem addSplit_assembled (hc : FullyAssembled c) (hname : name ∈ c.splitterNodes)
    {split : DiscoverySplit} (hnext : split.nextNode ∈ c.nodes.keys)
    (h : addSplit name split c = (.ok (), c')) :
    FullyAssembled c' ∧ Extends (fun _ => False) c c' ∧
      Leads c'.nodes (splitterKey name) split.nextNode := by
  obtain ⟨splits, hsplits⟩ := hc.splitter name hname
  have hc' : c' = { c with
      nodes := c.nodes.insert (splitterKey name) (.splitter name (splits ++ [split])) } := by
    have hsnd := congrArg Prod.snd h
    simp only [addSplit, Txn.modify, hsplits] at hsnd
    exact hsnd.symm
  subst hc'
  refine ⟨?_, ⟨fun k hk => mem_keys_insert.mpr (.inr hk), ?_, fun _ h => h, fun _ h => h,
    fun k hk => .inl (mem_of_mem_insert (mem_keys_of_get hsplits) hk)⟩, ?_⟩
  · refine hc.putSplitter (fun n => (or_iff_right_of_imp (· ▸ hname)).symm) ?_ (by simp [hsplits])
    refine forall_mem_append.mpr ⟨fun s hs => ?_, by simpa using hnext⟩
    exact hc.next _ _ ⟨_, hsplits, mem_map_of_mem hs⟩
  · intro a b hab
    rw [leads_insert]
    by_cases ha : a = splitterKey name
    · subst ha
      obtain ⟨node, hnode, hb⟩ := hab
      cases hsplits.symm.trans hnode
      refine .inl ⟨rfl, ?_⟩
      simp only [DiscoveryGraphNode.nextNodes] at hb ⊢
      rw [map_append]
      exact mem_append_left _ hb
    · exact .inr ⟨ha, hab⟩
  · rw [leads_insert]
    exact .inl ⟨rfl, by simp [DiscoveryGraphNode.nextNodes]⟩

theorem updateResolver_assembled {pending : String → Prop} (hc : Assembled pending c) {id : String}
    {r : DiscoveryResolver} (hr : c.nodes.get (resolverKey id) = some (.resolver id r))
    {f : DiscoveryResolver → DiscoveryResolver} (htarget : (f r).target = r.target)
    (hgrows : ∀ t ∈ r.failover.getD [], t ∈ (f r).failover.getD [])
    (hkept : ∀ t ∈ (f r).failover.getD [], t ∈ c.retainedTargets)
    (hpending : ∀ t, pending t → t ∈ (f r).failover.getD [])
    (h : updateResolver id f c = (.ok (), c')) :
    FullyAssembled c' ∧ Extends (fun _ => False) c c' ∧ c'.retainedTargets = c.retainedTargets ∧
      c'.nodes.get (resolverKey id) = some (.resolver id (f r)) := by
  have hc' : c' = { c with
      nodes := c.nodes.insert (resolverKey id) (.resolver id (f r)) } := by
    have hsnd := congrArg Prod.snd h
    simp only [updateResolver, Txn.modify, hr] at hsnd
    exact hsnd.symm
  subst hc'
  have hleads : ∀ a b, Leads (c.nodes.insert (resolverKey id) (.resolver id (f r))) a b ↔
      Leads c.nodes a b := by
    intro a b
    rw [leads_insert]
    constructor
    · rintro (⟨_, hb⟩ | ⟨_, hab⟩)
      · cases hb
      · exact hab
    · rintro ⟨node, hnode, hb⟩
      refine .inr ⟨?_, node, hnode, hb⟩
      rintro rfl
      cases hr.symm.trans hnode
      cases hb
  obtain ⟨r', hr', hid⟩ := hc.resolver id (hc.resolverKnown id (mem_keys_of_get hr))
  cases hr.symm.trans hr'
  refine ⟨hc.putResolver (fun i => ?_) (htarget.trans hid) ⟨hid ▸ (hc.kept _ _ r hr).1, hkept⟩ ?_,
    ⟨fun k hk => mem_keys_insert.mpr (.inr hk), fun a b => (hleads a b).mpr, fun _ h => h,
      fun _ h => h, fun k hk => .inl (mem_of_mem_insert (mem_keys_of_get hr) hk)⟩, rfl,
    get_insert_self ..⟩
  · exact (or_iff_right_of_imp (· ▸ hc.resolverKnown id (mem_keys_of_get hr))).symm
  · rintro t (⟨k, n, r', hr', huse⟩ | hpend)
    · by_cases hk : k = resolverKey id
      · subst hk
        cases hr.symm.trans hr'
        exact ⟨_, _, f r, get_insert_self .., huse.imp htarget.trans (hgrows t)⟩
      · exact ⟨k, n, r', (get_insert_of_ne hk).trans hr', huse⟩
    · exact ⟨_, _, f r, get_insert_self .., .inr (hpending t hpend)⟩

/-! ## Resolvers -/

section Resolvers

variable {req : CompileRequest} {entries : DiscoveryChainConfigEntries} {n : Nat}
  {target : DiscoveryTarget} {c c' : Compiler} {id : String} {r : DiscoveryResolver}

/-- A node that is known was recorded, and the node of a fresh target was not. -/
def Resolved.Fits (c : Compiler) : Resolved → Prop
  | .known id => id ∈ c.resolveNodes
  | .fresh target _ => target.id ∉ c.resolveNodes

/-- What is left when a node was built and is not recorded yet. -/
structure Built (id : String) (c c' : Compiler) : Prop where
  nodes : c'.nodes = c.nodes
  splitterNodes : c'.splitterNodes = c.splitterNodes
  resolveNodes : c'.resolveNodes = c.resolveNodes
  retained : id ∈ c'.retainedTargets
  assembled : Assembled (· = id) c'

theorem Built.extends (h : Built id c c') (root : String → Prop) : Extends root c c' :=
  .of_nodes h.nodes h.splitterNodes h.resolveNodes root

variable [External]

theorem buildResolver_built {resolver : ServiceResolverConfigEntry} (hc : FullyAssembled c)
    (h : buildResolver req entries target resolver c = (.ok node, c')) :
    Built target.id c c' ∧ ∃ r, node = .resolver target.id r ∧ r.target = target.id ∧
      r.failover = none := by
  replace h := read_then h
  generalize externalFault _ resolver = fault at h
  cases fault with
  | some text => cases congrArg Prod.fst h
  | none =>
    replace h := modify_then h
    obtain ⟨rfl, rfl⟩ := pure_eq_ok.mp h
    refine ⟨⟨rfl, rfl, rfl, mem_cons_self, ?_⟩, _, rfl, rfl, rfl⟩
    constructor
    · exact hc.splitter
    · exact hc.splitterKnown
    · exact hc.resolver
    · exact hc.resolverKnown
    · intro k name r hk
      obtain ⟨htarget, hfailover⟩ := hc.kept k name r hk
      exact ⟨mem_cons_of_mem _ htarget, fun t ht => mem_cons_of_mem _ (hfailover t ht)⟩
    · intro t ht
      show t ∈ (KeyMap.insert ..).keys
      rw [KeyMap.mem_keys]
      by_cases hid : t = target.id
      · subst hid
        simp
      · rw [get_insert_of_ne hid, ← KeyMap.mem_keys]
        exact hc.loaded t ((mem_cons.mp ht).resolve_left hid)
    · intro t ht
      rcases mem_cons.mp ht with rfl | ht
      · exact .inr rfl
      · exact .inl ((hc.used t ht).resolve_right id)
    · exact hc.next
    · exact hc.keyed
    · exact hc.noRouter

variable [ConfigExternal]

theorem resolveAgain_fits {order : List String} {found : Resolved}
    (h : resolveAgain req entries n order target c = (.ok found, c')) : found.Fits c' := by
  induction n generalizing order target c with
  | zero => cases congrArg Prod.fst h
  | succ n ih =>
    have hquiet := Quiet.of_does (resolveAgain_quiet req entries (n + 1) order target) h
    replace h := read_then h
    split at h
    · rename_i hknown
      obtain ⟨rfl, rfl⟩ := pure_eq_ok.mp h
      exact hknown
    · rename_i hnew
      obtain ⟨_, c1, _, h⟩ := bind_eq_ok.mp h
      obtain ⟨resolver, c2, _, h⟩ := bind_eq_ok.mp h
      split at h
      · cases congrArg Prod.fst h
      · obtain ⟨redirected, c3, _, h⟩ := bind_eq_ok.mp h
        cases redirected with
        | some t => exact ih h
        | none =>
          dsimp only at h
          split at h
          · obtain ⟨t, c4, _, h⟩ := bind_eq_ok.mp h
            exact ih h
          · split at h
            · cases congrArg Prod.fst h
            · obtain ⟨rfl, rfl⟩ := pure_eq_ok.mp h
              show target.id ∉ c3.resolveNodes
              rw [hquiet.resolveNodes]
              exact hnew

theorem failoverNode_built (hc : FullyAssembled c)
    (h : failoverNode req entries n target c = (.ok id, c')) : Built id c c' := by
  obtain ⟨found, c1, hagain, h⟩ := bind_eq_ok.mp h
  have hquiet := Quiet.of_does (resolveAgain_quiet req entries n [] target) hagain
  have hc1 : FullyAssembled c1 := hquiet.assembled hc
  have hfits := resolveAgain_fits hagain
  cases found with
  | known id' =>
    obtain ⟨rfl, rfl⟩ := pure_eq_ok.mp h
    obtain ⟨r, hr, htarget⟩ := hc1.resolver id' hfits
    refine ⟨hquiet.nodes, hquiet.splitterNodes, hquiet.resolveNodes, ?_, ?_⟩
    · exact htarget ▸ (hc1.kept _ _ r hr).1
    · exact { hc1 with used := fun t ht => .inl ((hc1.used t ht).resolve_right id) }
  | fresh target resolver =>
    obtain ⟨node, hbuild, rfl⟩ := return_eq_ok.mp h
    obtain ⟨hbuilt, _⟩ := buildResolver_built hc1 hbuild
    exact ⟨hbuilt.nodes.trans hquiet.nodes, hbuilt.splitterNodes.trans hquiet.splitterNodes,
      hbuilt.resolveNodes.trans hquiet.resolveNodes, hbuilt.retained, hbuilt.assembled⟩

theorem addFailover_assembled {t : DiscoveryTarget} (hc : FullyAssembled c)
    (hr : c.nodes.get (resolverKey id) = some (.resolver id r))
    (h : addFailover req entries n id t c = (.ok (), c')) :
    FullyAssembled c' ∧ Extends (fun _ => False) c c' ∧
      ∃ r', c'.nodes.get (resolverKey id) = some (.resolver id r') := by
  obtain ⟨failoverTarget, c1, hnode, h⟩ := bind_eq_ok.mp h
  have hbuilt := failoverNode_built hc hnode
  have hr1 : c1.nodes.get (resolverKey id) = some (.resolver id r) := hbuilt.nodes ▸ hr
  have hkept := (hbuilt.assembled.kept _ _ r hr1).2
  obtain ⟨hc', hextends, _, hr'⟩ := updateResolver_assembled hbuilt.assembled hr1 rfl
    (fun t ht => mem_append_left _ ht)
    (fun t ht => by
      rcases mem_append.mp ht with ht | ht
      · exact hkept t ht
      · exact mem_singleton.mp ht ▸ hbuilt.retained)
    (fun t ht => ht ▸ mem_append_right _ (mem_singleton.mpr rfl)) h
  exact ⟨hc', (hbuilt.extends _).then hextends, _, hr'⟩

theorem addFailovers_assembled {targets : List DiscoveryTarget} (hc : FullyAssembled c)
    (hr : c.nodes.get (resolverKey id) = some (.resolver id r))
    (h : Txn.forEach targets (addFailover req entries n id) c = (.ok (), c')) :
    FullyAssembled c' ∧ Extends (fun _ => False) c c' := by
  induction targets generalizing c r with
  | nil =>
    obtain ⟨_, rfl⟩ := pure_eq_ok.mp h
    exact ⟨hc, (Quiet.refl c).extends _⟩
  | cons t targets ih =>
    obtain ⟨_, c1, hadd, h⟩ := bind_eq_ok.mp h
    obtain ⟨hc1, hextends, r1, hr1⟩ := addFailover_assembled hc hr hadd
    obtain ⟨hc', hrest⟩ := ih hc1 hr1 h
    exact ⟨hc', hextends.then hrest⟩

theorem compileFailover_assembled {failover : ServiceResolverFailover} (hc : FullyAssembled c)
    (hr : c.nodes.get (resolverKey target.id) = some (.resolver target.id r))
    (hnone : r.failover = none) (h : compileFailover req entries n target failover c = (.ok (), c'))
    :
    FullyAssembled c' ∧ Extends (fun _ => False) c c' := by
  obtain ⟨targets, c1, htargets, h⟩ := bind_eq_ok.mp h
  have hquiet := Quiet.of_does (failoverTargets_quiet req target failover _) htargets
  have hc1 : FullyAssembled c1 := hquiet.assembled hc
  split at h
  · obtain ⟨_, c2, hupdate, h⟩ := bind_eq_ok.mp h
    have hr1 : c1.nodes.get (resolverKey target.id) = some (.resolver target.id r) :=
      hquiet.nodes ▸ hr
    obtain ⟨hc2, hextends, _, hr2⟩ := updateResolver_assembled hc1 hr1 rfl (by simp [hnone])
      (by simp) (fun _ hfalse => hfalse.elim) hupdate
    obtain ⟨hc', hrest⟩ := addFailovers_assembled hc2 hr2 h
    exact ⟨hc', ((hquiet.extends _).then hextends).then hrest⟩
  · obtain ⟨_, rfl⟩ := pure_eq_ok.mp h
    exact ⟨hc1, hquiet.extends _⟩

theorem getResolverNode_assembled (hc : FullyAssembled c)
    (h : getResolverNode req entries n target c = (.ok id, c')) :
    FullyAssembled c' ∧ Extends (· = resolverKey id) c c' ∧ resolverKey id ∈ c'.nodes.keys := by
  obtain ⟨found, c1, hagain, h⟩ := bind_eq_ok.mp h
  have hquiet := Quiet.of_does (resolveAgain_quiet req entries n [] target) hagain
  have hc1 : FullyAssembled c1 := hquiet.assembled hc
  have hfits := resolveAgain_fits hagain
  cases found with
  | known id' =>
    obtain ⟨rfl, rfl⟩ := pure_eq_ok.mp h
    obtain ⟨r, hr, _⟩ := hc1.resolver id' hfits
    exact ⟨hc1, hquiet.extends _, mem_keys_of_get hr⟩
  | fresh target resolver =>
    obtain ⟨node, c2, hbuild, h⟩ := bind_eq_ok.mp h
    obtain ⟨hbuilt, r, rfl, htarget, hnone⟩ := buildResolver_built hc1 hbuild
    obtain ⟨_, c3, hrecord, h⟩ := bind_eq_ok.mp h
    obtain ⟨hc3, hextends, hr3⟩ := recordResolver_assembled hbuilt.assembled
      (hbuilt.resolveNodes ▸ hfits) hbuilt.retained htarget hnone hrecord
    have hall := ((hquiet.extends _).then (hbuilt.extends _)).then hextends
    have hmem := mem_keys_of_get hr3
    cases hfailover : resolver.failoverFor target.serviceSubset with
    | none =>
      rw [hfailover] at h
      obtain ⟨rfl, rfl⟩ := pure_eq_ok.mp h
      exact ⟨hc3, hall, hmem⟩
    | some failover =>
      rw [hfailover] at h
      obtain ⟨_, hcompile, rfl⟩ := return_eq_ok.mp h
      obtain ⟨hc4, hrest⟩ := compileFailover_assembled hc3 hr3 hnone hcompile
      exact ⟨hc4, hall.then (hrest.mono fun _ hfalse => hfalse.elim), hrest.keys _ hmem⟩

end Resolvers

/-! ## Splitters and the router -/

section Splitters

/-- What a step that gives a key has to do: the key is that of a node, and what is new can be
reached from it. -/
def GivesKey (m : Txn Compiler String) : Prop :=
  ∀ c c' key, FullyAssembled c → m c = (.ok key, c') →
    FullyAssembled c' ∧ Extends (· = key) c c' ∧ key ∈ c'.nodes.keys

/-- The same for a step that may give none. -/
def GivesOption (m : Txn Compiler (Option String)) : Prop :=
  ∀ c c' found, FullyAssembled c → m c = (.ok found, c') →
    FullyAssembled c' ∧ Extends (some · = found) c c' ∧ ∀ key ∈ found, key ∈ c'.nodes.keys

theorem GivesKey.bind {α : Type} {m : Txn Compiler α} {k : α → Txn Compiler String}
    (hm : Does Quiet m) (hk : ∀ a, GivesKey (k a)) : GivesKey (m >>= k) := by
  intro c c' key hc h
  obtain ⟨a, c1, hrun, h⟩ := bind_eq_ok.mp h
  have hquiet := Quiet.of_does hm hrun
  obtain ⟨hc', hextends, hmem⟩ := hk a c1 c' key (hquiet.assembled hc) h
  exact ⟨hc', (hquiet.extends _).then hextends, hmem⟩

theorem GivesOption.orElse {m : Txn Compiler (Option String)} {k : Txn Compiler String}
    (hm : GivesOption m) (hk : GivesKey k) : GivesKey (do
      match ← m with
      | some key => pure key
      | none => k) := by
  intro c c' key hc h
  obtain ⟨found, c1, hrun, h⟩ := bind_eq_ok.mp h
  obtain ⟨hc1, hextends, hmem⟩ := hm c c1 found hc hrun
  cases found with
  | some key' =>
    obtain ⟨rfl, rfl⟩ := pure_eq_ok.mp h
    exact ⟨hc1, hextends.mono fun r hr => Option.some.inj hr, hmem key' rfl⟩
  | none =>
    obtain ⟨hc', hrest, hmem'⟩ := hk c1 c' key hc1 h
    exact ⟨hc', (hextends.mono nofun).then hrest, hmem'⟩

variable [External] [ConfigExternal] {req : CompileRequest} {entries : DiscoveryChainConfigEntries}
  {getSplitter : String → Txn Compiler (Option String)}

theorem getResolverNode_givesKey (n : Nat) (target : DiscoveryTarget) :
    GivesKey (do
      let id ← getResolverNode req entries n target
      pure (resolverKey id)) := by
  intro c c' key hc h
  obtain ⟨id, hnode, rfl⟩ := return_eq_ok.mp h
  exact getResolverNode_assembled hc hnode

theorem splitNext_givesKey (hsplitter : ∀ name, GivesOption (getSplitter name)) (n : Nat)
    (name : String) (split : ServiceSplit) :
    GivesKey (splitNext req entries getSplitter n name split) := by
  have hresolver : ∀ svc, GivesKey (do
      let t ← newTarget req svc split.serviceSubset split.namespaceName ""
      let id ← getResolverNode req entries n t
      pure (resolverKey id)) := fun svc =>
    .bind (newTarget_quiet req _ _ _ _) fun t => getResolverNode_givesKey n t
  have hnone : GivesOption (pure none) := by
    intro c c' found hc h
    obtain ⟨rfl, rfl⟩ := pure_eq_ok.mp h
    exact ⟨hc, (Quiet.refl c).extends _, by simp⟩
  unfold splitNext
  dsimp only
  split
  · exact (hsplitter _).orElse (hresolver _)
  · exact hnone.orElse (hresolver _)

theorem compileSplits_assembled (hsplitter : ∀ name, GivesOption (getSplitter name)) {n : Nat}
    {splits : List ServiceSplit} (hc : FullyAssembled c) (hname : name ∈ c.splitterNodes)
    (h : Txn.forEach splits (compileSplit req entries getSplitter n name) c = (.ok (), c')) :
    FullyAssembled c' ∧ Extends (· = splitterKey name) c c' := by
  induction splits generalizing c with
  | nil =>
    obtain ⟨_, rfl⟩ := pure_eq_ok.mp h
    exact ⟨hc, (Quiet.refl c).extends _⟩
  | cons split splits ih =>
    obtain ⟨_, c1, hsplit, h⟩ := bind_eq_ok.mp h
    obtain ⟨next, c0, hnext, hadd⟩ := bind_eq_ok.mp hsplit
    obtain ⟨hc0, hbelow, hmem⟩ := splitNext_givesKey hsplitter n name split c c0 next hc hnext
    obtain ⟨hc1, hadded, hleads⟩ :=
      addSplit_assembled hc0 (hbelow.splitterNodes name hname) hmem hadd
    have hone : Extends (· = splitterKey name) c c1 := by
      refine hbelow.trans hadded fun r hr => ?_
      obtain rfl := hr.resolve_right id
      exact ⟨_, rfl, .single hleads⟩
    obtain ⟨hc', hrest⟩ := ih hc1 (hone.splitterNodes name hname) h
    exact ⟨hc', hone.then hrest⟩

theorem getSplitterNode_givesOption (n m : Nat) (name : String) :
    GivesOption (getSplitterNode req entries n m name) := by
  induction m generalizing name with
  | zero =>
    intro c c' found _ h
    cases congrArg Prod.fst h
  | succ m ih =>
    intro c c' found hc h
    replace h := read_then h
    split at h
    · rename_i hknown
      obtain ⟨rfl, rfl⟩ := pure_eq_ok.mp h
      obtain ⟨splits, hsplits⟩ := hc.splitter name hknown
      refine ⟨hc, (Quiet.refl _).extends _, fun key hkey => ?_⟩
      cases hkey
      exact mem_keys_of_get hsplits
    · rename_i hnew
      cases hentry : entries.splitters.get name with
      | none =>
        rw [hentry] at h
        obtain ⟨rfl, rfl⟩ := pure_eq_ok.mp h
        exact ⟨hc, (Quiet.refl _).extends _, by simp⟩
      | some splitter =>
        rw [hentry] at h
        dsimp only at h
        split at h
        · replace h := modify_then h
          obtain ⟨rfl, rfl⟩ := pure_eq_ok.mp h
          have hquiet : Quiet c { c with
              customizedBy := { c.customizedBy with protocol := true } } :=
            ⟨rfl, rfl, rfl, rfl, fun _ h => h⟩
          exact ⟨hquiet.assembled hc, hquiet.extends _, by simp⟩
        · obtain ⟨_, c1, hrecord, h⟩ := bind_eq_ok.mp h
          obtain ⟨_, c2, hsplits, h⟩ := bind_eq_ok.mp h
          replace h := modify_then h
          obtain ⟨rfl, rfl⟩ := pure_eq_ok.mp h
          obtain ⟨hc1, hrecorded, hname⟩ := recordSplitter_assembled hc hnew hrecord
          obtain ⟨hc2, hbelow⟩ := compileSplits_assembled ih hc1 hname hsplits
          have hquiet : Quiet c2 { c2 with usesAdvancedRoutingFeatures := true } :=
            ⟨rfl, rfl, rfl, rfl, fun _ h => h⟩
          obtain ⟨splits, hsplits⟩ := hc2.splitter name (hbelow.splitterNodes name hname)
          refine ⟨hquiet.assembled hc2, ?_, fun key hkey => ?_⟩
          · exact ((hrecorded.then hbelow).then (hquiet.extends _)).mono fun r hr => hr ▸ rfl
          · cases hkey
            exact mem_keys_of_get hsplits

theorem getSplitterOrResolverNode_givesKey (n : Nat) (target : DiscoveryTarget) :
    GivesKey (getSplitterOrResolverNode req entries n target) :=
  (getSplitterNode_givesOption n n target.service).orElse (getResolverNode_givesKey n target)

theorem routeNext_givesKey (n : Nat) (dest : ServiceRouteDestination) :
    GivesKey (routeNext req entries n dest) := by
  refine .bind (newTarget_quiet req _ _ _ _) fun t => ?_
  split
  · exact getSplitterOrResolverNode_givesKey n t
  · exact getResolverNode_givesKey n t

theorem defaultNext_givesKey (n : Nat) : GivesKey (defaultNext req entries n) :=
  .bind (newTarget_quiet req _ _ _ _) fun t => getSplitterOrResolverNode_givesKey n t

theorem compileRoutes_assembled {n : Nat} {routes : List ServiceRoute}
    {compiled : List DiscoveryRoute} (hc : FullyAssembled c)
    (h : compileRoutes req entries n routes c = (.ok compiled, c')) :
    FullyAssembled c' ∧ Extends (· ∈ compiled.map (·.nextNode)) c c' ∧
      ∀ r ∈ compiled, r.nextNode ∈ c'.nodes.keys := by
  induction routes generalizing c compiled with
  | nil =>
    obtain ⟨rfl, rfl⟩ := pure_eq_ok.mp h
    exact ⟨hc, (Quiet.refl c).extends _, by simp⟩
  | cons route routes ih =>
    unfold compileRoutes at h
    cases hdest : route.destination with
    | none =>
      rw [hdest] at h
      cases congrArg Prod.fst h
    | some dest =>
      rw [hdest] at h
      obtain ⟨next, c1, hnext, h⟩ := bind_eq_ok.mp h
      obtain ⟨rest, hrest, rfl⟩ := return_eq_ok.mp h
      obtain ⟨hc1, hone, hmem⟩ := routeNext_givesKey n dest c c1 next hc hnext
      obtain ⟨hc2, hmore, hmems⟩ := ih hc1 hrest
      refine ⟨hc2, ?_, forall_mem_cons.mpr ⟨hmore.keys _ hmem, hmems⟩⟩
      refine hone.trans hmore fun r hr => ⟨r, ?_, .refl⟩
      rw [map_cons, mem_cons]
      exact hr

end Splitters

/-! ## The assembled chain -/

/-- Every node can be reached from the start, and the targets that are kept are those of the
resolvers. -/
structure ChainAssembled (c : Compiler) : Prop where
  start : c.startNode ∈ c.nodes.keys
  reached : ∀ k ∈ c.nodes.keys, ReflTransGen (Leads c.nodes) c.startNode k
  kept : ∀ k name r, c.nodes.get k = some (.resolver name r) →
    r.target ∈ c.retainedTargets ∧ ∀ t ∈ r.failover.getD [], t ∈ c.retainedTargets
  loaded : ∀ t ∈ c.retainedTargets, t ∈ c.loadedTargets.keys
  used : ∀ t ∈ c.retainedTargets, Uses c.nodes t
  next : ∀ a b, Leads c.nodes a b → b ∈ c.nodes.keys
  keyed : "" ∉ c.nodes.keys

section Chain

variable {req : CompileRequest} {entries : DiscoveryChainConfigEntries} {c c' : Compiler} {n : Nat}

theorem recordRouter_assembled {routes : List DiscoveryRoute} (hc : FullyAssembled c)
    (hstart : c.startNode = routerKey name)
    (hreached : ∀ k ∈ c.nodes.keys, ∃ r, r ∈ routes.map (·.nextNode) ∧
      ReflTransGen (Leads c.nodes) r k) (hnext : ∀ r ∈ routes, r.nextNode ∈ c.nodes.keys)
    (h : recordNode (.router name routes) c = (.ok (), c')) : ChainAssembled c' := by
  obtain rfl := congrArg Prod.snd h
  have hnew := hc.noRouter name
  have hextends : Extends (· = routerKey name) c
      { c with nodes := c.nodes.insert (routerKey name) (.router name routes) } :=
    extends_insert hnew rfl (fun _ h => h) fun _ h => h
  constructor
  · show c.startNode ∈ _
    rw [hstart]
    exact mem_keys_insert.mpr (.inl rfl)
  · intro k hk
    show ReflTransGen _ c.startNode k
    rw [hstart]
    rcases mem_keys_insert.mp hk with rfl | hk
    · exact .refl
    · obtain ⟨r, hr, hrk⟩ := hreached k hk
      refine .head ((leads_insert _ r).mpr (.inl ⟨rfl, ?_⟩)) (hextends.reach hrk)
      exact hr
  · intro k n r hk
    rcases get_insert_cases hk with ⟨-, h⟩ | hk
    · cases h
    · exact hc.kept k n r hk
  · exact hc.loaded
  · exact fun t ht => uses_insert hnew ((hc.used t ht).resolve_right id)
  · exact next_insert (forall_mem_map.mpr hnext) hc.next
  · exact not_mem_insert (routerKey_ne_empty name) hc.keyed

variable [External] [ConfigExternal]

theorem assembleRouter_assembled {router : ServiceRouterConfigEntry} (hc : FullyAssembled c)
    (hempty : c.nodes.keys = []) (h : assembleRouter req entries n router c = (.ok (), c')) :
    ChainAssembled c' := by
  replace h := modify_then h
  obtain ⟨_, c2, hprotocol, h⟩ := bind_eq_ok.mp h
  obtain ⟨routes, c3, hroutes, h⟩ := bind_eq_ok.mp h
  obtain ⟨next, c4, hnext, h⟩ := bind_eq_ok.mp h
  replace h := modify_then h
  have huses : Quiet c { c with usesAdvancedRoutingFeatures := true } :=
    ⟨rfl, rfl, rfl, rfl, fun _ h => h⟩
  have hquiet : Quiet c c2 :=
    huses.trans (Quiet.of_does (recordServiceProtocol_quiet req entries router.name) hprotocol)
  obtain ⟨hc3, hmore, hmems⟩ := compileRoutes_assembled (hquiet.assembled hc) hroutes
  obtain ⟨hc4, hdefault, hmem⟩ := defaultNext_givesKey n c3 c4 next hc3 hnext
  have hquiet' : Quiet c4 { c4 with startNode := routerKey router.name } :=
    ⟨rfl, rfl, rfl, rfl, fun _ h => h⟩
  refine recordRouter_assembled (hquiet'.assembled hc4) rfl ?_ ?_ h
  · intro k hk
    rcases hdefault.new k hk with hk | ⟨r, rfl, hrk⟩
    · rcases hmore.new k hk with hk | ⟨r, hr, hrk⟩
      · rw [hquiet.nodes, hempty] at hk
        cases hk
      · refine ⟨r, ?_, hdefault.reach hrk⟩
        rw [map_append]
        exact mem_append_left _ hr
    · exact ⟨r, by simp, hrk⟩
  · intro r hr
    rcases mem_append.mp hr with hr | hr
    · exact hdefault.keys _ (hmems r hr)
    · obtain rfl := mem_singleton.mp hr
      exact hmem

theorem assembleDefault_assembled (hc : FullyAssembled c) (hempty : c.nodes.keys = []) (h : (do
      let next ← defaultNext req entries n
      Txn.modify fun c => { c with startNode := next }) c = (.ok (), c')) : ChainAssembled c' := by
  obtain ⟨next, c1, hnext, h⟩ := bind_eq_ok.mp h
  obtain rfl := congrArg Prod.snd h
  obtain ⟨hc1, hextends, hmem⟩ := defaultNext_givesKey n c c1 next hc hnext
  constructor
  · exact hmem
  · intro k hk
    rcases hextends.new k hk with hk | ⟨r, rfl, hrk⟩
    · rw [hempty] at hk
      cases hk
    · exact hrk
  · exact hc1.kept
  · exact hc1.loaded
  · exact fun t ht => (hc1.used t ht).resolve_right id
  · exact hc1.next
  · exact hc1.keyed

theorem assembleChain_assembled {resolvers : KeyMap String ServiceResolverConfigEntry}
    (h : assembleChain req entries n { resolvers := resolvers } = (.ok (), c')) :
    ChainAssembled c' := by
  obtain ⟨_, c1, hdefaults, h⟩ := bind_eq_ok.mp h
  obtain ⟨_, c2, hcustom, h⟩ := bind_eq_ok.mp h
  have hempty : c2.nodes = .empty ∧ c2.splitterNodes = [] ∧ c2.resolveNodes = [] ∧
      c2.retainedTargets = [] := by
    obtain rfl := congrArg Prod.snd hdefaults
    obtain rfl := congrArg Prod.snd hcustom
    simp only [Txn.modify]
    split <;> split <;> exact ⟨rfl, rfl, rfl, rfl⟩
  obtain ⟨hnodes, hsplitters, hresolvers, hretained⟩ := hempty
  have hc2 : FullyAssembled c2 := by
    constructor
    all_goals simp [hnodes, hsplitters, hresolvers, hretained, KeyMap.empty, Leads]
  have hkeys : c2.nodes.keys = [] := by rw [hnodes]; rfl
  generalize entries.routers.get req.serviceName = router at h
  generalize disableAdvancedRoutingFeatures req = disabled at h
  rcases router with _ | router
  · exact assembleDefault_assembled hc2 hkeys h
  · cases disabled with
    | false => exact assembleRouter_assembled hc2 hkeys h
    | true => exact assembleDefault_assembled hc2 hkeys h

end Chain

end OpenGyoza
