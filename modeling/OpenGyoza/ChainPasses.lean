-- The passes of the compiler over the nodes of a chain. The search for
-- cycles finds every cycle below the start, joining splitters keeps what
-- can be reached, and pruning leaves the nodes that can be reached.
import OpenGyoza.ChainCompiler

namespace OpenGyoza

open Memdb Relation KeyMap List

/-- The nodes of a chain by their keys. -/
abbrev ChainNodes := KeyMap String DiscoveryGraphNode

/-- A route or a split of the first node leads to the second. -/
def ChainNodes.Leads (nodes : ChainNodes) (a b : String) : Prop :=
  ∃ node, nodes.get a = some node ∧ b ∈ node.nextNodes

def ChainNodes.SplitterAt (nodes : ChainNodes) (k : String) : Prop :=
  ∃ name splits, nodes.get k = some (.splitter name splits)

/-! ## The search for cycles -/

/-- Nothing below `k` is on the way to `k` or on a cycle. -/
def Clear (nodes : ChainNodes) (chain : List String) (k : String) : Prop :=
  ∀ j, ReflTransGen nodes.Leads k j → j ∉ chain ∧ ¬TransGen nodes.Leads j j

/-- What is still to be visited is clear of the nodes on the way to it. -/
def Pending (nodes : ChainNodes) : List Todo → List String → Prop
  | [], _ => True
  | .popvisit :: todo, chain => Pending nodes todo chain.tail
  | .visit k :: todo, chain => Clear nodes chain k ∧ Pending nodes todo chain

variable {nodes : ChainNodes} {chain : List String}

theorem clear_of_next {k : String} (hk : k ∉ chain)
    (h : ∀ b, nodes.Leads k b → Clear nodes (k :: chain) b) : Clear nodes chain k := by
  intro j hj
  rcases ReflTransGen.cases_head hj with rfl | ⟨b, hkb, hbj⟩
  · refine ⟨hk, fun hcycle => ?_⟩
    obtain ⟨b, hkb, hbk⟩ := TransGen.head'_iff.mp hcycle
    exact ((h b hkb) k hbk).1 mem_cons_self
  · obtain ⟨hout, hcycle⟩ := h b hkb j hbj
    exact ⟨fun hmem => hout (mem_cons_of_mem _ hmem), hcycle⟩

theorem pending_visits {keys : List String} {todo : List Todo}
    (h : Pending nodes (keys.map .visit ++ todo) chain) :
    (∀ k ∈ keys, Clear nodes chain k) ∧ Pending nodes todo chain := by
  induction keys with
  | nil => exact ⟨by simp, h⟩
  | cons k keys ih =>
    obtain ⟨hrest, htodo⟩ := ih h.2
    exact ⟨forall_mem_cons.mpr ⟨h.1, hrest⟩, htodo⟩

variable {n : Nat} {visited : List String}

theorem detectLoop_pending {todo : List Todo} (hvisited : ∀ k, k ∈ visited ↔ k ∈ chain)
    (hnodup : chain.Nodup) (h : detectLoop nodes n todo visited chain = .ok ()) :
    Pending nodes todo chain := by
  induction n generalizing todo visited chain with
  | zero => cases h
  | succ n ih =>
    match todo, chain with
    | [], _ => trivial
    | .popvisit :: todo, [] =>
      show Pending nodes todo []
      exact ih hvisited hnodup h
    | .popvisit :: todo, v :: chain =>
      obtain ⟨hv, hrest⟩ := nodup_cons.mp hnodup
      show Pending nodes todo chain
      refine ih (fun k => ?_) hrest h
      rw [mem_filter, hvisited, mem_cons, decide_eq_true_eq]
      constructor
      · rintro ⟨rfl | hk, hne⟩
        · exact absurd rfl hne
        · exact hk
      · intro hk
        refine ⟨.inr hk, ?_⟩
        rintro rfl
        exact hv hk
    | .visit current :: todo, chain =>
      unfold detectLoop at h
      split at h
      · cases h
      · rename_i hnew
        rw [hvisited] at hnew
        split at h
        · cases h
        · rename_i node hnode
          have hnext : ∀ k, k ∈ current :: visited ↔ k ∈ current :: chain := by
            intro k
            rw [mem_cons, mem_cons, hvisited]
          have hpending := ih hnext (nodup_cons.mpr ⟨hnew, hnodup⟩) h
          rw [← map_reverse] at hpending
          obtain ⟨hbelow, hrest⟩ := pending_visits hpending
          refine ⟨clear_of_next hnew fun b hb => ?_, hrest⟩
          obtain ⟨node', hnode', hmem⟩ := hb
          obtain rfl := Option.some.inj (hnode.symm.trans hnode')
          exact hbelow b (mem_reverse.mpr hmem)

theorem acyclic_of_detect {start : String} (h : detectCircularReferences n nodes start = .ok ())
    {k : String} (hk : ReflTransGen nodes.Leads start k) : ¬TransGen nodes.Leads k k :=
  ((detectLoop_pending (by simp) nodup_nil h).1 k hk).2

/-! ## Joining splitters -/

section Flatten

variable [ConfigExternal] {changed : Bool} {nodes' : ChainNodes} {key : String}
  {splits fixedSplits : List DiscoverySplit}

theorem flattenSplits_next (h : flattenSplits nodes splits = .ok (fixedSplits, changed)) :
    (∀ b, b ∈ fixedSplits.map (·.nextNode) ↔ ∃ s ∈ splits,
      (nodes.SplitterAt s.nextNode ∧ nodes.Leads s.nextNode b) ∨
      (¬nodes.SplitterAt s.nextNode ∧ b = s.nextNode)) ∧
    (changed = true ↔ ∃ s ∈ splits, nodes.SplitterAt s.nextNode) := by
  induction splits generalizing fixedSplits changed with
  | nil =>
    cases h
    simp
  | cons split splits ih =>
    unfold flattenSplits at h
    cases hrest : flattenSplits nodes splits with
    | error e => rw [hrest] at h; cases h
    | ok rest =>
      obtain ⟨fixed, any⟩ := rest
      obtain ⟨hnext, hany⟩ := ih hrest
      rw [hrest] at h
      split at h
      · cases h
      · rename_i name inner hinner
        cases h
        have hat : nodes.SplitterAt split.nextNode := ⟨name, inner, hinner⟩
        have hleads : ∀ b, nodes.Leads split.nextNode b ↔ b ∈ inner.map (·.nextNode) := by
          intro b
          unfold ChainNodes.Leads
          simp [hinner, DiscoveryGraphNode.nextNodes]
        refine ⟨fun b => ?_, by simp [hat]⟩
        rw [map_append, mem_append, hnext, List.map_map, exists_mem_cons_iff, hleads]
        simp [hat, innerSplit]
      · rename_i node hother hnode
        cases h
        have hat : ¬nodes.SplitterAt split.nextNode := by
          rintro ⟨name, inner, hinner⟩
          exact hother name inner (Option.some.inj (hnode.symm.trans hinner))
        refine ⟨fun b => ?_, ?_⟩
        · rw [map_cons, mem_cons, hnext, exists_mem_cons_iff]
          simp [hat]
        · rw [exists_mem_cons_iff, hany]
          simp [hat]

structure Flattened (nodes nodes' : ChainNodes) : Prop where
  same : ∀ k, nodes'.get k = nodes.get k ∨ (nodes.SplitterAt k ∧ nodes'.SplitterAt k)
  leads : ∀ a b, nodes'.Leads a b → TransGen nodes.Leads a b
  reach : ∀ a r, ReflTransGen nodes.Leads a r → ¬nodes.SplitterAt r →
    ReflTransGen nodes'.Leads a r

omit [ConfigExternal] in
theorem Flattened.refl (nodes : ChainNodes) : Flattened nodes nodes where
  same _ := .inl rfl
  leads _ _ h := .single h
  reach _ _ h _ := h

omit [ConfigExternal] in
theorem Flattened.splitterAt (h : Flattened nodes nodes') (k : String) :
    nodes'.SplitterAt k ↔ nodes.SplitterAt k := by
  rcases h.same k with hk | ⟨hk, hk'⟩
  · unfold ChainNodes.SplitterAt
    rw [hk]
  · exact ⟨fun _ => hk, fun _ => hk'⟩

omit [ConfigExternal] in
theorem Flattened.trans {nodes'' : ChainNodes} (h : Flattened nodes nodes')
    (h' : Flattened nodes' nodes'') : Flattened nodes nodes'' where
  same := by
    intro k
    rcases h'.same k with hk' | ⟨hk', hk''⟩
    · rw [hk']
      rcases h.same k with hk | ⟨hk, hat⟩
      · exact .inl hk
      · refine .inr ⟨hk, ?_⟩
        unfold ChainNodes.SplitterAt
        rw [hk']
        exact hat
    · exact .inr ⟨(h.splitterAt k).mp hk', hk''⟩
  leads := by
    intro a b hab
    exact TransGen.trans_induction_on (h'.leads a b hab) (fun hstep => h.leads _ _ hstep)
      fun _ _ hxy hyz => hxy.trans hyz
  reach := by
    intro a r har hr
    exact h'.reach a r (h.reach a r har hr) fun hat => hr ((h.splitterAt r).mp hat)

omit [ConfigExternal] in
theorem leads_insert {node : DiscoveryGraphNode} (a b : String) :
    ChainNodes.Leads (nodes.insert key node) a b ↔
      (a = key ∧ b ∈ node.nextNodes) ∨ (a ≠ key ∧ nodes.Leads a b) := by
  unfold ChainNodes.Leads
  by_cases ha : a = key
  · subst ha
    simp
  · simp [get_insert_of_ne ha, ha]

theorem flattened_insert {name : String} (hkey : nodes.get key = some (.splitter name splits))
    (h : flattenSplits nodes splits = .ok (fixedSplits, changed)) :
    Flattened nodes (nodes.insert key (.splitter name fixedSplits)) := by
  have hnext := (flattenSplits_next h).1
  have hat : nodes.SplitterAt key := ⟨name, splits, hkey⟩
  have hleads : ∀ s ∈ splits, nodes.Leads key s.nextNode := fun s hs =>
    ⟨_, hkey, mem_map_of_mem hs⟩
  have hsplit : ∀ b, nodes.Leads key b → ∃ s ∈ splits, s.nextNode = b := by
    rintro b ⟨node, hnode, hmem⟩
    cases hkey.symm.trans hnode
    exact mem_map.mp hmem
  constructor
  · intro k
    by_cases hk : k = key
    · subst hk
      exact .inr ⟨hat, name, fixedSplits, get_insert_self ..⟩
    · exact .inl (get_insert_of_ne hk)
  · intro a b hab
    rcases (leads_insert a b).mp hab with ⟨rfl, hb⟩ | ⟨_, hab⟩
    · obtain ⟨s, hs, ⟨_, hsb⟩ | ⟨_, rfl⟩⟩ := (hnext b).mp hb
      · exact (TransGen.single (hleads s hs)).tail hsb
      · exact .single (hleads s hs)
    · exact .single hab
  · intro a r har hr
    -- beside the way itself: the way after one step, for a splitter that is stepped over
    suffices hboth : ReflTransGen (ChainNodes.Leads (nodes.insert key (.splitter name fixedSplits)))
        a r ∧ (nodes.SplitterAt a → ∃ c, nodes.Leads a c ∧
          ReflTransGen (ChainNodes.Leads (nodes.insert key (.splitter name fixedSplits))) c r) from
      hboth.1
    induction har using ReflTransGen.head_induction_on with
    | refl => exact ⟨.refl, fun hat => absurd hat hr⟩
    | @head a b hab _ ih =>
      refine ⟨?_, fun _ => ⟨b, hab, ih.1⟩⟩
      by_cases ha : a = key
      · subst ha
        obtain ⟨s, hs, rfl⟩ := hsplit b hab
        by_cases hb : nodes.SplitterAt s.nextNode
        · obtain ⟨c, hsc, hcr⟩ := ih.2 hb
          refine .head ((leads_insert _ _).mpr (.inl ⟨rfl, ?_⟩)) hcr
          exact (hnext c).mpr ⟨s, hs, .inl ⟨hb, hsc⟩⟩
        · refine .head ((leads_insert _ _).mpr (.inl ⟨rfl, ?_⟩)) ih.1
          exact (hnext _).mpr ⟨s, hs, .inr ⟨hb, rfl⟩⟩
      · exact .head ((leads_insert _ _).mpr (.inr ⟨ha, hab⟩)) ih.1

/-- No split of the node leads to a splitter. -/
def Joined (nodes : ChainNodes) (key : String) : Prop :=
  ∀ name splits, nodes.get key = some (.splitter name splits) →
    ∀ s ∈ splits, ¬nodes.SplitterAt s.nextNode

theorem flattenNode_flattened (h : flattenNode nodes key = .ok (nodes', changed)) :
    Flattened nodes nodes' ∧ (changed = false → nodes' = nodes ∧ Joined nodes key) := by
  unfold flattenNode at h
  split at h
  · rename_i name splits hkey
    cases hsplits : flattenSplits nodes splits with
    | error e => rw [hsplits] at h; cases h
    | ok out =>
      obtain ⟨fixedSplits, any⟩ := out
      rw [hsplits] at h
      simp only [bind, Except.bind] at h
      split at h
      · cases h
        exact ⟨flattened_insert hkey hsplits, by simp⟩
      · rename_i hany
        cases h
        refine ⟨.refl _, fun _ => ⟨rfl, ?_⟩⟩
        intro name' splits' hkey' s hs hat
        cases hkey.symm.trans hkey'
        exact hany ((flattenSplits_next hsplits).2.mpr ⟨s, hs, hat⟩)
  · rename_i hother
    cases h
    exact ⟨.refl _, fun _ => ⟨rfl, fun name splits hkey => absurd hkey (hother name splits)⟩⟩

theorem flattenNodes_flattened {keys : List String} {anyChanged : Bool}
    (h : flattenNodes keys nodes = .ok (nodes', anyChanged)) :
    Flattened nodes nodes' ∧
      (anyChanged = false → nodes' = nodes ∧ ∀ k ∈ keys, Joined nodes k) := by
  induction keys generalizing nodes anyChanged with
  | nil =>
    cases h
    exact ⟨.refl _, fun _ => ⟨rfl, by simp⟩⟩
  | cons key keys ih =>
    unfold flattenNodes at h
    cases hnode : flattenNode nodes key with
    | error e => rw [hnode] at h; cases h
    | ok out =>
      obtain ⟨nodes1, changed⟩ := out
      rw [hnode] at h
      simp only [bind, Except.bind] at h
      cases hrest : flattenNodes keys nodes1 with
      | error e => rw [hrest] at h; cases h
      | ok out =>
        obtain ⟨nodes2, any⟩ := out
        rw [hrest] at h
        cases h
        obtain ⟨hflat, hjoined⟩ := flattenNode_flattened hnode
        obtain ⟨hflats, hall⟩ := ih hrest
        refine ⟨hflat.trans hflats, fun hnone => ?_⟩
        obtain ⟨hchanged, hany⟩ := Bool.or_eq_false_iff.mp hnone
        obtain ⟨rfl, hkey⟩ := hjoined hchanged
        obtain ⟨rfl, hkeys⟩ := hall hany
        exact ⟨rfl, forall_mem_cons.mpr ⟨hkey, hkeys⟩⟩

theorem flattenAdjacentSplitterNodes_joined {w : Walks String}
    (h : flattenAdjacentSplitterNodes w n nodes = .ok nodes') :
    Flattened nodes nodes' ∧ ∀ k, Joined nodes' k := by
  induction n generalizing nodes with
  | zero => cases h
  | succ n ih =>
    unfold flattenAdjacentSplitterNodes at h
    cases hwalk : flattenNodes (w.order n nodes.keys) nodes with
    | error e => rw [hwalk] at h; cases h
    | ok out =>
      obtain ⟨nodes1, anyChanged⟩ := out
      rw [hwalk] at h
      simp only [bind, Except.bind] at h
      obtain ⟨hflat, hjoined⟩ := flattenNodes_flattened hwalk
      split at h
      · obtain ⟨hflats, hall⟩ := ih h
        exact ⟨hflat.trans hflats, hall⟩
      · rename_i hnone
        cases h
        obtain ⟨rfl, hkeys⟩ := hjoined (Bool.not_eq_true _ ▸ hnone)
        refine ⟨hflat, fun k name splits hk => ?_⟩
        have hmem := (w.perm n _).mem_iff.mpr (mem_keys_of_get hk)
        exact hkeys k hmem name splits hk

end Flatten

/-! ## Pruning -/

section Prune

variable [External] {nodes : ChainNodes} {start : String}

structure Walked (nodes : ChainNodes) (start : String) (todo visited : List String) : Prop where
  seen : start ∈ visited ∨ start ∈ todo
  nodup : visited.Nodup
  ahead : ∀ k ∈ todo, ReflTransGen nodes.Leads start k
  behind : ∀ k ∈ visited, ReflTransGen nodes.Leads start k ∧ k ∈ nodes.keys
  closed : ∀ k ∈ visited, ∀ b, nodes.Leads k b → b ∈ visited ∨ b ∈ todo

theorem Walked.step {k : String} {todo visited' more : List String} (hk : k ∈ todo)
    (h : Walked nodes start todo visited)
    (hvisit : visitNode nodes k visited = .ok (some (visited', more))) :
    Walked nodes start (todo.filter (· ≠ k) ++ more) visited' := by
  have hkept : ∀ {b : String}, b ∈ visited ∨ b ∈ todo → b = k ∨ b ∈ visited ∨
      b ∈ todo.filter (· ≠ k) ++ more := by
    intro b hb
    by_cases hbk : b = k
    · exact .inl hbk
    · rcases hb with hb | hb
      · exact .inr (.inl hb)
      · exact .inr (.inr (mem_append_left _ (mem_filter.mpr ⟨hb, decide_eq_true hbk⟩)))
  unfold visitNode at hvisit
  split at hvisit
  · cases hvisit
  split at hvisit
  · rename_i hold
    cases hvisit
    have hclosed : ∀ {b : String}, b ∈ visited ∨ b ∈ todo → b ∈ visited ∨
        b ∈ todo.filter (· ≠ k) ++ [] := by
      intro b hb
      rcases hkept hb with rfl | hb
      · exact .inl hold
      · exact hb
    refine ⟨hclosed h.seen, h.nodup, ?_, h.behind, fun j hj b hb => hclosed (h.closed j hj b hb)⟩
    intro j hj
    rw [append_nil] at hj
    exact h.ahead j (mem_filter.mp hj).1
  · rename_i hnew
    split at hvisit
    · cases hvisit
    · rename_i node hnode
      cases hvisit
      have hreach := h.ahead k hk
      have hclosed : ∀ {b : String}, b ∈ visited ∨ b ∈ todo → b ∈ k :: visited ∨
          b ∈ todo.filter (· ≠ k) ++ node.nextNodes := by
        intro b hb
        rcases hkept hb with rfl | hb | hb
        · exact .inl mem_cons_self
        · exact .inl (mem_cons_of_mem _ hb)
        · exact .inr hb
      refine ⟨hclosed h.seen, nodup_cons.mpr ⟨hnew, h.nodup⟩, ?_, ?_, ?_⟩
      · intro j hj
        rcases mem_append.mp hj with hj | hj
        · exact h.ahead j (mem_filter.mp hj).1
        · exact hreach.tail ⟨node, hnode, hj⟩
      · exact forall_mem_cons.mpr ⟨⟨hreach, mem_keys_of_get hnode⟩, h.behind⟩
      · intro j hj b hb
        rcases mem_cons.mp hj with rfl | hj
        · obtain ⟨node', hnode', hmem⟩ := hb
          cases hnode.symm.trans hnode'
          exact .inr (mem_append_right _ hmem)
        · exact hclosed (h.closed j hj b hb)

omit [External] in
theorem Walked.complete (h : Walked nodes start [] visited) (k : String) :
    k ∈ visited ↔ ReflTransGen nodes.Leads start k := by
  refine ⟨fun hk => (h.behind k hk).1, fun hk => ?_⟩
  induction hk with
  | refl => exact h.seen.resolve_right (by simp)
  | tail _ hab ih => exact (h.closed _ ih _ hab).resolve_right (by simp)

theorem removeUnusedNodes_kept {w : Walks String} {nodes' : ChainNodes}
    (hne : ∀ k, ReflTransGen nodes.Leads start k → k ≠ "")
    (h : removeUnusedNodes w n nodes start = .ok nodes') :
    (∀ k node, nodes'.get k = some node ↔
      nodes.get k = some node ∧ ReflTransGen nodes.Leads start k) ∧
    ∀ k, ReflTransGen nodes.Leads start k → k ∈ nodes.keys := by
  unfold removeUnusedNodes at h
  cases hwalk : w.run (.panic "out of steps") (visitNode nodes) n [start] [] with
  | error e => rw [hwalk] at h; cases h
  | ok visited =>
    have hwalked : Walked nodes start [] visited := by
      refine Walks.run_induction (I := Walked nodes start) (fun _ _ _ _ _ hk hI hv => hI.step hk hv)
        ?_ (fun _ hI => hI) ?_ hwalk
      · intro k todo visited hk hI hv
        unfold visitNode at hv
        rw [if_neg (hne k (hI.ahead k hk))] at hv
        split at hv
        · cases hv
        · split at hv <;> cases hv
      · refine ⟨.inr mem_cons_self, nodup_nil, ?_, by simp, by simp⟩
        intro k hk
        obtain rfl := mem_singleton.mp hk
        exact .refl
    have hkeys : ∀ k, ReflTransGen nodes.Leads start k → k ∈ nodes.keys := fun k hk =>
      (hwalked.behind k ((hwalked.complete k).mpr hk)).2
    refine ⟨fun k node => ?_, hkeys⟩
    rw [hwalk] at h
    simp only [bind, Except.bind] at h
    split at h
    · rename_i hlen
      cases h
      refine ⟨fun hk => ⟨hk, ?_⟩, And.left⟩
      have hmem := mem_of_len_eq hwalked.nodup (fun j hj => (hwalked.behind j hj).2) hlen
        (mem_keys_of_get hk)
      exact (hwalked.complete k).mp hmem
    · cases h
      rw [get_filter, decide_eq_true_eq, hwalked.complete, and_comm]

end Prune

end OpenGyoza
