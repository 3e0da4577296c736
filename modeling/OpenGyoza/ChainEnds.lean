-- The passes of the compiler come to an end. The search for cycles goes no
-- deeper than there are nodes, splitters are joined in fewer and fewer
-- steps, and pruning visits a node once. None of them meets a node that is
-- not there.
import OpenGyoza.ChainForm

namespace OpenGyoza

open Memdb Relation KeyMap List

/-- Every edge leads to a node. -/
def ChainNodes.Whole (nodes : ChainNodes) : Prop := ∀ a b, nodes.Leads a b → b ∈ nodes.keys

/-! ## The search for cycles -/

/-- The search comes through the first part of its stack in `m` steps, or fails on it. -/
def Passes (nodes : ChainNodes) (first : List Todo) (visited chain : List String) (m : Nat) :
    Prop :=
  (∀ rest n, detectLoop nodes (m + n) (first ++ rest) visited chain =
    detectLoop nodes n rest visited chain) ∨
  ∃ text, ∀ rest n, detectLoop nodes (m + n) (first ++ rest) visited chain =
    .error (.error text)

variable {visited chain : List String} {nodes nodes' : ChainNodes}

theorem passes_append {first second : List Todo} {m m' : Nat}
    (h : Passes nodes first visited chain m) (h' : Passes nodes second visited chain m') :
    Passes nodes (first ++ second) visited chain (m + m') := by
  rcases h with h | ⟨text, h⟩
  · rcases h' with h' | ⟨text, h'⟩
    · refine .inl fun rest n => ?_
      rw [append_assoc, Nat.add_assoc, h, h']
    · refine .inr ⟨text, fun rest n => ?_⟩
      rw [append_assoc, Nat.add_assoc, h, h']
  · refine .inr ⟨text, fun rest n => ?_⟩
    rw [append_assoc, Nat.add_assoc, h]

theorem passes_visits {keys : List String}
    (h : ∀ k ∈ keys, ∃ m, Passes nodes [.visit k] visited chain m) :
    ∃ m, Passes nodes (keys.map .visit) visited chain m := by
  induction keys with
  | nil => exact ⟨0, .inl fun rest n => by simp⟩
  | cons k keys ih =>
    obtain ⟨m, hm⟩ := h k mem_cons_self
    obtain ⟨m', hm'⟩ := ih fun j hj => h j (mem_cons_of_mem _ hj)
    exact ⟨m + m', passes_append hm hm'⟩

theorem passes_visit {k : String} {node : DiscoveryGraphNode} {m : Nat} (hk : k ∉ visited)
    (hnode : nodes.get k = some node)
    (h : Passes nodes (node.nextNodes.reverse.map .visit) (k :: visited) (k :: chain) m) :
    Passes nodes [.visit k] visited chain (m + 2) := by
  have hleave : (k :: visited).filter (· ≠ k) = visited := by
    rw [filter_cons_of_neg (by simp), filter_eq_self]
    rintro j hj
    simp only [ne_eq, decide_not, Bool.not_eq_eq_eq_not, Bool.not_true, decide_eq_false_iff_not]
    rintro rfl
    exact hk hj
  have henter : ∀ rest n, detectLoop nodes (m + 2 + n) ([.visit k] ++ rest) visited chain =
      detectLoop nodes (m + (n + 1)) (node.nextNodes.reverse.map .visit ++ .popvisit :: rest)
        (k :: visited) (k :: chain) := by
    intro rest n
    rw [show m + 2 + n = (m + (n + 1)) + 1 by omega]
    show detectLoop nodes (_ + 1) (.visit k :: rest) visited chain = _
    rw [detectLoop, if_neg hk, hnode, map_reverse]
  rcases h with h | ⟨text, h⟩
  · refine .inl fun rest n => ?_
    rw [henter, h, detectLoop, hleave]
  · refine .inr ⟨text, fun rest n => ?_⟩
    rw [henter, h]

theorem passes_of_known {k : String} (hk : k ∈ visited) :
    Passes nodes [.visit k] visited chain 1 := by
  refine .inr ⟨"detected circular reference: [" ++
    " -> ".intercalate (k :: chain).reverse ++ "]", fun rest n => ?_⟩
  rw [Nat.add_comm]
  show detectLoop nodes (n + 1) (.visit k :: rest) visited chain = _
  rw [detectLoop, if_pos hk]

theorem visit_ends (hwhole : nodes.Whole) {d : Nat} {k : String} (hk : k ∈ nodes.keys)
    (hnodup : chain.Nodup) (hchain : ∀ j ∈ chain, j ∈ nodes.keys)
    (hd : nodes.len ≤ chain.length + d) : ∃ m, Passes nodes [.visit k] chain chain m := by
  induction d generalizing k chain with
  | zero =>
    have hlen : chain.length = nodes.len :=
      Nat.le_antisymm (List.Subperm.length_le (subperm_of_subset hnodup hchain)) hd
    exact ⟨1, passes_of_known (mem_of_len_eq hnodup hchain hlen hk)⟩
  | succ d ih =>
    by_cases hknown : k ∈ chain
    · exact ⟨1, passes_of_known hknown⟩
    · obtain ⟨node, hnode⟩ := Option.isSome_iff_exists.mp ((nodes.mem_keys k).mp hk)
      have hbelow : ∃ m, Passes nodes (node.nextNodes.reverse.map .visit) (k :: chain)
          (k :: chain) m := by
        refine passes_visits fun b hb => ih ?_ (nodup_cons.mpr ⟨hknown, hnodup⟩) ?_ ?_
        · exact hwhole k b ⟨node, hnode, mem_reverse.mp hb⟩
        · exact forall_mem_cons.mpr ⟨hk, hchain⟩
        · rw [length_cons]
          omega
      obtain ⟨m, hm⟩ := hbelow
      exact ⟨m + 2, passes_visit hknown hnode hm⟩

theorem detect_ends (hwhole : nodes.Whole) {start : String} (hstart : start ∈ nodes.keys) :
    ∃ m, ∀ n, m ≤ n → detectCircularReferences n nodes start = .ok () ∨
      ∃ text, detectCircularReferences n nodes start = .error (.error text) := by
  obtain ⟨m, hm⟩ := visit_ends hwhole hstart nodup_nil (by simp) (Nat.le_add_left _ _)
  refine ⟨m + 1, fun n hn => ?_⟩
  obtain ⟨i, rfl⟩ : ∃ i, n = m + (i + 1) := ⟨n - m - 1, by omega⟩
  rcases hm with hm | ⟨text, hm⟩
  · exact .inl ((hm [] (i + 1)).trans rfl)
  · exact .inr ⟨text, hm [] (i + 1)⟩

/-! ## Joining splitters -/

theorem exists_height (hwhole : nodes.Whole) (hacyclic : ∀ k, ¬TransGen nodes.Leads k k) :
    ∃ height : String → Nat, ∀ a b, nodes.Leads a b → height b < height a := by
  classical
  refine ⟨fun k => (nodes.keys.toFinset.filter (TransGen nodes.Leads k)).card, fun a b hab => ?_⟩
  refine Finset.card_lt_card ⟨fun k hk => ?_, fun hsub => ?_⟩
  · simp only [Finset.mem_filter, mem_toFinset] at hk ⊢
    exact ⟨hk.1, .head hab hk.2⟩
  · have hb : b ∈ nodes.keys.toFinset.filter (TransGen nodes.Leads a) := by
      simp only [Finset.mem_filter, mem_toFinset]
      exact ⟨hwhole a b hab, .single hab⟩
    exact hacyclic b (Finset.mem_filter.mp (hsub hb)).2

/-- From splitter to splitter the way goes down by at least `gap`, and by more than that from
those that are done. -/
def Spaced (nodes : ChainNodes) (height : String → Nat) (gap : Nat) (done : List String) : Prop :=
  ∀ a b, nodes.SplitterAt a → nodes.SplitterAt b → nodes.Leads a b →
    height b + gap ≤ height a ∧ (a ∈ done → height b + gap < height a)

section Flatten

variable [ConfigExternal] {height : String → Nat} {gap : Nat} {done : List String}

theorem flattenSplits_ok (nodes : ChainNodes) (splits : List DiscoverySplit)
    (h : ∀ s ∈ splits, s.nextNode ∈ nodes.keys) :
    ∃ fixedSplits changed, flattenSplits nodes splits = .ok (fixedSplits, changed) := by
  induction splits with
  | nil => exact ⟨[], false, rfl⟩
  | cons split splits ih =>
    obtain ⟨fixed, changed, hrest⟩ := ih fun s hs => h s (mem_cons_of_mem _ hs)
    have hmem := (nodes.mem_keys _).mp (h split mem_cons_self)
    obtain ⟨node, hnode⟩ := Option.isSome_iff_exists.mp hmem
    unfold flattenSplits
    rw [hrest]
    simp only [bind, Except.bind, hnode]
    cases node with
    | splitter name inner => exact ⟨_, _, rfl⟩
    | router name routes => exact ⟨_, _, rfl⟩
    | resolver name r => exact ⟨_, _, rfl⟩

variable {nodes : ChainNodes}

omit [ConfigExternal] in
theorem Flattened.whole (h : Flattened nodes nodes') (hwhole : nodes.Whole) : nodes'.Whole := by
  intro a b hab
  obtain ⟨c, _, hcb⟩ := TransGen.tail'_iff.mp (h.leads a b hab)
  have hb := (nodes.mem_keys b).mp (hwhole c b hcb)
  rw [nodes'.mem_keys]
  rcases h.same b with hsame | ⟨_, name, splits, hsplits⟩
  · rw [hsame]
    exact hb
  · rw [hsplits]
    rfl

theorem spaced_insert {key name : String} {splits fixedSplits : List DiscoverySplit}
    {changed : Bool} (hgap : 0 < gap) (hspaced : Spaced nodes height gap done)
    (hkey : nodes.get key = some (.splitter name splits))
    (h : flattenSplits nodes splits = .ok (fixedSplits, changed)) :
    Spaced (nodes.insert key (.splitter name fixedSplits)) height gap (key :: done) := by
  have hflat := flattened_insert hkey h
  intro a b ha hb hab
  rw [hflat.splitterAt] at ha hb
  rcases (leads_insert a b).mp hab with ⟨rfl, hmem⟩ | ⟨hne, hab⟩
  · obtain ⟨s, hs, ⟨hat, hsb⟩ | ⟨hat, rfl⟩⟩ := ((flattenSplits_next h).1 b).mp hmem
    · have hfirst := (hspaced a s.nextNode ha hat ⟨_, hkey, mem_map_of_mem hs⟩).1
      have hsecond := (hspaced s.nextNode b hat hb hsb).1
      exact ⟨by omega, fun _ => by omega⟩
    · exact absurd hb hat
  · obtain ⟨hle, hdone⟩ := hspaced a b ha hb hab
    exact ⟨hle, fun hmem => hdone ((mem_cons.mp hmem).resolve_left hne)⟩

theorem flattenNode_spaced (hwhole : nodes.Whole) (hgap : 0 < gap)
    (hspaced : Spaced nodes height gap done) (key : String) :
    ∃ nodes' changed, flattenNode nodes key = .ok (nodes', changed) ∧
      Spaced nodes' height gap (key :: done) := by
  unfold flattenNode
  split
  · rename_i name splits hkey
    obtain ⟨fixed, changed, hsplits⟩ := flattenSplits_ok nodes splits
      fun s hs => hwhole key _ ⟨_, hkey, mem_map_of_mem hs⟩
    rw [hsplits]
    simp only [bind, Except.bind]
    split
    · exact ⟨_, _, rfl, spaced_insert hgap hspaced hkey hsplits⟩
    · rename_i hchanged
      refine ⟨nodes, false, rfl, fun a b ha hb hab => ?_⟩
      obtain ⟨hle, hdone⟩ := hspaced a b ha hb hab
      refine ⟨hle, fun hmem => ?_⟩
      rcases mem_cons.mp hmem with rfl | hmem
      · obtain ⟨node, hnode, hnext⟩ := hab
        cases hkey.symm.trans hnode
        obtain ⟨s, hs, rfl⟩ := mem_map.mp hnext
        exact absurd ((flattenSplits_next hsplits).2.mpr ⟨s, hs, hb⟩) hchanged
      · exact hdone hmem
  · rename_i hother
    refine ⟨nodes, false, rfl, fun a b ha hb hab => ?_⟩
    obtain ⟨hle, hdone⟩ := hspaced a b ha hb hab
    refine ⟨hle, fun hmem => ?_⟩
    rcases mem_cons.mp hmem with rfl | hmem
    · obtain ⟨name, splits, hsplits⟩ := ha
      exact absurd hsplits (hother name splits)
    · exact hdone hmem

theorem flattenNodes_spaced (keys : List String) (hwhole : nodes.Whole) (hgap : 0 < gap)
    (hspaced : Spaced nodes height gap done) :
    ∃ nodes' changed, flattenNodes keys nodes = .ok (nodes', changed) ∧
      ChainNodes.Whole nodes' ∧ Spaced nodes' height gap (keys.reverse ++ done) := by
  induction keys generalizing nodes done with
  | nil => exact ⟨nodes, false, rfl, hwhole, hspaced⟩
  | cons key keys ih =>
    obtain ⟨nodes1, changed, hnode, hspaced1⟩ := flattenNode_spaced hwhole hgap hspaced key
    have hwhole1 := (flattenNode_flattened hnode).1.whole hwhole
    obtain ⟨nodes2, any, hrest, hwhole2, hspaced2⟩ := ih hwhole1 hspaced1
    refine ⟨nodes2, changed || any, ?_, hwhole2, ?_⟩
    · unfold flattenNodes
      rw [hnode]
      simp [bind, Except.bind, hrest]
    · rw [reverse_cons, append_assoc]
      exact hspaced2

theorem flattenNodes_same {keys : List String} (hwhole : nodes.Whole)
    (h : ∀ a b, nodes.SplitterAt a → nodes.SplitterAt b → ¬nodes.Leads a b) :
    flattenNodes keys nodes = .ok (nodes, false) := by
  have hone : ∀ key, flattenNode nodes key = .ok (nodes, false) := by
    intro key
    unfold flattenNode
    split
    · rename_i name splits hkey
      obtain ⟨fixed, changed, hsplits⟩ := flattenSplits_ok nodes splits
        fun s hs => hwhole key _ ⟨_, hkey, mem_map_of_mem hs⟩
      have hchanged : changed ≠ true := by
        intro htrue
        obtain ⟨s, hs, hat⟩ := (flattenSplits_next hsplits).2.mp htrue
        exact h key s.nextNode ⟨name, splits, hkey⟩ hat ⟨_, hkey, mem_map_of_mem hs⟩
      rw [hsplits]
      simp [bind, Except.bind, if_neg hchanged]
    · rfl
  induction keys with
  | nil => rfl
  | cons key keys ih =>
    unfold flattenNodes
    rw [hone]
    simp only [bind, Except.bind, ih]
    rfl

theorem flattenAdjacent_ends {w : Walks String} {d n : Nat} (hwhole : nodes.Whole) (hgap : 0 < gap)
    (hspaced : Spaced nodes height gap []) (hheight : ∀ k, nodes.SplitterAt k → height k < gap + d)
    (hn : d < n) : ∃ nodes', flattenAdjacentSplitterNodes w n nodes = .ok nodes' := by
  induction d generalizing nodes gap n with
  | zero =>
    obtain ⟨n, rfl⟩ : ∃ i, n = i + 1 := ⟨n - 1, by omega⟩
    refine ⟨nodes, ?_⟩
    unfold flattenAdjacentSplitterNodes
    rw [flattenNodes_same hwhole]
    · rfl
    · intro a b ha hb hab
      have hdown := (hspaced a b ha hb hab).1
      have htop := hheight a ha
      omega
  | succ d ih =>
    obtain ⟨n, rfl⟩ : ∃ i, n = i + 1 := ⟨n - 1, by omega⟩
    obtain ⟨nodes', changed, hwalk, hwhole', hdone⟩ :=
      flattenNodes_spaced (w.order n nodes.keys) hwhole hgap hspaced
    have hflat := (flattenNodes_flattened hwalk).1
    have hat : ∀ k, ChainNodes.SplitterAt nodes' k → nodes.SplitterAt k := fun k hk =>
      (hflat.splitterAt k).mp hk
    have hspaced' : Spaced nodes' height (gap + 1) [] := by
      intro a b ha hb hab
      obtain ⟨name, splits, hsplits⟩ := hat a ha
      have hmem : a ∈ (w.order n nodes.keys).reverse ++ [] := by
        rw [append_nil, mem_reverse, (w.perm n _).mem_iff]
        exact mem_keys_of_get hsplits
      have hdown := (hdone a b ha hb hab).2 hmem
      exact ⟨by omega, by simp⟩
    unfold flattenAdjacentSplitterNodes
    rw [hwalk]
    simp only [bind, Except.bind]
    split
    · refine ih hwhole' (by omega) hspaced' (fun k hk => ?_) (by omega)
      have htop := hheight k (hat k hk)
      omega
    · exact ⟨nodes', rfl⟩

theorem flatten_ends (hwhole : nodes.Whole) (hacyclic : ∀ k, ¬TransGen nodes.Leads k k) :
    ∃ m, ∀ w n, m ≤ n → ∃ nodes', flattenAdjacentSplitterNodes w n nodes = .ok nodes' := by
  obtain ⟨height, hdown⟩ := exists_height hwhole hacyclic
  have hspaced : Spaced nodes height 1 [] := fun a b _ _ hab => ⟨hdown a b hab, by simp⟩
  refine ⟨(nodes.keys.map height).sum + 1, fun w n hn => ?_⟩
  refine flattenAdjacent_ends hwhole Nat.one_pos hspaced ?_ hn
  rintro k ⟨name, splits, hk⟩
  have hle : height k ≤ (nodes.keys.map height).sum :=
    single_le_sum (fun _ _ => Nat.zero_le _) _
      (mem_map_of_mem (mem_keys_of_get hk))
  omega

end Flatten

/-! ## Pruning and the whole -/

theorem Flattened.mem_keys (h : Flattened nodes nodes') (k : String) :
    k ∈ nodes'.keys ↔ k ∈ nodes.keys := by
  rw [nodes'.mem_keys, nodes.mem_keys]
  rcases h.same k with hsame | ⟨⟨name, splits, hsplits⟩, name', splits', hsplits'⟩
  · rw [hsame]
  · simp [hsplits, hsplits']

/-- How many visits the pruning takes at most. -/
def ChainNodes.walkLength (nodes : ChainNodes) (start : String) : Nat :=
  Walks.left nodes.keys id [start] []

theorem Flattened.walkLength (h : Flattened nodes nodes') (start : String) :
    nodes'.walkLength start = nodes.walkLength start := by
  have hkeys : nodes'.keys.toFinset = nodes.keys.toFinset := by
    ext k
    rw [mem_toFinset, mem_toFinset, h.mem_keys]
  unfold ChainNodes.walkLength Walks.left
  rw [hkeys]

section Compile

variable [External] [ConfigExternal] [Hashstructure]

omit [ConfigExternal] [Hashstructure] in
theorem removeUnused_ends (hwhole : nodes.Whole) {start : String} (hstart : start ∈ nodes.keys)
    {w : Walks String} {n : Nat} (hn : nodes.walkLength start < n) :
    (∃ nodes', removeUnusedNodes w n nodes start = .ok nodes') ∨
      ∃ text, removeUnusedNodes w n nodes start = .error (.error text) := by
  have hstep : ∀ k visited visited' more, k ∈ nodes.keys →
      visitNode nodes k visited = .ok (some (visited', more)) →
      (more = [] ∧ visited' = visited) ∨
        (k ∉ visited ∧ visited' = k :: visited ∧ ∀ j ∈ more, j ∈ nodes.keys) := by
    intro k visited visited' more hk hvisit
    unfold visitNode at hvisit
    split at hvisit
    · cases hvisit
    split at hvisit
    · cases hvisit
      exact .inl ⟨rfl, rfl⟩
    split at hvisit
    · cases hvisit
    · rename_i hnew _ node hnode
      cases hvisit
      exact .inr ⟨hnew, rfl, fun j hj => hwhole k j ⟨node, hnode, hj⟩⟩
  have htodo : ∀ k ∈ [start], k ∈ nodes.keys := by simpa using hstart
  unfold removeUnusedNodes
  rcases Walks.run_ends_of_seen id hstep htodo hn with
    ⟨visited, hrun⟩ | ⟨k, visited, e, hvisit, hrun⟩
  · rw [hrun]
    simp only [bind, Except.bind]
    left
    split
    · exact ⟨_, rfl⟩
    · exact ⟨_, rfl⟩
  · rw [hrun]
    right
    unfold visitNode at hvisit
    split at hvisit
    · cases hvisit
    split at hvisit
    · cases hvisit
    split at hvisit
    · cases hvisit
      exact ⟨_, rfl⟩
    · cases hvisit

omit [External] [ConfigExternal] [Hashstructure] in
theorem firstDigits_ok {v : Nat} (h : 16 ^ 7 ≤ v) : ∃ text, firstDigits v = .ok text := by
  have hlen : ¬(Nat.toDigits 16 v).length < 8 := by
    rw [Nat.lt_succ_iff, Nat.length_toDigits_le_iff (by omega) (by omega)]
    omega
  exact ⟨_, if_neg hlen⟩

/-- A value, or an error that is not a crash. -/
def Returns {α : Type} (r : Except Fault α) : Prop := ∀ text, r ≠ .error (.panic text)

/-- What the request is known to have changed at the end of its compilation. -/
def Compiler.markers (req : CompileRequest) (c : Compiler) : CustomizationMarkers :=
  { c.customizedBy with
    protocol := c.customizedBy.protocol ||
      decide (req.overrideProtocol ≠ "" ∧ req.overrideProtocol ≠ c.protocol) }

theorem Compiler.compile_crash (req : CompileRequest) {c : Compiler} (hc : ChainAssembled c) :
    ∃ m, ∀ w n, m ≤ n → ∀ text, c.compile w n req = .error (.panic text) →
      customizationHash req (c.markers req) = .error (.panic text) := by
  have hwhole : ChainNodes.Whole c.nodes := hc.next
  have hstart : c.startNode ≠ "" := fun hempty => hc.keyed (hempty ▸ hc.start)
  obtain ⟨m1, hdetect⟩ := detect_ends hwhole hc.start
  -- what follows on the search is reached only when there is no cycle
  have hflatten : ∃ m, ∀ w n, m ≤ n → detectCircularReferences n c.nodes c.startNode = .ok () →
      ∃ nodes, flattenAdjacentSplitterNodes w n c.nodes = .ok nodes := by
    by_cases hacyclic : ∀ k, ¬TransGen (ChainNodes.Leads c.nodes) k k
    · obtain ⟨m, hm⟩ := flatten_ends hwhole hacyclic
      exact ⟨m, fun w n hn _ => hm w n hn⟩
    · obtain ⟨k, hcycle⟩ := not_forall_not.mp hacyclic
      obtain ⟨j, ⟨node, hnode, _⟩, _⟩ := TransGen.head'_iff.mp hcycle
      have hreach := hc.reached k (mem_keys_of_get hnode)
      exact ⟨0, fun w n _ hok => absurd hcycle (acyclic_of_detect hok hreach)⟩
  obtain ⟨m2, hflatten⟩ := hflatten
  refine ⟨m1 + m2 + ChainNodes.walkLength c.nodes c.startNode + 1, fun w n hn text => ?_⟩
  unfold Compiler.compile
  rw [if_neg hstart]
  rcases hdetect n (by omega) with hok | ⟨err, herr⟩
  · obtain ⟨nodes, hnodes⟩ := hflatten w n (by omega) hok
    have hflat := (flattenAdjacentSplitterNodes_joined hnodes).1
    have hlength := hflat.walkLength c.startNode
    rw [hok, hnodes]
    simp only [bind, Except.bind]
    rcases removeUnused_ends (hflat.whole hwhole) ((hflat.mem_keys _).mpr hc.start)
      (n := n) (by omega) with ⟨nodes', hremove⟩ | ⟨err, herr⟩
    · rw [hremove]
      dsimp only
      split
      · simp
      · unfold Compiler.markers
        cases customizationHash req _ with
        | error fault =>
          intro h
          cases h
          rfl
        | ok hash => simp
    · rw [herr]
      simp
  · rw [herr]
    simp [bind, Except.bind]

end Compile

end OpenGyoza
