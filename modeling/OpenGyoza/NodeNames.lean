-- The names and the IDs of nodes. No two nodes share one, and a node that
-- registers with an ID takes over the name of another one only when the other
-- one is not healthy, or has no ID yet.
import OpenGyoza.ServiceRows
import OpenGyoza.Transactions

namespace OpenGyoza

open Memdb Txn Table List StoreCall Operation

section Laws

variable [External] {idx : Nat} {s s' : State}

/-! ## Operations -/

/-- The node that an operation registers. -/
def Operation.registeredNode : Operation → Option Node
  | call (.ensureNode node) => some node
  | call (.ensureRegistration req) => some req.toNode
  | txn ⟨none, none, some ⟨.set, node⟩, _, _⟩ => some node
  | txn ⟨none, none, some ⟨.cas, node⟩, _, _⟩ => some node
  | _ => none

theorem ensureServiceTxn_nodes (node : String) (svc : NodeService) (s : State) :
    (ensureServiceTxn idx node svc s).2.nodes = s.nodes := by
  have hspec : ServiceOutcome idx .any node svc s _ _ := ensureServiceTxn_spec node svc s
  by_cases hok : (ensureServiceTxn idx node svc s).1 = .ok ()
  · exact (hspec.put hok).nodes
  · rw [hspec.kept hok]

theorem ensureCheckTxn_nodes (hs : Sound s) (hc : HealthCheck) :
    (ensureCheckTxn idx hc s).2.nodes = s.nodes := by
  obtain ⟨-, hput, hkept⟩ : wp (ensureCheckTxn idx hc) _ s := ensureCheckTxn_outcome hs hc
  by_cases hok : (ensureCheckTxn idx hc s).1 = .ok ()
  · exact (hput hok).nodes
  · exact (hkept hok).nodes

/-- Only an operation that registers a node adds one, and only that node. -/
def Adds (node : Option Node) (s s' : State) : Prop :=
  ∀ k n, s'.nodes.first k = some n → s.nodes.first k = some n ∨ ∃ m, node = some m ∧
    k = toLower m.node ∧ n.id = m.id ∧ m.NameFree s

theorem adds_of_eq {node : Option Node} (h : s'.nodes = s.nodes) : Adds node s s' :=
  fun _ _ hn => .inl (h ▸ hn)

theorem adds_of_erase {node : Option Node} {k : String} (h : s'.nodes = s.nodes.erase k) :
    Adds node s s' := by
  intro j n hn
  rw [h, first_erase] at hn
  split at hn
  · cases hn
  · exact .inl hn

theorem Registers.adds {node : Node} (h : Registers node s s') : Adds (some node) s s' :=
  fun k n hn => (h k n hn).imp id fun h => ⟨node, rfl, h⟩

theorem ensureNodeTxn_adds (hs : Sound s) {node : Node}
    (hcrash : NoCrash (ensureNodeTxn idx node) s) :
    Adds (some node) s (ensureNodeTxn idx node s).2 :=
  (ensureNodeTxn_outcome hs hcrash).2.registers.adds

section

variable {added : Option Node} {node id : String} (hs : Sound s)
include hs

theorem deleteNodeTxn_adds (hcrash : NoCrash (deleteNodeTxn idx node) s) :
    Adds added s (deleteNodeTxn idx node s).2 :=
  adds_of_erase ((deleteNodeTxn_rows hs hcrash).nodes.trans (lessNode_nodes s node))

theorem deleteServiceTxn_adds (hcrash : NoCrash (deleteServiceTxn idx node id) s) :
    Adds added s (deleteServiceTxn idx node id s).2 :=
  adds_of_eq ((deleteServiceTxn_rows hs hcrash).nodes.trans (lessService_nodes s node id))

theorem deleteCheckTxn_adds (hcrash : NoCrash (deleteCheckTxn idx node id) s) :
    Adds added s (deleteCheckTxn idx node id s).2 :=
  adds_of_eq (deleteCheckTxn_rows hs hcrash).nodes

end

theorem StoreCall.adds {c : StoreCall} (hs : Sound s) (hk : (call c).keyOp = none)
    (hnew : (call c).newSession = none) (h : (call c).Succeeds idx s s') :
    Adds (call c).registeredNode s s' := by
  have hstate : (c.run idx s).2 = s' := congrArg Prod.snd h
  have hcrash : NoCrash (c.run idx) s := .of_ok (congrArg Prod.fst h)
  have hrows (hdoes : Does SameRows (c.run idx)) :
      Adds (call c).registeredNode s s' := by
    rw [← hstate]
    exact adds_of_eq (sameRows_of_does hdoes s).nodes
  cases c with
  | kvsSet | kvsSetCAS | kvsDelete | kvsDeleteCAS | kvsDeleteTree | kvsLock | kvsUnlock
  | reapTombstones => cases hk
  | sessionCreate => cases hnew
  | sessionDestroy id => exact hrows (.bind (deleteSessionTxn_rows id) fun _ => .pure _)
  | preparedQuerySet q => exact hrows (.bind (preparedQuerySetTxn_rows q) fun _ => .pure _)
  | preparedQueryDelete id =>
    exact hrows (.bind (.wrap (preparedQueryDeleteTxn_rows id)) fun _ => .pure _)
  | intentionSet x => exact hrows (.bind (intentionSetTxn_rows x) fun _ => .pure _)
  | intentionDelete id =>
    exact hrows (.bind (.wrap (intentionDeleteTxn_rows id)) fun _ => .pure _)
  | coordinateBatchUpdate us =>
    exact hrows (.bind (coordinateBatchUpdateTxn_rows us) fun _ => .pure _)
  | ensureRegistration req =>
    obtain ⟨_, s1, hreg, hlast⟩ := bind_eq_ok.mp h
    cases hlast
    obtain ⟨_, _, ⟨hregisters, hnodes⟩, -⟩ := ensureRegistrationTxn_spec hs hreg
    exact Registers.adds fun k n hn => hregisters k n (hnodes ▸ hn)
  | ensureNode node =>
    rw [← hstate, run, bind_pure_state]
    exact ensureNodeTxn_adds hs hcrash.of_bind
  | ensureService node svc =>
    rw [← hstate, run, bind_pure_state]
    exact adds_of_eq (ensureServiceTxn_nodes node svc s)
  | ensureCheck hc =>
    rw [← hstate, run, bind_pure_state]
    exact adds_of_eq (ensureCheckTxn_nodes hs hc)
  | deleteNode node =>
    rw [← hstate, run, bind_pure_state]
    exact deleteNodeTxn_adds hs hcrash.of_bind
  | deleteService node id =>
    rw [← hstate, run, bind_pure_state]
    exact deleteServiceTxn_adds hs hcrash.of_bind
  | deleteCheck node id =>
    rw [← hstate, run, bind_pure_state]
    exact deleteCheckTxn_adds hs hcrash.of_bind

theorem TxnOp.adds {op : TxnOp} {r : List TxnResult} (hs : Sound s)
    (hk : (txn op).keyOp = none) (h : txnOp idx op s = (.ok r, s')) :
    Adds (txn op).registeredNode s s' := by
  have hstate : (txnOp idx op s).2 = s' := congrArg Prod.snd h
  cases op using TxnOp.kindCases with
  | kv x =>
    rw [← hstate]
    exact adds_of_eq (congrArg State.nodes ((txnKVS_looks hk).state s))
  | intention x =>
    rw [← hstate]
    exact adds_of_eq (sameRows_of_does (txnIntention_rows x) s).nodes
  | node x =>
    obtain ⟨verb, node⟩ := x
    obtain ⟨rfl, hcrash⟩ := (txnNode_verbs idx node).result h
    cases verb with
    | set | cas => exact ensureNodeTxn_adds hs hcrash
    | delete | deleteCAS => exact deleteNodeTxn_adds hs hcrash
    | get | unknown => exact adds_of_eq rfl
  | service x =>
    obtain ⟨verb, node, svc⟩ := x
    obtain ⟨rfl, hcrash⟩ := (txnService_verbs idx node svc).result h
    cases verb with
    | set | cas => exact adds_of_eq (ensureServiceTxn_nodes _ _ s)
    | delete | deleteCAS => exact deleteServiceTxn_adds hs hcrash
    | get | unknown => exact adds_of_eq rfl
  | check x =>
    obtain ⟨verb, hc⟩ := x
    obtain ⟨rfl, hcrash⟩ := (txnCheck_verbs idx hc).result h
    cases verb with
    | set | cas => exact adds_of_eq (ensureCheckTxn_nodes hs hc)
    | delete | deleteCAS => exact deleteCheckTxn_adds hs hcrash
    | get | unknown => exact adds_of_eq rfl
  | missing => cases h

theorem Operation.adds {op : Operation} (hs : Sound s) (h : op.Succeeds idx s s') :
    Adds op.registeredNode s s' := by
  cases hk : op.keyOp with
  | some ko => exact adds_of_eq (KeyOp.change (run_of_keyOp hk h)).sameCatalog.nodes
  | none =>
  cases hnew : op.newSession with
  | some sess =>
    obtain ⟨b, u, -, -, -, -, rfl⟩ := created hnew h
    exact adds_of_eq (sameCatalog_putSession s idx _).nodes
  | none =>
  cases op with
  | call c => exact StoreCall.adds hs hk hnew h
  | txn op =>
    obtain ⟨r, s1, hop, hlast⟩ := bind_eq_ok.mp h
    cases hlast
    exact TxnOp.adds hs hk hop

/-! ## Names and IDs -/

/-- The two IDs are the same UUID. -/
def SameID (id id' : String) : Prop := ∃ u, hasUUID u id = true ∧ hasUUID u id' = true

theorem not_sameID {id id' : String} (h : uuidKey id ≠ uuidKey id') : ¬ SameID id id' := by
  rintro ⟨u, hu, hu'⟩
  exact h ((hasUUID_iff.mp hu).2.trans (hasUUID_iff.mp hu').2.symm)

/-- The node `n`, which has an ID, stands after a step where the node `e` with another ID, or
with none, stood before. -/
structure TakesOver (n e : Node) (s s' : State) : Prop where
  old : e ∈ s.nodes.values
  new : n ∈ s'.nodes.values
  name : toLower n.node = toLower e.node
  hasID : n.id ≠ ""
  other : ¬ SameID n.id e.id

/-- When a node may lose its name: it is not healthy, or it has no ID and the ID of the new node
is not known yet. -/
def MayLose (n e : Node) (s : State) : Prop :=
  nodeHealthy e s = false ∨ (e.id = "" ∧ ∀ m ∈ s.nodes.values, ¬ SameID n.id m.id)

def Operation.FoldsNames (op : Operation) (s : State) : Prop :=
  ∀ node, op.registeredNode = some node → node.id ≠ "" → ∀ e ∈ s.nodes.values,
    toLower node.node = toLower e.node → equalFold node.node e.node = true

instance (op : Operation) (s : State) : Decidable (op.FoldsNames s) :=
  inferInstanceAs (Decidable (∀ node ∈ op.registeredNode, _))

theorem first_of_node {n : Node} (h : n ∈ s.nodes.values) :
    s.nodes.first (toLower n.node) = some n := by
  obtain ⟨k, hk⟩ := mem_values.mp h
  obtain ⟨-, rfl⟩ := nodeKey_eq_ok (key_of_first hk)
  exact hk

theorem lose_of_similar {node e : Node} {allow : Bool}
    (hsim : nodeWithSimilarName node allow s = none) (he : e ∈ s.nodes.values)
    (hfold : equalFold node.node e.node = true) (hid : node.id ≠ e.id) :
    nodeHealthy e s = false ∨ (e.id = "" ∧ allow = true) := by
  have hno := find?_eq_none.mp hsim e he
  simp only [hfold, Bool.true_and, Bool.and_eq_true, bne_iff_ne, ne_eq, hid, not_false_eq_true,
    true_and, Bool.not_eq_true', not_and, Bool.not_eq_true] at hno
  by_cases hallowed : (e.id == "" && allow) = true
  · rw [Bool.and_eq_true, beq_iff_eq] at hallowed
    exact .inr hallowed
  · exact .inl (hno (by simpa using hallowed))

theorem Operation.mayLose {op : Operation} (hs : Sound s) (hfold : op.FoldsNames s)
    (h : op.Succeeds idx s s') {n e : Node} (ht : TakesOver n e s s') : MayLose n e s := by
  have hrow := first_of_node ht.old
  have hnew := first_of_node ht.new
  rw [ht.name] at hnew
  rcases adds hs h _ _ hnew with hold | ⟨node, hreg, hname, hid, hfree⟩
  · -- The row is the old one, so its ID is its own.
    rw [hrow, Option.some.injEq] at hold
    subst hold
    obtain ⟨u, hu⟩ := uuidKey_of_nodeKey (key_of_first hrow) ht.hasID
    exact absurd ⟨u, hasUUID_iff.mpr ⟨ht.hasID, hu⟩, hasUUID_iff.mpr ⟨ht.hasID, hu⟩⟩ ht.other
  · have hne : node.id ≠ "" := hid ▸ ht.hasID
    have hequal := hfold node hreg hne e ht.old hname.symm
    rcases hfree with hempty | ⟨bytes, hparse, hfree⟩
    · exact absurd hempty hne
    have huuid (u : List Byte) : hasUUID u n.id = true ↔ u = bytes := by
      rw [hid]
      exact hasUUID_of_parseUUID hne hparse
    have hids : node.id ≠ e.id := by
      intro heq
      have hb := (huuid bytes).mpr rfl
      exact ht.other ⟨bytes, hb, by rw [← heq, ← hid]; exact hb⟩
    cases hsame : sameIDNode bytes s with
    | none =>
      rw [hsame] at hfree
      refine (lose_of_similar hfree ht.old hequal hids).imp id fun hempty => ⟨hempty.1, ?_⟩
      rintro m hm ⟨u, hu, hmu⟩
      obtain rfl := (huuid u).mp hu
      exact absurd hmu (find?_eq_none.mp hsame m hm)
    | some m =>
      rw [hsame] at hfree
      have hm : m ∈ s.nodes.values := mem_of_find?_eq_some hsame
      have hmu : hasUUID bytes m.id = true :=
        find?_some (p := fun m : Node => hasUUID bytes m.id) hsame
      rcases hfree with hname' | hsim
      · -- The node keeps its own name, so it is the one that stood there.
        have hmrow := first_of_node hm
        rw [hname', ← hname, hrow, Option.some.injEq] at hmrow
        subst hmrow
        exact absurd ⟨bytes, (huuid bytes).mpr rfl, hmu⟩ ht.other
      · refine (lose_of_similar hsim ht.old hequal hids).imp id fun h => ?_
        exact absurd h.2 (by simp)

/-- In every run no two nodes have the same ID or the same name, and a node with an ID takes over
the name of another node only when that one may lose it. -/
theorem node_names_are_kept {log : List LogEntry}
    (hfold : ∀ ev ∈ history log .empty, ev.op.FoldsNames ev.before) :
    (∀ n ∈ (replay log .empty).nodes.values, ∀ m ∈ (replay log .empty).nodes.values,
      SameID n.id m.id ∨ toLower n.node = toLower m.node → n = m) ∧
    ∀ ev ∈ history log .empty, ∀ n e, TakesOver n e ev.before ev.after → MayLose n e ev.before := by
  have hpath := history_path log .empty
  refine ⟨fun n hn m hm h => ?_, fun ev hev n e ht => ?_⟩
  · have hs : Sound (replay log .empty) := hpath.sound sound_empty
    rcases h with ⟨u, hu, hu'⟩ | hname
    · exact hs.nodeIDs n hn m hm u hu hu'
    · have hrow := first_of_node hn
      rw [hname, first_of_node hm, Option.some.injEq] at hrow
      exact hrow.symm
  · obtain ⟨l₁, l₂, hsplit⟩ := append_of_mem hev
    rw [hsplit] at hpath
    obtain ⟨h₁, h₂⟩ := hpath.of_append
    generalize endOf State.empty l₁ = s₁ at h₁ h₂
    cases h₂ with
    | cons hop _ => exact mayLose (h₁.sound sound_empty) (hfold ev hev) hop ht

end Laws

/-! ## A name with a dot -/

/-- Go has the small letter `i` for the capital letter `İ` with a dot, but its case folding does
not take the two for equal. -/
@[reducible] def dottedLower (s : String) : String :=
  String.ofList (s.toList.map fun c => if c = 'İ' then 'i' else c.toLower)

@[reducible] def dotted : External :=
  { ascii with
    toLower := dottedLower
    toLower_eq_empty := by
      intro s
      constructor
      · intro h
        have hl : (dottedLower s).toList = [] := by rw [h]; rfl
        rw [dottedLower, String.toList_ofList, List.map_eq_nil_iff] at hl
        exact String.toList_eq_nil_iff.mp hl
      · rintro rfl
        rfl }

def firstNode : Node := { id := "11111111-2222-3333-4444-555555555555", node := "i" }

def secondNode (name : String) : Node :=
  { id := "22222222-2222-3333-4444-555555555555", node := name }

/-- The first node registers and has a check for its health, then the second one registers. -/
def takeoverLog (status name : String) : List LogEntry :=
  [⟨1, .call (.ensureNode firstNode)⟩,
   ⟨2, .call (.ensureCheck { node := "i", checkID := serfCheckID, status := status })⟩,
   ⟨3, .call (.ensureNode (secondNode name))⟩]

/-- The two rows as they are stored. -/
def firstRow : Node := { firstNode with createIndex := 1, modifyIndex := 1 }

def secondRow (name : String) : Node :=
  { secondNode name with createIndex := 1, modifyIndex := 3 }

section Dotted

attribute [local instance] dotted

/-- The node `i` loses its row to the node `İ`, although it is healthy and has an ID. -/
theorem a_dotted_name_is_taken_over :
    ∃ ev ∈ history (takeoverLog "passing" "İ") .empty,
      TakesOver (secondRow "İ") firstRow ev.before ev.after ∧
      ¬ MayLose (secondRow "İ") firstRow ev.before := by
  have hlast : ∃ ev ∈ history (takeoverLog "passing" "İ") .empty,
      firstRow ∈ ev.before.nodes.values ∧ secondRow "İ" ∈ ev.after.nodes.values ∧
      nodeHealthy firstRow ev.before = true := by decide
  obtain ⟨ev, hev, hold, hnew, hhealthy⟩ := hlast
  refine ⟨ev, hev, ⟨hold, hnew, by decide, by decide, not_sameID (by decide)⟩, ?_⟩
  rintro (hsick | ⟨hempty, -⟩)
  · rw [hhealthy] at hsick
    cases hsick
  · exact absurd hempty (by decide)

end Dotted

section Critical

attribute [local instance] ascii

/-- The node `i` loses its name to another node after its check has turned critical. -/
theorem a_critical_node_is_taken_over :
    (∀ ev ∈ history (takeoverLog healthCritical "I") .empty, ev.op.FoldsNames ev.before) ∧
      ∃ ev ∈ history (takeoverLog healthCritical "I") .empty,
        TakesOver (secondRow "I") firstRow ev.before ev.after ∧
        MayLose (secondRow "I") firstRow ev.before := by
  have hfold : ∀ ev ∈ history (takeoverLog healthCritical "I") .empty,
      ev.op.FoldsNames ev.before := by decide
  have hlast : ∃ ev ∈ history (takeoverLog healthCritical "I") .empty,
      firstRow ∈ ev.before.nodes.values ∧ secondRow "I" ∈ ev.after.nodes.values := by decide
  obtain ⟨ev, hev, hold, hnew⟩ := hlast
  have htakes : TakesOver (secondRow "I") firstRow ev.before ev.after :=
    ⟨hold, hnew, by decide, by decide, not_sameID (by decide)⟩
  exact ⟨hfold, ev, hev, htakes, (node_names_are_kept hfold).2 ev hev _ _ htakes⟩

end Critical

end OpenGyoza
