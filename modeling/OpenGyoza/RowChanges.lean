-- What the operations of the catalog do to its rows. A delete takes away the
-- rows under one name, and a write changes the row under one key, unless it
-- renames a node.
import OpenGyoza.CatalogFrames

namespace OpenGyoza

open Memdb Table List

variable [External] {idx : Nat} {s s' : State}

/-! ## Deletes -/

namespace State

def lessChecks (s : State) (node : String) (checks : List HealthCheck) : State :=
  { s with checks := s.checks.eraseAll (checks.map (rowKey node ·.checkID)) }

/-- The rows after the delete of a check. -/
def lessCheck (s : State) (node checkID : String) : State :=
  { s with checks := s.checks.erase (rowKey node checkID) }

/-- The rows after the delete of a service. -/
def lessService (s : State) (node serviceID : String) : State :=
  if (serviceRow node serviceID s).isSome then
    { s.lessChecks node (checksOfService node serviceID s) with
      services := s.services.erase (rowKey node serviceID) }
  else s

/-- The rows after the services that are found for a node were deleted. -/
def lessServices (s : State) (node : String) : State :=
  (servicesOfNode node s).foldl (fun s svc => s.lessService node svc.serviceID) s

/-- The rows after the delete of a node. -/
def lessNode (s : State) (node : String) : State :=
  if (nodeRow node s).isSome then
    { (s.lessServices node).lessChecks node (checksOfNode node (s.lessServices node)) with
      nodes := s.nodes.erase (toLower node) }
  else s

end State

theorem mem_seek_field {ν : Type} {key : ν → Except String (List Byte)} {t : Table key}
    {field : ν → String} {name : String} {v : ν} (hv : v ∈ t.values) (hne : field v ≠ "")
    (hname : toLower (field v) = toLower name) :
    v ∈ t.seek (entryOf key fun v => fieldValue (field v)) (indexField name) := by
  obtain ⟨k, hk⟩ := mem_values.mp hv
  refine mem_seek_entryOf.mpr ⟨k, indexField (field v), hk, if_neg hne, ?_⟩
  rw [indexField, indexField, hname]
  exact prefix_append _ _

theorem field_ne_of_mem_eraseAll {ν : Type} {key : ν → Except String (List Byte)} {t : Table key}
    {field id : ν → String} {name : String} {v : ν}
    (hkey : ∀ v k, key v = .ok k → field v ≠ "" ∧ k = rowKey (field v) (id v))
    (hv : v ∈ (t.eraseAll ((t.seek (entryOf key fun v => fieldValue (field v))
      (indexField name)).map fun v => rowKey name (id v))).values) :
    toLower (field v) ≠ toLower name := by
  intro hname
  obtain ⟨k, hk⟩ := mem_values.mp hv
  rw [first_eraseAll] at hk
  split at hk
  · cases hk
  · rename_i hnot
    obtain ⟨hne, rfl⟩ := hkey v k (key_of_first hk)
    exact hnot (mem_map.mpr ⟨v, mem_seek_field (mem_values_of_first hk) hne hname,
      rowKey_congr hname.symm rfl⟩)

theorem lessService_services (s : State) (node serviceID : String) :
    (s.lessService node serviceID).services = s.services.erase (rowKey node serviceID) := by
  unfold State.lessService
  split
  · rfl
  · rename_i hnone
    exact (erase_of_first_none (Option.not_isSome_iff_eq_none.mp hnone)).symm

theorem lessService_nodes (s : State) (node serviceID : String) :
    (s.lessService node serviceID).nodes = s.nodes := by
  unfold State.lessService
  split <;> rfl

theorem lessService_checks (s : State) (node serviceID : String) :
    Within (s.lessService node serviceID).checks s.checks := by
  unfold State.lessService
  split
  · exact within_eraseAll _ _
  · exact fun _ _ h => h

theorem SameRows.lessChecks (h : SameRows s s') (node : String) (l : List HealthCheck) :
    SameRows (s.lessChecks node l) (s'.lessChecks node l) := by
  simp [SameRows, State.catalog, State.lessChecks, h.nodes, h.services, h.checks]

theorem SameRows.lessService (h : SameRows s s') (node serviceID : String) :
    SameRows (s.lessService node serviceID) (s'.lessService node serviceID) := by
  unfold SameRows State.catalog State.lessService State.lessChecks serviceRow checksOfService
  rw [h.services, h.checks]
  split
  · simp [h.nodes]
  · simp [h.nodes, h.services, h.checks]

theorem SameRows.foldl_lessService (h : SameRows s s') (node : String) (l : List ServiceNode) :
    SameRows (l.foldl (fun s svc => s.lessService node svc.serviceID) s)
      (l.foldl (fun s svc => s.lessService node svc.serviceID) s') := by
  induction l generalizing s s' with
  | nil => exact h
  | cons svc l ih => exact ih (h.lessService node svc.serviceID)

theorem lessServices_services (s : State) (node : String) : (s.lessServices node).services =
    s.services.eraseAll ((servicesOfNode node s).map (rowKey node ·.serviceID)) := by
  unfold State.lessServices
  generalize servicesOfNode node s = l
  induction l generalizing s with
  | nil => rfl
  | cons svc l ih =>
    rw [foldl_cons, ih, lessService_services]
    rfl

theorem lessServices_checks (s : State) (node : String) :
    Within (s.lessServices node).checks s.checks := by
  unfold State.lessServices
  generalize servicesOfNode node s = l
  induction l generalizing s with
  | nil => exact fun _ _ h => h
  | cons svc l ih => exact (ih _).trans (lessService_checks s node svc.serviceID)

theorem lessServices_nodes (s : State) (node : String) :
    (s.lessServices node).nodes = s.nodes := by
  unfold State.lessServices
  generalize servicesOfNode node s = l
  induction l generalizing s with
  | nil => rfl
  | cons svc l ih => exact (ih _).trans (lessService_nodes s node svc.serviceID)

theorem node_of_mem_lessServices {node : String} {svc : ServiceNode}
    (h : svc ∈ (s.lessServices node).services.values) : toLower svc.node ≠ toLower node := by
  rw [lessServices_services] at h
  refine field_ne_of_mem_eraseAll (fun svc k hk => ?_) h
  obtain ⟨hne, -, hkey⟩ := serviceKey_eq_ok hk
  exact ⟨hne, hkey⟩

theorem node_of_mem_lessChecks {node : String} {c : HealthCheck}
    (h : c ∈ (s.lessChecks node (checksOfNode node s)).checks.values) :
    toLower c.node ≠ toLower node := by
  refine field_ne_of_mem_eraseAll (fun c k hk => ?_) h
  obtain ⟨hne, -, -, hkey⟩ := checkKey_eq_ok hk
  exact ⟨hne, hkey⟩

theorem lessNode_nodes (s : State) (node : String) :
    (s.lessNode node).nodes = s.nodes.erase (toLower node) := by
  unfold State.lessNode
  split
  · rfl
  · rename_i hnone
    exact (erase_of_first_none (Option.not_isSome_iff_eq_none.mp hnone)).symm

theorem lessNode_within (s : State) (node : String) :
    Within (s.lessNode node).nodes s.nodes ∧ Within (s.lessNode node).services s.services ∧
      Within (s.lessNode node).checks s.checks := by
  refine ⟨lessNode_nodes s node ▸ within_erase _ _, ?_⟩
  unfold State.lessNode
  split
  · refine ⟨?_, (within_eraseAll _ _).trans (lessServices_checks s node)⟩
    change Within (s.lessServices node).services s.services
    rw [lessServices_services]
    exact within_eraseAll _ _
  · exact ⟨fun _ _ h => h, fun _ _ h => h⟩

/-! ## Writes -/

/-- A write of a row: it is there afterwards, and the other rows are as they were. -/
structure Puts {κ ν : Type} [LinearOrder κ] {key : ν → Except String κ} (k : κ) (p : ν → Prop)
    (t t' : Table key) : Prop where
  written : ∃ v, p v ∧ t'.first k = some v
  others : ∀ j, j ≠ k → t'.first j = t.first j

omit [External] in
theorem puts_upsert {κ ν : Type} [LinearOrder κ] {key : ν → Except String κ} {k : κ} {p : ν → Prop}
    {t : Table key} {v : ν} (hk : key v = .ok k) (hp : p v) : Puts k p t (t.upsert v) :=
  ⟨⟨v, hp, first_upsert_self hk⟩, fun _ hj => first_upsert_ne hk hj⟩

/-- The row of a service after it was registered. -/
def NodeService.At (svc : NodeService) (row : ServiceNode) : Prop :=
  row.serviceID = svc.id ∧ row.serviceName = svc.service

/-- A service is there. The other rows of the catalog are as they were. -/
structure ServicePut (node : String) (svc : NodeService) (s s' : State) : Prop where
  nodes : s'.nodes = s.nodes
  checks : s'.checks = s.checks
  services : Puts (rowKey node svc.id) svc.At s.services s'.services

/-- The check as it is stored in the end. -/
def finalCheck (idx : Nat) (c : HealthCheck) (old : Option HealthCheck) : HealthCheck :=
  if checkModified c old then { c with modifyIndex := idx } else c

omit [External] in
theorem finalCheck_eq (idx : Nat) (c : HealthCheck) (old : Option HealthCheck) :
    ∃ m, finalCheck idx c old = { c with modifyIndex := m } := by
  unfold finalCheck
  split
  · exact ⟨_, rfl⟩
  · exact ⟨c.modifyIndex, rfl⟩

/-- A check with the name and the tags of its service. -/
def HealthCheck.linked (hc : HealthCheck) (s : State) : HealthCheck :=
  if hc.serviceID = "" then hc
  else
    match serviceRow hc.node hc.serviceID s with
    | none => hc
    | some svc => { hc with serviceName := svc.serviceName, serviceTags := svc.serviceTags }

/-- The row of a check after it was registered. -/
def HealthCheck.stored (idx : Nat) (hc : HealthCheck) (s : State) : HealthCheck :=
  finalCheck idx ((checkToStore idx hc (checkRow hc.node hc.checkID s)).linked s)
    (checkRow hc.node hc.checkID s)

/-- What the row of a check is known by. It has the name of its service. -/
def HealthCheck.At (hc : HealthCheck) (s : State) (row : HealthCheck) : Prop :=
  row.node = hc.node ∧ row.checkID = hc.checkID ∧ row.serviceID = hc.serviceID ∧
    ∀ svc, row.serviceID ≠ "" → serviceRow row.node row.serviceID s = some svc →
      row.serviceName = svc.serviceName

theorem HealthCheck.linked_at (hc : HealthCheck) (s : State) : hc.At s (hc.linked s) := by
  unfold HealthCheck.linked
  by_cases hid : hc.serviceID = ""
  · rw [if_pos hid]
    exact ⟨rfl, rfl, rfl, fun _ hne => absurd hid hne⟩
  · rw [if_neg hid]
    cases hrow : serviceRow hc.node hc.serviceID s with
    | none =>
      refine ⟨rfl, rfl, rfl, fun svc _ hsvc => ?_⟩
      rw [hrow] at hsvc
      cases hsvc
    | some svc =>
      refine ⟨rfl, rfl, rfl, fun svc' _ hsvc => ?_⟩
      rw [hrow] at hsvc
      cases hsvc
      rfl

theorem HealthCheck.stored_at (idx : Nat) (hc : HealthCheck) (s : State) :
    hc.At s (hc.stored idx s) := by
  unfold HealthCheck.stored
  generalize checkRow hc.node hc.checkID s = old
  -- Only the status and the indexes are not those of the check that is given.
  obtain ⟨m, hm⟩ := finalCheck_eq idx ((checkToStore idx hc old).linked s) old
  rw [hm]
  exact (checkToStore idx hc old).linked_at s

/-- A check is there. The other rows of the catalog are as they were. -/
structure CheckPut (idx : Nat) (hc : HealthCheck) (s s' : State) : Prop where
  nodes : s'.nodes = s.nodes
  services : s'.services = s.services
  service : hc.serviceID ≠ "" → (serviceRow hc.node hc.serviceID s).isSome
  checks : Puts (rowKey hc.node hc.checkID) (· = hc.stored idx s) s.checks s'.checks

/-- The registered node with the ID of `node`, when the ID is a UUID. -/
def sameIDNode (bytes : List Byte) (s : State) : Option Node :=
  s.nodes.values.find? fun n => hasUUID bytes n.id

/-- The node with the same ID that a registration renames. -/
def Node.renamed (node : Node) (s : State) : Option Node :=
  if node.id = "" then none
  else
    match parseUUID node.id with
    | .error _ => none
    | .ok bytes => (sameIDNode bytes s).filter (·.node != node.node)

/-- The rows after the node with the same ID made room. -/
def MadeRoom (old : Option Node) (s s' : State) : Prop :=
  match old with
  | none => SameRows s s'
  | some n => SameRows (s.lessNode n.node) s'

def NodePut (node : Node) (s s' : State) : Prop :=
  ∃ s₁, MadeRoom (node.renamed s) s s₁ ∧ s'.services = s₁.services ∧ s'.checks = s₁.checks ∧
    Puts (toLower node.node) (·.node = node.node) s₁.nodes s'.nodes

theorem MadeRoom.old {old : Option Node} (h : MadeRoom old s s') {k : String} {n : Node}
    (hn : s'.nodes.first k = some n) : s.nodes.first k = some n := by
  cases old with
  | none => exact SameRows.nodes h ▸ hn
  | some o =>
    rw [SameRows.nodes h, lessNode_nodes] at hn
    exact within_erase _ _ _ _ hn

theorem renamed_row {node n : Node} (h : node.renamed s = some n) :
    s.nodes.first (toLower n.node) = some n ∧ n.node ≠ node.node := by
  unfold Node.renamed at h
  split at h
  · cases h
  · split at h
    · cases h
    · obtain ⟨hsame, hne⟩ := Option.filter_eq_some_iff.mp h
      obtain ⟨k, hk⟩ := mem_values.mp (List.mem_of_find?_eq_some hsame)
      rw [(nodeKey_eq_ok (key_of_first hk)).2]
      exact ⟨hk, by simpa using hne⟩

end OpenGyoza
