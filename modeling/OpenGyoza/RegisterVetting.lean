-- Registrations are vetted by the names that the request gives, and are applied
-- to the rows that the store finds under them. The two agree only for requests
-- that do not reach rows of others.
import OpenGyoza.WritePermissions

namespace OpenGyoza

open Memdb Table List

section Laws

/-! ## What a request asks for -/

variable [External] {idx : Nat} {s s' : State} {req : RegisterRequest} {rule : Authorizer}
  {node : String} {svc : NodeService} {c : HealthCheck}

/-- The service that the check of a request finds under an ID. -/
def foundService (node id : String) (s : State) : Option NodeService :=
  (nodeServices node s).bind (·.lookup id)

/-- The permission to write the node is asked for. -/
def RegisterRequest.AsksNode (req : RegisterRequest) (s : State) : Prop :=
  req.changesNode (lookupNode req.node s) = true ∨ ∃ c ∈ req.checks, c.serviceID = ""

inductive RegisterRequest.AsksService (req : RegisterRequest) (s : State) : String → Prop
  | own {svc : NodeService} (h : req.service = some svc) : AsksService req s svc.service
  | destination {svc : NodeService} (h : req.service = some svc)
      (hkind : svc.kind = .connectProxy) : AsksService req s svc.proxy.destinationServiceName
  | replaced {svc other : NodeService} (h : req.service = some svc)
      (hfound : foundService req.node svc.id s = some other) : AsksService req s other.service
  | checked {c : HealthCheck} {other : NodeService} (hc : c ∈ req.checks) (hid : c.serviceID ≠ "")
      (hother : ∀ svc, req.service = some svc → svc.id ≠ c.serviceID)
      (hfound : foundService req.node c.serviceID s = some other) : AsksService req s other.service

/-- All that is asked for is granted. -/
structure RegisterRequest.Granted (req : RegisterRequest) (s : State) (rule : Authorizer) :
    Prop where
  node : req.AsksNode s → rule.nodeWrite (bytesOf req.node) = true
  services : ∀ name, req.AsksService s name → rule.serviceWrite (bytesOf name) = true

structure RegisterRequest.Consistent (req : RegisterRequest) (s : State) : Prop where
  check : req.check = none
  nodes : ∀ c ∈ req.checks, c.node = req.node
  services : ∀ c ∈ req.checks, c.serviceID ≠ "" →
    (∃ svc, req.service = some svc ∧ svc.id = c.serviceID) ∨
      ∃ other, foundService req.node c.serviceID s = some other

theorem vetNode_ok : vetNode rule req (nodeServices req.node s) = .ok () ↔
    (req.changesNode (lookupNode req.node s) = true →
      rule.nodeWrite (bytesOf req.node) = true) := by
  unfold vetNode
  rw [ite_error_ok, nodeServices, Option.map_map]
  simp [Function.comp_def]

theorem vetService_ok :
    vetService rule (nodeServices node s) svc = .ok () ↔
      rule.serviceWrite (bytesOf svc.service) = true ∧
        ∀ other, foundService node svc.id s = some other →
          rule.serviceWrite (bytesOf other.service) = true := by
  unfold vetService foundService
  rw [ite_error_ok, ite_error_ok]
  simp only [Bool.not_eq_true', Bool.not_eq_false, and_true]
  refine and_congr_right fun _ => ?_
  rw [Option.any_eq_true]
  constructor
  · intro hnone other hother
    by_contra hdenied
    exact hnone ⟨other, hother, by simpa using hdenied⟩
  · rintro hall ⟨other, hother, hdenied⟩
    simp [hall other hother] at hdenied

theorem vetCheck_ok :
    vetCheck rule req (nodeServices req.node s) c = .ok () ↔ c.node = req.node ∧
      (c.serviceID = "" → rule.nodeWrite (bytesOf req.node) = true) ∧
      (c.serviceID ≠ "" → (∃ svc, req.service = some svc ∧ svc.id = c.serviceID) ∨
        ∃ other, foundService req.node c.serviceID s = some other ∧
          rule.serviceWrite (bytesOf other.service) = true) := by
  unfold vetCheck
  rw [ite_error_ok, not_not]
  refine and_congr_right fun _ => ?_
  by_cases hid : c.serviceID = ""
  · rw [if_pos hid, ite_error_ok]
    simp [hid]
  · rw [if_neg hid]
    by_cases hown : req.service.any (·.id == c.serviceID) = true
    · rw [if_pos hown]
      obtain ⟨svc, hsvc, heq⟩ := (Option.any_eq_true _ _).mp hown
      simp only [hid, false_implies, ne_eq, not_false_eq_true, true_and, forall_const, true_iff]
      exact .inl ⟨svc, hsvc, by simpa using heq⟩
    · rw [if_neg hown]
      have hother : ¬ ∃ svc, req.service = some svc ∧ svc.id = c.serviceID := by
        rintro ⟨svc, hsvc, heq⟩
        exact hown ((Option.any_eq_true _ _).mpr ⟨svc, hsvc, by simpa using heq⟩)
      simp only [hid, false_implies, ne_eq, not_false_eq_true, true_and, forall_const, hother,
        false_or]
      unfold foundService
      cases hfound : (nodeServices req.node s).bind (·.lookup c.serviceID) with
      | none => simp
      | some other => simp

theorem vetRegisterWithACL_ok :
    vetRegisterWithACL (some rule) req (nodeServices req.node s) = .ok () ↔ req.Consistent s ∧
      (req.AsksNode s → rule.nodeWrite (bytesOf req.node) = true) ∧
      (∀ svc, req.service = some svc → vetService rule (nodeServices req.node s) svc = .ok ()) ∧
      ∀ c ∈ req.checks, c.serviceID ≠ "" → (∀ svc, req.service = some svc → svc.id ≠ c.serviceID) →
        ∀ other, foundService req.node c.serviceID s = some other →
          rule.serviceWrite (bytesOf other.service) = true := by
  simp only [vetRegisterWithACL, except_then_ok, ite_error_ok, vetNode_ok, forM_eq_ok,
    vetCheck_ok, Option.mem_toList, Option.not_isSome_iff_eq_none]
  constructor
  · rintro ⟨hnode, hservice, hcheck, hchecks⟩
    refine ⟨⟨hcheck, fun c hc => (hchecks c hc).1, fun c hc hid => ?_⟩, ?_, hservice, ?_⟩
    · exact ((hchecks c hc).2.2 hid).imp_right fun ⟨other, hfound, _⟩ => ⟨other, hfound⟩
    · rintro (hchanges | ⟨c, hc, hid⟩)
      · exact hnode hchanges
      · exact (hchecks c hc).2.1 hid
    · intro c hc hid hother found hfound
      rcases (hchecks c hc).2.2 hid with ⟨svc, hsvc, heq⟩ | ⟨other, hsame, hwrite⟩
      · exact absurd heq (hother svc hsvc)
      · rw [hfound, Option.some.injEq] at hsame
        exact hsame ▸ hwrite
  · rintro ⟨hcons, hnode, hservice, hchecks⟩
    refine ⟨fun hchanges => hnode (.inl hchanges), hservice, hcons.check, fun c hc => ?_⟩
    refine ⟨hcons.nodes c hc, fun hid => hnode (.inr ⟨c, hc, hid⟩), fun hid => ?_⟩
    by_cases hown : ∃ svc, req.service = some svc ∧ svc.id = c.serviceID
    · exact .inl hown
    · rcases hcons.services c hc hid with hsvc | ⟨other, hfound⟩
      · exact .inl hsvc
      · refine .inr ⟨other, hfound, hchecks c hc hid (fun svc hsvc heq => ?_) other hfound⟩
        exact hown ⟨svc, hsvc, heq⟩

section Register

variable [Definitions] {args : RegisterRequest}

omit [External] in
theorem servicePreApply_ok {svc' : NodeService} :
    servicePreApply svc (some rule) = .ok svc' ↔ servicePreApply svc none = .ok svc' ∧
      (svc'.service ≠ consulServiceName → rule.serviceWrite (bytesOf svc'.service) = true) ∧
      (svc'.kind = .connectProxy →
        rule.serviceWrite (bytesOf svc'.proxy.destinationServiceName) = true) := by
  unfold servicePreApply
  rw [except_then_ok, except_then_ok, and_assoc]
  refine and_congr_right fun _ => ?_
  simp only [ite_error_ok, Option.any_some, Option.any_none, Bool.not_eq_true', Bool.false_eq_true,
    and_false, not_false_eq_true, true_and, Except.ok.injEq, not_and, Bool.not_eq_false]
  constructor
  · rintro ⟨hname, haddress, hwrite, hproxy, rfl⟩
    exact ⟨⟨hname, haddress, rfl⟩, hwrite, hproxy⟩
  · rintro ⟨⟨hname, haddress, rfl⟩, hwrite, hproxy⟩
    exact ⟨hname, haddress, hwrite, hproxy, rfl⟩

omit [External] in
theorem mapM_servicePreApply_ok {service service' : Option NodeService} :
    service.mapM (servicePreApply · (some rule)) = .ok service' ↔
      service.mapM (servicePreApply · none) = .ok service' ∧ ∀ svc, service' = some svc →
        (svc.service ≠ consulServiceName → rule.serviceWrite (bytesOf svc.service) = true) ∧
        (svc.kind = .connectProxy →
          rule.serviceWrite (bytesOf svc.proxy.destinationServiceName) = true) := by
  cases service with
  | none =>
    rw [mapM_none_ok, mapM_none_ok]
    refine ⟨fun hnone => ⟨hnone, fun svc hsvc => ?_⟩, And.left⟩
    simp [hnone] at hsvc
  | some svc =>
    rw [mapM_some_ok, mapM_some_ok]
    constructor
    · rintro ⟨svc', hok, rfl⟩
      obtain ⟨hok, hwrite⟩ := servicePreApply_ok.mp hok
      refine ⟨⟨svc', hok, rfl⟩, fun x hx => ?_⟩
      cases hx
      exact hwrite
    · rintro ⟨⟨svc', hok, rfl⟩, hwrite⟩
      exact ⟨svc', servicePreApply_ok.mpr ⟨hok, hwrite svc' rfl⟩, rfl⟩

theorem catalogRegister_ok :
    catalogRegister true (some rule) args s = .ok req ↔
      catalogRegister true none args s = .ok req ∧ req.Consistent s ∧ req.Granted s rule := by
  unfold catalogRegister
  simp only [except_then_ok, ite_error_ok, if_true]
  refine Iff.trans ?_ and_assoc.symm
  refine and_congr_right fun _ => Iff.trans ?_ and_assoc.symm
  refine and_congr_right fun _ => ?_
  simp only [except_bind_ok, mapM_servicePreApply_ok]
  constructor
  · rintro ⟨service, ⟨hservice, hwrite⟩, ⟨⟩, hvet, hreq⟩
    cases hreq
    obtain ⟨hcons, hnode, hsvc, hchecks⟩ := vetRegisterWithACL_ok.mp hvet
    refine ⟨⟨service, hservice, (), rfl, rfl⟩, hcons, hnode, fun name hname => ?_⟩
    cases hname with
    | own h => exact (vetService_ok.mp (hsvc _ h)).1
    | destination h hkind => exact (hwrite _ h).2 hkind
    | replaced h hfound => exact (vetService_ok.mp (hsvc _ h)).2 _ hfound
    | checked hc hid hother hfound => exact hchecks _ hc hid hother _ hfound
  · rintro ⟨⟨service, hservice, ⟨⟩, -, hreq⟩, hcons, hgrant⟩
    cases hreq
    refine ⟨service, ⟨hservice, fun svc hsvc => ⟨fun _ => ?_, fun hkind => ?_⟩⟩, (), ?_, rfl⟩
    · exact hgrant.services _ (.own hsvc)
    · exact hgrant.services _ (.destination hsvc hkind)
    · refine vetRegisterWithACL_ok.mpr ⟨hcons, hgrant.node, fun svc hsvc => ?_, ?_⟩
      · exact vetService_ok.mpr ⟨hgrant.services _ (.own hsvc),
          fun _ hfound => hgrant.services _ (.replaced hsvc hfound)⟩
      · exact fun c hc hid hother _ hfound => hgrant.services _ (.checked hc hid hother hfound)

end Register

/-! ## Agreement -/

/-- The name of the service that a check is attached to. -/
def attachedName (s : State) (c : HealthCheck) : String :=
  ((serviceRow c.node c.serviceID s).map (·.serviceName)).getD c.serviceName

structure RegisterRequest.KeepsTo (req : RegisterRequest) (s s' : State) : Prop where
  asked : req.changesNode (nodeRow req.node s) = true → req.AsksNode s
  node : req.changesNode (nodeRow req.node s) = true →
    ∀ old, nodeRow req.node s = some old → old.node = req.node
  renamed : req.changesNode (nodeRow req.node s) = true → req.toNode.renamed s = none
  service : ∀ svc, req.service = some svc → ∀ old, serviceRow req.node svc.id s = some old →
    req.AsksService s old.serviceName
  checks : ∀ c ∈ req.checks, checkRow req.node c.checkID s ≠ checkRow req.node c.checkID s' →
    (∀ old, checkRow req.node c.checkID s = some old →
      (old.serviceID = "" → req.AsksNode s ∧ old.node = req.node) ∧
        (old.serviceID ≠ "" → req.AsksService s (attachedName s old))) ∧
    ∀ new, checkRow req.node c.checkID s' = some new → new.serviceID ≠ "" →
      req.AsksService s (attachedName s' new)

theorem lookupNode_of_row {n : Node} (h : nodeRow node s = some n) :
    lookupNode node s = some n := by
  unfold lookupNode
  rw [h]

section Agreement

variable {s₁ s₂ : State}

section

variable (h : Registered req s s₁ s₂ s')
include h

theorem Registered.stays
    (hstay : req.changesNode (nodeRow req.node s) = true → req.toNode.renamed s = none) :
    s₁.services = s.services ∧ s₁.checks = s.checks ∧
      (req.changesNode (nodeRow req.node s) = true →
        Puts (toLower req.node) (·.node = req.node) s.nodes s₁.nodes) := by
  rcases h.node with ⟨hchanges, t, hroom, hservices, hchecks, hputs⟩ | ⟨hno, rfl⟩
  · rw [hstay hchanges] at hroom
    have hrows : SameRows s t := hroom
    rw [hrows.nodes] at hputs
    exact ⟨hservices.trans hrows.services, hchecks.trans hrows.checks, fun _ => hputs⟩
  · refine ⟨rfl, rfl, fun hyes => ?_⟩
    rw [hno] at hyes
    cases hyes

theorem Registered.nodes_eq : s'.nodes = s₁.nodes := by
  rw [h.checks.nodes]
  rcases h.service with ⟨-, rfl⟩ | ⟨svc, -, hput⟩
  · rfl
  · exact hput.nodes

theorem Registered.checks_eq : s₂.checks = s₁.checks := by
  rcases h.service with ⟨-, rfl⟩ | ⟨svc, -, hput⟩
  · rfl
  · exact hput.checks

theorem Registered.permitted (hcons : req.Consistent s) (hgrant : req.Granted s rule)
    (hkeeps : req.KeepsTo s s') : Permitted rule attachedName s s' := by
  obtain ⟨hservices, hchecks, hnodes⟩ := h.stays hkeeps.renamed
  refine ⟨?_, ?_, fun k hne => ?_⟩
  · rw [h.nodes_eq]
    by_cases hchanges : req.changesNode (nodeRow req.node s) = true
    · have hwrite := hgrant.node (hkeeps.asked hchanges)
      refine (allowed_puts (hnodes hchanges) fun v hv => ?_).mpr fun old hold => ?_
      · rw [MayWriteNode, hv]
        exact hwrite
      · rw [MayWriteNode, hkeeps.node hchanges old hold]
        exact hwrite
    · rcases h.node with ⟨hyes, -⟩ | ⟨-, rfl⟩
      · exact absurd hyes hchanges
      · exact allowed_same rfl
  · rw [h.checks.services]
    rcases h.service with ⟨-, rfl⟩ | ⟨svc, hsvc, hput⟩
    · exact allowed_same hservices
    · refine (allowed_puts (hservices ▸ hput.services) fun v hat => ?_).mpr fun old hold => ?_
      · rw [MayWriteService, hat.2]
        exact hgrant.services _ (.own hsvc)
      · exact hgrant.services _ (hkeeps.service svc hsvc old hold)
  · rcases h.checks.rows k with ⟨c, hc, hk, -, row, hat, hrow⟩ | ⟨-, hsame⟩
    · have hnode := hcons.nodes c hc
      rw [hk, hnode] at hne ⊢
      obtain ⟨hbefore, hafter⟩ := hkeeps.checks c hc hne
      refine ⟨fun old hold => ?_, fun new hnew => ?_⟩
      · obtain ⟨hlevel, hattached⟩ := hbefore old hold
        unfold MayWriteCheck
        by_cases hid : old.serviceID = ""
        · rw [if_pos hid, (hlevel hid).2]
          exact hgrant.node (hlevel hid).1
        · rw [if_neg hid]
          exact hgrant.services _ (hattached hid)
      · have hattached := hafter new hnew
        rw [hk, hnode, hnew] at hrow
        cases hrow
        obtain ⟨hrownode, -, hrowid, -⟩ := hat
        unfold MayWriteCheck
        by_cases hid : row.serviceID = ""
        · rw [if_pos hid, hrownode, hnode]
          exact hgrant.node (.inr ⟨c, hc, hrowid ▸ hid⟩)
        · rw [if_neg hid]
          exact hgrant.services _ (hattached hid)
    · rw [hsame, h.checks_eq, hchecks] at hne
      exact absurd rfl hne

end

/-- The authorizer that grants what is asked for, and no other write. -/
noncomputable def RegisterRequest.leastRule (req : RegisterRequest) (s : State) : Authorizer :=
  writesOnly (fun name => req.AsksNode s ∧ name = req.node) (req.AsksService s)

section

variable (h : Registered req s s₁ s₂ s') (hperm : Permitted (req.leastRule s) attachedName s s')
include h hperm

theorem Registered.keeps_node (hchanges : req.changesNode (nodeRow req.node s) = true) :
    req.AsksNode s ∧ (∀ old, nodeRow req.node s = some old → old.node = req.node) ∧
      req.toNode.renamed s = none := by
  have hput : NodePut req.toNode s s₁ := by
    rcases h.node with ⟨-, hput⟩ | ⟨hno, -⟩
    · exact hput
    · rw [hno] at hchanges
      cases hchanges
  obtain ⟨t, hroom, -, -, hputs⟩ := hput
  obtain ⟨v, hv, hrow⟩ := hputs.written
  change v.node = req.node at hv
  have hnew : s'.nodes.first (toLower req.node) = some v := by
    rw [h.nodes_eq]
    exact hrow
  refine ⟨?_, fun old hold => ?_, ?_⟩
  · cases hold : nodeRow req.node s with
    | some old =>
      rw [hold] at hchanges
      exact .inl (by rw [lookupNode_of_row hold]; exact hchanges)
    | none =>
      -- The node is created, which is a change.
      have hne : s.nodes.first (toLower req.node) ≠ s'.nodes.first (toLower req.node) := by
        unfold nodeRow at hold
        rw [hold, hnew]
        nofun
      exact (writesOnly_node.mp ((hperm.nodes _ hne).2 v hnew)).1
  · by_cases heq : old = v
    · rw [heq, hv]
    · have hne : s.nodes.first (toLower req.node) ≠ s'.nodes.first (toLower req.node) := by
        unfold nodeRow at hold
        rw [hold, hnew]
        simpa using heq
      exact (writesOnly_node.mp ((hperm.nodes _ hne).1 old hold)).2
  · by_contra hsome
    obtain ⟨n, hn⟩ := Option.ne_none_iff_exists'.mp hsome
    obtain ⟨hold, hother⟩ := renamed_row hn
    have hne : s.nodes.first (toLower n.node) ≠ s'.nodes.first (toLower n.node) := by
      rw [hold]
      by_cases hkey : toLower n.node = toLower req.node
      · rw [hkey, hnew]
        rintro ⟨⟩
        exact hother hv
      · rw [hn] at hroom
        have hgone : SameRows (s.lessNode n.node) t := hroom
        rw [h.nodes_eq, hputs.others _ hkey, hgone.nodes, lessNode_nodes, first_erase_self]
        nofun
    exact hother (writesOnly_node.mp ((hperm.nodes _ hne).1 n hold)).2

theorem Registered.keeps_service (hsvc : req.service = some svc) {old : ServiceNode}
    (hold : serviceRow req.node svc.id s = some old) : req.AsksService s old.serviceName := by
  rcases h.service with ⟨hnone, -⟩ | ⟨svc', hsvc', hput⟩
  · rw [hnone] at hsvc
    cases hsvc
  · rw [hsvc] at hsvc'
    cases hsvc'
    obtain ⟨v, hat, hrow⟩ := hput.services.written
    by_cases heq : old = v
    · rw [heq, hat.2]
      exact .own hsvc
    · have hne : s.services.first (rowKey req.node svc.id) ≠
          s'.services.first (rowKey req.node svc.id) := by
        unfold serviceRow at hold
        rw [hold, h.checks.services, hrow]
        simpa using heq
      exact writesOnly_service.mp ((hperm.services _ hne).1 old hold)

omit h in
theorem keeps_check {checkID : String}
    (hne : checkRow req.node checkID s ≠ checkRow req.node checkID s') :
    (∀ old, checkRow req.node checkID s = some old →
      (old.serviceID = "" → req.AsksNode s ∧ old.node = req.node) ∧
        (old.serviceID ≠ "" → req.AsksService s (attachedName s old))) ∧
    ∀ new, checkRow req.node checkID s' = some new → new.serviceID ≠ "" →
      req.AsksService s (attachedName s' new) := by
  obtain ⟨hbefore, hafter⟩ := hperm.checks _ hne
  refine ⟨fun old hold => ⟨fun hid => ?_, fun hid => ?_⟩, fun new hnew hid => ?_⟩
  · have hmay := hbefore old hold
    rw [MayWriteCheck, if_pos hid] at hmay
    exact writesOnly_node.mp hmay
  · have hmay := hbefore old hold
    rw [MayWriteCheck, if_neg hid] at hmay
    exact writesOnly_service.mp hmay
  · have hmay := hafter new hnew
    rw [MayWriteCheck, if_neg hid] at hmay
    exact writesOnly_service.mp hmay

end

end Agreement

end Laws

section Example

attribute [local instance] ascii plainDefinitions

/-- May write only the node `web`. -/
def writesWeb : Authorizer := { denyAll with nodeWrite := fun name => name == bytesOf "web" }

/-- A registered node with an ID. -/
def databaseNode : LogEntry :=
  { index := 1
    command := .call (.ensureRegistration
      { node := "db", id := "01234567-89ab-cdef-0123-456789abcdef", address := "10.0.0.1" }) }

/-- A node that takes the ID of the other one. -/
def takeover : RegisterRequest :=
  { node := "web", id := "01234567-89ab-cdef-0123-456789abcdef", address := "10.0.0.2" }

/-- A node with a service and a check of its own. -/
def webService (address : String) (port : Nat) (status : String) : RegisterRequest :=
  { node := "web", address := address
    service := some { id := "web1", service := "web", port := port }
    checks := [{ node := "web", checkID := "alive", status := status, serviceID := "web1" }] }

def webLog : List LogEntry :=
  [{ index := 1, command := .call (.ensureRegistration (webService "10.0.0.2" 80 "critical")) }]

end Example

end OpenGyoza
