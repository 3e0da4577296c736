-- Transactions are vetted by the names that their operations claim, before any
-- of them is applied. The rows that they change are found by other keys.
import OpenGyoza.ServiceRows
import OpenGyoza.TxnEndpoint
import OpenGyoza.TxnResults

namespace OpenGyoza

open Memdb Txn Table List

section Laws

variable [External] {node : String} {delayed : Key → Bool} {ops ops' : List TxnOp}

/-! ## What the operations change -/

variable {idx : Nat} {s s' : State} {rule : Authorizer}

/-- The name of the service that is stored in a check. -/
def storedName (_ : State) (c : HealthCheck) : String := c.serviceName

section Covered

variable (nodes services : String → Prop)

/-- A check of a service is covered by the name of the service that is stored in it, another one
by the name of its node. -/
def CheckCovered (c : HealthCheck) : Prop :=
  if c.serviceID = "" then nodes c.node else services c.serviceName

/-- The rows that are in the store `s`, but not in `t`, are covered. -/
structure LossCovered (s t : State) : Prop where
  named : ∀ n, Lost s.nodes t.nodes n → nodes n.node
  instances : ∀ svc, Lost s.services t.services svc → services svc.serviceName
  checks : ∀ c, Lost s.checks t.checks c → CheckCovered nodes services c

def TxnNodeOp.Covered (op : TxnNodeOp) (s : State) : Prop :=
  match op.verb with
  | .set | .cas => op.node.Storable s →
      (∀ old, nodeRow op.node.node s = some old → nodes old.node) ∧
        ∀ n, op.node.renamed s = some n → LossCovered nodes services s (s.lessNode n.node)
  | .delete | .deleteCAS => LossCovered nodes services s (s.lessNode op.node.node)
  | _ => True

/-- The stored service that an operation overwrites or deletes is covered, and the checks that
are deleted with it. -/
def TxnServiceOp.Covered (op : TxnServiceOp) (s : State) : Prop :=
  match op.verb with
  | .set | .cas => op.service.Storable op.node s →
      ∀ old, serviceRow op.node op.service.id s = some old → services old.serviceName
  | .delete | .deleteCAS => LossCovered nodes services s (s.lessService op.node op.service.id)
  | _ => True

def TxnCheckOp.Covered (idx : Nat) (op : TxnCheckOp) (s : State) : Prop :=
  match op.verb with
  | .set | .cas => op.check.Storable s →
      checkRow op.check.node op.check.checkID s = some (op.check.stored idx s) ∨
        (∀ old, checkRow op.check.node op.check.checkID s = some old →
          CheckCovered nodes services old) ∧
        (op.check.serviceID ≠ "" → ∀ svc, serviceRow op.check.node op.check.serviceID s = some svc →
          services svc.serviceName)
  | .delete | .deleteCAS =>
      LossCovered nodes services s (s.lessCheck op.check.node op.check.checkID)
  | _ => True

/-- The stored rows that an operation overwrites or deletes are covered. -/
def TxnOp.Covered (idx : Nat) (op : TxnOp) (s : State) : Prop :=
  match op.kv, op.intention, op.node, op.service, op.check with
  | none, none, some node, _, _ => node.Covered nodes services s
  | none, none, none, some service, _ => service.Covered nodes services s
  | none, none, none, none, some check => check.Covered nodes services idx s
  | _, _, _, _, _ => True

end Covered

/-! ## Permission for one change -/

theorem permitted_sameRows (h : SameRows s s') : Permitted rule storedName s s' :=
  ⟨allowed_same h.nodes, allowed_same h.services, allowed_same h.checks⟩

theorem permitted_less {t : State} (hnodes : Within t.nodes s.nodes)
    (hservices : Within t.services s.services) (hchecks : Within t.checks s.checks)
    (h : SameRows t s') :
    Permitted rule storedName s s' ↔ LossCovered rule.WritesNode rule.WritesService s t := by
  constructor
  · exact fun hperm => ⟨(allowed_within h.nodes hnodes).mp hperm.nodes,
      (allowed_within h.services hservices).mp hperm.services,
      (allowed_within h.checks hchecks).mp hperm.checks⟩
  · exact fun hcov => ⟨(allowed_within h.nodes hnodes).mpr hcov.named,
      (allowed_within h.services hservices).mpr hcov.instances,
      (allowed_within h.checks hchecks).mpr hcov.checks⟩

theorem permitted_servicePut {svc : NodeService} (h : ServicePut node svc s s')
    (hclaim : rule.WritesService svc.service) :
    Permitted rule storedName s s' ↔
      ∀ old, serviceRow node svc.id s = some old → rule.WritesService old.serviceName := by
  have hwritten : ∀ v, svc.At v → MayWriteService rule v := by
    intro v hat
    rw [MayWriteService, hat.2]
    exact hclaim
  constructor
  · exact fun hperm => (allowed_puts h.services hwritten).mp hperm.services
  · intro hold
    exact ⟨allowed_same h.nodes, (allowed_puts h.services hwritten).mpr hold,
      allowed_same h.checks⟩

theorem permitted_checkPut {hc : HealthCheck} (h : CheckPut idx hc s s')
    (hclaim : hc.serviceID = "" → rule.WritesNode hc.node) :
    Permitted rule storedName s s' ↔
      checkRow hc.node hc.checkID s = some (hc.stored idx s) ∨
        (∀ old, checkRow hc.node hc.checkID s = some old →
          CheckCovered rule.WritesNode rule.WritesService old) ∧
        (hc.serviceID ≠ "" → ∀ svc, serviceRow hc.node hc.serviceID s = some svc →
          rule.WritesService svc.serviceName) := by
  obtain ⟨hnode, -, hid, hname⟩ := hc.stored_at idx s
  obtain ⟨_, rfl, hrow⟩ := h.checks.written
  -- The new row needs the permission for the service that it is attached to.
  have hnew : CheckCovered rule.WritesNode rule.WritesService (hc.stored idx s) ↔
      (hc.serviceID ≠ "" → ∀ svc, serviceRow hc.node hc.serviceID s = some svc →
        rule.WritesService svc.serviceName) := by
    unfold CheckCovered
    rw [hid, hnode]
    by_cases hempty : hc.serviceID = ""
    · simp only [hempty, if_true, ne_eq, not_true_eq_false, false_implies, iff_true]
      exact hclaim hempty
    · rw [if_neg hempty]
      obtain ⟨svc, hsvc⟩ := Option.isSome_iff_exists.mp (h.service hempty)
      rw [hname svc (hid ▸ hempty) (by rw [hnode, hid]; exact hsvc)]
      refine ⟨fun hwrite _ other hother => ?_, fun hall => hall hempty svc hsvc⟩
      rw [hsvc] at hother
      cases hother
      exact hwrite
  rw [← hnew]
  constructor
  · intro hperm
    by_cases hsame : checkRow hc.node hc.checkID s = some (hc.stored idx s)
    · exact .inl hsame
    · have hboth := hperm.checks (rowKey hc.node hc.checkID) fun heq =>
        hsame (heq.trans hrow)
      exact .inr ⟨hboth.1, hboth.2 _ hrow⟩
  · rintro (hsame | ⟨hold, hwrite⟩)
    · refine ⟨allowed_same h.nodes, allowed_same h.services, fun k hne => ?_⟩
      by_cases hk : k = rowKey hc.node hc.checkID
      · subst hk
        exact absurd (hsame.trans hrow.symm) hne
      · exact absurd (h.checks.others k hk).symm hne
    · refine ⟨allowed_same h.nodes, allowed_same h.services, ?_⟩
      refine (allowed_puts h.checks fun v hv => ?_).mpr hold
      rw [hv]
      exact hwrite

theorem permitted_nodePut {node : Node} (h : NodePut node s s')
    (hclaim : rule.WritesNode node.node) :
    Permitted rule storedName s s' ↔
      (∀ old, nodeRow node.node s = some old → rule.WritesNode old.node) ∧
        ∀ n, node.renamed s = some n →
          LossCovered rule.WritesNode rule.WritesService s (s.lessNode n.node) := by
  obtain ⟨s1, hroom, hservices, hchecks, hputs⟩ := h
  have hwritten : ∀ v : Node, v.node = node.node → MayWriteNode rule v := by
    intro v hv
    rw [MayWriteNode, hv]
    exact hclaim
  cases hren : node.renamed s with
  | none =>
    rw [hren] at hroom
    have hrows : SameRows s s1 := hroom
    rw [hrows.nodes] at hputs
    simp only [reduceCtorEq, false_implies, implies_true, and_true]
    constructor
    · exact fun hperm => (allowed_puts hputs hwritten).mp hperm.nodes
    · exact fun hold => ⟨(allowed_puts hputs hwritten).mpr hold,
        allowed_same (hservices.trans hrows.services), allowed_same (hchecks.trans hrows.checks)⟩
  | some n =>
    rw [hren] at hroom
    have hgone : SameRows (s.lessNode n.node) s1 := hroom
    obtain ⟨v, hv, hrow⟩ := hputs.written
    obtain ⟨hnodes', hservices', hchecks'⟩ := lessNode_within s n.node
    simp only [Option.some.injEq, forall_eq']
    constructor
    · intro hperm
      have hreplaced (old : Node) (hold' : nodeRow node.node s = some old) :
          rule.WritesNode old.node := by
        by_cases heq : old = v
        · rw [heq, hv]
          exact hclaim
        · refine (hperm.nodes (toLower node.node) ?_).1 old hold'
          unfold nodeRow at hold'
          rw [hold', hrow]
          simpa using heq
      refine ⟨hreplaced, ?_, ?_, ?_⟩
      · rintro m ⟨k, hm, hlost⟩
        by_cases hk : k = toLower node.node
        · subst hk
          exact hreplaced m hm
        · refine (hperm.nodes k ?_).1 m hm
          rw [hputs.others k hk, hgone.nodes, hlost, hm]
          nofun
      · exact (allowed_within (hservices.trans hgone.services) hservices').mp hperm.services
      · exact (allowed_within (hchecks.trans hgone.checks) hchecks').mp hperm.checks
    · rintro ⟨hreplaced, hcov⟩
      refine ⟨fun k hne => ?_, ?_, ?_⟩
      · by_cases hk : k = toLower node.node
        · subst hk
          refine ⟨hreplaced, fun new hnew => ?_⟩
          rw [hrow] at hnew
          cases hnew
          exact hwritten v hv
        · rw [hputs.others k hk] at hne ⊢
          exact (allowed_within hgone.nodes hnodes').mpr hcov.named k hne
      · exact (allowed_within (hservices.trans hgone.services) hservices').mpr hcov.instances
      · exact (allowed_within (hchecks.trans hgone.checks) hchecks').mpr hcov.checks

/-! ## Permission for an operation -/

theorem ensureNode_permitted (hs : Sound s) {node : Node} (hname : node.node ≠ "")
    (hcrash : NoCrash (ensureNodeTxn idx node) s) (hclaim : rule.WritesNode node.node) :
    Permitted rule storedName s (ensureNodeTxn idx node s).2 ↔ (node.Storable s →
      (∀ old, nodeRow node.node s = some old → rule.WritesNode old.node) ∧
        ∀ n, node.renamed s = some n →
          LossCovered rule.WritesNode rule.WritesService s (s.lessNode n.node)) := by
  obtain ⟨hspec, hrows⟩ : wp (ensureNodeTxn idx node) _ s := ensureNodeTxn_outcome hs hcrash
  rcases hspec.2 with ⟨hok, hst⟩ | ⟨text, herr, hst⟩
  · simp only [hst, true_implies]
    exact permitted_nodePut (hrows.put hok) hclaim
  · simp only [hst, false_implies, iff_true]
    exact permitted_sameRows (hrows.kept hname (by rw [herr]; nofun))

theorem ensureService_permitted {svc : NodeService} (hclaim : rule.WritesService svc.service) :
    Permitted rule storedName s (ensureServiceTxn idx node svc s).2 ↔ (svc.Storable node s →
      ∀ old, serviceRow node svc.id s = some old → rule.WritesService old.serviceName) := by
  have hspec : ServiceOutcome idx .any node svc s _ _ := ensureServiceTxn_spec node svc s
  rcases hspec.result with ⟨hok, hst⟩ | ⟨text, herr, hst⟩
  · simp only [hst, true_implies]
    exact permitted_servicePut (hspec.put hok) hclaim
  · simp only [hst, false_implies, iff_true]
    rw [hspec.kept (by rw [herr]; nofun)]
    exact permitted_sameRows rfl

theorem ensureCheck_permitted (hs : Sound s) {hc : HealthCheck}
    (hclaim : hc.serviceID = "" → rule.WritesNode hc.node) :
    Permitted rule storedName s (ensureCheckTxn idx hc s).2 ↔ (hc.Storable s →
      checkRow hc.node hc.checkID s = some (hc.stored idx s) ∨
        (∀ old, checkRow hc.node hc.checkID s = some old →
          CheckCovered rule.WritesNode rule.WritesService old) ∧
        (hc.serviceID ≠ "" → ∀ svc, serviceRow hc.node hc.serviceID s = some svc →
          rule.WritesService svc.serviceName)) := by
  obtain ⟨hspec, hrows⟩ : wp (ensureCheckTxn idx hc) _ s := ensureCheckTxn_outcome hs hc
  rcases hspec.2 with ⟨hok, hst⟩ | ⟨text, herr, hst⟩
  · simp only [hst, true_implies]
    exact permitted_checkPut (hrows.1 hok) hclaim
  · simp only [hst, false_implies, iff_true]
    exact permitted_sameRows (hrows.2 (by rw [herr]; nofun))

theorem TxnOp.permitted_iff (hs : Sound s) {op : TxnOp} {r : List TxnResult}
    (hrun : txnOp idx op s = (.ok r, s'))
    (hclaims : op.Claims rule.WritesNode rule.WritesService) (hnamed : op.Named) :
    Permitted rule storedName s s' ↔ op.Covered rule.WritesNode rule.WritesService idx s := by
  cases op using TxnOp.kindCases with
  | kv x =>
    have hrows : SameRows s (txnKVS idx x s).2 := txnKVS_rows x
    rw [show txnKVS idx x s = (.ok r, s') from hrun] at hrows
    exact iff_of_true (permitted_sameRows hrows) trivial
  | intention x =>
    have hrows : SameRows s (txnIntention idx x s).2 := sameRows_of_does (txnIntention_rows x) s
    rw [show txnIntention idx x s = (.ok r, s') from hrun] at hrows
    exact iff_of_true (permitted_sameRows hrows) trivial
  | node x =>
    obtain ⟨rfl, hcrash⟩ := (txnNode_verbs idx x.node).result hrun
    change _ ↔ x.Covered rule.WritesNode rule.WritesService s
    unfold TxnNodeOp.Covered
    have hwrite : x.verb ≠ .get → rule.WritesNode x.node.node ∧ x.node.node ≠ "" := by
      intro hget
      exact ⟨hclaims.node _ (if_neg hget), hnamed x rfl rfl hget⟩
    cases hverb : x.verb with
    | set | cas =>
      rw [hverb] at hwrite hcrash
      obtain ⟨hclaim, hname⟩ := hwrite nofun
      exact ensureNode_permitted hs hname hcrash hclaim
    | delete | deleteCAS =>
      rw [hverb] at hcrash
      obtain ⟨hnodes, hservices, hchecks⟩ := lessNode_within s x.node.node
      exact permitted_less hnodes hservices hchecks (deleteNodeTxn_rows hs hcrash)
    | get | unknown =>
      exact iff_of_true (permitted_sameRows rfl) trivial
  | service x =>
    obtain ⟨rfl, hcrash⟩ := (txnService_verbs idx x.node x.service).result hrun
    change _ ↔ x.Covered rule.WritesNode rule.WritesService s
    unfold TxnServiceOp.Covered
    cases hverb : x.verb with
    | set | cas =>
      have hget : x.verb ≠ .get := by
        rw [hverb]
        nofun
      exact ensureService_permitted (hclaims.service _ (if_neg hget))
    | delete | deleteCAS =>
      rw [hverb] at hcrash
      exact permitted_less (lessService_nodes s _ _ ▸ fun _ _ h => h)
        (lessService_services s _ _ ▸ within_erase _ _) (lessService_checks s _ _)
        (deleteServiceTxn_rows hs hcrash)
    | get | unknown =>
      exact iff_of_true (permitted_sameRows rfl) trivial
  | check x =>
    obtain ⟨rfl, hcrash⟩ := (txnCheck_verbs idx x.check).result hrun
    change _ ↔ x.Covered rule.WritesNode rule.WritesService idx s
    unfold TxnCheckOp.Covered
    cases hverb : x.verb with
    | set | cas =>
      have hget : x.verb ≠ .get := by
        rw [hverb]
        nofun
      refine ensureCheck_permitted hs fun hid => hclaims.node _ (if_neg ?_)
      rintro (hverb' | hne)
      · exact hget hverb'
      · exact hne hid
    | delete | deleteCAS =>
      rw [hverb] at hcrash
      exact permitted_less (fun _ _ h => h) (fun _ _ h => h) (within_erase _ _)
        (deleteCheckTxn_rows hs hcrash)
    | get | unknown =>
      exact iff_of_true (permitted_sameRows rfl) trivial
  | missing => cases hrun

/-! ## Whole transactions -/

section Mono

variable {nodes services nodes' services' : String → Prop}

section

variable (hn : ∀ a, nodes a → nodes' a) (hsv : ∀ a, services a → services' a)
include hn hsv

omit [External] in
theorem CheckCovered.mono {c : HealthCheck} (h : CheckCovered nodes services c) :
    CheckCovered nodes' services' c := by
  unfold CheckCovered at h ⊢
  by_cases hid : c.serviceID = ""
  · rw [if_pos hid] at h ⊢
    exact hn _ h
  · rw [if_neg hid] at h ⊢
    exact hsv _ h

theorem LossCovered.mono {t : State} (h : LossCovered nodes services s t) :
    LossCovered nodes' services' s t where
  named n hlost := hn _ (h.named n hlost)
  instances svc hlost := hsv _ (h.instances svc hlost)
  checks c hlost := (h.checks c hlost).mono hn hsv

theorem TxnOp.Covered.mono {op : TxnOp} (h : op.Covered nodes services idx s) :
    op.Covered nodes' services' idx s := by
  cases op using TxnOp.kindCases with
  | kv | intention | missing => trivial
  | node x =>
    change x.Covered nodes services s at h
    change x.Covered nodes' services' s
    unfold TxnNodeOp.Covered at h ⊢
    cases hverb : x.verb with
    | set | cas =>
      rw [hverb] at h
      intro hst
      exact ⟨fun old hold => hn _ ((h hst).1 old hold),
        fun n hren => ((h hst).2 n hren).mono hn hsv⟩
    | delete | deleteCAS =>
      rw [hverb] at h
      exact LossCovered.mono hn hsv h
    | get | unknown => trivial
  | service x =>
    change x.Covered nodes services s at h
    change x.Covered nodes' services' s
    unfold TxnServiceOp.Covered at h ⊢
    cases hverb : x.verb with
    | set | cas =>
      rw [hverb] at h
      exact fun hst old hold => hsv _ (h hst old hold)
    | delete | deleteCAS =>
      rw [hverb] at h
      exact LossCovered.mono hn hsv h
    | get | unknown => trivial
  | check x =>
    change x.Covered nodes services idx s at h
    change x.Covered nodes' services' idx s
    unfold TxnCheckOp.Covered at h ⊢
    cases hverb : x.verb with
    | set | cas =>
      rw [hverb] at h
      intro hst
      refine (h hst).imp_right fun ⟨hold, hsvc⟩ => ⟨fun old hrow => ?_, fun hid svc hrow => ?_⟩
      · exact (hold old hrow).mono hn hsv
      · exact hsv _ (hsvc hid svc hrow)
    | delete | deleteCAS =>
      rw [hverb] at h
      exact LossCovered.mono hn hsv h
    | get | unknown => trivial

end

end Mono

/-- Some operation claims the permission to write this node. -/
def ClaimedNode (ops : List TxnOp) (name : String) : Prop :=
  ∃ op ∈ ops, op.claimedNode = some name

def ClaimedService (ops : List TxnOp) (name : String) : Prop :=
  ∃ op ∈ ops, op.claimedService = some name

theorem preCheckFrom_ok [Definitions] {rule : Option Authorizer} {i : Nat} :
    preCheckFrom delayed rule i ops = (ops', []) ↔
      List.Forall₂ (fun op op' => op.preCheck delayed rule = .ok op') ops ops' := by
  induction ops generalizing i ops' with
  | nil => simp [preCheckFrom, eq_comm]
  | cons op ops ih =>
    unfold preCheckFrom
    rcases hrest : preCheckFrom delayed rule (i + 1) ops with ⟨rest, errors⟩
    cases hop : op.preCheck delayed rule with
    | error what =>
      simp only [Prod.mk.injEq, reduceCtorEq, and_false, false_iff]
      intro hall
      cases hall with
      | cons h _ =>
        rw [hop] at h
        cases h
    | ok op1 =>
      simp only [Prod.mk.injEq]
      constructor
      · rintro ⟨rfl, rfl⟩
        exact .cons hop (ih.mp hrest)
      · intro hall
        cases hall with
        | cons h hall =>
          rw [hop] at h
          cases h
          rw [ih.mpr hall] at hrest
          cases hrest
          exact ⟨rfl, rfl⟩

theorem claims_of_checked [Definitions] {rule : Authorizer}
    (h : txnPreCheck delayed (some rule) ops = (ops', [])) {op : TxnOp} (hop : op ∈ ops') :
    op.Claims rule.WritesNode rule.WritesService ∧ op.Named := by
  have hall := preCheckFrom_ok.mp h
  clear h
  induction hall with
  | nil => cases hop
  | cons hpre _ ih =>
    rcases mem_cons.mp hop with rfl | hop
    · exact preCheck_claims hpre
    · exact ih hop

theorem checked_leastRule [Definitions] {rule : Authorizer}
    (h : txnPreCheck delayed (some rule) ops = (ops', [])) :
    txnPreCheck delayed (some (writesOnly (ClaimedNode ops') (ClaimedService ops'))) ops =
      (ops', []) := by
  refine preCheckFrom_ok.mpr ?_
  have hclaims : ∀ op ∈ ops', op.Claims (ClaimedNode ops') (ClaimedService ops') :=
    fun op hop => ⟨fun _ hname => ⟨op, hop, hname⟩, fun _ hname => ⟨op, hop, hname⟩⟩
  have hall := preCheckFrom_ok.mp h
  generalize ClaimedNode ops' = nodes, ClaimedService ops' = services at hclaims ⊢
  clear h
  induction hall with
  | nil => exact .nil
  | cons hpre _ ih =>
    exact .cons (preCheck_writesOnly hpre (hclaims _ (by simp)))
      (ih fun op hop => hclaims op (by simp [hop]))

theorem Permitted.trans {s1 : State} (h : Permitted rule storedName s s1)
    (h' : Permitted rule storedName s1 s') : Permitted rule storedName s s' where
  nodes k := (h.nodes k).trans (h'.nodes k)
  services k := (h.services k).trans (h'.services k)
  checks k := (h.checks k).trans (h'.checks k)

end Laws

section Example

attribute [local instance] ascii plainDefinitions

/-- May write only the service `web`. -/
def writesWebService : Authorizer :=
  { denyAll with serviceWrite := fun name => name == bytesOf "web" }

/-- A node with an instance of the service `db`. -/
def databaseInstance : LogEntry :=
  { index := 1
    command := .call (.ensureRegistration
      { node := "n1", address := "10.0.0.1", service := some { id := "db1", service := "db" } }) }

/-- A delete of the instance of `db`, under the name `web`. -/
def deleteAsWeb : TxnOp :=
  { service := some
      { verb := .delete, node := "n1", service := { id := "db1", service := "web" } } }

/-- A node, and a service on it. -/
def newInstance : List TxnOp :=
  [{ node := some { verb := .set, node := { node := "n1", address := "10.0.0.1" } } },
   { service := some
      { verb := .set, node := "n1", service := { id := "web1", service := "web" } } }]

end Example

end OpenGyoza
