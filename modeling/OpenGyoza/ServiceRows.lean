-- The index rows of service names. An instance always has the row of its name,
-- and the row is never older than what a health query shows of the instance:
-- the instance, its node and the checks that count for it.
import OpenGyoza.Soundness

namespace OpenGyoza

open Memdb Table

section Laws

variable [External] {idx : Nat} {p : Scope} {s s' : State}

/-! ## Operations and the catalog -/

theorem sameCatalog_putSession (s : State) (idx : Nat) (sess : Session) :
    SameCatalog idx s (s.putSession idx sess) := by
  have hsess : SameCatalog idx s { s with
      sessions := s.sessions.upsert sess
      sessionChecks := s.sessionChecks.putAll (sess.checks.map (sessionCheck sess)) } :=
    ⟨rfl, rfl, rfl, rfl, rfl, fun _ => .inl rfl⟩
  exact hsess.trans (sameCatalog_withIndex idx _ (by decide))

theorem Operation.catalog {op : Operation} (hs : Sound s) (h : op.Succeeds idx s s') :
    (∃ p, CatalogSteps idx p s s') ∨ SameCatalog idx s s' := by
  cases hk : op.keyOp with
  | some ko => exact .inr (KeyOp.change (Operation.run_of_keyOp hk h)).sameCatalog
  | none =>
    cases hn : op.newSession with
    | none => exact .inl ⟨_, Operation.steps hs hk hn .any h⟩
    | some sess =>
      obtain ⟨b, u, -, -, -, -, rfl⟩ := Operation.created hn h
      exact .inr (sameCatalog_putSession s idx _)

theorem CatalogSteps.keeps {I : State → Prop} (h : CatalogSteps idx p s s') (hsound : Sound s)
    (step : ∀ s s', Sound s → CatalogStep idx p s s' → I s → I s') (hs : I s) : I s' := by
  induction h with
  | refl => exact hs
  | tail hsteps hstep ih => exact step _ _ (CatalogSteps.sound hsteps hsound) hstep ih

/-! ## The row of a name -/

theorem indexOf_withIndex_table (s : State) (t : String) (idx : Nat) (name : String) :
    (s.withIndex (.table t) idx).indexOf (serviceIndexName name) =
      s.indexOf (serviceIndexName name) := by
  rw [indexOf_withIndex, if_neg]
  simp [serviceIndexName]

theorem SameCatalog.row (h : SameCatalog idx s s') (name : String) :
    s'.indexOf (serviceIndexName name) = s.indexOf (serviceIndexName name) := by
  rcases h.index (serviceIndexName name) with heq | ⟨hmem, -⟩
  · exact heq
  · simp [sessionIndexes, serviceIndexName] at hmem

theorem servicesNamed_congr {name name' : String} (h : toLower name = toLower name')
    (s : State) : servicesNamed name s = servicesNamed name' s := by
  unfold servicesNamed indexField
  rw [h]

theorem row_dropService (s : State) (idx : Nat) (k : List Byte) (svc : ServiceNode)
    (name : String) :
    (s.dropService idx k svc).indexOf (serviceIndexName name) =
      if toLower name = toLower svc.serviceName then
        if servicesNamed svc.serviceName (s.dropService idx k svc) = [] then none else some idx
      else s.indexOf (serviceIndexName name) := by
  -- `s1` is the store before the row of the name is written or taken away.
  obtain ⟨s1, hrow, hnamed, hdrop⟩ : ∃ s1 : State,
      s1.indexOf (serviceIndexName name) = s.indexOf (serviceIndexName name) ∧
      servicesNamed svc.serviceName (s.dropService idx k svc) = servicesNamed svc.serviceName s1 ∧
      s.dropService idx k svc = if servicesNamed svc.serviceName s1 = [] then
        (s1.withoutIndex (serviceIndexName svc.serviceName)).withIndex .serviceLastExtinction idx
        else s1.withIndex (serviceIndexName svc.serviceName) idx := by
    refine ⟨_, ?_, ?_, rfl⟩
    · rw [indexOf_withIndex, if_neg (serviceIndexName_ne_kind _ _), indexOf_withIndex_table]
      rfl
    · obtain ⟨t, ht⟩ := dropService_eq s idx k svc
      rw [ht]
      rfl
  rw [hnamed, hdrop]
  by_cases hempty : servicesNamed svc.serviceName s1 = []
  · rw [if_pos hempty, if_pos hempty, indexOf_withIndex, if_neg (by simp [serviceIndexName]),
      indexOf_withoutIndex, hrow]
    simp [serviceIndexName]
  · rw [if_neg hempty, if_neg hempty, indexOf_withIndex, hrow]
    simp [serviceIndexName]

theorem CatalogStep.row (h : CatalogStep idx p s s') (name : String) :
    s'.indexOf (serviceIndexName name) = some idx ∨
      s'.indexOf (serviceIndexName name) = s.indexOf (serviceIndexName name) ∨
      (s'.indexOf (serviceIndexName name) = none ∧ servicesNamed name s' = []) := by
  have htouch (svc : ServiceNode) (s : State) :
      (s.touch idx svc).indexOf (serviceIndexName name) = some idx ∨
        (s.touch idx svc).indexOf (serviceIndexName name) = s.indexOf (serviceIndexName name) := by
    rw [indexOf_touch]
    split
    · exact .inl rfl
    · exact .inr rfl
  have htable (s1 : State) (t : String) (hindex : s1.index = s.index) :
      (s1.withIndex (.table t) idx).indexOf (serviceIndexName name) =
        s.indexOf (serviceIndexName name) := by
    rw [indexOf_withIndex_table, State.indexOf, hindex]
    rfl
  cases h with
  | table => exact .inr (.inl (htable _ _ rfl))
  | touch => exact (htouch _ _).imp id .inl
  | @touchCheck c svc hc hid hsvc =>
    rw [indexOf_withIndex, if_neg (serviceIndexName_ne_kind _ _), indexOf_withIndex]
    split
    · exact .inl rfl
    · exact .inr (.inl rfl)
  | @putNode n =>
    unfold State.putNode
    rw [indexOf_touchAll]
    split
    · exact .inl rfl
    · exact .inr (.inl (htable _ _ rfl))
  | dropNode _ _ hend _ =>
    rw [hend.sameCatalog.row]
    exact .inr (.inl (htable _ _ rfl))
  | @putService svc =>
    rcases htouch svc (State.withIndex { s with services := s.services.upsert svc }
      (.table "services") idx) with h | h
    · exact .inl h
    · exact .inr (.inl (h.trans (htable _ _ rfl)))
  | @dropService svc k =>
    rw [row_dropService]
    by_cases hname : toLower name = toLower svc.serviceName
    · rw [if_pos hname, servicesNamed_congr hname]
      split
      · exact .inr (.inr ⟨rfl, by assumption⟩)
      · exact .inl rfl
    · rw [if_neg hname]
      exact .inr (.inl rfl)
  | putCheck | coordinates | putQuery | removeQuery | intentions =>
    exact .inr (.inl (htable _ _ rfl))
  | dropCheck _ _ hend _ =>
    rw [hend.sameCatalog.row]
    exact .inr (.inl (htable _ _ rfl))
  | sessions hend => exact .inr (.inl (hend.sameCatalog.row name))

/-! ## Modify indexes -/

/-- No row of the catalog is newer than `idx`. -/
structure Bounded (idx : Nat) (s : State) : Prop where
  nodes : ∀ n ∈ s.nodes.values, n.modifyIndex ≤ idx
  services : ∀ svc ∈ s.services.values, svc.modifyIndex ≤ idx
  checks : ∀ c ∈ s.checks.values, c.modifyIndex ≤ idx

theorem SameCatalog.bounded (h : SameCatalog idx s s') (hb : Bounded idx s) : Bounded idx s' :=
  ⟨h.nodes ▸ hb.nodes, h.services ▸ hb.services, h.checks ▸ hb.checks⟩

theorem CatalogStep.bounded (h : CatalogStep idx p s s') (hb : Bounded idx s) : Bounded idx s' := by
  cases h with
  | table | touch | touchCheck | coordinates | putQuery | removeQuery | intentions =>
    exact ⟨hb.nodes, hb.services, hb.checks⟩
  | putNode hk _ hidx =>
    refine ⟨fun n hn => ?_, hb.services, hb.checks⟩
    rcases mem_values_of_upsert hn with rfl | hn
    · exact hidx.le
    · exact hb.nodes n hn
  | dropNode _ _ hend _ =>
    refine hend.sameCatalog.bounded ⟨fun n hn => ?_, hb.services, hb.checks⟩
    exact hb.nodes n (mem_values_erase.mp hn).1
  | putService _ _ _ hidx =>
    refine ⟨hb.nodes, fun svc hsvc => ?_, hb.checks⟩
    rcases mem_values_of_upsert hsvc with rfl | hsvc
    · exact hidx.le
    · exact hb.services svc hsvc
  | @dropService svc k =>
    obtain ⟨t, ht⟩ := dropService_eq s idx k svc
    rw [ht]
    exact ⟨hb.nodes, fun x hx => hb.services x (mem_values_erase.mp hx).1, hb.checks⟩
  | putCheck _ _ _ _ _ hseen =>
    refine ⟨hb.nodes, hb.services, fun c hc => ?_⟩
    rcases mem_values_of_upsert hc with rfl | hc
    · rcases hseen with ⟨-, hidx, -⟩ | ⟨o, hold, -, -, hidx⟩
      · exact hidx.le
      · rw [hidx]
        exact hb.checks o (mem_values_of_first hold)
    · exact hb.checks c hc
  | dropCheck _ _ hend _ =>
    refine hend.sameCatalog.bounded ⟨hb.nodes, hb.services, fun c hc => ?_⟩
    exact hb.checks c (mem_values_erase.mp hc).1
  | sessions hend => exact hend.sameCatalog.bounded hb

/-- A check counts for an instance: it is a check of its node alone, or one of the instance. -/
def HealthCheck.CountsFor (c : HealthCheck) (svc : ServiceNode) : Prop :=
  if c.serviceID = "" then toLower c.node = toLower svc.node
  else rowKey c.node c.serviceID = rowKey svc.node svc.serviceID

/-- What a health query shows of an instance is not newer than `v`: the instance, its node and
the checks that count for it. -/
structure Dominated (v : Nat) (svc : ServiceNode) (s : State) : Prop where
  service : svc.modifyIndex ≤ v
  node : ∀ n, nodeRow svc.node s = some n → n.modifyIndex ≤ v
  checks : ∀ c ∈ s.checks.values, c.CountsFor svc → c.modifyIndex ≤ v

variable {svc : ServiceNode} {c : HealthCheck}

theorem Bounded.dominated (h : Bounded idx s) (hsvc : svc ∈ s.services.values) :
    Dominated idx svc s where
  service := h.services svc hsvc
  node n hn := h.nodes n (mem_values_of_first hn)
  checks c hc _ := h.checks c hc

theorem Dominated.of_fewer {v : Nat} (h : Dominated v svc s)
    (hnode : ∀ n, nodeRow svc.node s' = some n → nodeRow svc.node s = some n)
    (hchecks : ∀ c ∈ s'.checks.values, c ∈ s.checks.values) : Dominated v svc s' where
  service := h.service
  node n hn := h.node n (hnode n hn)
  checks c hc := h.checks c (hchecks c hc)

theorem SameCatalog.dominated {v : Nat} (h : SameCatalog idx s s') (hd : Dominated v svc s) :
    Dominated v svc s' := by
  refine hd.of_fewer (fun n hn => ?_) fun c hc => ?_
  · rw [nodeRow, h.nodes] at hn
    exact hn
  · rw [h.checks] at hc
    exact hc

theorem serviceRow_of_mem (h : svc ∈ s.services.values) :
    serviceRow svc.node svc.serviceID s = some svc := by
  obtain ⟨k, hk⟩ := mem_values.mp h
  obtain ⟨-, -, rfl⟩ := serviceKey_eq_ok (key_of_first hk)
  exact hk

theorem mem_servicesOfNode (h : svc ∈ s.services.values) {node : String}
    (hnode : toLower svc.node = toLower node) : svc ∈ servicesOfNode node s := by
  obtain ⟨k, hk⟩ := mem_values.mp h
  exact mem_seek_field h (serviceKey_eq_ok (key_of_first hk)).1 hnode

theorem HealthCheck.Touched.row (h : c.Touched idx s) (hsvc : svc ∈ s.services.values)
    (hcounts : c.CountsFor svc) (hlink : c.serviceID ≠ "" → c.serviceName = svc.serviceName) :
    s.indexOf (serviceIndexName svc.serviceName) = some idx := by
  unfold HealthCheck.Touched at h
  unfold HealthCheck.CountsFor at hcounts
  by_cases hid : c.serviceID = ""
  · rw [if_neg (not_not.mpr hid)] at h
    rw [if_pos hid] at hcounts
    exact h svc (mem_servicesOfNode hsvc hcounts.symm)
  · rw [if_pos hid, hlink hid] at h
    exact h

/-! ## Instances and their rows -/

/-- The row of an instance is new, or the instance is an old one and what is shown of it is no
newer than before. -/
def Shown (idx : Nat) (svc : ServiceNode) (s s' : State) : Prop :=
  s'.indexOf (serviceIndexName svc.serviceName) = some idx ∨
    (svc ∈ s.services.values ∧ ∀ v, Dominated v svc s → Dominated v svc s')

theorem shown_of_fewer (hsvc : svc ∈ s.services.values)
    (hnode : ∀ n, nodeRow svc.node s' = some n → nodeRow svc.node s = some n)
    (hchecks : ∀ c ∈ s'.checks.values, c ∈ s.checks.values) : Shown idx svc s s' :=
  .inr ⟨hsvc, fun _ h => h.of_fewer hnode hchecks⟩

theorem shown_putNode {n : Node} {k : String} (hk : nodeKey n = .ok k)
    (hsvc : svc ∈ s.services.values) : Shown idx svc s (s.putNode idx n) := by
  obtain ⟨-, rfl⟩ := nodeKey_eq_ok hk
  by_cases hnode : toLower svc.node = toLower n.node
  · -- The row of every instance on the node is written.
    refine .inl ?_
    unfold State.putNode
    rw [indexOf_touchAll, if_pos]
    exact ⟨svc, mem_servicesOfNode hsvc hnode, rfl⟩
  · refine shown_of_fewer hsvc (fun m hm => ?_) fun c hc => hc
    change (s.nodes.upsert n).first (toLower svc.node) = some m at hm
    rwa [first_upsert_ne hk hnode] at hm

theorem shown_putCheck {k : List Byte} (hk : checkKey c = .ok k)
    (hlink : c.serviceID ≠ "" → ∃ svc, serviceRow c.node c.serviceID s = some svc ∧
      c.serviceName = svc.serviceName ∧ c.serviceTags = svc.serviceTags)
    (hseen : c.Announced idx (s.checks.first k) s) (hsvc : svc ∈ s.services.values) :
    Shown idx svc s (s.putCheck idx c) := by
  have hrow : (s.putCheck idx c).indexOf (serviceIndexName svc.serviceName) =
      s.indexOf (serviceIndexName svc.serviceName) := indexOf_withIndex_table _ _ _ _
  -- The check counts for the instance, or it does not matter for it.
  by_cases hcounts : c.CountsFor svc
  · rcases hseen with ⟨-, -, htouched⟩ | ⟨o, hold, hsame, -, hmodify⟩
    · refine .inl (hrow.trans (htouched.row hsvc hcounts fun hne => ?_))
      obtain ⟨x, hx, hname, -⟩ := hlink hne
      unfold HealthCheck.CountsFor at hcounts
      rw [if_neg hne] at hcounts
      have hfound := serviceRow_of_mem hsvc
      rw [serviceRow, ← hcounts] at hfound
      rw [serviceRow, hfound] at hx
      cases hx
      exact hname
    · -- The old check counted for the instance in the same way.
      simp only [HealthCheck.isSame, Bool.and_eq_true, beq_iff_eq] at hsame
      obtain ⟨⟨⟨⟨⟨⟨⟨⟨⟨honode, -⟩, -⟩, -⟩, -⟩, -⟩, hoid⟩, -⟩, -⟩, -⟩ := hsame
      refine .inr ⟨hsvc, fun v hd => ⟨hd.service, hd.node, fun x hx hxc => ?_⟩⟩
      rcases mem_values_of_upsert hx with rfl | hx
      · rw [hmodify]
        refine hd.checks o (mem_values_of_first hold) ?_
        unfold HealthCheck.CountsFor at hxc ⊢
        rw [honode, hoid]
        exact hxc
      · exact hd.checks x hx hxc
  · refine .inr ⟨hsvc, fun v hd => ⟨hd.service, hd.node, fun x hx hxc => ?_⟩⟩
    rcases mem_values_of_upsert hx with rfl | hx
    · exact absurd hxc hcounts
    · exact hd.checks x hx hxc

theorem CatalogStep.shown (h : CatalogStep idx p s s') (hsvc : svc ∈ s'.services.values) :
    Shown idx svc s s' := by
  have hsame {s1 : State} (h : SameCatalog idx s s1) (hsvc : svc ∈ s1.services.values) :
      Shown idx svc s s1 := by
    rw [h.services] at hsvc
    exact .inr ⟨hsvc, fun _ hd => h.dominated hd⟩
  cases h with
  | table | touch | touchCheck | coordinates | putQuery | removeQuery | intentions =>
    exact shown_of_fewer hsvc (fun _ hn => hn) fun _ hc => hc
  | putNode hk => exact shown_putNode hk hsvc
  | @dropNode _ k _ _ hend _ =>
    have hcat := hend.sameCatalog
    rw [hcat.services] at hsvc
    refine shown_of_fewer hsvc (fun n hn => ?_) fun c hc => ?_
    · rw [nodeRow, hcat.nodes] at hn
      change (s.nodes.erase k).first (toLower svc.node) = some n at hn
      rw [first_erase] at hn
      split at hn
      · cases hn
      · exact hn
    · rw [hcat.checks] at hc
      exact hc
  | @putService x k hk =>
    rcases mem_values_of_upsert hsvc with rfl | hsvc
    · refine .inl ?_
      unfold State.putService
      rw [indexOf_touch, if_pos rfl]
    · exact shown_of_fewer hsvc (fun _ hn => hn) fun _ hc => hc
  | @dropService x k =>
    obtain ⟨t, ht⟩ := dropService_eq s idx k x
    rw [ht] at hsvc ⊢
    exact shown_of_fewer (mem_values_erase.mp hsvc).1 (fun _ hn => hn) fun _ hc => hc
  | putCheck hk _ hlink _ _ hseen => exact shown_putCheck hk hlink hseen hsvc
  | dropCheck _ _ hend _ =>
    have hcat := hend.sameCatalog
    rw [hcat.services] at hsvc
    refine shown_of_fewer hsvc (fun n hn => ?_) fun c hc => ?_
    · rw [nodeRow, hcat.nodes] at hn
      exact hn
    · rw [hcat.checks] at hc
      exact (mem_values_erase.mp hc).1
  | sessions hend => exact hsame hend.sameCatalog hsvc

/-- Every instance with a name has the row of its name, and the row is not older than what is
shown of the instance. -/
def Watched (s : State) : Prop :=
  ∀ svc ∈ s.services.values, svc.serviceName ≠ "" →
    ∃ v, s.indexOf (serviceIndexName svc.serviceName) = some v ∧ Dominated v svc s

theorem CatalogStep.watched (h : CatalogStep idx p s s') (hb : Bounded idx s) (hw : Watched s) :
    Watched s' := by
  intro svc hsvc hname
  have hnew (hrow : s'.indexOf (serviceIndexName svc.serviceName) = some idx) :
      ∃ v, s'.indexOf (serviceIndexName svc.serviceName) = some v ∧ Dominated v svc s' :=
    ⟨idx, hrow, (h.bounded hb).dominated hsvc⟩
  rcases h.shown hsvc with hrow | ⟨hold, hdom⟩
  · exact hnew hrow
  · rcases h.row svc.serviceName with hrow | hrow | ⟨-, hnone⟩
    · exact hnew hrow
    · obtain ⟨v, hv, hd⟩ := hw svc hold hname
      exact ⟨v, hrow.trans hv, hdom v hd⟩
    · have hmem : svc ∈ servicesNamed svc.serviceName s' := mem_seek_field hsvc hname rfl
      rw [hnone] at hmem
      cases hmem

theorem SameCatalog.watched (h : SameCatalog idx s s') (hw : Watched s) : Watched s' := by
  intro svc hsvc hname
  rw [h.services] at hsvc
  obtain ⟨v, hv, hd⟩ := hw svc hsvc hname
  exact ⟨v, (h.row svc.serviceName).trans hv, h.dominated hd⟩

end Laws

section Example

attribute [local instance] ascii

/-- Two instances on one node, of which the first is deleted. -/
def deleteLog (name : String) : List LogEntry :=
  [⟨1, .call (.ensureNode { node := "web" })⟩,
   ⟨2, .call (.ensureService "web" { id := "a", service := name })⟩,
   ⟨3, .call (.ensureService "web" { id := "b", service := name })⟩,
   ⟨4, .call (.deleteService "web" "a")⟩]

theorem deleteLog_lawful (name : String) : Lawful (fun _ _ _ => True) 0 (deleteLog name) .empty :=
  have hop (i : Nat) (op : Operation) (s : State) : EveryOp (fun _ _ => True) i [op] s :=
    ⟨trivial, trivial⟩
  ⟨Nat.one_pos, fun _ => hop _ _ _, Nat.lt_add_one 1, fun _ => hop _ _ _, Nat.lt_add_one 2,
    fun _ => hop _ _ _, Nat.lt_add_one 3, fun _ => hop _ _ _, trivial⟩

end Example

end OpenGyoza
