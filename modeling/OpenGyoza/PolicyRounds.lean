-- Policies and roles as kinds of items with names: what their writes and
-- deletions do, and when a round that reports success has copied them.
import OpenGyoza.AclRounds

namespace OpenGyoza

open Memdb Replication Txn Table List

section Laws

variable [External]

/-! ## Policies -/

abbrev PolicyItem := Item String String (List Byte × String × List String)

def policyItem (p : ACLPolicy) : PolicyItem where
  id := p.id
  name := some (toLower p.name)
  content := (p.hash, p.rules, p.datacenters)

abbrev State.policyItems (s : State) :
    Rows (List Byte) String String (List Byte × String × List String) :=
  itemsOf policyItem s.aclPolicies

/-- The policy that is built in keeps its rules and has no datacenters. -/
def keepsBuiltin (old : Option PolicyItem) (new : PolicyItem) : Prop :=
  new.id = aclPolicyGlobalManagementID → ∀ y, old = some y →
    new.content.2.1 = y.content.2.1 ∧ new.content.2.2 = []

variable {k : List Byte} {s s' : State} {l : List ACLPolicy} {remoteIndex last : Nat} {r : ACLRole}
  {α : Type}

theorem namedKey_eq_ok {id name text : String} (h : (do
      let key ← primaryUUID id
      if name = "" then .error text
      return key) = Except.ok k) : primaryUUID id = .ok k ∧ name ≠ "" := by
  obtain ⟨key, hid, h⟩ := except_bind_ok.mp h
  split at h
  · cases h
  · rename_i hname
    cases h
    exact ⟨hid, hname⟩

theorem aclPolicyKey_eq_ok {p : ACLPolicy} (h : aclPolicyKey p = .ok k) :
    primaryUUID p.id = .ok k ∧ p.name ≠ "" :=
  namedKey_eq_ok h

theorem idKey_policyItem (p : ACLPolicy) (k : List Byte) (h : aclPolicyKey p = .ok k) :
    idKey (policyItem p).id = k := idKey_of_primaryUUID (aclPolicyKey_eq_ok h).1

theorem getPolicyWithTxn_eq {id : String} (h : uuidKey id = .ok k) :
    getPolicyWithTxn id s = (.ok (s.aclPolicies.first k), s) := by
  apply eq_of_wp
  simp [getPolicyWithTxn, uuidArg_of_uuidKey h, Txn.ofExcept]

theorem builtinUnchanged_cases (p : ACLPolicy) (existing : Option ACLPolicy) (s : State) :
    (keepsBuiltin (existing.map policyItem) (policyItem p) ∧
        builtinUnchanged p existing s = (.ok (), s)) ∨
      (¬ keepsBuiltin (existing.map policyItem) (policyItem p) ∧
        ∃ text, builtinUnchanged p existing s = (.error (.error text), s)) := by
  cases existing with
  | none => exact .inl ⟨fun _ y hy => by simp at hy, rfl⟩
  | some old =>
    have hiff : keepsBuiltin ((some old).map policyItem) (policyItem p) ↔
        (p.id = aclPolicyGlobalManagementID → p.rules = old.rules ∧ p.datacenters = []) := by
      simp [keepsBuiltin, policyItem]
    rw [hiff]
    unfold builtinUnchanged
    by_cases hid : p.id = aclPolicyGlobalManagementID
    · by_cases hrules : p.rules = old.rules
      · by_cases hdcs : p.datacenters = []
        · exact .inl ⟨fun _ => ⟨hrules, hdcs⟩, by simp [hid, hrules, hdcs, pure]⟩
        · exact .inr ⟨fun h => hdcs (h hid).2, _, by simp [hid, hrules, hdcs, Txn.fail]; rfl⟩
      · exact .inr ⟨fun h => hrules (h hid).1, _, by simp [hid, hrules, Txn.fail]; rfl⟩
    · exact .inl ⟨fun h => absurd h hid, by simp [hid, pure]⟩

/-- The row that a write of a policy stores. -/
def ACLPolicy.stored (p : ACLPolicy) (idx : Nat) (existing : Option ACLPolicy) : ACLPolicy :=
  { p with createIndex := (existing.map (·.createIndex)).getD idx, modifyIndex := idx }

theorem aclPolicySetTxn_makesChange (idx : Nat) :
    MakesChange State.policyItems (fun p => .write (policyItem p)) keepsBuiltin
      (fun p => ∃ k, aclPolicyKey p = .ok k) (aclPolicySetTxn idx) := by
  rintro p s ⟨k, hk⟩ hs
  obtain ⟨hprimary, hname⟩ := aclPolicyKey_eq_ok hk
  obtain ⟨hid, hu⟩ := primaryUUID_eq_ok hprimary
  have hallowed : (Edit.write (policyItem p)).Allowed idKey keepsBuiltin s.policyItems ↔
      (∀ dup, policyWithName p.name s = some dup → dup.id = p.id) ∧
        keepsBuiltin ((s.aclPolicies.first k).map policyItem) (policyItem p) := by
    have hfree : Free s.policyItems (policyItem p) ↔
        ∀ dup, policyWithName p.name s = some dup → dup.id = p.id :=
      free_itemsOf_iff hs (fun q => by simp [policyItem]) (by simp [policyItem])
    have hkey := idKey_policyItem p k hk
    rw [← hfree, ← hkey]
    rfl
  have hstored : aclPolicyKey (p.stored idx (s.aclPolicies.first k)) = .ok k := hk
  unfold aclPolicySetTxn
  rw [if_neg hid, if_neg hname, bind_of_ok (getPolicyWithTxn_eq hu), hallowed]
  rcases builtinUnchanged_cases p (s.aclPolicies.first k) s with
    ⟨hbuiltin, hrun⟩ | ⟨hbuiltin, text, hrun⟩
  · have hread : Txn.read (policyWithName p.name) s = (.ok (policyWithName p.name s), s) := rfl
    rw [bind_of_ok hrun, bind_of_ok hread]
    cases hdup : policyWithName p.name s with
    | none =>
      refine .inl ⟨⟨by simp, hbuiltin⟩, _, wrap_eq_ok.mpr (insert_eq_ok.mpr ⟨k, hstored, rfl⟩), ?_⟩
      exact itemsOf_upsert idKey_policyItem hstored
    | some dup =>
      by_cases hsame : p.id = dup.id
      · refine .inl ⟨⟨by simpa using hsame.symm, hbuiltin⟩, _,
          (congrFun (if_neg (not_not.mpr hsame)) s).trans
            (wrap_eq_ok.mpr (insert_eq_ok.mpr ⟨k, hstored, rfl⟩)), ?_⟩
        exact itemsOf_upsert idKey_policyItem hstored
      · refine .inr ⟨fun h => hsame (h.1 dup rfl).symm,
          "A policy with name " ++ quote p.name ++ " already exists", s, ?_⟩
        simp only [ne_eq, hsame, not_false_eq_true, if_true]
        rfl
  · exact .inr ⟨fun h => hbuiltin h.2, text, s, bind_of_error hrun⟩

theorem aclPolicyDeleteTxn_items {id : String} (hid : ∃ k, uuidKey id = .ok k)
    (h : aclPolicyDeleteTxn id s = (.ok (), s')) :
    s'.policyItems = (Edit.remove id).apply idKey s.policyItems := by
  obtain ⟨k, hk⟩ := hid
  have hkey : idKey id = k := by simp [idKey, hk, Except.toOption]
  unfold aclPolicyDeleteTxn at h
  rw [bind_of_ok (getPolicyWithTxn_eq hk)] at h
  cases hrow : s.aclPolicies.first k with
  | none =>
    rw [hrow] at h
    obtain ⟨-, rfl⟩ := Prod.ext_iff.mp h
    exact itemsOf_of_first_none hkey hrow
  | some p =>
    rw [hrow] at h
    by_cases hbuiltin : p.id = aclPolicyGlobalManagementID
    · simp [hbuiltin, Txn.fail] at h
    · simp only [hbuiltin, if_false] at h
      obtain rfl := delete_eq_ok (key_of_first hrow) hrow (wrap_eq_ok.mp h)
      exact itemsOf_erase hkey

theorem policiesDeleted_composes : Composes fun ids s s' =>
    (∀ id ∈ ids, ∃ k, uuidKey id = .ok k) →
      State.policyItems s' = applyAll idKey s.policyItems (ids.map .remove) :=
  changed_composes State.policyItems .remove fun id => ∃ k, uuidKey id = .ok k

theorem aclPolicyBatchDelete_items (idx : Nat) (ids : List String) (s s' : State)
    (h : aclPolicyBatchDelete idx ids s = (.ok (), s'))
    (hids : ∀ id ∈ ids, ∃ k, uuidKey id = .ok k) :
    s'.policyItems = applyAll idKey s.policyItems (ids.map .remove) := by
  obtain ⟨s1, t, hdelete, rfl⟩ := withIndex_eq_ok h
  have hall := policiesDeleted_composes.forEach (fun id s s' hid hvalid =>
    aclPolicyDeleteTxn_items (hvalid id mem_cons_self) hid) hdelete
  exact hall hids

theorem aclPolicyBatchSet_makesChanges (idx : Nat) :
    MakesChanges State.policyItems (fun p => .write (policyItem p)) keepsBuiltin
      (fun p => ∃ k, aclPolicyKey p = .ok k) (aclPolicyBatchSet idx) :=
  (forEach_makesChanges (aclPolicySetTxn_makesChange idx)).withIndex (fun _ _ => rfl) idx _ _

theorem aclPolicyBatchGet_eq (h : ∀ p ∈ l, p ∈ s.aclPolicies.values) :
    aclPolicyBatchGet (l.map (·.id)) s = (.ok l, s) := by
  induction l with
  | nil => rfl
  | cons p l ih =>
    obtain ⟨k, hk⟩ := mem_values.mp (h p mem_cons_self)
    obtain ⟨-, hu⟩ := primaryUUID_eq_ok (aclPolicyKey_eq_ok (key_of_first hk)).1
    rw [map_cons, aclPolicyBatchGet, bind_of_ok (getPolicyWithTxn_eq hu),
      bind_of_ok (ih fun q hq => h q (mem_cons_of_mem _ hq)), hk]
    rfl

theorem fetchPending_policies (remotes : List ACLPolicy) (h : ∀ p ∈ l, p ∈ s.aclPolicies.values) :
    (fetchPending aclPolicyReplicator remotes (l.map (·.id)) s).1 = .ok l := by
  have hget : aclPolicyReplicator.fetchUpdated remotes _ s = _ := aclPolicyBatchGet_eq h
  cases l with
  | nil => rfl
  | cons p l =>
    rw [map_cons] at hget ⊢
    simp [fetchPending, wrap, hget]

/-- No two policies have one name, but for upper and lower case. -/
def PolicyNamesUnique (s : State) : Prop :=
  ∀ p ∈ s.aclPolicies.values, ∀ q ∈ s.aclPolicies.values, toLower p.name = toLower q.name → p = q

/-- The two sides agree on the policies that did not change after `last`. -/
def PoliciesAgree (s primary : State) (last : Nat) : Prop :=
  ∀ y ∈ s.aclPolicies.values, ∀ x ∈ primary.aclPolicies.values, y.id = x.id →
    x.modifyIndex ≤ last → y.hash = x.hash

def PoliciesFit (s primary : State) : Prop :=
  ∀ x ∈ primary.aclPolicies.values,
    (∀ y ∈ s.aclPolicies.values, y.id = x.id → y.hash ≠ x.hash) →
    (∀ y ∈ s.aclPolicies.values, toLower y.name = toLower x.name → y.id = x.id ∨
      ∀ z ∈ primary.aclPolicies.values, z.id = y.id → z.id < x.id ∧ z.hash ≠ y.hash) ∧
    ∀ y ∈ s.aclPolicies.values, y.id = x.id → x.id = aclPolicyGlobalManagementID →
      x.rules = y.rules ∧ x.datacenters = []

theorem policies_ids {p : ACLPolicy} (h : p ∈ s.aclPolicies.values) :
    p.id ≠ "" ∧ ∃ k, uuidKey p.id = .ok k := by
  obtain ⟨k, hk⟩ := key_of_mem h
  obtain ⟨hne, hu⟩ := primaryUUID_eq_ok (aclPolicyKey_eq_ok hk).1
  exact ⟨hne, k, hu⟩

theorem policyItems_proper (hs : PolicyNamesUnique s) : Proper idKey s.policyItems := by
  refine proper_itemsOf idKey_policyItem fun p hp q hq hname _ => hs p hp q hq ?_
  simpa [policyItem] using hname

theorem policies_named : NamedKind aclPolicyReplicator policyItem (fun c => c.1) keepsBuiltin
    (fun p => ∃ k, aclPolicyKey p = .ok k) (fun s => s.aclPolicies.values) State.policyItems where
  id_eq _ := rfl
  hash_eq _ := rfl
  named p := by simp [policyItem]
  new p _ y hy := by simp at hy
  items_iff _ _ := exists_itemsOf
  keyed _ _ _ := keyed_itemsOf idKey_policyItem
  keys s := values_keys_pairwise idKey_policyItem s.aclPolicies
  ids _ _ := policies_ids
  listed s l h := by
    obtain rfl : s.aclPolicies.values = l := by rcases h with h | h <;> exact Except.ok.inj h
    exact ⟨rfl, rfl⟩
  good s l h hgood := by
    obtain rfl : s.aclPolicies.values = l := Except.ok.inj h
    exact hgood
  fetched s l remotes p updated hl hmem _ h := by
    obtain rfl : s.aclPolicies.values = l := Except.ok.inj hl
    have hfetch := fetchPending_policies remotes (l := remotes.filter p) fun x hx =>
      hmem x (mem_filter.mp hx).1
    exact (Except.ok.inj (hfetch.symm.trans h)).symm
  deleted batches rs s s1 hrun hids _ hacc :=
    ⟨hacc rfl, policiesDeleted_composes.batches aclPolicyBatchDelete_items hrun (hacc rfl) hids⟩
  written := aclPolicyBatchSet_makesChanges

theorem policies_round_single (around : Surroundings) (primary : State) {idx : Nat}
    (hs : PolicyNamesUnique s) (hstop : around.stoppedAtFetch = false) (hindex : last ≤ remoteIndex)
    (hdiff : roundDiff aclPolicyReplicator last s.aclPolicies.values primary.aclPolicies.values =
      { deletes := [], updates := l.map (·.id) }) (hl : ∀ p ∈ l, p ∈ primary.aclPolicies.values)
    (hbatches : batches ACLPolicy.estimateSize aclBatchUpsertSize l = [l])
    (hraft : around.raft .updates 0 = .ok idx) :
    ACLKind.policies.replicate around primary remoteIndex last s =
      ({ index := remoteIndex, exit := false, err := none
         responses := [(aclPolicyBatchSet idx l s).1] },
        Txn.commit (aclPolicyBatchSet idx l) (fun _ => true) s) := by
  have hlast : (if remoteIndex < last then 0 else last) = last := if_neg (by omega)
  have hupdate : updateLocalACLType aclPolicyReplicator around l s =
      ((.finished, [(aclPolicyBatchSet idx l s).1]),
        Txn.commit (aclPolicyBatchSet idx l) (fun _ => true) s) := by
    unfold updateLocalACLType
    rw [show aclPolicyReplicator.estimatedSize = ACLPolicy.estimateSize from rfl, hbatches]
    rcases aclPolicyBatchSet_makesChanges idx l s (fun p hp => key_of_mem (hl p hp))
      (policyItems_proper hs) with ⟨-, s', hrun, -⟩ | ⟨-, refusal, s', hrun⟩ <;>
      simp [applyBatches, aclPolicyReplicator, hraft, hrun]
  have hfetch := fetchPending_policies (sortState aclPolicyReplicator primary.aclPolicies.values) hl
  have hlist : ∀ s, (aclPolicyReplicator.fetchRemote s).1 = .ok s.aclPolicies.values ∧
      (aclPolicyReplicator.fetchLocal s).1 = .ok s.aclPolicies.values := fun _ => ⟨rfl, rfl⟩
  have hdelete : deleteLocalACLType aclPolicyReplicator around [] s = ((.finished, []), s) := rfl
  unfold roundDiff at hdiff
  unfold ACLKind.replicate replicateACLType
  simp [hlist, hstop, hlast, hdiff, hfetch, hdelete, hupdate]

/-! ## Roles -/

abbrev RoleItem := Item String String (List Byte)

def roleItem (r : ACLRole) : RoleItem where
  id := r.id
  name := some (toLower r.name)
  content := r.hash

abbrev State.roleItems (s : State) : Rows (List Byte) String String (List Byte) :=
  itemsOf roleItem s.aclRoles

def anyRole (_ : Option RoleItem) (_ : RoleItem) : Prop := True

/-- The links of a role lead to IDs, and its service identities have names. -/
def ACLRole.Formed (r : ACLRole) : Prop :=
  (∀ link ∈ r.policies, link.id ≠ "" ∧ ∃ k, uuidKey link.id = .ok k) ∧
    ∀ svcid ∈ r.serviceIdentities, svcid.serviceName ≠ ""

theorem aclRoleKey_eq_ok (h : aclRoleKey r = .ok k) : primaryUUID r.id = .ok k ∧ r.name ≠ "" :=
  namedKey_eq_ok h

theorem idKey_roleItem (r : ACLRole) (k : List Byte) (h : aclRoleKey r = .ok k) :
    idKey (roleItem r).id = k := idKey_of_primaryUUID (aclRoleKey_eq_ok h).1

theorem roleRow_eq {id : String} (h : uuidKey id = .ok k) :
    roleRow id s = (.ok (s.aclRoles.first k), s) := by
  apply eq_of_wp
  simp [roleRow, uuidArg_of_uuidKey h, Txn.ofExcept]

theorem rolePolicyLinks_resolve {links : List ACLLink}
    (h : ∀ link ∈ links, link.id ≠ "" ∧ ∃ k, uuidKey link.id = .ok k) :
    ∃ r, rolePolicyLinks.resolve true links s = (.ok r, s) := by
  induction links with
  | nil => exact ⟨([], 0), rfl⟩
  | cons link links ih =>
    obtain ⟨hne, k, hk⟩ := h link mem_cons_self
    obtain ⟨r, hr⟩ := ih fun l hl => h l (mem_cons_of_mem _ hl)
    have hname : rolePolicyLinks.name link.id s =
        (.ok ((s.aclPolicies.first k).map (·.name)), s) := bind_of_ok (getPolicyWithTxn_eq hk)
    unfold LinkKind.resolve
    rw [if_neg hne, bind_of_ok hname]
    cases s.aclPolicies.first k with
    | none => exact ⟨_, bind_of_ok hr⟩
    | some p => exact ⟨_, bind_of_ok hr⟩

theorem identitiesNamed_ok {text : String} {identities : List ACLServiceIdentity}
    (h : ∀ svcid ∈ identities, svcid.serviceName ≠ "") :
    identitiesNamed text identities s = (.ok (), s) := by
  unfold identitiesNamed
  induction identities with
  | nil => rfl
  | cons svcid identities ih =>
    rw [Txn.forEach, if_neg (h svcid mem_cons_self)]
    exact ih fun i hi => h i (mem_cons_of_mem _ hi)

/-- The row that a write of a role stores. -/
def ACLRole.stored (r : ACLRole) (idx : Nat) (policies : List ACLLink)
    (existing : Option ACLRole) : ACLRole :=
  { r with
    policies := policies
    createIndex := (existing.map (·.createIndex)).getD idx
    modifyIndex := idx }

theorem aclRoleSetTxn_makesChange (idx : Nat) :
    MakesChange State.roleItems (fun r => .write (roleItem r)) anyRole
      (fun r => (∃ k, aclRoleKey r = .ok k) ∧ r.Formed) (aclRoleSetTxn idx true) := by
  rintro r s ⟨⟨k, hk⟩, hlinks, hidentities⟩ hs
  obtain ⟨hprimary, hname⟩ := aclRoleKey_eq_ok hk
  obtain ⟨hid, hu⟩ := primaryUUID_eq_ok hprimary
  obtain ⟨⟨policies, numValid⟩, hresolve⟩ := rolePolicyLinks_resolve hlinks
  have hallowed : (Edit.write (roleItem r)).Allowed idKey anyRole s.roleItems ↔
      ∀ dup, roleWithName r.name s = some dup → dup.id = r.id := by
    have hfree : Free s.roleItems (roleItem r) ↔
        ∀ dup, roleWithName r.name s = some dup → dup.id = r.id :=
      free_itemsOf_iff hs (fun q => by simp [roleItem]) (by simp [roleItem])
    rw [← hfree]
    exact and_iff_left trivial
  have hstored : aclRoleKey (r.stored idx policies (s.aclRoles.first k)) = .ok k := hk
  have hread : Txn.read (roleWithName r.name) s = (.ok (roleWithName r.name s), s) := rfl
  unfold aclRoleSetTxn
  rw [if_neg hid, if_neg hname, bind_of_ok (roleRow_eq hu), bind_of_ok hread, hallowed]
  cases hdup : roleWithName r.name s with
  | none =>
    refine .inl ⟨by simp, _, (bind_of_ok hresolve).trans
      ((bind_of_ok (identitiesNamed_ok hidentities)).trans
        (wrap_eq_ok.mpr (insert_eq_ok.mpr ⟨k, hstored, rfl⟩))), ?_⟩
    exact itemsOf_upsert idKey_roleItem hstored
  | some dup =>
    by_cases hsame : r.id = dup.id
    · refine .inl ⟨by simpa using hsame.symm, _, (congrFun (if_neg (not_not.mpr hsame)) s).trans
        ((bind_of_ok hresolve).trans ((bind_of_ok (identitiesNamed_ok hidentities)).trans
          (wrap_eq_ok.mpr (insert_eq_ok.mpr ⟨k, hstored, rfl⟩)))), ?_⟩
      exact itemsOf_upsert idKey_roleItem hstored
    · refine .inr ⟨fun h => hsame (h dup rfl).symm,
        "A role with name " ++ quote r.name ++ " already exists", s, ?_⟩
      simp only [ne_eq, hsame, not_false_eq_true, if_true]
      rfl

theorem aclRoleDeleteTxn_makesChange :
    MakesChange State.roleItems .remove anyRole (fun id => ∃ k, uuidKey id = .ok k)
      aclRoleDeleteTxn := by
  rintro id s ⟨k, hk⟩ -
  have hkey : idKey id = k := by simp [idKey, hk, Except.toOption]
  unfold aclRoleDeleteTxn
  rw [bind_of_ok (roleRow_eq hk)]
  cases hrow : s.aclRoles.first k with
  | none => exact .inl ⟨trivial, s, rfl, itemsOf_of_first_none hkey hrow⟩
  | some r =>
    refine .inl ⟨trivial, { s with aclRoles := s.aclRoles.erase k }, ?_, itemsOf_erase hkey⟩
    apply eq_of_wp
    rw [wp_wrap, wp_delete Tables.aclRoles (key_of_first hrow) hrow]
    simp

theorem LinkKind.fixup_ids {kind : LinkKind} {links out : List ACLLink}
    (h : kind.fixup links s = (.ok out, s')) : ∀ l ∈ out, ∃ link ∈ links, link.id = l.id := by
  induction links generalizing out s s' with
  | nil =>
    obtain ⟨rfl, -⟩ := pure_eq_ok.mp h
    simp
  | cons link links ih =>
    unfold LinkKind.fixup at h
    by_cases hid : link.id = ""
    · simp [hid, Txn.fail] at h
    · rw [if_neg hid] at h
      obtain ⟨name, s1, -, h⟩ := bind_eq_ok.mp h
      obtain ⟨rest, hrest, rfl⟩ := return_eq_ok.mp h
      intro l hl
      rcases mem_append.mp hl with hl | hl
      · obtain ⟨n, -, rfl⟩ : ∃ n, name = some n ∧ { link with name := n } = l := by
          simpa using hl
        exact ⟨link, mem_cons_self, rfl⟩
      · obtain ⟨m, hm, heq⟩ := ih hrest l hl
        exact ⟨m, mem_cons_of_mem _ hm, heq⟩

theorem fixupAll_eq_ok {R : α → α → Prop} {fixup : α → StoreTxn α}
    (hfixup : ∀ a b s s', fixup a s = (.ok b, s') → R a b) {l l' : List α}
    (h : fixupAll fixup l s = (.ok l', s')) : List.Forall₂ R l l' := by
  induction l generalizing l' s s' with
  | nil =>
    obtain ⟨rfl, -⟩ := pure_eq_ok.mp h
    exact .nil
  | cons a l ih =>
    obtain ⟨b, s1, hb, h⟩ := bind_eq_ok.mp h
    obtain ⟨rest, hrest, rfl⟩ := return_eq_ok.mp h
    exact .cons (hfixup _ _ _ _ hb) (ih hrest)

/-- A row and the role that is read from it. -/
structure RoleRead (row r : ACLRole) : Prop where
  item : roleItem r = roleItem row
  info : aclRoleReplicator.toMeta r = aclRoleReplicator.toMeta row
  key : aclRoleKey r = aclRoleKey row
  formed : row.Formed → r.Formed

theorem fixupRolePolicyLinks_read {row : ACLRole} (h : fixupRolePolicyLinks row s = (.ok r, s')) :
    RoleRead row r := by
  obtain ⟨links, hlinks, rfl⟩ := return_eq_ok.mp h
  refine ⟨rfl, rfl, rfl, fun hformed => ⟨fun l hl => ?_, hformed.2⟩⟩
  obtain ⟨link, hlink, hid⟩ := LinkKind.fixup_ids hlinks l hl
  exact hid ▸ hformed.1 link hlink

theorem aclRoleList_read {l : List ACLRole} (h : (aclRoleList s).1 = .ok l) :
    List.Forall₂ RoleRead s.aclRoles.values l := by
  have hrun : fixupAll fixupRolePolicyLinks s.aclRoles.values s = (.ok l, (aclRoleList s).2) :=
    Prod.ext h rfl
  refine fixupAll_eq_ok ?_ hrun
  exact fun _ _ _ _ => fixupRolePolicyLinks_read

omit [External] in
theorem map_eq_of_forall₂ {β γ : Type} {R : α → β → Prop} {f : α → γ} {g : β → γ} {l : List α}
    {l' : List β} (h : List.Forall₂ R l l') (hR : ∀ a b, R a b → g b = f a) :
    l'.map g = l.map f := by
  have hmaps : List.Forall₂ (· = ·) (l.map f) (l'.map g) := by
    rw [forall₂_map_left_iff, forall₂_map_right_iff]
    exact h.imp fun a b hab => (hR a b hab).symm
  rw [forall₂_eq_eq_eq] at hmaps
  exact hmaps.symm

/-- No two roles have one name, but for upper and lower case. -/
def RoleNamesUnique (s : State) : Prop :=
  ∀ p ∈ s.aclRoles.values, ∀ q ∈ s.aclRoles.values, toLower p.name = toLower q.name → p = q

def RolesAgree (s primary : State) (last : Nat) : Prop :=
  ∀ y ∈ s.aclRoles.values, ∀ x ∈ primary.aclRoles.values, y.id = x.id →
    x.modifyIndex ≤ last → y.hash = x.hash

def RolesFit (s primary : State) : Prop :=
  ∀ x ∈ primary.aclRoles.values,
    (∀ y ∈ s.aclRoles.values, y.id = x.id → y.hash ≠ x.hash) →
    ∀ y ∈ s.aclRoles.values, toLower y.name = toLower x.name → y.id = x.id ∨
      ∀ z ∈ primary.aclRoles.values, z.id = y.id → z.id < x.id ∧ z.hash ≠ y.hash

theorem roles_ids (h : r ∈ s.aclRoles.values) : r.id ≠ "" ∧ ∃ k, uuidKey r.id = .ok k := by
  obtain ⟨k, hk⟩ := key_of_mem h
  obtain ⟨hne, hu⟩ := primaryUUID_eq_ok (aclRoleKey_eq_ok hk).1
  exact ⟨hne, k, hu⟩

theorem fetchPending_roles {remotes updated : List ACLRole} {ids : List String}
    (h : (fetchPending aclRoleReplicator remotes ids s).1 = .ok updated) :
    updated = remotes.filter fun r => ids.contains r.id := by
  unfold fetchPending at h
  by_cases hids : ids.isEmpty
  · obtain rfl := isEmpty_iff.mp hids
    simpa using (Except.ok.inj h).symm
  · rw [if_neg hids] at h
    have hrun := wrap_eq_ok.mp (Prod.ext h rfl)
    unfold aclRoleReplicator at hrun
    dsimp only at hrun
    split at hrun
    · cases congrArg Prod.fst hrun
    · exact (Except.ok.inj (Prod.ext_iff.mp hrun).1).symm

omit [External] in
theorem filter_contains_ids {remotes : List ACLRole} {p : ACLRole → Bool}
    (hsorted : remotes.Pairwise fun x y => x.id < y.id) :
    (remotes.filter fun r => ((remotes.filter p).map (·.id)).contains r.id) = remotes.filter p := by
  refine filter_congr fun r hr => ?_
  have hiff : r.id ∈ (remotes.filter p).map (·.id) ↔ p r = true := by
    constructor
    · intro h
      obtain ⟨q, hq, hid⟩ := mem_map.mp h
      obtain ⟨hq, hp⟩ := mem_filter.mp hq
      obtain rfl : q = r := by
        by_contra hne
        have : Std.Symm fun x y : ACLRole => x.id ≠ y.id := ⟨fun _ _ h => h.symm⟩
        exact (hsorted.imp fun h => ne_of_lt h).forall hq hr hne hid
      exact hp
    · exact fun hp => mem_map_of_mem (mem_filter.mpr ⟨hr, hp⟩)
  by_cases hp : p r = true <;> simp [hiff, hp]

theorem roles_named : NamedKind aclRoleReplicator roleItem id anyRole
    (fun r => (∃ k, aclRoleKey r = .ok k) ∧ r.Formed) (fun s => s.aclRoles.values)
    State.roleItems where
  id_eq _ := rfl
  hash_eq _ := rfl
  named r := by simp [roleItem]
  new _ := trivial
  items_iff _ _ := exists_itemsOf
  keyed _ _ _ := keyed_itemsOf idKey_roleItem
  keys s := values_keys_pairwise idKey_roleItem s.aclRoles
  ids _ _ := roles_ids
  listed s l h := by
    have hread : List.Forall₂ RoleRead s.aclRoles.values l := by
      rcases h with h | h <;> exact aclRoleList_read h
    exact ⟨map_eq_of_forall₂ hread fun _ _ hr => hr.item,
      map_eq_of_forall₂ hread fun _ _ hr => hr.info⟩
  good s l h hgood r hr := by
    obtain ⟨row, hrow, hread⟩ := exists_of_forall₂_right (aclRoleList_read h) hr
    obtain ⟨hkey, hformed⟩ := hgood row hrow
    exact ⟨hread.key ▸ hkey, hread.formed hformed⟩
  fetched s l remotes p updated _ _ hsorted h :=
    (fetchPending_roles h).trans (filter_contains_ids hsorted)
  deleted batches rs s s1 hrun hids hs _ := by
    obtain ⟨hiff, happly⟩ := hrun.makesChanges (fun idx => (forEach_makesChanges
      aclRoleDeleteTxn_makesChange).withIndex (fun _ _ => rfl) idx _ _) hids hs
    have hacc := hiff.mpr (admits_removes _ _)
    exact ⟨hacc, happly hacc⟩
  written idx :=
    (forEach_makesChanges (aclRoleSetTxn_makesChange idx)).withIndex (fun _ _ => rfl) idx _ _

end Laws

end OpenGyoza
