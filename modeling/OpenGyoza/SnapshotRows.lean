-- The rows of a snapshot that are loaded as they are. A table is loaded whole,
-- and only the index row of its table is written besides. The rows of access
-- control come back as they were when there is at most one auth method.
import OpenGyoza.Snapshot

namespace OpenGyoza

open Memdb Txn Table List

section Laws

variable [External]

/-! ## The index of a table -/

/-- The index table when the row of a table is raised to `idx`. -/
def raise (table : String) (idx : Nat) (t : Table indexKey) : Table indexKey :=
  if (t.first (.table table)).any (idx ≤ ·.value) then t
  else t.upsert { key := .table table, value := idx }

theorem indexUpdateMaxTxn_eq (idx : Nat) (table : String) (s : State) :
    indexUpdateMaxTxn idx table s = (.ok (), { s with index := raise table idx s.index }) := by
  apply eq_of_wp
  unfold indexUpdateMaxTxn raise
  cases hrow : s.index.first (.table table) with
  | none => simp [hrow, wp_insert Tables.index rfl]
  | some cur =>
    by_cases hidx : idx ≤ cur.value
    · simp [hrow, hidx]
    · simp [hrow, hidx, wp_insert Tables.index rfl]

/-! ## Loading the rows of a table -/

variable {s : State} {Q : Except Fault Unit → State → Prop}

section LoadRows

variable {κ ν : Type} [LinearOrder κ] {key : ν → Except String κ} {record : ν → SnapshotRecord}

/-- The store after one row is loaded. -/
def loadRow (r : Txn.Ref State key) (table : String) (idx : ν → Nat) (s : State) (row : ν) :
    State :=
  let s := r.set ((r.get s).upsert row) s
  { s with index := raise table (idx row) s.index }

theorem restoreRow_eq (r : Txn.Ref State key) (context table : String) (idx : ν → Nat) {row : ν}
    {k : κ} (hk : key row = .ok k) (s : State) :
    restoreRow r context table row (idx row) s = (.ok (), loadRow r table idx s row) := by
  apply eq_of_wp
  simp only [restoreRow, wp_bind, wp_wrap, wp_insert r hk, annotate_ok,
    andThen_ok, wp_of_eq (indexUpdateMaxTxn_eq _ _ _)]
  exact ⟨trivial, rfl⟩

/-- A table that is not the index table. -/
structure Apart (r : Txn.Ref State key) : Prop where
  set_withTable : ∀ t u s, r.set t { s with index := u } = { r.set t s with index := u } := by
    intros; rfl
  get_withTable : ∀ u s, r.get { s with index := u } = r.get s := by intros; rfl
  index_set : ∀ t s, (r.set t s).index = s.index := by intros; rfl

/-- The store after all rows of a table are loaded. -/
def loadRows (r : Txn.Ref State key) (table : String) (idx : ν → Nat) (rows : List ν)
    (s : State) : State :=
  { r.set ((r.get s).putAll rows) s with
    index := rows.foldl (fun t row => raise table (idx row) t) s.index }

variable {r : Txn.Ref State key}

theorem foldl_loadRow (h : Apart r) (table : String) (idx : ν → Nat) (rows : List ν) (s : State) :
    rows.foldl (loadRow r table idx) s = loadRows r table idx rows s := by
  unfold loadRows
  induction rows generalizing s with
  | nil =>
    simp [Table.putAll, r.set_get]
  | cons row rows ih =>
    have hindex := h.index_set ((r.get s).upsert row) s
    rw [foldl_cons, ih, loadRow, h.get_withTable, h.set_withTable, r.get_set, r.set_set, hindex]
    rfl

theorem wp_restoreTable (h : Apart r) {context table : String} {idx : ν → Nat} {lastIndex : Nat}
    {t : Table key} {rows : List ν} (hrows : ∀ row ∈ rows, row ∈ t.values)
    (hrecord : ∀ row, restoreRecord lastIndex (record row) =
      restoreRow r context table row (idx row)) :
    wp (restoreRecords lastIndex (rows.map record)) Q s ↔
      Q (.ok ()) (loadRows r table idx rows s) := by
  have hload : ∀ row ∈ rows, ∀ s,
      restoreRecord lastIndex (record row) s = (.ok (), loadRow r table idx s row) := by
    intro row hrow s
    obtain ⟨k, hk⟩ := key_of_mem (hrows row hrow)
    rw [hrecord, restoreRow_eq r context table idx hk]
  unfold restoreRecords
  rw [wp_forEach_map, wp_forEach_fold hload, foldl_loadRow h]

end LoadRows

/-! ## Access control -/

theorem Snapshot.restore_eq_ok {snap : Snapshot} : snap.restore = .ok s ↔
    wp (restoreRecords snap.lastIndex snap.records) (fun r s' => r = .ok () ∧ s' = s)
      .empty := by
  unfold Snapshot.restore wp
  rcases restoreRecords snap.lastIndex snap.records .empty with ⟨_ | _, s'⟩
  · simp
  · simp

/-- The store after the records of access control are loaded into `t`. -/
def loadACLs (s t : State) : State :=
  let t := loadRows Tables.aclTokens "acl-tokens" (·.modifyIndex) s.aclTokens.values t
  let t := loadRows Tables.aclPolicies "acl-policies" (·.modifyIndex) s.aclPolicies.values t
  let t := loadRows Tables.aclRoles "acl-roles" (·.modifyIndex) s.aclRoles.values t
  let t := loadRows Tables.aclBindingRules "acl-binding-rules" (·.modifyIndex)
    s.aclBindingRules.values t
  loadRows Tables.aclAuthMethods "acl-auth-methods" (·.modifyIndex)
    s.aclAuthMethods.values.head?.toList t

theorem wp_restoreRecords_append (lastIndex : Nat) (l l' : List SnapshotRecord) :
    wp (restoreRecords lastIndex (l ++ l')) Q s ↔ wp (restoreRecords lastIndex l)
      (Txn.andThen (fun _ => wp (restoreRecords lastIndex l') Q) Q) s :=
  wp_forEach_append l l' _

omit [External] in
theorem persistLoop_own {α : Type} (rows : List α) :
    persistLoop rows.head? rows.tail = (rows, []) := by
  cases rows with
  | nil => rfl
  | cons row rows =>
    induction rows generalizing row with
    | nil => rfl
    | cons next rows ih =>
      simp only [head?_cons, tail_cons, persistLoop] at ih ⊢
      rw [ih]

theorem persistACLs_eq (s : State) : persistACLs s =
    s.aclTokens.values.map .token ++ s.aclPolicies.values.map .policy ++
      s.aclRoles.values.map .role ++ s.aclBindingRules.values.map .bindingRule ++
      s.aclAuthMethods.values.head?.toList.map .authMethod := by
  simp only [persistACLs, persistLoop_own]
  cases s.aclAuthMethods.values <;> rfl

theorem wp_restoreACLs (s : State) (lastIndex : Nat) {t : State} :
    wp (restoreRecords lastIndex (persistACLs s)) Q t ↔ Q (.ok ()) (loadACLs s t) := by
  have hhead : ∀ m ∈ s.aclAuthMethods.values.head?.toList, m ∈ s.aclAuthMethods.values := by
    intro m hm
    exact mem_of_mem_head? (Option.mem_toList.mp hm)
  rw [persistACLs_eq, wp_restoreRecords_append, wp_restoreRecords_append, wp_restoreRecords_append,
    wp_restoreRecords_append, wp_restoreTable {} (fun _ h => h) (fun _ => rfl),
    andThen_ok, wp_restoreTable {} (fun _ h => h) (fun _ => rfl),
    andThen_ok, wp_restoreTable {} (fun _ h => h) (fun _ => rfl),
    andThen_ok, wp_restoreTable {} (fun _ h => h) (fun _ => rfl),
    andThen_ok, wp_restoreTable {} hhead (fun _ => rfl)]
  rfl

omit [External] in
theorem putAll_head_eq_iff {κ ν : Type} [LinearOrder κ] {key : ν → Except String κ}
    (t : Table key) : Table.empty.putAll t.values.head?.toList = t ↔ t.values.length ≤ 1 := by
  match hvalues : t.values with
  | [] =>
    have hput := putAll_values t
    rw [hvalues] at hput
    simpa using hput
  | [v] =>
    have hput := putAll_values t
    rw [hvalues] at hput
    simpa using hput
  | v :: w :: rest =>
    have hpair := t.values_pairwise
    rw [hvalues] at hpair
    have hne : key v ≠ key w := rel_of_pairwise_cons hpair (by simp)
    constructor
    · intro heq
      have hw : w ∈ t.values := by simp [hvalues]
      rw [← heq] at hw
      rcases mem_values_of_putAll hw with hw | hw
      · rw [head?_cons, Option.toList_some, mem_singleton] at hw
        exact absurd (congrArg key hw.symm) hne
      · cases hw
    · intro hlen
      simp at hlen

/-- The tables of access control come back from a snapshot as they were. -/
def ACLsRestored (s : State) : Prop :=
  ∃ s', Snapshot.restore { lastIndex := s.lastIndex, records := persistACLs s } = .ok s' ∧
    s'.aclTokens = s.aclTokens ∧ s'.aclPolicies = s.aclPolicies ∧ s'.aclRoles = s.aclRoles ∧
    s'.aclBindingRules = s.aclBindingRules ∧ s'.aclAuthMethods = s.aclAuthMethods

/-- A snapshot keeps one auth method and drops all others. Everything else comes back. -/
theorem acls_are_restored_iff (s : State) :
    ACLsRestored s ↔ s.aclAuthMethods.values.length ≤ 1 := by
  have hrestore : ∀ s', Snapshot.restore { lastIndex := s.lastIndex, records := persistACLs s } =
      .ok s' ↔ s' = loadACLs s .empty := by
    intro s'
    rw [Snapshot.restore_eq_ok, wp_restoreACLs]
    simp [eq_comm]
  have hmethods : (loadACLs s .empty).aclAuthMethods =
      Table.empty.putAll s.aclAuthMethods.values.head?.toList := rfl
  unfold ACLsRestored
  simp only [hrestore, exists_eq_left]
  rw [hmethods, putAll_head_eq_iff]
  constructor
  · intro h
    exact h.2.2.2.2
  · intro h
    exact ⟨putAll_values _, putAll_values _, putAll_values _,
      putAll_values _, h⟩

/-- The keys and the intentions come back from a snapshot as they were. -/
theorem keys_and_intentions_are_restored (s : State) (lastIndex : Nat) :
    wp (restoreRecords lastIndex (persistKVs s ++ persistIntentions s)) (fun r s' =>
      r = .ok () ∧ s'.kvs = s.kvs ∧ s'.intentions = s.intentions) .empty := by
  rw [persistKVs, persistIntentions, wp_restoreRecords_append, wp_restoreTable {} (fun _ => id)
    fun _ => rfl, andThen_ok, wp_restoreTable {} (fun _ => id) fun _ => rfl]
  exact ⟨rfl, putAll_values _, putAll_values _⟩

end Laws

section Example

attribute [local instance] ascii

/-- A store with two auth methods. -/
def twoMethods : State :=
  { State.empty with
    aclAuthMethods := Table.empty.putAll
      [{ name := "github" }, { name := "kube" }] }

theorem the_second_auth_method_is_lost : ¬ ACLsRestored twoMethods := by
  rintro ⟨s', hs', -, -, -, -, hmethods⟩
  have hlen : (Snapshot.restore { lastIndex := twoMethods.lastIndex
                                  records := persistACLs twoMethods }).toOption.map
      (·.aclAuthMethods.values.length) = some 1 := by decide
  rw [hs', Except.toOption, Option.map_some, hmethods] at hlen
  exact absurd hlen (by decide)

end Example

end OpenGyoza
