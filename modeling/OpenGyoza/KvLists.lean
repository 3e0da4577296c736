-- The laws of lists of keys. Whoever waits on a list waits for its index to
-- grow. It never slides back, and it grows with every change of the list, as
-- long as no tree delete leaves an older tombstone behind.
import OpenGyoza.Soundness

namespace OpenGyoza

open Memdb Table List Operation

section Laws

variable [External] {s : State} {idx : Nat}

/-! ## Indexes are bounded -/

/-- Nothing in the key/value store is newer than an index. -/
structure KvBound (idx : Nat) (s : State) : Prop where
  kvs : ∀ e ∈ s.kvs.values, e.modifyIndex ≤ idx
  tombstones : ∀ t ∈ s.tombstones.values, t.index ≤ idx
  table : maxIndexTxn ["kvs", "tombstones"] s ≤ idx

theorem KvBound.mono {i j : Nat} (hij : i ≤ j) (h : KvBound i s) : KvBound j s :=
  ⟨fun e he => (h.kvs e he).trans hij, fun t ht => (h.tombstones t ht).trans hij,
    h.table.trans hij⟩

theorem maxIndexTxn_kv (s : State) :
    maxIndexTxn ["kvs", "tombstones"] s =
      max ((s.indexOf (.table "kvs")).getD 0) ((s.indexOf (.table "tombstones")).getD 0) := by
  simp [maxIndexTxn, maxOf]

theorem maxIndexTxn_of_same {s' : State} (h : SameKeys s s') :
    maxIndexTxn ["kvs", "tombstones"] s' = maxIndexTxn ["kvs", "tombstones"] s := by
  rw [maxIndexTxn_kv, maxIndexTxn_kv, h.kvsIndex, h.tombstonesIndex]

theorem maxIndexTxn_of_kvs_row (hk : s.indexOf (.table "kvs") = some idx)
    (ht : (s.indexOf (.table "tombstones")).getD 0 ≤ idx) :
    maxIndexTxn ["kvs", "tombstones"] s = idx := by
  rw [maxIndexTxn_kv, hk]
  simpa using ht

theorem KvBound.tombstones_row (h : KvBound idx s) :
    (s.indexOf (.table "tombstones")).getD 0 ≤ idx := by
  have := h.table
  rw [maxIndexTxn_kv] at this
  omega

theorem maxIndexTxn_putKey (h : KvBound idx s) (e : DirEntry) :
    maxIndexTxn ["kvs", "tombstones"] (s.putKey idx e) = idx := by
  apply maxIndexTxn_of_kvs_row
  · simp [State.putKey, indexOf_withIndex]
  · have ht : (s.putKey idx e).indexOf (.table "tombstones") = s.indexOf (.table "tombstones") := by
      simp [State.putKey, indexOf_withIndex]
      rfl
    rw [ht]
    exact h.tombstones_row

theorem maxIndexTxn_removeKey (idx : Nat) (s : State) (k : Key) :
    maxIndexTxn ["kvs", "tombstones"] (s.removeKey idx k) = idx := by
  apply maxIndexTxn_of_kvs_row
  · simp [State.removeKey, indexOf_withIndex]
  · have ht : (s.removeKey idx k).indexOf (.table "tombstones") = some idx := by
      rw [State.removeKey, indexOf_withIndex, if_neg (by simp)]
      exact (indexOf_withIndex _ _ _ _).trans (if_pos rfl)
    simp [ht]

theorem KeyWrite.bound {s' : State} (hw : KeyWrite idx s s') (h : KvBound idx s) :
    KvBound idx s' := by
  cases hw with
  | other hs =>
    exact ⟨by rw [hs.kvs]; exact h.kvs, by rw [hs.tombstones]; exact h.tombstones,
      by rw [maxIndexTxn_of_same hs]; exact h.table⟩
  | @put e hm hk =>
    refine ⟨fun w hwm => ?_, h.tombstones, (maxIndexTxn_putKey h e).le⟩
    rcases (mem_values_upsert hk).mp hwm with rfl | ⟨hw, -⟩
    · exact hm.le
    · exact h.kvs w hw
  | @remove k hk =>
    refine ⟨fun w hwm => ?_, fun t ht => ?_, (maxIndexTxn_removeKey idx s k).le⟩
    · exact h.kvs w (mem_values_erase.mp hwm).1
    · rcases (mem_values_upsert (tombstoneKey_eq_ok idx hk)).mp ht with rfl | ⟨ht, -⟩
      · exact le_rfl
      · exact h.tombstones t ht

/-! ## The index of a list -/

variable {p : Key} {idx : Nat} {s s' : State}

/-- The highest index of the entries and the tombstones under a prefix. -/
def subIndex (p : Key) (s : State) : Nat :=
  max (maxOf (·.modifyIndex) (kvsListTxn p s).2) (graveyardGetMaxIndexTxn p s)

theorem listIndex_of_root (s : State) :
    (kvsListTxn [] s).1 = maxIndexTxn ["kvs", "tombstones"] s := by
  simp [kvsListTxn, listIndex]

theorem listIndex_of_ne_root (hp : p ≠ []) (s : State) :
    (kvsListTxn p s).1 =
      if subIndex p s ≠ 0 then subIndex p s else maxIndexTxn ["kvs", "tombstones"] s := by
  simp [kvsListTxn, listIndex, subIndex, hp]

theorem KvBound.subIndex_le (h : KvBound idx s) (p : Key) : subIndex p s ≤ idx := by
  refine Nat.max_le.mpr ⟨maxOf_le_iff.mpr fun e he => ?_, maxOf_le_iff.mpr fun t ht => ?_⟩
  · exact h.kvs e (mem_get.mp he).1
  · exact h.tombstones t (mem_get.mp ht).1

theorem KvBound.listIndex_le (h : KvBound idx s) (p : Key) : (kvsListTxn p s).1 ≤ idx := by
  by_cases hp : p = []
  · subst hp
    rw [listIndex_of_root]
    exact h.table
  · rw [listIndex_of_ne_root hp]
    split
    · exact h.subIndex_le p
    · exact h.table

theorem listIndex_of_subIndex (hpos : 0 < idx) (htable : maxIndexTxn ["kvs", "tombstones"] s = idx)
    (hsub : subIndex p s = idx) : (kvsListTxn p s).1 = idx := by
  by_cases hp : p = []
  · subst hp
    rw [listIndex_of_root, htable]
  · rw [listIndex_of_ne_root hp, if_pos (by omega), hsub]

variable {e : DirEntry} {q : Key}

theorem subIndex_of_entry (h : KvBound idx s) (he : e ∈ s.kvs.values)
    (hp : underPrefix p e.key = true) (hm : e.modifyIndex = idx) : subIndex p s = idx := by
  have hmem : e ∈ (kvsListTxn p s).2 := mem_get.mpr ⟨he, hp⟩
  have hle : e.modifyIndex ≤ maxOf (·.modifyIndex) (kvsListTxn p s).2 := le_maxOf hmem
  have := h.subIndex_le p
  unfold subIndex at *
  omega

theorem subIndex_of_tombstone (h : KvBound idx s) {t : Tombstone} (ht : t ∈ s.tombstones.values)
    (hp : underPrefix p t.key = true) (hm : t.index = idx) : subIndex p s = idx := by
  have hmem : t ∈ s.tombstones.get fun t => underPrefix p t.key := mem_get.mpr ⟨ht, hp⟩
  have hle : t.index ≤ graveyardGetMaxIndexTxn p s := le_maxOf hmem
  have := h.subIndex_le p
  unfold subIndex at *
  omega

/-! ## A list follows a step -/

/-- After a step at an index a list either has this index, or it is the same list as before
and its index did not slide back. -/
def ListFollows (p : Key) (idx : Nat) (s s' : State) : Prop :=
  (kvsListTxn p s').1 = idx ∨
    ((kvsListTxn p s').2 = (kvsListTxn p s).2 ∧ (kvsListTxn p s).1 ≤ (kvsListTxn p s').1)

theorem ListFollows.refl (s : State) : ListFollows p idx s s := Or.inr ⟨rfl, le_rfl⟩

theorem ListFollows.trans {s'' : State} (hb : KvBound idx s'') (h1 : ListFollows p idx s s')
    (h2 : ListFollows p idx s' s'') : ListFollows p idx s s'' := by
  rcases h2 with h2 | ⟨hl2, hi2⟩
  · exact Or.inl h2
  · rcases h1 with h1 | ⟨hl1, hi1⟩
    · have := hb.listIndex_le p
      exact Or.inl (by omega)
    · exact Or.inr ⟨hl2.trans hl1, hi1.trans hi2⟩

theorem listFollows_of_same (hl : (kvsListTxn p s').2 = (kvsListTxn p s).2)
    (hg : graveyardGetMaxIndexTxn p s' = graveyardGetMaxIndexTxn p s)
    (ht : maxIndexTxn ["kvs", "tombstones"] s ≤ maxIndexTxn ["kvs", "tombstones"] s') :
    ListFollows p idx s s' := by
  refine Or.inr ⟨hl, ?_⟩
  by_cases hp : p = []
  · subst hp
    rw [listIndex_of_root, listIndex_of_root]
    exact ht
  · have hsub : subIndex p s' = subIndex p s := by
      unfold subIndex
      rw [hl, hg]
    rw [listIndex_of_ne_root hp, listIndex_of_ne_root hp, hsub]
    split
    · exact le_rfl
    · exact ht

theorem SameKeys.listFollows (h : SameKeys s s') : ListFollows p idx s s' := by
  refine listFollows_of_same ?_ ?_ (maxIndexTxn_of_same h).ge
  · simp [kvsListTxn, h.kvs]
  · simp [graveyardGetMaxIndexTxn, h.tombstones]

theorem putKey_listFollows (hpos : 0 < idx) (hb : KvBound idx s) (hm : e.modifyIndex = idx)
    (hk : kvKey e = .ok e.key) : ListFollows p idx s (s.putKey idx e) := by
  have htable := maxIndexTxn_putKey hb e
  cases hu : underPrefix p e.key with
  | true =>
    have hb' : KvBound idx (s.putKey idx e) := (KeyWrite.put hm hk).bound hb
    have he : e ∈ (s.putKey idx e).kvs.values := (mem_values_upsert hk).mpr (Or.inl rfl)
    exact Or.inl (listIndex_of_subIndex hpos htable (subIndex_of_entry hb' he hu hm))
  | false =>
    refine listFollows_of_same ?_ rfl (by rw [htable]; exact hb.table)
    refine get_upsert_of_not hk hu fun w hw => ?_
    rw [(key_of_kvs_first hw).1]
    exact hu

theorem removeKey_listFollows (hpos : 0 < idx) (hb : KvBound idx s) {k : Key} (hk : k ≠ []) :
    ListFollows p idx s (s.removeKey idx k) := by
  have htable := maxIndexTxn_removeKey idx s k
  have hstone := tombstoneKey_eq_ok idx hk
  cases hu : underPrefix p k with
  | true =>
    have hb' : KvBound idx (s.removeKey idx k) := (KeyWrite.remove hk).bound hb
    have ht : { key := k, index := idx } ∈ (s.removeKey idx k).tombstones.values :=
      (mem_values_upsert hstone).mpr (Or.inl rfl)
    exact Or.inl (listIndex_of_subIndex hpos htable (subIndex_of_tombstone hb' ht hu rfl))
  | false =>
    refine listFollows_of_same ?_ ?_ (by rw [htable]; exact hb.table)
    · refine get_erase_of_not fun w hw => ?_
      rw [(key_of_kvs_first hw).1]
      exact hu
    · refine congrArg (maxOf _) (get_upsert_of_not hstone hu fun w hw => ?_)
      rw [key_of_tombstones_first hw]
      exact hu

theorem KeyWrite.listFollows (hpos : 0 < idx) (hb : KvBound idx s) (hw : KeyWrite idx s s') :
    ListFollows p idx s s' := by
  cases hw with
  | other hs => exact hs.listFollows
  | put hm hk => exact putKey_listFollows hpos hb hm hk
  | remove hk => exact removeKey_listFollows hpos hb hk

theorem keyWrites_listFollows (hpos : 0 < idx) (hb : KvBound idx s)
    (h : Relation.ReflTransGen (KeyWrite idx) s s') : KvBound idx s' ∧ ListFollows p idx s s' := by
  induction h with
  | refl => exact ⟨hb, .refl s⟩
  | tail _ hw ih =>
    obtain ⟨hb1, hf1⟩ := ih
    have hb2 := hw.bound hb1
    exact ⟨hb2, hf1.trans hb2 (hw.listFollows hpos hb1)⟩

/-! ## Tree deletes -/

/-- Whether a tree delete of `q` leaves its tombstone under `p`. The delete of all keys leaves
none. -/
def leavesTombstone (p q : Key) : Bool := !q.isEmpty && underPrefix p q

def TreeDeleteSeen (idx : Nat) (q : Key) (s : State) : Prop :=
  ∀ p, p ≠ [] → leavesTombstone p q = false →
    (∃ e ∈ s.kvs.values, underPrefix p e.key = true ∧ underPrefix q e.key = true) →
    (∀ t ∈ s.tombstones.values, underPrefix p t.key = false) ∨
      ∃ t ∈ s.tombstones.values, underPrefix p t.key = true ∧ t.index = idx

omit [External] in
theorem underPrefix_of_overlap {p k : Key} (hp : underPrefix p k = true)
    (hq : underPrefix q k = true) (hpq : leavesTombstone p q = false) {k' : Key}
    (hk' : underPrefix p k' = true) : underPrefix q k' = true := by
  cases q with
  | nil => simp [underPrefix]
  | cons b q =>
    simp only [underPrefix, leavesTombstone, isPrefixOf_iff_prefix] at *
    rcases prefix_or_prefix_of_prefix hp hq with h | h
    · have hpre : p.isPrefixOf (b :: q ++ [0]) = true :=
        isPrefixOf_iff_prefix.mpr (h.trans (prefix_append _ _))
      rw [hpre] at hpq
      cases hpq
    · exact h.trans hk'

theorem removeTree_of_empty (h : (kvsListTxn q s).2 = []) : s.removeTree idx q = s := by
  have hkeep : (s.kvs.keep fun e => !underPrefix q e.key) = s.kvs := by
    apply ext_first
    intro k
    rw [first_keep]
    cases hk : s.kvs.first k with
    | none => rfl
    | some e =>
      have : e ∉ (kvsListTxn q s).2 := by simp [h]
      have hu : ¬underPrefix q e.key = true := fun hu =>
        this (mem_get.mpr ⟨mem_values_of_first hk, hu⟩)
      simp [hu]
  unfold State.removeTree
  rw [if_pos h, State.withoutTree, hkeep]

theorem removeTree_table (hb : KvBound idx s) (h : (kvsListTxn q s).2 ≠ []) :
    maxIndexTxn ["kvs", "tombstones"] (s.removeTree idx q) = idx := by
  unfold State.removeTree
  rw [if_neg h]
  split
  · apply maxIndexTxn_of_kvs_row
    · simp [indexOf_withIndex]
    · rw [indexOf_withIndex, if_neg (by simp)]
      exact hb.tombstones_row
  · apply maxIndexTxn_of_kvs_row
    · simp [indexOf_withIndex]
    · simp [indexOf_withIndex]

theorem removeTree_tombstones (h : (kvsListTxn q s).2 ≠ []) :
    (s.removeTree idx q).tombstones =
      if q = [] then s.tombstones else s.tombstones.upsert { key := q, index := idx } := by
  unfold State.removeTree
  rw [if_neg h]
  split <;> rfl

theorem removeTree_bound (hb : KvBound idx s) : KvBound idx (s.removeTree idx q) := by
  by_cases h : (kvsListTxn q s).2 = []
  · rw [removeTree_of_empty h]
    exact hb
  · refine ⟨fun e he => ?_, fun t ht => ?_, (removeTree_table hb h).le⟩
    · rw [removeTree_kvs, mem_values_keep] at he
      exact hb.kvs e he.1
    · rw [removeTree_tombstones h] at ht
      split at ht
      · exact hb.tombstones t ht
      · rename_i hq
        rcases (mem_values_upsert (tombstoneKey_eq_ok idx hq)).mp ht with rfl | ⟨ht, -⟩
        · exact le_rfl
        · exact hb.tombstones t ht

theorem kvsListTxn_removeTree (q : Key) :
    (kvsListTxn p (s.removeTree idx q)).2 =
      (kvsListTxn p s).2.filter fun e => !underPrefix q e.key := by
  simp [kvsListTxn, removeTree_kvs, Table.get, values_keep, Bool.and_comm]

theorem graveyard_removeTree (h : (kvsListTxn q s).2 ≠ []) (hpq : leavesTombstone p q = false) :
    graveyardGetMaxIndexTxn p (s.removeTree idx q) = graveyardGetMaxIndexTxn p s := by
  unfold graveyardGetMaxIndexTxn
  rw [removeTree_tombstones h]
  split
  · rfl
  · rename_i hq
    have hu : underPrefix p q = false := by simpa [leavesTombstone, hq] using hpq
    refine congrArg (maxOf _) (get_upsert_of_not (tombstoneKey_eq_ok idx hq) hu fun w hw => ?_)
    rw [key_of_tombstones_first hw]
    exact hu

theorem removeTree_of_lost (hpos : 0 < idx) (hb : KvBound idx s) (hseen : TreeDeleteSeen idx q s)
    (hp : p ≠ []) (hpq : leavesTombstone p q = false) (he : e ∈ s.kvs.values)
    (hpe : underPrefix p e.key = true) (hqe : underPrefix q e.key = true) :
    (kvsListTxn p (s.removeTree idx q)).1 = idx := by
  have hne : (kvsListTxn q s).2 ≠ [] := ne_nil_of_mem (mem_get.mpr ⟨he, hqe⟩)
  have htable := removeTree_table hb hne
  rcases hseen p hp hpq ⟨e, he, hpe, hqe⟩ with hnone | ⟨t, ht, htp, hti⟩
  · -- Neither entries nor tombstones are left, so the tables decide.
    have hents : (kvsListTxn p (s.removeTree idx q)).2 = [] := by
      rw [kvsListTxn_removeTree, filter_eq_nil_iff]
      intro w hw
      rw [underPrefix_of_overlap hpe hqe hpq (mem_get.mp hw).2]
      simp
    have hgrave : graveyardGetMaxIndexTxn p (s.removeTree idx q) = 0 := by
      rw [graveyard_removeTree hne hpq]
      have hnil : (s.tombstones.get fun t => underPrefix p t.key) = [] :=
        filter_eq_nil_iff.mpr fun t ht => by simp [hnone t ht]
      simp [graveyardGetMaxIndexTxn, hnil, maxOf]
    have hsub : subIndex p (s.removeTree idx q) = 0 := by
      simp [subIndex, hents, hgrave, maxOf]
    rw [listIndex_of_ne_root hp, hsub, if_neg (by simp), htable]
  · refine listIndex_of_subIndex hpos htable ?_
    refine subIndex_of_tombstone (removeTree_bound hb) ?_ htp hti
    rw [removeTree_tombstones hne]
    split
    · exact ht
    · rename_i hq
      refine (mem_values_upsert (tombstoneKey_eq_ok idx hq)).mpr (Or.inr ⟨ht, ?_⟩)
      intro hkey
      have : t.key = q := by
        unfold tombstoneKey at hkey
        split at hkey <;> cases hkey
        rfl
      rw [this] at htp
      simp [leavesTombstone, hq, htp] at hpq

theorem removeTree_listFollows (hpos : 0 < idx) (hb : KvBound idx s)
    (hseen : TreeDeleteSeen idx q s) : ListFollows p idx s (s.removeTree idx q) := by
  by_cases hne : (kvsListTxn q s).2 = []
  · rw [removeTree_of_empty hne]
    exact .refl s
  have htable := removeTree_table hb hne
  by_cases hp : p = []
  · subst hp
    exact Or.inl (by rw [listIndex_of_root, htable])
  cases hpq : leavesTombstone p q with
  | true =>
    obtain ⟨hq, hu⟩ : q ≠ [] ∧ underPrefix p q = true := by simpa [leavesTombstone] using hpq
    refine Or.inl (listIndex_of_subIndex hpos htable ?_)
    refine subIndex_of_tombstone (removeTree_bound hb) (t := { key := q, index := idx }) ?_ hu rfl
    rw [removeTree_tombstones hne, if_neg hq]
    exact (mem_values_upsert (tombstoneKey_eq_ok idx hq)).mpr (Or.inl rfl)
  | false =>
    by_cases hlost : ∃ e ∈ s.kvs.values, underPrefix p e.key = true ∧ underPrefix q e.key = true
    · obtain ⟨e, he, hpe, hqe⟩ := hlost
      exact Or.inl (removeTree_of_lost hpos hb hseen hp hpq he hpe hqe)
    · refine listFollows_of_same ?_ (graveyard_removeTree hne hpq) (by rw [htable]; exact hb.table)
      rw [kvsListTxn_removeTree, filter_eq_self]
      intro e he
      obtain ⟨hmem, hpe⟩ := mem_get.mp he
      simp only [not_exists, not_and] at hlost
      simpa using hlost e hmem hpe

/-! ## Every operation and every run -/

/-- The operations that keep lists in sight: no tombstone is reaped, and tree deletes are
seen. -/
def KeepsLists (idx : Nat) (op : Operation) (s : State) : Prop :=
  match op.keyOp with
  | some (.deleteTree q) => TreeDeleteSeen idx q s
  | some (.reap _) => False
  | _ => True

theorem KeyChange.keyWrite {ko : KeyOp} (hc : KeyChange idx s ko s')
    (htree : ∀ q, ko ≠ .deleteTree q) (hreap : ∀ n, ko ≠ .reap n) : KeyWrite idx s s' := by
  cases hc with
  | none => exact .other ⟨rfl, rfl, rfl, rfl⟩
  | put hw hk =>
    refine .put ?_ hk
    cases hw <;> rfl
  | delete hk => exact .remove hk
  | deleteCAS hk => exact .remove hk
  | deleteTree q => exact absurd rfl (htree q)
  | reap n => exact absurd rfl (hreap n)

theorem SessionsEnd.keyWrites {E : List Byte → Prop} (h : SessionsEnd idx E s s') :
    Relation.ReflTransGen (KeyWrite idx) s s' := by
  induction h with
  | refl => exact .refl
  | tail _ hend ih =>
    obtain ⟨u, -, hend⟩ := hend
    exact ih.trans hend.writes

theorem CatalogSteps.keyWrites {p : Scope} (h : CatalogSteps idx p s s') :
    Relation.ReflTransGen (KeyWrite idx) s s' := by
  induction h with
  | refl => exact .refl
  | tail _ hstep ih =>
    obtain ⟨s1, hsame, hend⟩ := hstep.ends
    exact (ih.tail (.other hsame.toSameKeys)).trans hend.keyWrites

theorem Operation.keyWrites {op : Operation} (hs : Sound s) (hk : op.keyOp = none)
    (h : op.Succeeds idx s s') : Relation.ReflTransGen (KeyWrite idx) s s' := by
  cases hn : op.newSession with
  | none => exact CatalogSteps.keyWrites (steps hs hk hn .any h)
  | some sess =>
    obtain ⟨b, u, -, -, -, -, rfl⟩ := created hn h
    have hrow (t : State) : SameKeys t (t.withIndex (.table "sessions") idx) :=
      sameKeys_withIndex (by decide) (by decide)
    exact .single (.other ⟨rfl, rfl, (hrow _).kvsIndex, (hrow _).tombstonesIndex⟩)

theorem Operation.listFollows {op : Operation} (hpos : 0 < idx) (hs : Sound s) (hb : KvBound idx s)
    (hkeep : KeepsLists idx op s) (h : op.Succeeds idx s s') :
    KvBound idx s' ∧ ∀ p, ListFollows p idx s s' := by
  have chain (hc : Relation.ReflTransGen (KeyWrite idx) s s') :
      KvBound idx s' ∧ ∀ p, ListFollows p idx s s' :=
    ⟨(keyWrites_listFollows (p := []) hpos hb hc).1, fun _ => (keyWrites_listFollows hpos hb hc).2⟩
  unfold KeepsLists at hkeep
  cases hk : op.keyOp with
  | none => exact chain (keyWrites hs hk h)
  | some ko =>
    have hchange := KeyOp.change (run_of_keyOp hk h)
    rw [hk] at hkeep
    by_cases htree : ∃ q, ko = .deleteTree q
    · obtain ⟨q, rfl⟩ := htree
      cases hchange with
      | none => exact chain .refl
      | put hw => cases hw
      | deleteTree => exact ⟨removeTree_bound hb, fun _ => removeTree_listFollows hpos hb hkeep⟩
    · simp only [not_exists] at htree
      have hreap : ∀ n, ko ≠ .reap n := by
        rintro n rfl
        exact hkeep
      exact chain (.single (hchange.keyWrite htree hreap))

theorem kvBound_empty : KvBound 0 State.empty :=
  ⟨by simp [State.empty], by simp [State.empty], by
    simp [maxIndexTxn_kv, State.indexOf, State.empty]⟩

/-- The index of a list never slides back and grows with every change of the list, in every
run that reaps no tombstone and whose tree deletes are all seen. -/
theorem a_list_index_follows_every_change {log₁ log₂ : List LogEntry} {e : LogEntry}
    (h : Lawful KeepsLists 0 (log₁ ++ e :: log₂) State.empty) (p : Key) :
    let s := replay log₁ State.empty
    let s' := e.command.apply e.index s
    (kvsListTxn p s).1 ≤ (kvsListTxn p s').1 ∧
      ((kvsListTxn p s').2 ≠ (kvsListTxn p s).2 → (kvsListTxn p s).1 < (kvsListTxn p s').1) := by
  intro s s'
  obtain ⟨h1, h2⟩ := h.of_append
  obtain ⟨hs, hb⟩ : Sound s ∧ KvBound (lastIndex 0 log₁) s := by
    refine h1.keeps (I := fun i t => Sound t ∧ KvBound i t) (fun _ _ _ hij h => ⟨h.1, h.2.mono hij⟩)
      (fun i op t t' hpos ht hkeep hop => ?_) ⟨sound_empty, kvBound_empty⟩
    exact ⟨sound ht.1 hop, (listFollows hpos ht.1 ht.2 hkeep hop).1⟩
  have hlt : lastIndex 0 log₁ < e.index := h2.1
  obtain ⟨-, -, hfollows⟩ : Sound s' ∧ KvBound e.index s' ∧ ListFollows p e.index s s' := by
    refine h2.keeps_command (I := fun t => Sound t ∧ KvBound e.index t ∧ ListFollows p e.index s t)
      (fun op t t' ht hkeep hop => ?_) ⟨hs, hb.mono hlt.le, .refl s⟩
    obtain ⟨hb', hf⟩ := listFollows (by omega) ht.1 ht.2.1 hkeep hop
    exact ⟨sound ht.1 hop, hb', ht.2.2.trans hb' (hf p)⟩
  have hold := hb.listIndex_le p
  rcases hfollows with hnew | ⟨hsame, hle⟩
  · omega
  · exact ⟨hle, fun hne => absurd hsame hne⟩

/-! ## Versions of a key -/

theorem KeyWrite.dates (hw : KeyWrite idx s s') (he : e ∈ s'.kvs.values) :
    e ∈ s.kvs.values ∨ e.modifyIndex = idx := by
  cases hw with
  | other hs => exact .inl (hs.kvs ▸ he)
  | put hm hk =>
    rcases (mem_values_upsert hk).mp he with rfl | ⟨hold, -⟩
    · exact .inr hm
    · exact .inl hold
  | remove => exact .inl (mem_values_erase.mp he).1

theorem Operation.dates {op : Operation} (hs : Sound s) (h : op.Succeeds idx s s')
    (he : e ∈ s'.kvs.values) : e ∈ s.kvs.values ∨ e.modifyIndex = idx := by
  cases hop : op.keyOp with
  | none =>
    have hwrites := keyWrites hs hop h
    clear h
    induction hwrites with
    | refl => exact .inl he
    | tail _ hw ih => exact (hw.dates he).elim ih .inr
  | some ko =>
    cases KeyOp.change (run_of_keyOp hop h) with
    | none | reap => exact .inl he
    | put hw hk => exact KeyWrite.dates (.put (by cases hw <;> rfl) hk) he
    | delete | deleteCAS => exact KeyWrite.dates (.remove (by assumption)) he
    | deleteTree =>
      rw [removeTree_kvs] at he
      exact .inl (mem_values_keep.mp he).1

/-- What is in `t` is in `s` already, or its index is after `last` and up to `i`. -/
def Dated (s : State) (last i : Nat) (t : State) : Prop :=
  Sound t ∧ ∀ e ∈ t.kvs.values, e ∈ s.kvs.values ∨ last < e.modifyIndex ∧ e.modifyIndex ≤ i

theorem Lawful.dated {P : Nat → Operation → State → Prop} {last : Nat} {log : List LogEntry}
    (h : Lawful P last log s) (hs : Sound s) :
    Dated s last (lastIndex last log) (replay log s) := by
  refine h.keeps (I := Dated s last) (fun i j t hij ht => ⟨ht.1, fun e he => ?_⟩)
    (fun i op t t' hi ht _ hop => ⟨sound ht.1 hop, fun e he => ?_⟩) ⟨hs, fun _ => .inl⟩
  · exact (ht.2 e he).imp_right fun hb => ⟨hb.1, hb.2.trans hij⟩
  · exact (dates ht.1 hop he).elim (ht.2 e) fun heq => .inr (by omega)

/-- A modify index tells a version of a key: what has it later is the same entry. -/
theorem modify_indexes_tell_versions (log log' : List LogEntry)
    (h : Lawful (fun _ _ _ => True) 0 (log ++ log') .empty) {k : Key} {e e' : DirEntry}
    (he : (replay log .empty).kvs.first k = some e)
    (he' : (replay (log ++ log') .empty).kvs.first k = some e')
    (hindex : e'.modifyIndex = e.modifyIndex) : e' = e := by
  obtain ⟨h1, h2⟩ := h.of_append
  obtain ⟨hs, hold⟩ := h1.dated sound_empty
  rw [replay, foldl_append] at he'
  rcases (h2.dated hs).2 e' (mem_values_of_first he') with hsame | ⟨hnew, -⟩
  · exact Option.some.inj ((first_of_mem hsame (key_of_first he')).symm.trans he)
  · rcases hold e (mem_values_of_first he) with hnone | ⟨-, hle⟩
    · cases hnone
    · omega

end Laws

/-! ## A tree delete that slides back -/

section Example

attribute [local instance] ascii

/-- The keys `a/x` and `a/y`, of which the first is deleted before the second is set. -/
def oldTombstoneLog : List LogEntry :=
  [⟨1, .call (.kvsSet { key := [97, 47, 120] })⟩, ⟨2, .call (.kvsDelete [97, 47, 120])⟩,
    ⟨3, .call (.kvsSet { key := [97, 47, 121] })⟩]

/-- A delete of the tree `a` takes the last key under `a/`, and the index of the list `a/`
slides back to the old tombstone. -/
theorem a_tree_delete_slides_back :
    let s := replay oldTombstoneLog State.empty
    let s' := Command.apply 4 (.call (.kvsDeleteTree [97])) s
    kvsListTxn [97, 47] s = (3, [{ key := [97, 47, 121], createIndex := 3, modifyIndex := 3 }]) ∧
      kvsListTxn [97, 47] s' = (2, []) := by
  decide

/-- The same tree delete is seen when there is no tombstone under `a/` yet. -/
theorem a_list_index_follows_a_tree_delete :
    let e₁ : LogEntry := ⟨1, .call (.kvsSet { key := [97, 47, 121] })⟩
    let e₂ : LogEntry := ⟨2, .call (.kvsDeleteTree [97])⟩
    let s := replay [e₁] State.empty
    let s' := e₂.command.apply e₂.index s
    Lawful KeepsLists 0 ([e₁] ++ e₂ :: []) State.empty ∧
      (kvsListTxn [97, 47] s').2 ≠ (kvsListTxn [97, 47] s).2 ∧
      (kvsListTxn [97, 47] s).1 < (kvsListTxn [97, 47] s').1 := by
  intro e₁ e₂ s s'
  have hlawful : Lawful KeepsLists 0 ([e₁] ++ e₂ :: []) State.empty := by
    refine ⟨by decide, fun _ => ⟨trivial, trivial⟩, by decide, fun _ => ⟨?_, trivial⟩, trivial⟩
    intro p _ _ _
    have hnone : (replay [e₁] State.empty).tombstones.values = [] := by decide
    refine Or.inl fun t ht => ?_
    rw [show (e₁.command.apply e₁.index State.empty).tombstones.values = [] from hnone] at ht
    cases ht
  have hchange : (kvsListTxn [97, 47] s').2 ≠ (kvsListTxn [97, 47] s).2 := by decide
  exact ⟨hlawful, hchange, (a_list_index_follows_every_change hlawful [97, 47]).2 hchange⟩

/-- The log entry that sets a key of one byte. -/
def setAt (i : Nat) (b : Byte) : LogEntry := ⟨i, .call (.kvsSet { key := [b] })⟩

/-- The key `a` keeps its version while `b` is set. -/
theorem a_version_is_kept :
    ∃ e e', (replay [setAt 1 97] .empty).kvs.first [97] = some e ∧
      (replay ([setAt 1 97] ++ [setAt 2 98]) .empty).kvs.first [97] = some e' ∧ e' = e :=
  ⟨_, _, rfl, rfl, modify_indexes_tell_versions [setAt 1 97] [setAt 2 98]
    ⟨Nat.one_pos, fun _ => ⟨trivial, trivial⟩, Nat.lt_add_one 1, fun _ => ⟨trivial, trivial⟩,
      trivial⟩ (k := [97]) rfl rfl rfl⟩

end Example

end OpenGyoza
