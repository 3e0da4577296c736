-- What the steps on keys do to the store. A key is written or removed at the
-- index of the step, and nothing else of the key/value store changes.
import OpenGyoza.Keys
import OpenGyoza.Sessions

namespace OpenGyoza

open Memdb Txn Table

variable [External]

/-! ## One key -/

/-- The store after a write of a key. -/
def State.putKey (s : State) (idx : Nat) (e : DirEntry) : State :=
  State.withIndex { s with kvs := s.kvs.upsert e } (.table "kvs") idx

/-- The store after a delete of a key. -/
def State.removeKey (s : State) (idx : Nat) (key : Key) : State :=
  State.withIndex
    { State.withIndex { s with tombstones := s.tombstones.upsert { key := key, index := idx } }
        (.table "tombstones") idx with
      kvs := s.kvs.erase key }
    (.table "kvs") idx

omit [External] in
theorem underPrefix_iff {pfx k : Key} : underPrefix pfx k = true ↔ pfx <+: k ∨ pfx = k ++ [0] := by
  simp [underPrefix, List.prefix_concat_iff, or_comm]

theorem key_of_kvs_first {s : State} {k : Key} {e : DirEntry} (h : s.kvs.first k = some e) :
    e.key = k ∧ k ≠ [] := kvKey_eq_ok (key_of_first h)

theorem kvsSetTxn_cases (idx : Nat) (entry : DirEntry) (updateSession : Bool) (s : State) :
    let e := storedEntry idx entry updateSession (s.kvs.first entry.key)
    (kvsSetTxn idx entry updateSession s = (.ok e, s) ∧
        ∃ old, s.kvs.first entry.key = some old ∧ old.equal e = true) ∨
      (∃ text, kvKey e = .error text ∧ kvsSetTxn idx entry updateSession s =
        (.error (.error ("failed inserting kvs entry: " ++ text)), s)) ∨
      (kvKey e = .ok entry.key ∧
        kvsSetTxn idx entry updateSession s = (.ok e, s.putKey idx e)) := by
  intro e
  by_cases hsame : (s.kvs.first entry.key).any (·.equal e)
  · refine Or.inl ⟨eq_of_wp ?_, by simpa [Option.any_eq_true] using hsame⟩
    simp [kvsSetTxn, e, hsame]
  · cases hk : kvKey e with
    | error text =>
      refine Or.inr (Or.inl ⟨text, rfl, eq_of_wp ?_⟩)
      simp [kvsSetTxn, hsame, e, wp_insert_error _ hk]
    | ok k =>
      obtain ⟨rfl, -⟩ := kvKey_eq_ok hk
      refine Or.inr (Or.inr ⟨rfl, eq_of_wp ?_⟩)
      simp [kvsSetTxn, hsame, e, wp_insert _ hk, State.putKey]

theorem key_of_tombstones_first {s : State} {k : Key} {t : Tombstone}
    (h : s.tombstones.first k = some t) : t.key = k := by
  have hkey := key_of_first h
  unfold tombstoneKey at hkey
  split at hkey <;> cases hkey
  rfl

theorem kvsDeleteTxn_eq (idx : Nat) (k : Key) (s : State) :
    kvsDeleteTxn idx k s =
      (.ok (), if (s.kvs.first k).isSome then s.removeKey idx k else s) := by
  apply eq_of_wp
  cases hk : s.kvs.first k with
  | none => simp [kvsDeleteTxn, hk]
  | some e =>
    have hkey : kvKey e = .ok k := key_of_first hk
    have hstone := tombstoneKey_eq_ok idx (kvKey_eq_ok hkey).2
    simp [kvsDeleteTxn, hk, graveyardInsertTxn, wp_insert _ hstone, Txn.delete, hkey,
      State.removeKey, State.withIndex]

/-- The store without the keys under a prefix. -/
def State.withoutTree (s : State) (pfx : Key) : State :=
  { s with kvs := s.kvs.keep fun e => !underPrefix pfx e.key }

/-- The store after a delete of all keys under a prefix. -/
def State.removeTree (s : State) (idx : Nat) (pfx : Key) : State :=
  if (kvsListTxn pfx s).2 = [] then s.withoutTree pfx
  else if pfx = [] then (s.withoutTree pfx).withIndex (.table "kvs") idx
  else
    State.withIndex
      (State.withIndex
        { s.withoutTree pfx with tombstones := s.tombstones.upsert { key := pfx, index := idx } }
        (.table "tombstones") idx) (.table "kvs") idx

theorem removeTree_kvs (s : State) (idx : Nat) (q : Key) :
    (s.removeTree idx q).kvs = s.kvs.keep fun e => !underPrefix q e.key := by
  unfold State.removeTree
  split
  · rfl
  · split <;> rfl

theorem kvsDeleteTreeTxn_eq (idx : Nat) (pfx : Key) (s : State) :
    kvsDeleteTreeTxn idx pfx s = (.ok (), s.removeTree idx pfx) := by
  apply eq_of_wp
  unfold kvsDeleteTreeTxn State.removeTree kvsListTxn State.withoutTree
  by_cases hempty : (s.kvs.get fun e => underPrefix pfx e.key) = []
  · simp [hempty]
  · by_cases hp : pfx = []
    · subst hp
      simp [hempty]
    · simp [hempty, hp, graveyardInsertTxn, wp_insert _ (tombstoneKey_eq_ok idx hp)]

theorem reapTombstonesTxn_eq (n : Nat) (s : State) :
    reapTombstonesTxn n s =
      (.ok (), { s with tombstones := s.tombstones.keep fun t => !(t.index ≤ n) }) := by
  apply eq_of_wp
  simp only [reapTombstonesTxn, graveyardReapTxn, wp_wrap, wp_bind, wp_read,
    andThen_ok]
  refine wp_mono (wp_deleteAll Tables.tombstones (.refl _) _) ?_
  rintro _ s1 ⟨rfl, rfl⟩
  exact ⟨rfl, rfl⟩

/-! ## Chains of key writes -/

/-- The keys, the tombstones and their indexes are the same. -/
structure SameKeys (s s' : State) : Prop where
  kvs : s'.kvs = s.kvs
  tombstones : s'.tombstones = s.tombstones
  kvsIndex : s'.indexOf (.table "kvs") = s.indexOf (.table "kvs")
  tombstonesIndex : s'.indexOf (.table "tombstones") = s.indexOf (.table "tombstones")

/-- What a step at an index may do to the key/value store, tree deletes apart. -/
inductive KeyWrite (idx : Nat) : State → State → Prop
  | other {s s' : State} (h : SameKeys s s') : KeyWrite idx s s'
  | put {s : State} {e : DirEntry} (hm : e.modifyIndex = idx) (hk : kvKey e = .ok e.key) :
      KeyWrite idx s (s.putKey idx e)
  | remove {s : State} {k : Key} (hk : k ≠ []) : KeyWrite idx s (s.removeKey idx k)

theorem sameKeys_withIndex {s : State} {name : IndexName} {idx : Nat} (hk : name ≠ .table "kvs")
    (ht : name ≠ .table "tombstones") : SameKeys s (s.withIndex name idx) := by
  refine ⟨rfl, rfl, ?_, ?_⟩
  all_goals
    rw [indexOf_withIndex, if_neg]
    cases name <;> simp_all [IndexName.lower, eq_comm]

section Does

variable {idx : Nat}

theorem setIndex_does {r : State → State → Prop} {name : IndexName}
    (h : ∀ s, r s (s.withIndex name idx)) : Does r (setIndex name idx) := fun s => .single (h s)

section Steps

variable {r : State → State → Prop}
  (hput : ∀ s e, e.modifyIndex = idx → kvKey e = .ok e.key → r s (s.putKey idx e))
  (hremove : ∀ s k, k ≠ [] → r s (s.removeKey idx k))
  (hindex : ∀ s table, table ≠ "kvs" → table ≠ "tombstones" →
    r s (s.withIndex (.table table) idx))
  (hqueries : ∀ s t, r s { s with preparedQueries := t })

include hput hremove in
theorem invalidateLocks_steps (kvs : List DirEntry) (behavior : SessionBehavior) :
    Does r (invalidateLocks idx kvs behavior) := by
  cases behavior with
  | release =>
    refine .forEach fun e _ => .bind (.wrap fun s => ?_) fun _ => .pure _
    rcases kvsSetTxn_cases idx { e with session := "" } true s with ⟨h, -⟩ | ⟨_, -, h⟩ | ⟨hk, h⟩ <;>
      rw [h]
    exact .single (hput _ _ rfl (by rw [hk, (kvKey_eq_ok hk).1]))
  | delete =>
    refine .forEach fun e _ => .wrap fun s => ?_
    rw [kvsDeleteTxn_eq]
    cases hk : s.kvs.first e.key with
    | none => exact .refl
    | some e => exact .single (hremove _ _ (key_of_kvs_first hk).2)
  | unset | other => exact .fail _

include hindex hqueries in
theorem preparedQueryDeleteTxn_steps (id : String) : Does r (preparedQueryDeleteTxn idx id) := by
  refine .bind (.bind (.wrap (.ofExcept _)) fun _ => .read _) fun q => ?_
  cases q with
  | none => exact .pure _
  | some q =>
    exact .bind (.wrap (.delete fun _ _ _ => hqueries _ _)) fun _ =>
      setIndex_does fun s => hindex s _ (by decide) (by decide)

include hput hremove hindex hqueries in
theorem deleteSessionTxn_steps (hsessions : ∀ s t, r s { s with sessions := t })
    (hchecks : ∀ s t, r s { s with sessionChecks := t }) (id : String) :
    Does r (deleteSessionTxn idx id) := by
  refine .bind (.wrap (.ofExcept _)) fun u => .bind (.read _) fun sess => ?_
  cases sess with
  | none => exact .pure _
  | some sess =>
    refine .bind (.wrap (.delete fun _ _ _ => hsessions _ _)) fun _ => ?_
    refine .bind (setIndex_does fun s => hindex s _ (by decide) (by decide)) fun _ => ?_
    refine .bind (.read _) fun kvs => .bind (invalidateLocks_steps hput hremove _ _) fun _ => ?_
    refine .bind (.read _) fun mappings => .bind ?_ fun _ => ?_
    · exact .forEach fun m _ => .wrap (.delete fun _ _ _ => hchecks _ _)
    · exact .bind (.read _) fun queries =>
        .forEach fun q _ => .wrap (preparedQueryDeleteTxn_steps hindex hqueries q.id)

end Steps

theorem deleteSessionTxn_does (id : String) : Does (KeyWrite idx) (deleteSessionTxn idx id) :=
  deleteSessionTxn_steps (fun _ _ => .put) (fun _ _ => .remove)
    (fun _ _ hk ht => .other (sameKeys_withIndex (by simp [hk]) (by simp [ht])))
    (fun _ _ => .other ⟨rfl, rfl, rfl, rfl⟩) (fun _ _ => .other ⟨rfl, rfl, rfl, rfl⟩)
    (fun _ _ => .other ⟨rfl, rfl, rfl, rfl⟩) id

end Does

end OpenGyoza
