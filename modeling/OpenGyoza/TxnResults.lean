-- The results of a transaction. A client goes on with the entries that it gets
-- back, so they should be the entries that are stored.
import OpenGyoza.Transactions

namespace OpenGyoza

open Memdb Txn List DirEntry

section Laws

variable [External] {idx : Nat} {s s' : State} {ops : List TxnOp}

/-! ## Transactions that commit -/

theorem stateBefore_succ {i : Nat} {op : TxnOp} (h : ops[i]? = some op) :
    stateBefore idx ops (i + 1) s = (txnOp idx op (stateBefore idx ops i s)).2 := by
  unfold stateBefore
  rw [take_add_one, h, foldl_append]
  rfl

/-- What the operation at a position returns. -/
def resultsAt (idx : Nat) (ops : List TxnOp) (s : State) (i : Nat) : List TxnResult :=
  match ops[i]? with
  | none => []
  | some op =>
    match (txnOp idx op (stateBefore idx ops i s)).1 with
    | .ok r => r
    | .error _ => []

theorem resultsAt_cons_succ (op : TxnOp) (ops : List TxnOp) (i : Nat) :
    resultsAt idx (op :: ops) s (i + 1) = resultsAt idx ops (txnOp idx op s).2 i := by
  simp [resultsAt, stateBefore]

theorem txnDispatchFrom_ok {i : Nat} {results : List TxnResult}
    (h : txnDispatchFrom idx i ops s = (.ok (results, []), s')) :
    (∀ j op, ops[j]? = some op →
      (txnOp idx op (stateBefore idx ops j s)).1 = .ok (resultsAt idx ops s j)) ∧
      results = (List.range ops.length).flatMap (resultsAt idx ops s) ∧
      s' = stateBefore idx ops ops.length s := by
  induction ops generalizing i s results with
  | nil =>
    cases h
    exact ⟨by simp, rfl, rfl⟩
  | cons op ops ih =>
    rw [txnDispatchFrom] at h
    obtain ⟨r, s1, hr, h⟩ := bind_eq_ok.mp h
    obtain ⟨⟨rest, errors⟩, s2, hrest, h⟩ := bind_eq_ok.mp h
    cases r with
    | error text => cases h
    | ok ret =>
      obtain ⟨⟨rfl, rfl⟩, rfl⟩ : (ret ++ rest = results ∧ errors = []) ∧ s2 = s' := by
        cases h
        exact ⟨⟨rfl, rfl⟩, rfl⟩
      have hop : txnOp idx op s = (.ok ret, s1) := attempt_eq_ok.mp hr
      have hhead : resultsAt idx (op :: ops) s 0 = ret := by
        simp [resultsAt, stateBefore, hop]
      obtain ⟨hall, hresults, hstate⟩ := ih hrest
      refine ⟨fun j op' hj => ?_, ?_, ?_⟩
      · cases j with
        | zero =>
          cases hj
          rw [hhead, stateBefore, take_zero, foldl_nil, hop]
        | succ j =>
          rw [resultsAt_cons_succ, hop]
          simpa [stateBefore, hop] using hall j op' (by simpa using hj)
      · rw [hresults, length_cons, range_succ_eq_map, flatMap_cons, hhead,
          flatMap_map]
        simp [resultsAt_cons_succ, hop]
      · rw [hstate]
        simp [stateBefore, hop]

theorem txnRW_committed {results : List TxnResult} (h : txnRW idx ops s = .ok (results, [])) :
    (∀ j op, ops[j]? = some op →
      (txnOp idx op (stateBefore idx ops j s)).1 = .ok (resultsAt idx ops s j)) ∧
      results = (List.range ops.length).flatMap (resultsAt idx ops s) ∧
      txnRWState idx ops s = stateBefore idx ops ops.length s := by
  rcases hrun : txnDispatch idx ops s with ⟨r, s'⟩
  obtain rfl : r = .ok (results, []) := by rw [← h, txnRW, hrun]
  rw [txnRWState, Txn.commit, hrun]
  obtain ⟨⟨all, errors⟩, hfrom, hpair⟩ := return_eq_ok.mp hrun
  obtain ⟨hall, rfl⟩ := Prod.mk.inj hpair
  obtain rfl : all = results := hall
  simpa using txnDispatchFrom_ok hfrom

/-! ## The entry that a write returns -/

omit [External] in
theorem storedEntry_eq_old {entry old : DirEntry} {updateSession : Bool}
    (hequal : old.equal (storedEntry idx entry updateSession (some old)) = true)
    (hindex : old.modifyIndex = idx) : storedEntry idx entry updateSession (some old) = old := by
  simp only [equal, Bool.and_eq_true, beq_iff_eq] at hequal
  obtain ⟨⟨⟨⟨hlock, hkey⟩, hflags⟩, hvalue⟩, hsession⟩ := hequal
  cases old
  simp_all [storedEntry]

theorem kvsSetTxn_returns {entry e : DirEntry} {updateSession : Bool}
    (h : kvsSetTxn idx entry updateSession s = (.ok e, s')) :
    (∃ stored, s'.kvs.first entry.key = some stored ∧ blankResult e = blankResult stored) ↔
      ∀ old, s.kvs.first entry.key = some old →
        old.equal (storedEntry idx entry updateSession (some old)) = true →
        old.modifyIndex = idx := by
  constructor
  · rintro ⟨stored, hstored, hblank⟩ old hold hequal
    -- The set leaves the store alone, so the stored entry is the old one.
    have hrun : kvsSetTxn idx entry updateSession s =
        (.ok (storedEntry idx entry updateSession (some old)), s) := by
      apply eq_of_wp
      simp [kvsSetTxn, hold, hequal]
    rw [h] at hrun
    obtain ⟨he, rfl⟩ := Prod.mk.inj hrun
    cases he
    obtain rfl : old = stored := by simpa [hold] using hstored
    simp only [blankResult, storedEntry, List.cons.injEq, TxnResult.kv.injEq,
      mk.injEq] at hblank
    exact hblank.1.2.2.2.2.2.2.symm
  · intro hrepeats
    rcases kvsSetTxn_cases idx entry updateSession s with
      ⟨hrun, old, hold, hequal⟩ | ⟨text, -, hrun⟩ | ⟨hk, hrun⟩
    · rw [h] at hrun
      obtain ⟨he, rfl⟩ := Prod.mk.inj hrun
      cases he
      rw [hold] at hequal ⊢
      exact ⟨old, rfl, by rw [storedEntry_eq_old hequal (hrepeats old hold hequal)]⟩
    · rw [h] at hrun
      cases hrun
    · rw [h] at hrun
      obtain ⟨he, rfl⟩ := Prod.mk.inj hrun
      cases he
      exact ⟨_, Table.first_upsert_self hk, rfl⟩

/-- The verbs that return the entry that they write. -/
def KVOp.returnsEntry : KVOp → Bool
  | .set | .cas | .lock | .unlock => true
  | _ => false

def TxnKVOp.Repeats (op : TxnKVOp) (old : DirEntry) : Prop :=
  old.flags = op.dirEnt.flags ∧ old.value = op.dirEnt.value ∧
    match op.verb with
    | .set | .cas => old.lockIndex = op.dirEnt.lockIndex
    | .lock => old.session = op.dirEnt.session
    | _ => False

/-- The set that an operation on a key comes down to. -/
structure WritesBy (idx : Nat) (op : TxnKVOp) (s s' : State) (r : List TxnResult)
    (entry : DirEntry) (updateSession : Bool) (e : DirEntry) : Prop where
  run : kvsSetTxn idx entry updateSession s = (.ok e, s')
  result : r = blankResult e
  key : entry.key = op.dirEnt.key
  repeats : ∀ old, s.kvs.first op.dirEnt.key = some old →
    (old.equal (storedEntry idx entry updateSession (some old)) = true ↔ op.Repeats old)

theorem txnKVS_writesBy {op : TxnKVOp} {r : List TxnResult} (hverb : op.verb.returnsEntry = true)
    (h : txnKVS idx op s = (.ok r, s')) :
    ∃ entry updateSession e, WritesBy idx op s s' r entry updateSession e := by
  have hkey : ∀ old, s.kvs.first op.dirEnt.key = some old → old.key = op.dirEnt.key :=
    fun old hold => (key_of_kvs_first hold).1
  obtain ⟨verb, entry⟩ := op
  cases verb with
  | set =>
    obtain ⟨e, hset, rfl⟩ := return_eq_ok.mp h
    refine ⟨entry, false, e, hset, rfl, rfl, fun old hold => ?_⟩
    simp [equal, storedEntry, TxnKVOp.Repeats, hkey old hold]
    grind
  | cas =>
    obtain ⟨o, s1, hset, h⟩ := bind_eq_ok.mp h
    obtain ⟨e, rfl, rfl, rfl⟩ := writtenOr_eq_ok.mp h
    refine ⟨entry, false, e, kvsSetCASTxn_sets hset, rfl, rfl, fun old hold => ?_⟩
    simp [equal, storedEntry, TxnKVOp.Repeats, hkey old hold]
    grind
  | lock =>
    obtain ⟨o, s1, hlock, h⟩ := bind_eq_ok.mp h
    obtain ⟨e, rfl, rfl, rfl⟩ := writtenOr_eq_ok.mp h
    obtain ⟨u, sess, locked, hsession, -, -, hlocked, hset⟩ := kvsLockTxn_sets hlock
    refine ⟨locked, true, e, hset, rfl, lockedEntry_key hlocked, fun old hold => ?_⟩
    rw [hold] at hlocked
    simp only [lockedEntry] at hlocked
    simp [equal, storedEntry, TxnKVOp.Repeats, hkey old hold]
    grind
  | unlock =>
    obtain ⟨o, s1, hunlock, h⟩ := bind_eq_ok.mp h
    obtain ⟨e, rfl, rfl, rfl⟩ := writtenOr_eq_ok.mp h
    obtain ⟨old, hsession, hold, hheld, hset⟩ := kvsUnlockTxn_sets hunlock
    refine ⟨_, true, e, hset, rfl, rfl, fun old' hold' => ?_⟩
    simp [equal, storedEntry, TxnKVOp.Repeats, hkey old' hold']
    grind
  | _ => cases hverb

theorem txnKVS_returns {op : TxnKVOp} {r : List TxnResult} (hverb : op.verb.returnsEntry = true)
    (h : txnKVS idx op s = (.ok r, s')) :
    (∃ stored, s'.kvs.first op.dirEnt.key = some stored ∧
        r = [.kv { stored with value := [] }]) ↔
      ∀ old, s.kvs.first op.dirEnt.key = some old → op.Repeats old → old.modifyIndex = idx := by
  obtain ⟨entry, updateSession, e, hrun, rfl, hkey, hrepeats⟩ := txnKVS_writesBy hverb h
  have hreturns := kvsSetTxn_returns hrun
  rw [hkey] at hreturns
  change (∃ stored, _ ∧ blankResult e = blankResult stored) ↔ _
  rw [hreturns]
  exact forall₂_congr fun old hold => by rw [hrepeats old hold]

/-! ## Whole transactions -/

/-- A transaction that commits returns, for each operation that returns the entry it writes,
the entry that is stored just after the operation. This is so exactly when the operation does
not repeat an entry of another index. -/
theorem results_are_what_is_stored (idx : Nat) (ops : List TxnOp) (s : State)
    (results : List TxnResult) (h : txnRW idx ops s = .ok (results, [])) :
    results = (List.range ops.length).flatMap (resultsAt idx ops s) ∧
      txnRWState idx ops s = stateBefore idx ops ops.length s ∧
      ∀ i op kv, ops[i]? = some op → op.kv = some kv → kv.verb.returnsEntry = true →
        ((∃ stored, (stateBefore idx ops (i + 1) s).kvs.first kv.dirEnt.key = some stored ∧
            resultsAt idx ops s i = [.kv { stored with value := [] }]) ↔
          ∀ old, (stateBefore idx ops i s).kvs.first kv.dirEnt.key = some old →
            kv.Repeats old → old.modifyIndex = idx) := by
  obtain ⟨hall, hresults, hstate⟩ := txnRW_committed h
  refine ⟨hresults, hstate, fun i op kv hop hkv hverb => ?_⟩
  have hrun : txnKVS idx kv (stateBefore idx ops i s) =
      (.ok (resultsAt idx ops s i), stateBefore idx ops (i + 1) s) := by
    have htxn : txnOp idx op = txnKVS idx kv := by simp [txnOp, hkv]
    rw [← htxn, stateBefore_succ hop]
    exact Prod.ext (hall i op hop) rfl
  exact txnKVS_returns hverb hrun

end Laws

section Example

attribute [local instance] ascii

/-- Sets the key `k` to the value `v`. -/
def setKey : TxnOp :=
  { kv := some { verb := .set, dirEnt := { key := bytesOf "k", value := bytesOf "v" } } }

/-- The key is there from index 1. A transaction at index 2 sets it once more to its value, and
returns an entry of index 2. Stored is still the entry of index 1, so a check-and-set with the
index that was returned is refused. -/
theorem a_repeated_set_returns_another_index :
    let s := txnRWState 1 [setKey] (replay [] .empty)
    let e : DirEntry := { key := bytesOf "k", createIndex := 1, modifyIndex := 2 }
    txnRW 2 [setKey] s = .ok ([.kv e], []) ∧
      (((txnRWState 2 [setKey] s).kvs.first (bytesOf "k")).map (·.modifyIndex)) = some 1 ∧
      (kvsSetCASTxn 3 { e with value := bytesOf "w" } (txnRWState 2 [setKey] s)).1 = .ok none := by
  decide +kernel

/-- Reads the key, gives it another value, and sets a second key. -/
def changeKey : List TxnOp := [
  { kv := some { verb := .get, dirEnt := { key := bytesOf "k" } } },
  { kv := some { verb := .set, dirEnt := { key := bytesOf "k", value := bytesOf "w" } } },
  { kv := some { verb := .set, dirEnt := { key := bytesOf "l", value := bytesOf "v" } } }]

/-- A set of a stored key to another value returns the entry that it stores. -/
theorem a_changed_key_returns_its_entry :
    let s := txnRWState 1 [setKey] (replay [] .empty)
    ∃ stored, (stateBefore 2 changeKey 2 s).kvs.first (bytesOf "k") = some stored ∧
      resultsAt 2 changeKey s 1 = [.kv { stored with value := [] }] := by
  intro s
  have hrun : txnRW 2 changeKey s = .ok ([
      .kv { key := bytesOf "k", value := bytesOf "v", createIndex := 1, modifyIndex := 1 },
      .kv { key := bytesOf "k", createIndex := 1, modifyIndex := 2 },
      .kv { key := bytesOf "l", createIndex := 2, modifyIndex := 2 }], []) := by decide +kernel
  refine ((results_are_what_is_stored 2 changeKey s _ hrun).2.2 1 _ _ rfl rfl rfl).mpr
    fun old hold hrepeats => ?_
  have hbefore : ((stateBefore 2 changeKey 1 s).kvs.first (bytesOf "k")).map (·.value) =
      some (bytesOf "v") := by decide +kernel
  rw [hold, Option.map_some, hrepeats.2.1] at hbefore
  exact absurd hbefore (by decide)

end Example

end OpenGyoza
