-- The operations sorted by what they do to keys. A call of its own and the
-- same operation inside a transaction are one key operation, so a law of keys
-- is proved once for both.
import OpenGyoza.KvEffects
import OpenGyoza.Log

namespace OpenGyoza

open Memdb Txn

inductive KeyOp where
  | set (entry : DirEntry)
  | cas (entry : DirEntry)
  | delete (key : Key)
  | deleteCAS (cidx : Nat) (key : Key)
  | deleteTree (pfx : Key)
  | lock (entry : DirEntry)
  | unlock (entry : DirEntry)
  | reap (upTo : Nat)
deriving DecidableEq

/-- The key operation of a transaction operation. -/
def TxnKVOp.keyOp (op : TxnKVOp) : Option KeyOp :=
  match op.verb with
  | .set => some (.set op.dirEnt)
  | .cas => some (.cas op.dirEnt)
  | .delete => some (.delete op.dirEnt.key)
  | .deleteCAS => some (.deleteCAS op.dirEnt.modifyIndex op.dirEnt.key)
  | .deleteTree => some (.deleteTree op.dirEnt.key)
  | .lock => some (.lock op.dirEnt)
  | .unlock => some (.unlock op.dirEnt)
  | _ => none

def Operation.keyOp : Operation → Option KeyOp
  | call (.kvsSet e) => some (.set e)
  | call (.kvsSetCAS e) => some (.cas e)
  | call (.kvsDelete k) => some (.delete k)
  | call (.kvsDeleteCAS cidx k) => some (.deleteCAS cidx k)
  | call (.kvsDeleteTree p) => some (.deleteTree p)
  | call (.kvsLock e) => some (.lock e)
  | call (.kvsUnlock e) => some (.unlock e)
  | call (.reapTombstones n) => some (.reap n)
  | call _ => none
  | txn op => op.kv.bind TxnKVOp.keyOp

variable [External]

def KeyOp.run (idx : Nat) : KeyOp → StoreTxn Bool
  | set e => do
    let _ ← kvsSetTxn idx e false
    return true
  | cas e => return (← kvsSetCASTxn idx e).isSome
  | delete k => do
    kvsDeleteTxn idx k
    return true
  | deleteCAS cidx k => kvsDeleteCASTxn idx cidx k
  | deleteTree p => do
    kvsDeleteTreeTxn idx p
    return true
  | lock e => return (← kvsLockTxn idx e).isSome
  | unlock e => return (← kvsUnlockTxn idx e).isSome
  | reap n => do
    reapTombstonesTxn n
    return true

theorem writtenOr_eq_ok {text : String} {o : Option DirEntry} {r : List TxnResult} {s s' : State} :
    writtenOr text o s = (.ok r, s') ↔ ∃ e, o = some e ∧ blankResult e = r ∧ s = s' := by
  cases o with
  | none => simp [writtenOr, Txn.fail]
  | some e => simp [writtenOr, pure_eq_ok]

variable {ko : KeyOp}

theorem TxnKVOp.run_of_keyOp {idx : Nat} {op : TxnKVOp} {r : List TxnResult} {s s' : State}
    (hk : op.keyOp = some ko) (h : txnKVS idx op s = (.ok r, s')) :
    ko.run idx s = (.ok true, s') := by
  obtain ⟨verb, e⟩ := op
  cases verb <;> simp only [keyOp, Option.some.injEq, reduceCtorEq] at hk <;> subst hk <;>
    simp only [txnKVS, KeyOp.run, bind_eq_ok] at h ⊢
  case set | delete | deleteTree =>
    obtain ⟨a, s1, h1, h2⟩ := h
    rw [pure_eq_ok] at h2
    exact ⟨a, s1, h1, by rw [h2.2]; rfl⟩
  case cas | lock | unlock =>
    obtain ⟨a, s1, h1, h2⟩ := h
    obtain ⟨e', rfl, -, rfl⟩ := writtenOr_eq_ok.mp h2
    exact ⟨some e', _, h1, rfl⟩
  case deleteCAS =>
    obtain ⟨a, s1, h1, h2⟩ := h
    cases a with
    | false => simp [Txn.fail] at h2
    | true =>
      rw [if_pos rfl, pure_eq_ok] at h2
      rw [h1, h2.2]

theorem txnOp_kv {idx : Nat} {op : TxnOp} {kv : TxnKVOp} (h : op.kv = some kv) :
    txnOp idx op = txnKVS idx kv := by
  simp only [txnOp, h]

theorem Operation.run_of_keyOp {idx : Nat} {op : Operation} {s s' : State} (hk : op.keyOp = some ko)
    (h : op.Succeeds idx s s') : ko.run idx s = (.ok true, s') := by
  cases op with
  | call c => cases c <;> cases hk <;> exact h
  | txn op =>
    simp only [keyOp, Option.bind_eq_some_iff] at hk
    obtain ⟨kv, hkv, hk⟩ := hk
    simp only [Succeeds, run, bind_eq_ok] at h
    obtain ⟨r, s1, h1, h2⟩ := h
    obtain ⟨-, rfl⟩ := pure_eq_ok.mp h2
    rw [txnOp_kv hkv] at h1
    exact TxnKVOp.run_of_keyOp hk h1

/-! ## What a key operation writes -/

/-- The entry that a key operation writes over the old one. -/
inductive KeyOp.Writes (idx : Nat) (s : State) : KeyOp → DirEntry → Prop
  | set (e : DirEntry) :
      Writes idx s (.set e) (storedEntry idx e false (s.kvs.first e.key))
  | cas (e : DirEntry) :
      Writes idx s (.cas e) (storedEntry idx e false (s.kvs.first e.key))
  | lock {e locked : DirEntry} {u : List Byte} {sess : Session} (hheld : e.session ≠ "")
      (hu : uuidKey e.session = .ok u) (hsess : s.sessions.first u = some sess)
      (hl : lockedEntry idx e (s.kvs.first e.key) = some locked) :
      Writes idx s (.lock e) (storedEntry idx locked true (s.kvs.first e.key))
  | unlock {e old : DirEntry} (hold : s.kvs.first e.key = some old)
      (hheld : old.session = e.session) (hne : e.session ≠ "") :
      Writes idx s (.unlock e) (storedEntry idx { e with
        session := "", lockIndex := old.lockIndex, createIndex := old.createIndex,
        modifyIndex := idx } true (some old))

inductive KeyChange (idx : Nat) (s : State) : KeyOp → State → Prop
  | none (ko : KeyOp) : KeyChange idx s ko s
  | put {ko : KeyOp} {e : DirEntry} (hw : ko.Writes idx s e) (hk : kvKey e = .ok e.key) :
      KeyChange idx s ko (s.putKey idx e)
  | delete {k : Key} (hk : k ≠ []) : KeyChange idx s (.delete k) (s.removeKey idx k)
  | deleteCAS {cidx : Nat} {k : Key} (hk : k ≠ []) :
      KeyChange idx s (.deleteCAS cidx k) (s.removeKey idx k)
  | deleteTree (p : Key) : KeyChange idx s (.deleteTree p) (s.removeTree idx p)
  | reap (n : Nat) :
      KeyChange idx s (.reap n) { s with tombstones := s.tombstones.keep fun t => !(t.index ≤ n) }

section KeyChange

variable {idx : Nat} {s s' : State} {entry e : DirEntry}

theorem keyChange_of_kvsSetTxn {r : DirEntry} {updateSession : Bool}
    (hw : ko.Writes idx s (storedEntry idx entry updateSession (s.kvs.first entry.key)))
    (h : kvsSetTxn idx entry updateSession s = (.ok r, s')) : KeyChange idx s ko s' := by
  rcases kvsSetTxn_cases idx entry updateSession s with ⟨hrun, -⟩ | ⟨_, -, hrun⟩ | ⟨hk, hrun⟩
  all_goals
    rw [h] at hrun
    cases hrun
  · exact .none ko
  · exact .put hw (by rw [hk, (kvKey_eq_ok hk).1])

omit [External] in
theorem lockedEntry_key {locked : DirEntry} {old : Option DirEntry}
    (h : lockedEntry idx e old = some locked) : locked.key = e.key := by
  unfold lockedEntry at h
  split at h
  · cases h
    rfl
  · split at h
    · cases h
      rfl
    · split at h
      · cases h
      · cases h
        rfl

theorem kvsSetCASTxn_sets (h : kvsSetCASTxn idx entry s = (.ok (some e), s')) :
    kvsSetTxn idx entry false s = (.ok e, s') := by
  replace h := read_then h
  split at h
  · cases h
  · obtain ⟨e', hset, he⟩ := return_eq_ok.mp h
    cases he
    exact hset

theorem kvsLockTxn_sets (h : kvsLockTxn idx entry s = (.ok (some e), s')) :
    ∃ u sess locked, entry.session ≠ "" ∧ uuidKey entry.session = .ok u ∧
      s.sessions.first u = some sess ∧
      lockedEntry idx entry (s.kvs.first entry.key) = some locked ∧
      kvsSetTxn idx locked true s = (.ok e, s') := by
  unfold kvsLockTxn at h
  split at h
  · cases h
  · rename_i hsession
    obtain ⟨u, s1, hlookup, hrest⟩ := bind_eq_ok.mp h
    obtain ⟨hu, rfl⟩ := uuidKey_of_lookup hlookup
    obtain ⟨row, s2, hread, h⟩ := bind_eq_ok.mp hrest
    obtain ⟨hsess, rfl⟩ := read_eq_ok.mp hread
    cases row with
    | none => cases h
    | some sess =>
      replace h := read_then h
      cases hlocked : lockedEntry idx entry (s1.kvs.first entry.key) with
      | none =>
        rw [hlocked] at h
        cases h
      | some locked =>
        rw [hlocked] at h
        obtain ⟨e', hset, he⟩ := return_eq_ok.mp h
        cases he
        exact ⟨u, sess, locked, hsession, hu, hsess, rfl, hset⟩

theorem kvsUnlockTxn_sets (h : kvsUnlockTxn idx entry s = (.ok (some e), s')) :
    ∃ old, entry.session ≠ "" ∧ s.kvs.first entry.key = some old ∧
      old.session = entry.session ∧
      kvsSetTxn idx { entry with
        session := "", lockIndex := old.lockIndex, createIndex := old.createIndex,
        modifyIndex := idx } true s = (.ok e, s') := by
  unfold kvsUnlockTxn at h
  split at h
  · cases h
  · rename_i hsession
    obtain ⟨o, s1, hread, h⟩ := bind_eq_ok.mp h
    obtain ⟨hold, rfl⟩ := read_eq_ok.mp hread
    cases o with
    | none => cases h
    | some old =>
      dsimp only at h
      split at h
      · cases h
      · rename_i hheld
        obtain ⟨e', hset, he⟩ := return_eq_ok.mp h
        cases he
        exact ⟨old, hsession, hold, not_not.mp hheld, hset⟩

theorem KeyOp.change (h : ko.run idx s = (.ok true, s')) : KeyChange idx s ko s' := by
  cases ko with
  | set e =>
    simp only [run, bind_eq_ok, pure_eq_ok] at h
    obtain ⟨r, s1, h1, -, rfl⟩ := h
    exact keyChange_of_kvsSetTxn (.set e) h1
  | cas e =>
    simp only [run, bind_eq_ok, pure_eq_ok] at h
    obtain ⟨o, s1, hcas, hsome, rfl⟩ := h
    obtain ⟨r, rfl⟩ := Option.isSome_iff_exists.mp hsome
    exact keyChange_of_kvsSetTxn (.cas e) (kvsSetCASTxn_sets hcas)
  | delete k =>
    simp only [run, bind_eq_ok, pure_eq_ok, kvsDeleteTxn_eq] at h
    obtain ⟨_, s1, h1, -, rfl⟩ := h
    cases hk : s.kvs.first k with
    | none =>
      simp only [hk] at h1
      cases h1
      exact .none _
    | some e =>
      simp only [hk] at h1
      cases h1
      exact .delete (key_of_kvs_first hk).2
  | deleteCAS cidx k =>
    simp only [run, kvsDeleteCASTxn, bind_eq_ok] at h
    obtain ⟨o, s1, hread, hrest⟩ := h
    cases hread
    cases hk : s.kvs.first k with
    | none =>
      simp only [hk] at hrest
      obtain ⟨-, rfl⟩ := pure_eq_ok.mp hrest
      exact .none _
    | some e =>
      simp only [hk] at hrest
      split at hrest
      · cases (pure_eq_ok.mp hrest).1
      · obtain ⟨_, hdelete, -⟩ := return_eq_ok.mp hrest
        simp only [kvsDeleteTxn_eq, hk] at hdelete
        cases hdelete
        exact .deleteCAS (key_of_kvs_first hk).2
  | deleteTree p =>
    simp only [run, bind_eq_ok, pure_eq_ok, kvsDeleteTreeTxn_eq] at h
    obtain ⟨_, s1, h1, -, rfl⟩ := h
    cases h1
    exact .deleteTree p
  | lock e =>
    simp only [run, bind_eq_ok, pure_eq_ok] at h
    obtain ⟨o, s1, hlock, hsome, rfl⟩ := h
    obtain ⟨r, rfl⟩ := Option.isSome_iff_exists.mp hsome
    obtain ⟨u, sess, locked, hheld, hu, hsess, hl, hset⟩ := kvsLockTxn_sets hlock
    refine keyChange_of_kvsSetTxn ?_ hset
    rw [lockedEntry_key hl]
    exact .lock hheld hu hsess hl
  | unlock e =>
    simp only [run, bind_eq_ok, pure_eq_ok] at h
    obtain ⟨o, s1, hunlock, hsome, rfl⟩ := h
    obtain ⟨r, rfl⟩ := Option.isSome_iff_exists.mp hsome
    obtain ⟨old, hne, hk, hheld, hset⟩ := kvsUnlockTxn_sets hunlock
    refine keyChange_of_kvsSetTxn ?_ hset
    rw [hk]
    exact .unlock hk hheld hne
  | reap n =>
    simp only [run, bind_eq_ok, pure_eq_ok, reapTombstonesTxn_eq] at h
    obtain ⟨_, s1, h1, -, rfl⟩ := h
    cases h1
    exact .reap n

end KeyChange

end OpenGyoza
