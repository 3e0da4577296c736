-- The raft log: commands with their indexes, and the store after a log.
-- A command that fails leaves the store alone. One that counts is a list of
-- operations that all succeed, so every law of a run is a law of operations.
import OpenGyoza.TxnOps

namespace OpenGyoza

open Memdb Txn List

/-- A call of the store that has a transaction of its own. -/
inductive StoreCall where
  | kvsSet (entry : DirEntry)
  | kvsSetCAS (entry : DirEntry)
  | kvsDelete (key : Key)
  | kvsDeleteCAS (cidx : Nat) (key : Key)
  | kvsDeleteTree (pfx : Key)
  | kvsLock (entry : DirEntry)
  | kvsUnlock (entry : DirEntry)
  | reapTombstones (upTo : Nat)
  | sessionCreate (sess : Session)
  | sessionDestroy (sessionID : String)
  | ensureRegistration (req : RegisterRequest)
  | ensureNode (node : Node)
  | ensureService (node : String) (svc : NodeService)
  | ensureCheck (hc : HealthCheck)
  | deleteNode (node : String)
  | deleteService (node serviceID : String)
  | deleteCheck (node checkID : String)
  | preparedQuerySet (query : PreparedQuery)
  | preparedQueryDelete (queryID : String)
  | intentionSet (ixn : Intention)
  | intentionDelete (id : String)
  | coordinateBatchUpdate (updates : List Coordinate)
deriving DecidableEq

/-- One operation: a call of its own, or a part of a transaction of a client. -/
inductive Operation where
  | call (c : StoreCall)
  | txn (op : TxnOp)
deriving DecidableEq

/-- What a log entry asks for. -/
inductive Command where
  | call (c : StoreCall)
  | txnRW (ops : List TxnOp)
deriving DecidableEq

structure LogEntry where
  index : Nat
  command : Command
deriving DecidableEq

variable [External]

/-! ## One command -/

/-- The body of a call. The result says whether its writes count. -/
def StoreCall.run (idx : Nat) : StoreCall → StoreTxn Bool
  | kvsSet entry => do
    let _ ← kvsSetTxn idx entry false
    return true
  | kvsSetCAS entry => return (← kvsSetCASTxn idx entry).isSome
  | kvsDelete key => do
    kvsDeleteTxn idx key
    return true
  | kvsDeleteCAS cidx key => kvsDeleteCASTxn idx cidx key
  | kvsDeleteTree pfx => do
    kvsDeleteTreeTxn idx pfx
    return true
  | kvsLock entry => return (← kvsLockTxn idx entry).isSome
  | kvsUnlock entry => return (← kvsUnlockTxn idx entry).isSome
  | reapTombstones upTo => do
    reapTombstonesTxn upTo
    return true
  | sessionCreate sess => do
    sessionCreateTxn idx sess
    return true
  | sessionDestroy sessionID => do
    deleteSessionTxn idx sessionID
    return true
  | ensureRegistration req => do
    ensureRegistrationTxn idx req
    return true
  | ensureNode node => do
    ensureNodeTxn idx node
    return true
  | ensureService node svc => do
    ensureServiceTxn idx node svc
    return true
  | ensureCheck hc => do
    ensureCheckTxn idx hc
    return true
  | deleteNode node => do
    deleteNodeTxn idx node
    return true
  | deleteService node serviceID => do
    deleteServiceTxn idx node serviceID
    return true
  | deleteCheck node checkID => do
    deleteCheckTxn idx node checkID
    return true
  | preparedQuerySet query => do
    preparedQuerySetTxn idx query
    return true
  | preparedQueryDelete queryID => do
    Txn.wrap ("failed prepared query delete: " ++ ·) (preparedQueryDeleteTxn idx queryID)
    return true
  | intentionSet ixn => do
    intentionSetTxn idx ixn
    return true
  | intentionDelete id => do
    Txn.wrap ("failed intention delete: " ++ ·) (intentionDeleteTxn idx id)
    return true
  | coordinateBatchUpdate updates => do
    coordinateBatchUpdateTxn idx updates
    return true

def Operation.run (idx : Nat) : Operation → StoreTxn Bool
  | call c => c.run idx
  | txn op => do
    let _ ← txnOp idx op
    return true

/-- The store after a command. -/
def Command.apply (idx : Nat) : Command → State → State
  | call c => Txn.commit (c.run idx) id
  | txnRW ops => txnRWState idx ops

/-- The store after a log. -/
def replay (log : List LogEntry) (s : State) : State :=
  log.foldl (fun s e => e.command.apply e.index s) s

theorem replay_cons (e : LogEntry) (log : List LogEntry) (s : State) :
    replay (e :: log) s = replay log (e.command.apply e.index s) := rfl

/-! ## The operations of a command -/

/-- An operation that succeeds takes the store from one state to the next. -/
def Operation.Succeeds (idx : Nat) (op : Operation) (s s' : State) : Prop :=
  op.run idx s = (.ok true, s')

/-- Operations that succeed one after the other, all at one index. -/
inductive Moves (idx : Nat) : List Operation → State → State → Prop
  | nil (s : State) : Moves idx [] s s
  | cons {op : Operation} {ops : List Operation} {s s' s'' : State} (h : op.Succeeds idx s s')
      (hs : Moves idx ops s' s'') : Moves idx (op :: ops) s s''

def Command.operations : Command → List Operation
  | call c => [.call c]
  | txnRW ops => ops.map .txn

/-- Whether the writes of a command count. -/
def Command.commits (idx : Nat) : Command → State → Bool
  | call c, s =>
    match (c.run idx s).1 with
    | .ok counts => counts
    | .error _ => false
  | txnRW ops, s =>
    match OpenGyoza.txnRW idx ops s with
    | .ok (_, errors) => errors.isEmpty
    | .error _ => false

variable {idx : Nat} {s s' : State} {I : State → Prop}

theorem Command.apply_of_not_commits {c : Command} (h : c.commits idx s = false) :
    c.apply idx s = s := by
  cases c with
  | call c =>
    simp only [commits] at h
    simp only [apply, Txn.commit]
    split
    · rename_i hrun
      rw [hrun] at h
      simp_all
    · rfl
  | txnRW ops =>
    simp only [commits, OpenGyoza.txnRW] at h
    simp only [apply, txnRWState, Txn.commit]
    split
    · rename_i hrun
      rw [hrun] at h
      simp_all
    · rfl

theorem moves_of_txnDispatchFrom {ops : List TxnOp} {i : Nat} {results : List TxnResult}
    (h : txnDispatchFrom idx i ops s = (.ok (results, []), s')) :
    Moves idx (ops.map .txn) s s' := by
  induction ops generalizing i results s with
  | nil =>
    simp only [txnDispatchFrom, pure, Prod.mk.injEq] at h
    obtain ⟨-, rfl⟩ := h
    exact .nil s
  | cons op ops ih =>
    simp only [txnDispatchFrom, bind_eq_ok] at h
    obtain ⟨r, s1, hop, ⟨results', errors'⟩, s2, hrest, hlast⟩ := h
    cases r with
    | error what => simp [pure] at hlast
    | ok ret =>
      obtain ⟨⟨-, rfl⟩, rfl⟩ := hlast
      refine .cons ?_ (ih hrest)
      simp only [Operation.Succeeds, Operation.run, bind_eq_ok]
      exact ⟨ret, s1, attempt_eq_ok.mp hop, rfl⟩

theorem Command.moves_of_commits {c : Command} (h : c.commits idx s = true) :
    Moves idx c.operations s (c.apply idx s) := by
  cases c with
  | call c =>
    simp only [commits] at h
    refine Moves.cons (?_ : Operation.Succeeds idx (.call c) s (c.run idx s).2) ?_
    · simp only [Operation.Succeeds, Operation.run]
      rcases hrun : c.run idx s with ⟨_ | counts, s'⟩ <;> simp_all
    · simp only [apply, Txn.commit]
      rcases hrun : c.run idx s with ⟨_ | counts, s'⟩ <;> simp_all
      exact .nil s'
  | txnRW ops =>
    simp only [commits, OpenGyoza.txnRW] at h
    simp only [apply, txnRWState, Txn.commit, operations]
    rcases hrun : txnDispatch idx ops s with ⟨_ | ⟨results, errors⟩, s'⟩
    · simp [hrun] at h
    · simp only [hrun] at h
      simp only [txnDispatch, bind_eq_ok] at hrun
      obtain ⟨⟨results', errors'⟩, s1, hfrom, hlast⟩ := hrun
      obtain ⟨⟨-, rfl⟩, rfl⟩ := hlast
      rw [List.isEmpty_iff] at h
      subst h
      exact moves_of_txnDispatchFrom hfrom

/-! ## Histories -/

/-- An operation that succeeded, with the store before it and after it. -/
structure Event where
  index : Nat
  op : Operation
  before : State
  after : State

def eventsOf (idx : Nat) : List Operation → State → List Event
  | [], _ => []
  | op :: ops, s =>
    { index := idx, op := op, before := s, after := (op.run idx s).2 } ::
      eventsOf idx ops (op.run idx s).2

/-- All operations of a log that counted, in their order. -/
def history : List LogEntry → State → List Event
  | [], _ => []
  | e :: log, s =>
    (if e.command.commits e.index s then eventsOf e.index e.command.operations s else []) ++
      history log (e.command.apply e.index s)

/-- The store after some events. -/
def endOf (s : State) (events : List Event) : State :=
  events.foldl (fun _ ev => ev.after) s

/-- Each event starts from the store that the one before it left. -/
inductive Path : List Event → State → State → Prop
  | nil (s : State) : Path [] s s
  | cons {ev : Event} {events : List Event} {s : State}
      (h : ev.op.Succeeds ev.index ev.before ev.after) (hs : Path events ev.after s) :
      Path (ev :: events) ev.before s

theorem Moves.path {ops : List Operation} (h : Moves idx ops s s') :
    Path (eventsOf idx ops s) s s' := by
  induction h with
  | nil s => exact .nil s
  | @cons op ops s s' s'' hop _ ih =>
    have hrun : (op.run idx s).2 = s' := by
      rw [hop]
    rw [eventsOf, hrun]
    exact .cons hop ih

theorem Path.append {l1 l2 : List Event} {s'' : State} (h1 : Path l1 s s') (h2 : Path l2 s' s'') :
    Path (l1 ++ l2) s s'' := by
  induction h1 with
  | nil s => exact h2
  | cons h _ ih => exact .cons h (ih h2)

theorem Path.of_append {l1 l2 : List Event} (h : Path (l1 ++ l2) s s') :
    Path l1 s (endOf s l1) ∧ Path l2 (endOf s l1) s' := by
  induction l1 generalizing s with
  | nil => exact ⟨.nil s, h⟩
  | cons ev l ih =>
    cases h with
    | cons hop hrest =>
      obtain ⟨h1, h2⟩ := ih hrest
      exact ⟨.cons hop h1, h2⟩

theorem Path.succeeds {l : List Event} (h : Path l s s') {ev : Event} (hev : ev ∈ l) :
    ev.op.Succeeds ev.index ev.before ev.after := by
  induction h with
  | nil => cases hev
  | cons hop _ ih =>
    rcases List.mem_cons.mp hev with rfl | hev
    · exact hop
    · exact ih hev

theorem history_path (log : List LogEntry) (s : State) : Path (history log s) s (replay log s) := by
  induction log generalizing s with
  | nil => exact .nil s
  | cons e log ih =>
    rw [history, replay_cons]
    refine Path.append ?_ (ih _)
    cases hc : e.command.commits e.index s with
    | false =>
      rw [Command.apply_of_not_commits hc]
      exact .nil s
    | true => exact (Command.moves_of_commits hc).path

theorem Path.keeps {P : Event → Prop} {l : List Event} (h : Path l s s') (hP : ∀ ev ∈ l, P ev)
    (step : ∀ ev, P ev → ev.op.Succeeds ev.index ev.before ev.after → I ev.before → I ev.after)
    (hs : I s) : I s' := by
  induction h with
  | nil s => exact hs
  | cons hop _ ih =>
    exact ih (fun ev hev => hP ev (mem_cons_of_mem _ hev))
      (step _ (hP _ mem_cons_self) hop hs)

/-! ## Runs at increasing indexes -/

/-- Every operation of a list meets `P` in the state in which it runs. -/
def EveryOp (P : Operation → State → Prop) (idx : Nat) : List Operation → State → Prop
  | [], _ => True
  | op :: ops, s => P op s ∧ EveryOp P idx ops (op.run idx s).2

/-- A log from the state `s` on: its indexes grow and are above `last`, and every operation of
a command that counts meets `P`. -/
def Lawful (P : Nat → Operation → State → Prop) : Nat → List LogEntry → State → Prop
  | _, [], _ => True
  | last, e :: log, s =>
    last < e.index ∧
      (e.command.commits e.index s = true →
        EveryOp (P e.index) e.index e.command.operations s) ∧
      Lawful P e.index log (e.command.apply e.index s)

/-- The index of the last entry of a log. -/
def lastIndex (last : Nat) (log : List LogEntry) : Nat :=
  log.foldl (fun _ e => e.index) last

theorem Moves.keeps {P : Operation → State → Prop} {ops : List Operation} (h : Moves idx ops s s')
    (hP : EveryOp P idx ops s)
    (step : ∀ op ∈ ops, ∀ s s', I s → P op s → op.Succeeds idx s s' → I s') (hs : I s) : I s' := by
  induction h with
  | nil s => exact hs
  | cons hop _ ih =>
    obtain ⟨hp, hrest⟩ := hP
    have hop' := hop
    rw [hop'] at hrest
    exact ih hrest (fun op h => step op (mem_cons_of_mem _ h))
      (step _ mem_cons_self _ _ hs hp hop)

variable {P : Nat → Operation → State → Prop} {last : Nat}

theorem Lawful.of_append {log1 log2 : List LogEntry} (h : Lawful P last (log1 ++ log2) s) :
    Lawful P last log1 s ∧ Lawful P (lastIndex last log1) log2 (replay log1 s) := by
  induction log1 generalizing last s with
  | nil => exact ⟨trivial, h⟩
  | cons e log ih =>
    obtain ⟨hlt, hops, hrest⟩ := h
    obtain ⟨h1, h2⟩ := ih hrest
    exact ⟨⟨hlt, hops, h1⟩, h2⟩

theorem Lawful.keeps_command {e : LogEntry} {log : List LogEntry} (h : Lawful P last (e :: log) s)
    (step : ∀ op s s', I s → P e.index op s → op.Succeeds e.index s s' → I s') (hs : I s) :
    I (e.command.apply e.index s) := by
  obtain ⟨-, hops, -⟩ := h
  cases hc : e.command.commits e.index s with
  | false =>
    rw [Command.apply_of_not_commits hc]
    exact hs
  | true => exact (Command.moves_of_commits hc).keeps (hops hc) (fun op _ => step op) hs

theorem Lawful.keeps {I : Nat → State → Prop} (mono : ∀ i j s, i ≤ j → I i s → I j s)
    (step : ∀ i op s s', last < i → I i s → P i op s → op.Succeeds i s s' → I i s')
    {log : List LogEntry} (h : Lawful P last log s) (hs : I last s) :
    I (lastIndex last log) (replay log s) := by
  induction log generalizing last s with
  | nil => exact hs
  | cons e log ih =>
    have hI : I e.index s := mono _ _ _ h.1.le hs
    exact ih (fun i op s s' hi => step i op s s' (h.1.trans hi)) h.2.2
      (h.keeps_command (fun op s s' => step e.index op s s' h.1) hI)

end OpenGyoza
