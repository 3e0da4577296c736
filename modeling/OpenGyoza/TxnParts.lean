-- The operations of a transaction against the same operations taken alone.
-- Four verbs lose the error of a write, and this module says when; all others
-- fail in a transaction exactly when they fail alone.
import OpenGyoza.Soundness

namespace OpenGyoza

open Memdb Txn

variable [External] {idx : Nat} {s : State}

/-! ## The operations taken alone -/

def TxnKVOp.counterpart (idx : Nat) (op : TxnKVOp) : StoreTxn Bool :=
  match op.verb with
  | .set => (KeyOp.set op.dirEnt).run idx
  | .cas => (KeyOp.cas op.dirEnt).run idx
  | .delete => (KeyOp.delete op.dirEnt.key).run idx
  | .deleteCAS => (KeyOp.deleteCAS op.dirEnt.modifyIndex op.dirEnt.key).run idx
  | .deleteTree => (KeyOp.deleteTree op.dirEnt.key).run idx
  | .lock => (KeyOp.lock op.dirEnt).run idx
  | .unlock => (KeyOp.unlock op.dirEnt).run idx
  | .get => Txn.read fun s => (kvsGetTxn op.dirEnt.key s).2.isSome
  | .getTree => return true
  | .checkSession => do
    let _ ← kvsCheckSessionTxn op.dirEnt.key op.dirEnt.session
    return true
  | .checkIndex => do
    let _ ← kvsCheckIndexTxn op.dirEnt.key op.dirEnt.modifyIndex
    return true
  | .checkNotExists => Txn.read fun s => (kvsGetTxn op.dirEnt.key s).2.isNone
  | .unknown _ => return false

def TxnIntentionOp.counterpart (idx : Nat) (op : TxnIntentionOp) : StoreTxn Bool :=
  match op.op with
  | .create | .update => do
    intentionSetTxn idx op.intention
    return true
  | .delete => do
    intentionDeleteTxn idx op.intention.id
    return true
  | .unknown _ => return false

def TxnNodeOp.counterpart (idx : Nat) (op : TxnNodeOp) : StoreTxn Bool :=
  match op.verb with
  | .get => do
    let node ← txnGetNode op.node
    return node.isSome
  | .set => do
    ensureNodeTxn idx op.node
    return true
  | .cas => ensureNodeCASTxn idx op.node
  | .delete => do
    deleteNodeTxn idx op.node.node
    return true
  | .deleteCAS => deleteNodeCASTxn idx op.node.modifyIndex op.node.node
  | .unknown _ => return false

def TxnServiceOp.counterpart (idx : Nat) (op : TxnServiceOp) : StoreTxn Bool :=
  match op.verb with
  | .get => do
    let service ← getNodeServiceTxn op.node op.service.id
    return service.isSome
  | .set => do
    ensureServiceTxn idx op.node op.service
    return true
  | .cas => ensureServiceCASTxn idx op.node op.service
  | .delete => do
    deleteServiceTxn idx op.node op.service.id
    return true
  | .deleteCAS => deleteServiceCASTxn idx op.service.modifyIndex op.node op.service.id
  | .unknown _ => return false

def TxnCheckOp.counterpart (idx : Nat) (op : TxnCheckOp) : StoreTxn Bool :=
  match op.verb with
  | .get => Txn.read fun s => (checkRow op.check.node op.check.checkID s).isSome
  | .set => do
    ensureCheckTxn idx op.check
    return true
  | .cas => ensureCheckCASTxn idx op.check
  | .delete => do
    deleteCheckTxn idx op.check.node op.check.checkID
    return true
  | .deleteCAS => deleteCheckCASTxn idx op.check.modifyIndex op.check.node op.check.checkID
  | .unknown _ => return false

def TxnOp.counterpart (idx : Nat) (op : TxnOp) : StoreTxn Bool :=
  match op.kv, op.intention, op.node, op.service, op.check with
  | some kv, _, _, _, _ => kv.counterpart idx
  | none, some ixn, _, _, _ => ixn.counterpart idx
  | none, none, some node, _, _ => node.counterpart idx
  | none, none, none, some service, _ => service.counterpart idx
  | none, none, none, none, some check => check.counterpart idx
  | none, none, none, none, none => return false

/-! ## When an error is lost -/

/-- A check-and-set of a node whose index matches loses its error, unless the ID is malformed:
then the read after it fails too. -/
def TxnNodeOp.LosesError (op : TxnNodeOp) (s : State) : Prop :=
  op.verb = .cas ∧
    casRefuses op.node.modifyIndex ((nodeRow op.node.node s).map (·.modifyIndex)) = false ∧
    ¬ op.node.Storable s ∧ (op.node.id ≠ "" → ∃ bytes, parseUUID op.node.id = .ok bytes)

def TxnServiceOp.LosesError (op : TxnServiceOp) (s : State) : Prop :=
  (op.verb = .set ∨ op.verb = .cas ∧ casRefuses op.service.modifyIndex
    ((serviceRow op.node op.service.id s).map (·.modifyIndex)) = false) ∧
    ¬ op.service.Storable op.node s

def TxnCheckOp.LosesError (op : TxnCheckOp) (s : State) : Prop :=
  op.verb = .cas ∧ casRefuses op.check.modifyIndex
    ((checkRow op.check.node op.check.checkID s).map (·.modifyIndex)) = false ∧
    ¬ op.check.Storable s

/-- An operation that fails alone but not in a transaction. -/
def TxnOp.LosesError (op : TxnOp) (s : State) : Prop :=
  match op.kv, op.intention, op.node, op.service, op.check with
  | none, none, some node, _, _ => node.LosesError s
  | none, none, none, some service, _ => service.LosesError s
  | none, none, none, none, some check => check.LosesError s
  | _, _, _, _, _ => False

/-! ## One operation -/

/-- Both crash the server. -/
def BothCrash {α : Type} (m : StoreTxn α) (c : StoreTxn Bool) (s : State) : Prop :=
  ∃ text, (m s).1 = .error (.panic text) ∧ (c s).1 = .error (.panic text)

/-- `m` returns a value exactly when `c` counts, and an error otherwise, unless both crash. -/
def Agrees {α : Type} (m : StoreTxn α) (c : StoreTxn Bool) (s : State) : Prop :=
  ((∃ r, (m s).1 = .ok r) ∧ (c s).1 = .ok true) ∨
    ((∃ text, (m s).1 = .error (.error text)) ∧ (c s).1 ≠ .ok true) ∨ BothCrash m c s

/-- `m` returns a value although `c` does not count, unless both crash. -/
def Loses {α : Type} (m : StoreTxn α) (c : StoreTxn Bool) (s : State) : Prop :=
  ((∃ r, (m s).1 = .ok r) ∧ (c s).1 ≠ .ok true) ∨ BothCrash m c s

section Agrees

variable {α β : Type} {m : StoreTxn β} {k : β → StoreTxn α} {c : StoreTxn Bool}

theorem agrees_of_result (good : β → Bool)
    (hc : (c s).1 = ((m >>= fun b => (pure (good b) : StoreTxn Bool)) s).1)
    (hgood : ∀ b s', m s = (.ok b, s') → good b = true → ∃ r, (k b s').1 = .ok r)
    (hbad : ∀ b s', m s = (.ok b, s') → good b = false → ∃ text, (k b s').1 = .error (.error text))
    : Agrees (m >>= k) c s := by
  unfold Agrees BothCrash
  rw [hc]
  rcases hrun : m s with ⟨(text | text) | b, s'⟩
  · rw [bind_of_error hrun, bind_of_error hrun]
    exact .inr (.inl ⟨⟨text, rfl⟩, by simp⟩)
  · rw [bind_of_error hrun, bind_of_error hrun]
    exact .inr (.inr ⟨text, rfl, rfl⟩)
  · rw [bind_of_ok hrun, bind_of_ok hrun]
    cases hb : good b with
    | true => exact .inl ⟨hgood b s' hrun hb, rfl⟩
    | false => exact .inr (.inl ⟨hbad b s' hrun hb, nofun⟩)

theorem agrees_of_run (hk : ∀ b s', m s = (.ok b, s') → ∃ r, (k b s').1 = .ok r) :
    Agrees (m >>= k) (m >>= fun _ => pure true) s :=
  agrees_of_result (fun _ => true) rfl (fun b s' h _ => hk b s' h) nofun

theorem agrees_of_bool {m : StoreTxn Bool} {k : Bool → StoreTxn α}
    (hgood : ∀ s', ∃ r, (k true s').1 = .ok r)
    (hbad : ∀ s', ∃ text, (k false s').1 = .error (.error text)) : Agrees (m >>= k) m s := by
  refine agrees_of_result id ?_ (fun b s' _ hb => ?_) fun b s' _ hb => ?_
  · rcases hrun : m s with ⟨e | b, s'⟩
    · rw [bind_of_error hrun]
    · rw [bind_of_ok hrun]
      rfl
  · obtain rfl : b = true := hb
    exact hgood s'
  · obtain rfl : b = false := hb
    exact hbad s'

theorem agrees_of_option {m : StoreTxn (Option β)} {k : Option β → StoreTxn α}
    (hsome : ∀ b s', ∃ r, (k (some b) s').1 = .ok r)
    (hnone : ∀ s', ∃ text, (k none s').1 = .error (.error text)) :
    Agrees (m >>= k) (m >>= fun o => pure o.isSome) s := by
  refine agrees_of_result Option.isSome rfl (fun o s' _ ho => ?_) fun o s' _ ho => ?_
  · obtain ⟨b, rfl⟩ := Option.isSome_iff_exists.mp ho
    exact hsome b s'
  · rw [Option.isSome_eq_false_iff, Option.isNone_iff_eq_none] at ho
    subst ho
    exact hnone s'

end Agrees

/-! ### Keys -/

theorem kvsSetTxn_noCrash (e : DirEntry) (u : Bool) : NoCrash (kvsSetTxn idx e u) s := by
  refine .bind (.read _) fun old s1 => .ite (.pure _) ?_
  exact .bind (.wrap (.insert _ _)) fun _ _ => .bind setIndex_noCrash fun _ _ => .pure _

theorem kvsDeleteTxn_noCrash (k : Key) : NoCrash (kvsDeleteTxn idx k) s := by
  intro text
  rw [kvsDeleteTxn_eq]
  simp

theorem kvsSetCASTxn_noCrash (e : DirEntry) : NoCrash (kvsSetCASTxn idx e) s :=
  .bind (.read _) fun _ _ => .ite (.pure _) (.bind (kvsSetTxn_noCrash _ _) fun _ _ => .pure _)

theorem kvsLockTxn_noCrash (e : DirEntry) : NoCrash (kvsLockTxn idx e) s := by
  refine .ite (.fail _) (.bind (.wrap (.ofExcept _)) fun u _ => .bind (.read _) fun sess _ => ?_)
  cases sess with
  | none => exact .fail _
  | some sess =>
    refine .bind (.read _) fun old _ => ?_
    cases lockedEntry idx e old with
    | none => exact .pure _
    | some locked => exact .bind (kvsSetTxn_noCrash _ _) fun _ _ => .pure _

theorem kvsUnlockTxn_noCrash (e : DirEntry) : NoCrash (kvsUnlockTxn idx e) s := by
  refine .ite (.fail _) (.bind (.read _) fun old _ => ?_)
  cases old with
  | none => exact .pure _
  | some old => exact .ite (.pure _) (.bind (kvsSetTxn_noCrash _ _) fun _ _ => .pure _)

theorem kvsDeleteCASTxn_noCrash (cidx : Nat) (k : Key) :
    NoCrash (kvsDeleteCASTxn idx cidx k) s := by
  refine .bind (.read _) fun o _ => ?_
  cases o with
  | none => exact .pure _
  | some e => exact .ite (.pure _) (.bind (kvsDeleteTxn_noCrash _) fun _ _ => .pure _)

/-- What is left of a set, a lock or an unlock: an entry is written, or nothing is done. -/
def WroteOrKept (s : State) (r : Except Fault (Option DirEntry)) (s' : State) : Prop :=
  (∃ e, r = .ok (some e)) ∨ s' = s

theorem kvsSetTxn_wroteOrKept (e : DirEntry) (u : Bool) :
    wp (do
      let r ← kvsSetTxn idx e u
      return some r) (WroteOrKept s) s := by
  rw [wp_bind]
  rcases kvsSetTxn_cases idx e u s with ⟨h, -⟩ | ⟨text, -, h⟩ | ⟨-, h⟩ <;> rw [wp_of_eq h]
  · exact .inl ⟨_, rfl⟩
  · exact .inr rfl
  · exact .inl ⟨_, rfl⟩

theorem kvsSetCASTxn_wroteOrKept (e : DirEntry) : wp (kvsSetCASTxn idx e) (WroteOrKept s) s := by
  unfold kvsSetCASTxn
  rw [wp_bind, wp_read, andThen_ok]
  split
  · exact .inr rfl
  · exact kvsSetTxn_wroteOrKept e false

theorem kvsLockTxn_wroteOrKept (e : DirEntry) : wp (kvsLockTxn idx e) (WroteOrKept s) s := by
  unfold kvsLockTxn
  split
  · exact .inr rfl
  · rw [wp_bind, wp_wrap]
    cases uuidArg e.session with
    | error text => exact .inr rfl
    | ok u =>
      simp only [Txn.ofExcept, wp_pure, annotate_ok, andThen_ok, wp_bind,
        wp_read]
      cases s.sessions.first u with
      | none => exact .inr rfl
      | some sess =>
        simp only [wp_bind, wp_read, andThen_ok]
        cases lockedEntry idx e (s.kvs.first e.key) with
        | none => exact .inr rfl
        | some locked => exact kvsSetTxn_wroteOrKept locked true

theorem kvsUnlockTxn_wroteOrKept (e : DirEntry) : wp (kvsUnlockTxn idx e) (WroteOrKept s) s := by
  unfold kvsUnlockTxn
  split
  · exact .inr rfl
  · rw [wp_bind, wp_read, andThen_ok]
    cases s.kvs.first e.key with
    | none => exact .inr rfl
    | some old =>
      dsimp only
      split
      · exact .inr rfl
      · exact kvsSetTxn_wroteOrKept _ true

theorem KeyOp.run_atomic (ko : KeyOp) (idx : Nat) (s : State) :
    wp (ko.run idx) (fun r s' => r = .ok true ∨ s' = s) s := by
  have hwrote {m : StoreTxn (Option DirEntry)} (h : wp m (WroteOrKept s) s) :
      wp (do
        let o ← m
        return o.isSome) (fun r s' => r = .ok true ∨ s' = s) s := by
    rw [wp_bind]
    refine wp_mono h ?_
    rintro (f | o) s' (⟨e, he⟩ | rfl)
    · cases he
    · exact .inr rfl
    · cases he
      exact .inl rfl
    · exact .inr rfl
  cases ko with
  | set e =>
    rw [run, wp_bind]
    rcases kvsSetTxn_cases idx e false s with ⟨h, -⟩ | ⟨text, -, h⟩ | ⟨-, h⟩ <;> rw [wp_of_eq h]
    · exact .inl rfl
    · exact .inr rfl
    · exact .inl rfl
  | cas e => exact hwrote (kvsSetCASTxn_wroteOrKept e)
  | lock e => exact hwrote (kvsLockTxn_wroteOrKept e)
  | unlock e => exact hwrote (kvsUnlockTxn_wroteOrKept e)
  | delete k =>
    rw [run, wp_bind, wp_of_eq (kvsDeleteTxn_eq idx k s)]
    exact .inl rfl
  | deleteCAS cidx k =>
    rw [run, kvsDeleteCASTxn, wp_bind, wp_read, andThen_ok]
    cases s.kvs.first k with
    | none => exact .inl rfl
    | some e =>
      dsimp only
      split
      · exact .inr rfl
      · rw [wp_bind, wp_of_eq (kvsDeleteTxn_eq idx k s)]
        exact .inl rfl
  | deleteTree p =>
    rw [run, wp_bind, wp_of_eq (kvsDeleteTreeTxn_eq idx p s)]
    exact .inl rfl
  | reap n =>
    rw [run, wp_bind, wp_of_eq (reapTombstonesTxn_eq n s)]
    exact .inl rfl

theorem KeyOp.run_sound (hs : Sound s) (ko : KeyOp) : Sound (ko.run idx s).2 := by
  rcases ko.run_atomic idx s with h | h
  · have hrun : ko.run idx s = (.ok true, (ko.run idx s).2) := by
      rw [← h]
    exact (KeyOp.change hrun).sound hs
  · rw [h]
    exact hs

theorem txnKVS_state {op : TxnKVOp} {ko : KeyOp} (hk : op.keyOp = some ko) (s : State) :
    (txnKVS idx op s).2 = (ko.run idx s).2 := by
  have hlast {α β : Type} {m : StoreTxn α} {k : α → StoreTxn β} (h : ∀ a s, (k a s).2 = s) :
      ((m >>= k) s).2 = (m s).2 := by
    rcases hrun : m s with ⟨f | a, s'⟩
    · rw [bind_of_error hrun]
    · rw [bind_of_ok hrun, h]
  have hwritten (text : String) (o : Option DirEntry) (s : State) : (writtenOr text o s).2 = s := by
    cases o <;> rfl
  obtain ⟨verb, e⟩ := op
  cases verb <;> cases hk
  case set | delete | deleteTree =>
    exact (hlast fun _ _ => rfl).trans (hlast fun _ _ => rfl).symm
  case cas | lock | unlock =>
    exact (hlast fun _ _ => hwritten _ _ _).trans (hlast fun _ _ => rfl).symm
  case deleteCAS =>
    refine hlast fun b s => ?_
    cases b <;> rfl

theorem txnKVS_sound (hs : Sound s) (op : TxnKVOp) : Sound (txnKVS idx op s).2 := by
  cases hk : op.keyOp with
  | some ko =>
    rw [txnKVS_state hk]
    exact ko.run_sound hs
  | none =>
    rw [(txnKVS_looks hk).state]
    exact hs

theorem txnKVS_rows (op : TxnKVOp) : SameRows s (txnKVS idx op s).2 := by
  cases hk : op.keyOp with
  | some ko =>
    rw [txnKVS_state hk]
    have hrun : wp (ko.run idx) _ s := KeyOp.run_atomic ko idx s
    rcases hrun with hok | hkept
    · have hcat := (KeyOp.change (Prod.ext hok rfl)).sameCatalog
      unfold SameRows State.catalog
      rw [hcat.nodes, hcat.services, hcat.checks]
    · rw [hkept]
      rfl
  | none => exact congrArg State.catalog ((txnKVS_looks hk).state s)

theorem txnKVS_agrees (op : TxnKVOp) : Agrees (txnKVS idx op) (op.counterpart idx) s := by
  obtain ⟨verb, e⟩ := op
  cases verb with
  | set | delete | deleteTree | checkSession | checkIndex =>
    exact agrees_of_run fun _ _ _ => ⟨_, rfl⟩
  | deleteCAS => exact agrees_of_bool (fun _ => ⟨_, rfl⟩) fun _ => ⟨_, rfl⟩
  | cas | lock | unlock | get => exact agrees_of_option (fun _ _ => ⟨_, rfl⟩) fun _ => ⟨_, rfl⟩
  | checkNotExists =>
    refine agrees_of_result (m := Txn.read fun s => (kvsGetTxn e.key s).2) Option.isNone rfl
      (fun o _ _ ho => ?_) fun o _ _ ho => ?_
    all_goals
      cases o <;> cases ho
      exact ⟨_, rfl⟩
  | getTree => exact .inl ⟨⟨_, rfl⟩, rfl⟩
  | unknown text => exact .inr (.inl ⟨⟨_, rfl⟩, by simp [TxnKVOp.counterpart, pure]⟩)

/-! ### Intentions -/

theorem txnIntention_agrees (op : TxnIntentionOp) :
    Agrees (txnIntention idx op) (op.counterpart idx) s := by
  obtain ⟨verb, x⟩ := op
  cases verb with
  | create | update | delete => exact agrees_of_run fun _ _ _ => ⟨_, rfl⟩
  | unknown text => exact .inr (.inl ⟨⟨_, rfl⟩, by simp [TxnIntentionOp.counterpart, pure]⟩)

/-! ### Nodes, services and checks -/

inductive CasRun (cas : StoreTxn Bool) (refuses : Bool) (storable : Prop) (s : State) : Prop
  | stale (hrefuses : refuses = true) (hrun : cas s = (.ok false, s))
  | stored {s' : State} (hrefuses : refuses = false) (hst : storable)
      (hrun : cas s = (.ok true, s'))
  | failed {text : String} {s' : State} (hrefuses : refuses = false) (hst : ¬ storable)
      (hrun : cas s = (.error (.error text), s'))
  | crashed {text : String} {s' : State} (hrun : cas s = (.error (.panic text), s'))

section Cas

variable {cas : StoreTxn Bool} {refuses : Bool} {storable : Prop}

theorem casRun_of_ensure (ensure : StoreTxn Unit) (hcas : cas s =
      (if refuses then pure false else ensure >>= fun _ => pure true : StoreTxn Bool) s)
    (hensure : NoCrash ensure s → (ensure s).1 = .ok () ∧ storable ∨
      ∃ text, (ensure s).1 = .error (.error text) ∧ ¬ storable) :
    CasRun cas refuses storable s := by
  cases refuses with
  | true => exact .stale rfl hcas
  | false =>
    unfold NoCrash at hensure
    rcases hrun : ensure s with ⟨(text | text) | _, s'⟩ <;> rw [hrun] at hensure
    · have hst : ¬ storable := by simpa using hensure
      exact .failed rfl hst (hcas.trans (bind_of_error hrun))
    · exact .crashed (hcas.trans (bind_of_error hrun))
    · have hst : storable := by simpa using hensure
      exact .stored rfl hst (hcas.trans (bind_of_ok hrun))

variable {α : Type} {k : Except String Bool → StoreTxn α}

theorem bothCrash_of_attempt {text : String} {s' : State}
    (h : cas s = (.error (.panic text), s')) : BothCrash (Txn.attempt cas >>= k) cas s := by
  unfold BothCrash
  rw [bind_of_error (attempt_of_panic h), h]
  exact ⟨text, rfl, rfl⟩

theorem CasRun.agrees (h : CasRun cas refuses storable s)
    (hstale : ∀ s', ∃ text, (k (.ok false) s').1 = .error (.error text))
    (hstored : storable → ∀ s', ∃ r, (k (.ok true) s').1 = .ok r)
    (hfailed : refuses = false → ¬ storable →
      ∀ e s', ∃ text, (k (.error e) s').1 = .error (.error text)) :
    Agrees (Txn.attempt cas >>= k) cas s := by
  unfold Agrees
  cases h with
  | stale _ hrun =>
    rw [bind_of_ok (attempt_of_ok hrun), hrun]
    exact .inr (.inl ⟨hstale s, by simp⟩)
  | stored _ hst hrun =>
    rw [bind_of_ok (attempt_of_ok hrun), hrun]
    exact .inl ⟨hstored hst _, rfl⟩
  | failed hrefuses hst hrun =>
    rw [bind_of_ok (attempt_of_error hrun), hrun]
    exact .inr (.inl ⟨hfailed hrefuses hst _ _, by simp⟩)
  | crashed hrun => exact .inr (.inr (bothCrash_of_attempt hrun))

theorem CasRun.loses (h : CasRun cas refuses storable s) (hrefuses : refuses = false)
    (hst : ¬ storable) (hfailed : ∀ e s', ∃ r, (k (.error e) s').1 = .ok r) :
    Loses (Txn.attempt cas >>= k) cas s := by
  cases h with
  | stale htrue _ =>
    rw [hrefuses] at htrue
    cases htrue
  | stored _ hyes _ => exact absurd hyes hst
  | failed _ _ hrun =>
    unfold Loses
    rw [bind_of_ok (attempt_of_error hrun), hrun]
    exact .inl ⟨hfailed _ _, by simp⟩
  | crashed hrun => exact .inr (bothCrash_of_attempt hrun)

end Cas

theorem ensureNodeCASTxn_run (hs : Sound s) (node : Node) :
    CasRun (ensureNodeCASTxn idx node)
      (casRefuses node.modifyIndex ((nodeRow node.node s).map (·.modifyIndex)))
      (node.Storable s) s := by
  refine casRun_of_ensure (ensureNodeTxn idx node) ?_ fun hcrash =>
    (ensureNodeTxn_outcome hs hcrash).1.2
  unfold ensureNodeCASTxn
  rw [bind_of_ok (m := Txn.read (nodeRow node.node)) rfl]

theorem ensureServiceCASTxn_run (node : String) (svc : NodeService) :
    CasRun (ensureServiceCASTxn idx node svc)
      (casRefuses svc.modifyIndex ((serviceRow node svc.id s).map (·.modifyIndex)))
      (svc.Storable node s) s := by
  refine casRun_of_ensure (ensureServiceTxn idx node svc) ?_ fun _ =>
    (ensureServiceTxn_spec (p := .any) node svc s).result
  unfold ensureServiceCASTxn
  rw [bind_of_ok (m := Txn.read (serviceRow node svc.id)) rfl]

theorem ensureCheckCASTxn_run (hs : Sound s) (hc : HealthCheck) :
    CasRun (ensureCheckCASTxn idx hc)
      (casRefuses hc.modifyIndex ((checkRow hc.node hc.checkID s).map (·.modifyIndex)))
      (hc.Storable s) s := by
  refine casRun_of_ensure (ensureCheckTxn idx hc) ?_ fun _ =>
    (ensureCheckTxn_outcome hs hc).1.2
  unfold ensureCheckCASTxn
  rw [bind_of_ok (m := Txn.read (checkRow hc.node hc.checkID)) rfl]

theorem txnGetNode_cases (node : Node) (s : State) :
    ((node.id ≠ "" → ∃ bytes, parseUUID node.id = .ok bytes) ∧
        ∃ n, txnGetNode node s = (.ok n, s)) ∨
      (¬ (node.id ≠ "" → ∃ bytes, parseUUID node.id = .ok bytes) ∧
        ∃ text, txnGetNode node s = (.error (.error text), s)) := by
  unfold txnGetNode
  by_cases hid : node.id = ""
  · left
    rw [if_neg (not_not.mpr hid)]
    exact ⟨fun h => absurd hid h, _, rfl⟩
  · rw [if_pos hid]
    unfold getNodeIDTxn
    cases hparse : parseUUID node.id with
    | error text => exact .inr ⟨by simp [hid], _, rfl⟩
    | ok bytes => exact .inl ⟨fun _ => ⟨bytes, rfl⟩, _, rfl⟩

theorem Node.Storable.id {node : Node} (h : node.Storable s) :
    node.id ≠ "" → ∃ bytes, parseUUID node.id = .ok bytes := by
  intro hid
  rcases h.2 with hempty | ⟨bytes, hparse, -⟩
  · exact absurd hempty hid
  · exact ⟨bytes, hparse⟩

theorem txnNode_readBack {node : Node}
    (h : node.id ≠ "" → ∃ bytes, parseUUID node.id = .ok bytes) (s : State) :
    ∃ r, ((do return (← txnGetNode node).toList.map TxnResult.node : StoreTxn _) s).1 = .ok r := by
  rcases txnGetNode_cases node s with ⟨-, n, hrun⟩ | ⟨hbad, -⟩
  · rw [bind_of_ok hrun]
    exact ⟨_, rfl⟩
  · exact absurd h hbad

theorem txnNode_agrees (hs : Sound s) {op : TxnNodeOp} (h : ¬ op.LosesError s) :
    Agrees (txnNode idx op) (op.counterpart idx) s := by
  obtain ⟨verb, node⟩ := op
  cases verb with
  | get => exact agrees_of_option (fun _ _ => ⟨_, rfl⟩) fun _ => ⟨_, rfl⟩
  | set =>
    refine agrees_of_run fun _ s' hrun => ?_
    have hout := ensureNodeTxn_outcome hs (.of_ok (congrArg Prod.fst hrun))
    rw [wp_of_eq hrun] at hout
    rcases hout.1.2 with ⟨-, hst⟩ | ⟨_, herr, -⟩
    · exact txnNode_readBack hst.id s'
    · cases herr
  | cas =>
    refine (ensureNodeCASTxn_run hs node).agrees (fun _ => ⟨_, rfl⟩)
      (fun hst => txnNode_readBack hst.id) fun hrefuses hst e s' => ?_
    rcases txnGetNode_cases node s' with ⟨hid, -⟩ | ⟨-, text, hrun⟩
    · exact absurd ⟨rfl, hrefuses, hst, hid⟩ h
    · exact ⟨text, congrArg Prod.fst (bind_of_error hrun)⟩
  | delete => exact agrees_of_run fun _ _ _ => ⟨_, rfl⟩
  | deleteCAS => exact agrees_of_bool (fun _ => ⟨_, rfl⟩) fun _ => ⟨_, rfl⟩
  | unknown text => exact .inr (.inl ⟨⟨_, rfl⟩, by simp [TxnNodeOp.counterpart, pure]⟩)

theorem txnNode_loses (hs : Sound s) {op : TxnNodeOp} (h : op.LosesError s) :
    Loses (txnNode idx op) (op.counterpart idx) s := by
  obtain ⟨verb, node⟩ := op
  obtain ⟨rfl, hrefuses, hst, hid⟩ := h
  exact (ensureNodeCASTxn_run hs node).loses hrefuses hst fun _ => txnNode_readBack hid

theorem txnService_agrees {op : TxnServiceOp} (h : ¬ op.LosesError s) :
    Agrees (txnService idx op) (op.counterpart idx) s := by
  obtain ⟨verb, node, svc⟩ := op
  cases verb with
  | get => exact agrees_of_option (fun _ _ => ⟨_, rfl⟩) fun _ => ⟨_, rfl⟩
  | set =>
    have hst : svc.Storable node s := by
      by_contra hst
      exact h ⟨.inl rfl, hst⟩
    have hspec : ServiceOutcome idx .any node svc s _ _ := ensureServiceTxn_spec node svc s
    rcases hspec.result with ⟨hok, -⟩ | ⟨_, -, hno⟩
    · have hrun : ensureServiceTxn idx node svc s =
          (.ok (), (ensureServiceTxn idx node svc s).2) := by
        rw [← hok]
      refine .inl ⟨?_, ?_⟩
      · simp only [txnService]
        rw [bind_of_ok (attempt_of_ok hrun)]
        exact ⟨_, rfl⟩
      · simp only [TxnServiceOp.counterpart]
        rw [bind_of_ok hrun]
        rfl
    · exact absurd hst hno
  | cas =>
    refine (ensureServiceCASTxn_run node svc).agrees (fun _ => ⟨_, rfl⟩) (fun _ _ => ⟨_, rfl⟩)
      fun hrefuses hst => ?_
    exact absurd ⟨.inr ⟨rfl, hrefuses⟩, hst⟩ h
  | delete => exact agrees_of_run fun _ _ _ => ⟨_, rfl⟩
  | deleteCAS => exact agrees_of_bool (fun _ => ⟨_, rfl⟩) fun _ => ⟨_, rfl⟩
  | unknown text => exact .inr (.inl ⟨⟨_, rfl⟩, by simp [TxnServiceOp.counterpart, pure]⟩)

theorem txnService_loses {op : TxnServiceOp} (h : op.LosesError s) :
    Loses (txnService idx op) (op.counterpart idx) s := by
  obtain ⟨verb, node, svc⟩ := op
  obtain ⟨hverb, hst⟩ := h
  rcases hverb with rfl | ⟨rfl, hrefuses⟩
  · have hspec : ServiceOutcome idx .any node svc s _ _ := ensureServiceTxn_spec node svc s
    rcases hspec.result with ⟨-, hyes⟩ | ⟨text, herr, -⟩
    · exact absurd hyes hst
    · have hrun : ensureServiceTxn idx node svc s =
          (.error (.error text), (ensureServiceTxn idx node svc s).2) := by
        rw [← herr]
      refine .inl ⟨?_, ?_⟩
      · simp only [txnService]
        rw [bind_of_ok (attempt_of_error hrun)]
        exact ⟨_, rfl⟩
      · simp only [TxnServiceOp.counterpart]
        rw [bind_of_error hrun]
        simp
  · exact (ensureServiceCASTxn_run node svc).loses hrefuses hst fun _ _ => ⟨_, rfl⟩

theorem txnCheck_agrees (hs : Sound s) {op : TxnCheckOp} (h : ¬ op.LosesError s) :
    Agrees (txnCheck idx op) (op.counterpart idx) s := by
  obtain ⟨verb, hc⟩ := op
  cases verb with
  | get => exact agrees_of_option (fun _ _ => ⟨_, rfl⟩) fun _ => ⟨_, rfl⟩
  | set => exact agrees_of_run fun _ _ _ => ⟨_, rfl⟩
  | cas =>
    refine (ensureCheckCASTxn_run hs hc).agrees (fun _ => ⟨_, rfl⟩) (fun _ _ => ⟨_, rfl⟩)
      fun hrefuses hst => ?_
    exact absurd ⟨rfl, hrefuses, hst⟩ h
  | delete => exact agrees_of_run fun _ _ _ => ⟨_, rfl⟩
  | deleteCAS => exact agrees_of_bool (fun _ => ⟨_, rfl⟩) fun _ => ⟨_, rfl⟩
  | unknown text => exact .inr (.inl ⟨⟨_, rfl⟩, by simp [TxnCheckOp.counterpart, pure]⟩)

theorem txnCheck_loses (hs : Sound s) {op : TxnCheckOp} (h : op.LosesError s) :
    Loses (txnCheck idx op) (op.counterpart idx) s := by
  obtain ⟨verb, hc⟩ := op
  obtain ⟨rfl, hrefuses, hst⟩ := h
  exact (ensureCheckCASTxn_run hs hc).loses hrefuses hst fun _ _ => ⟨_, rfl⟩

end OpenGyoza
