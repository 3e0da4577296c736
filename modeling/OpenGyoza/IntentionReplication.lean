-- Intentions of the primary datacenter, copied to a secondary one: what has
-- to be deleted and written, cut into transactions that are applied one
-- after the other. A transaction is refused when an intention takes a source
-- and a destination that another one still has.
import OpenGyoza.Replication
import OpenGyoza.CatalogSteps
import OpenGyoza.TxnOps

namespace OpenGyoza

open Memdb Replication Txn Table List Intention

/-! ## The difference and its transactions -/

def raftWarnSize : Nat := 1024 * 1024

def maxIntentionTxnSize : Nat := raftWarnSize / 4

/-- An estimate of the bytes of an encoded intention. -/
def Intention.estimateSize (x : Intention) : Nat :=
  -- 36 for the ID, 16 for the raft indexes, 4 each for the precedence and the port.
  60 + x.description.utf8ByteSize + x.sourceNS.utf8ByteSize + x.sourceName.utf8ByteSize +
    x.destinationNS.utf8ByteSize + x.destinationName.utf8ByteSize + x.sourceType.utf8ByteSize +
    x.action.text.utf8ByteSize + x.defaultAddr.utf8ByteSize +
    ((pairsOf x.metadata).map fun p => p.1.utf8ByteSize + p.2.utf8ByteSize).sum

/-- The order in which intentions are listed: by precedence, then by their names. -/
def precedenceLess (a b : Intention) : Bool :=
  if a.precedence ≠ b.precedence then b.precedence < a.precedence
  else if a.sourceNS ≠ b.sourceNS then a.sourceNS < b.sourceNS
  else if a.sourceName ≠ b.sourceName then a.sourceName < b.sourceName
  else if a.destinationNS ≠ b.destinationNS then a.destinationNS < b.destinationNS
  else a.destinationName < b.destinationName

/-- What only the local side has, and what the remote side has in another form. -/
def diffIntentions (locals remotes : List Intention) : List Intention × List Intention :=
  -- Of two intentions with one ID the later one fills the map.
  let localIdx (id : String) := (locals.reverse.find? (·.id == id)).map (·.hash)
  let remoteIdx (id : String) := remotes.any (·.id == id)
  (locals.filter fun x => !remoteIdx x.id,
    remotes.filter fun x =>
      match localIdx x.id with
      | none => true
      | some existingHash => existingHash != x.hash)

def deleteIntentionOp (x : Intention) : TxnOp := { intention := some ⟨.delete, x⟩ }

def updateIntentionOp (x : Intention) : TxnOp := { intention := some ⟨.update, x⟩ }

def TxnOp.estimateSize (op : TxnOp) : Nat :=
  (op.intention.map (·.intention.estimateSize)).getD 0

def batchIntentionUpdates (deletes updates : List Intention) : List (List TxnOp) :=
  batches TxnOp.estimateSize maxIntentionTxnSize
    (deletes.map deleteIntentionOp ++ updates.map updateIntentionOp)

section Laws

variable [External]

/-- All intentions of a store, as `Intentions` lists them. -/
def State.listIntentions (s : State) : List Intention :=
  s.intentions.values.insertionSort fun a b => precedenceLess b a = false

def applyTxns (index : Nat → Nat) : Nat → List (List TxnOp) → StoreTxn (List TxnError)
  | _, [] => pure []
  | i, ops :: batches => fun s =>
    match txnRW (index i) ops s with
    | .error fault => (.error fault, s)
    | .ok (_, []) => applyTxns index (i + 1) batches (txnRWState (index i) ops s)
    | .ok (_, errors) => (.ok errors, txnRWState (index i) ops s)

/-- One round. `remotes` is the list that the primary datacenter sent. -/
def replicateIntentions (index : Nat → Nat) (remotes : List Intention) :
    StoreTxn (List TxnError) := fun s =>
  let (deletes, updates) := diffIntentions s.listIntentions remotes
  applyTxns index 0 (batchIntentionUpdates deletes updates) s

theorem replicateIntentions_eq (index : Nat → Nat) (remotes : List Intention) (s : State) :
    replicateIntentions index remotes s =
      applyTxns index 0 (batchIntentionUpdates (diffIntentions s.listIntentions remotes).1
        (diffIntentions s.listIntentions remotes).2) s := rfl

/-! ## Intentions as rows with names -/

abbrev IntentionItem := Item String (List Byte) (List Byte)

def Intention.item (x : Intention) : IntentionItem where
  id := x.id
  name := x.sourceDestination
  content := x.hash

/-- The intentions as replication sees them. -/
abbrev State.intentionItems (s : State) : Rows (List Byte) String (List Byte) (List Byte) :=
  itemsOf item s.intentions

/-- No two intentions have the same source and destination. -/
def NamesUnique (t : Table intentionKey) : Prop :=
  ∀ x ∈ t.values, ∀ y ∈ t.values, x.sourceDestination = y.sourceDestination →
    x.sourceDestination ≠ none → x = y

variable {s : State}

theorem idKey_item (x : Intention) (k : List Byte) (h : intentionKey x = .ok k) :
    idKey x.item.id = k := idKey_of_primaryUUID h

/-! ## One operation -/

/-- What an operation on an intention changes. -/
def TxnOp.edit (op : TxnOp) : Edit String (List Byte) (List Byte) :=
  match op.intention with
  | none => .remove ""
  | some ⟨.delete, x⟩ => .remove x.id
  | some ⟨_, x⟩ => .write x.item

/-- An intention may replace any row. -/
def anyRow (_ : Option IntentionItem) (_ : IntentionItem) : Prop := True

/-- An operation of a round: it deletes or writes an intention with a key. -/
inductive TxnOp.Copies : TxnOp → Prop
  | delete {x : Intention} {k : List Byte} (hk : intentionKey x = .ok k) :
      Copies (deleteIntentionOp x)
  | update {x : Intention} {k : List Byte} (hk : intentionKey x = .ok k) :
      Copies (updateIntentionOp x)

variable {k : List Byte} {x : Intention}

theorem intentionLookup_eq {id : String} (h : uuidKey id = .ok k) :
    intentionLookup id s = (.ok (s.intentions.first k), s) := by
  apply eq_of_wp
  simp [intentionLookup, uuidArg_of_uuidKey h, Txn.ofExcept]

theorem intentionDeleteTxn_eq (idx : Nat) {id : String} (hu : uuidKey id = .ok k) :
    intentionDeleteTxn idx id s = (.ok (),
      if (s.intentions.first k).isSome then s.putIntentions idx (s.intentions.erase k) else s) := by
  unfold intentionDeleteTxn
  rw [bind_of_ok (intentionLookup_eq hu)]
  cases hrow : s.intentions.first k with
  | none => rfl
  | some y =>
    apply eq_of_wp
    rw [wp_bind, wp_wrap, wp_delete Tables.intentions (key_of_first hrow) hrow]
    simp [State.putIntentions]

theorem intentionDeleteTxn_items (idx : Nat) (hk : intentionKey x = .ok k) :
    ∃ s', intentionDeleteTxn idx x.id s = (.ok (), s') ∧
      s'.intentionItems = (Edit.remove x.id).apply idKey s.intentionItems := by
  refine ⟨_, intentionDeleteTxn_eq idx (primaryUUID_eq_ok hk).2, ?_⟩
  cases hrow : s.intentions.first k with
  | none => exact itemsOf_of_first_none (idKey_item x k hk) hrow
  | some y => exact itemsOf_erase (idKey_item x k hk)

/-- The intention that a write stores. -/
def Intention.stored (x : Intention) (idx : Nat) (existing : Option Intention) : Intention :=
  { x.updatePrecedence with
    createIndex := (existing.map (·.createIndex)).getD idx
    createdAt := (existing.map (·.createdAt)).getD x.createdAt
    modifyIndex := idx
    metadata := some (x.metadata.getD .empty) }

theorem free_item_iff (hs : Proper idKey s.intentionItems) (x : Intention) :
    Free s.intentionItems x.item ↔ ∀ dup, intentionWithNames x s = some dup → dup.id = x.id := by
  unfold intentionWithNames
  cases hx : x.sourceDestination with
  | none => simp [Free, item, hx]
  | some names =>
    refine free_itemsOf_iff hs (fun y => ?_) ?_
    · simp [item, hx]
    · simp [item, hx]

theorem intentionSetTxn_cases (idx : Nat) (hk : intentionKey x = .ok k) :
    ((∀ dup, intentionWithNames x s = some dup → dup.id = x.id) ∧
        intentionSetTxn idx x s = (.ok (), s.putIntentions idx
          (s.intentions.upsert (x.stored idx (s.intentions.first k))))) ∨
      ((∃ dup, intentionWithNames x s = some dup ∧ dup.id ≠ x.id) ∧
        ∃ text, intentionSetTxn idx x s = (.error (.error text), s)) := by
  obtain ⟨hid, hu⟩ := primaryUUID_eq_ok hk
  have hkey : intentionKey (x.stored idx (s.intentions.first k)) = .ok k := hk
  unfold intentionSetTxn
  rw [if_neg hid, bind_of_ok (intentionLookup_eq hu)]
  have hread : Txn.read (intentionWithNames x) s = (.ok (intentionWithNames x s), s) := rfl
  cases hdup : intentionWithNames x s with
  | none =>
    rw [hdup] at hread
    refine .inl ⟨by simp, (bind_of_ok hread).trans
      ((bind_of_ok ((insert_eq_ok (u := ())).mpr ⟨k, hkey, rfl⟩)).trans ?_)⟩
    apply eq_of_wp
    simp [State.putIntentions]
  | some dup =>
    rw [hdup] at hread
    by_cases hsame : dup.id = x.id
    · refine .inl ⟨by simpa using hsame, (bind_of_ok hread).trans
        ((congrFun (if_neg (not_not.mpr hsame)) s).trans
          ((bind_of_ok ((insert_eq_ok (u := ())).mpr ⟨k, hkey, rfl⟩)).trans ?_))⟩
      apply eq_of_wp
      simp [State.putIntentions]
    · exact .inr ⟨⟨dup, rfl, hsame⟩, "duplicate intention found: " ++ dup.toText,
        (bind_of_ok hread).trans (congrFun (if_pos hsame) s)⟩

theorem intentionSetTxn_items (idx : Nat) (hk : intentionKey x = .ok k)
    (hs : Proper idKey s.intentionItems) :
    (Free s.intentionItems x.item ∧ ∃ s', intentionSetTxn idx x s = (.ok (), s') ∧
        s'.intentionItems = (Edit.write x.item).apply idKey s.intentionItems) ∨
      (¬ Free s.intentionItems x.item ∧
        ∃ text, intentionSetTxn idx x s = (.error (.error text), s)) := by
  rcases intentionSetTxn_cases idx hk with ⟨hfree, hrun⟩ | ⟨⟨dup, hdup, hne⟩, herror⟩
  · have hkey : intentionKey (x.stored idx (s.intentions.first k)) = .ok k := hk
    exact .inl ⟨(free_item_iff hs x).mpr hfree, _, hrun, itemsOf_upsert idKey_item hkey⟩
  · exact .inr ⟨fun hfree => hne ((free_item_iff hs x).mp hfree dup hdup), herror⟩

/-! ## Transactions -/

theorem txnOp_copies (idx : Nat) {op : TxnOp} (hop : op.Copies)
    (hs : Proper idKey s.intentionItems) :
    (op.edit.Allowed idKey anyRow s.intentionItems ∧ ∃ s', txnOp idx op s = (.ok [], s') ∧
        s'.intentionItems = op.edit.apply idKey s.intentionItems) ∨
      (¬ op.edit.Allowed idKey anyRow s.intentionItems ∧
        ∃ text, txnOp idx op s = (.error (.error text), s)) := by
  cases hop with
  | delete hk =>
    obtain ⟨s', hrun, hitems⟩ := intentionDeleteTxn_items idx hk
    exact .inl ⟨trivial, s', bind_of_ok hrun, hitems⟩
  | update hk =>
    rcases intentionSetTxn_items idx hk hs with
      ⟨hfree, s', hrun, hitems⟩ | ⟨hfree, text, hrun⟩
    · exact .inl ⟨⟨hfree, trivial⟩, s', bind_of_ok hrun, hitems⟩
    · exact .inr ⟨fun h => hfree h.1, text, bind_of_error hrun⟩

theorem txnDispatchFrom_copies {ops : List TxnOp} (hops : ∀ op ∈ ops, op.Copies)
    (hs : Proper idKey s.intentionItems) (idx i : Nat) :
    ∃ errors s', txnDispatchFrom idx i ops s = (.ok ([], errors), s') ∧
      (errors = [] ↔ Admits idKey anyRow s.intentionItems (ops.map TxnOp.edit)) ∧
      (errors = [] → s'.intentionItems = applyAll idKey s.intentionItems (ops.map TxnOp.edit)) := by
  induction ops generalizing s i with
  | nil => exact ⟨[], s, rfl, by simp [Admits], fun _ => rfl⟩
  | cons op ops ih =>
    have hrest : ∀ op ∈ ops, op.Copies := fun o ho => hops o (mem_cons_of_mem _ ho)
    rcases txnOp_copies idx (hops op mem_cons_self) hs with
      ⟨hallowed, s1, hrun, hitems⟩ | ⟨hrefused, text, hrun⟩
    · obtain ⟨errors, s', hdispatch, hiff, happly⟩ := ih hrest (hitems ▸ hs.apply hallowed) (i + 1)
      refine ⟨errors, s', ?_, ?_, fun h => ?_⟩
      · rw [txnDispatchFrom, bind_of_ok (attempt_of_ok hrun), bind_of_ok hdispatch]
        rfl
      · simp [Admits, hallowed, hiff, hitems]
      · rw [happly h, hitems]
        rfl
    · obtain ⟨errors, s', hdispatch, -, -⟩ := ih hrest hs (i + 1)
      refine ⟨{ opIndex := i, what := text } :: errors, s', ?_, ?_, by simp⟩
      · rw [txnDispatchFrom, bind_of_ok (attempt_of_error hrun), bind_of_ok hdispatch]
        rfl
      · simp [Admits, hrefused]

theorem applyTxns_copies {batches : List (List TxnOp)} (hops : ∀ op ∈ batches.flatten, op.Copies)
    (hs : Proper idKey s.intentionItems) (index : Nat → Nat) (i : Nat) :
    ∃ errors s', applyTxns index i batches s = (.ok errors, s') ∧
      (errors = [] ↔ Admits idKey anyRow s.intentionItems (batches.flatten.map TxnOp.edit)) ∧
      (errors = [] → s'.intentionItems =
        applyAll idKey s.intentionItems (batches.flatten.map TxnOp.edit)) := by
  induction batches generalizing s i with
  | nil => exact ⟨[], s, rfl, by simp [Admits], fun _ => rfl⟩
  | cons ops batches ih =>
    simp only [flatten_cons, mem_append] at hops
    simp only [flatten_cons, map_append, admits_append, applyAll_append]
    obtain ⟨errors, s1, hdispatch, hiff, happly⟩ :=
      txnDispatchFrom_copies (fun op hop => hops op (.inl hop)) hs (index i) 0
    have htxn : txnDispatch (index i) ops s = (.ok ([], errors), s1) := by
      unfold txnDispatch
      rw [bind_of_ok hdispatch]
      simp [pure]
    cases errors with
    | nil =>
      have hadmits := hiff.mp rfl
      have hproper : Proper idKey s1.intentionItems := happly rfl ▸ hadmits.proper hs
      obtain ⟨errors, s', hrun, hiff', happly'⟩ :=
        ih (fun op hop => hops op (.inr hop)) hproper (i + 1)
      refine ⟨errors, s', ?_, ?_, fun h => ?_⟩
      · simpa [applyTxns, txnRW, txnRWState, Txn.commit, htxn] using hrun
      · simp [hiff', hadmits, happly rfl]
      · rw [happly' h, happly rfl]
    | cons e errors =>
      refine ⟨e :: errors, s, ?_, ?_, by simp⟩
      · simp [applyTxns, txnRW, txnRWState, Txn.commit, htxn]
      · simp [← hiff]

/-! ## A whole round -/

/-- No local intention with the ID of `x` holds what `x` holds. -/
def Outdated (t : Table intentionKey) (x : Intention) : Prop :=
  ∀ y ∈ t.values, y.id = x.id → y.hash ≠ x.hash

def HandedOver (t : Table intentionKey) (remotes : List Intention) : Prop :=
  ∀ pre x post, remotes = pre ++ x :: post → Outdated t x →
    ∀ y ∈ t.values, y.sourceDestination = x.sourceDestination → x.sourceDestination ≠ none →
      y.id = x.id ∨ (∀ z ∈ remotes, z.id ≠ y.id) ∨ ∃ z ∈ pre, z.id = y.id ∧ z.hash ≠ y.hash

/-- The two sides hold the same intentions, by ID and content hash. -/
def SameIntentions (t : Table intentionKey) (remotes : List Intention) : Prop :=
  ∀ id hash, (∃ x ∈ t.values, x.id = id ∧ x.hash = hash) ↔
    ∃ x ∈ remotes, x.id = id ∧ x.hash = hash

theorem mem_listIntentions : x ∈ s.listIntentions ↔ x ∈ s.intentions.values :=
  (perm_insertionSort _ _).mem_iff

theorem stale_item_iff :
    Stale (fun hash => hash) s.intentionItems x.item ↔ Outdated s.intentions x := by
  exact forall_itemsOf

theorem mem_diffIntentions_deletes {remotes : List Intention} :
    x ∈ (diffIntentions s.listIntentions remotes).1 ↔
      x ∈ s.intentions.values ∧ ∀ z ∈ remotes, z.id ≠ x.id := by
  simp [diffIntentions, mem_listIntentions]

open Classical in
theorem diffIntentions_updates (s : State) (remotes : List Intention) :
    (diffIntentions s.listIntentions remotes).2 =
      remotes.filter fun x => Outdated s.intentions x := by
  refine filter_congr fun x _ => ?_
  cases hfind : s.listIntentions.reverse.find? (·.id == x.id) with
  | none =>
    have hout : Outdated s.intentions x := by
      intro y hy hid
      rw [find?_eq_none] at hfind
      exact absurd hid (by simpa using hfind y (mem_reverse.mpr (mem_listIntentions.mpr hy)))
    simp [hfind, hout]
  | some y =>
    have hmem := mem_listIntentions.mp (mem_reverse.mp (mem_of_find?_eq_some hfind))
    have hid : y.id = x.id := by simpa using find?_some hfind
    have hout : Outdated s.intentions x ↔ y.hash ≠ x.hash := by
      constructor
      · exact fun h => h y hmem hid
      · intro h z hz hzid
        rwa [row_eq_of_key idKey_item hz hmem (by simp [item, hzid, hid])]
    by_cases hhash : y.hash = x.hash <;> simp [hfind, hout, hhash]

section Round

variable {remote : Table intentionKey} {remotes : List Intention}

theorem remotes_pairwise (hl : remotes.Perm remote.values) :
    remotes.Pairwise fun x y => idKey x.id ≠ idKey y.id := by
  exact (hl.pairwise_iff fun h => h.symm).mpr (values_keys_pairwise idKey_item remote)

theorem diffIntentions_plan (hl : remotes.Perm remote.values) :
    Plan idKey (fun hash => hash) s.intentionItems (remotes.map item)
      ((diffIntentions s.listIntentions remotes).1.map (·.id))
      ((diffIntentions s.listIntentions remotes).2.map item) where
  keyed k i hk := keyed_itemsOf idKey_item hk
  keys := pairwise_map.mpr (remotes_pairwise hl)
  mem_deletes id := by
    rw [exists_itemsOf, mem_map]
    constructor
    · rintro ⟨x, hx, rfl⟩
      obtain ⟨hmem, hgone⟩ := mem_diffIntentions_deletes.mp hx
      exact ⟨⟨x, hmem, rfl⟩, by simpa [item] using hgone⟩
    · rintro ⟨⟨x, hmem, rfl⟩, hgone⟩
      exact ⟨x, mem_diffIntentions_deletes.mpr ⟨hmem, by simpa [item] using hgone⟩, rfl⟩
  updates_eq := by
    classical
    refine ⟨fun i => Stale (fun hash => hash) s.intentionItems i, ?_, fun i _ => by simp⟩
    rw [diffIntentions_updates, filter_map]
    refine congrArg _ (filter_congr fun x _ => ?_)
    simp [stale_item_iff]

theorem handsOver_items_iff :
    HandsOver (fun hash => hash) s.intentionItems (remotes.map item) ↔
      HandedOver s.intentions remotes := by
  constructor
  · intro h pre x post heq hout y hy hname hne
    have hsplit : remotes.map item =
        pre.map item ++ x.item :: post.map item := by simp [heq]
    have hrow : s.intentionItems (idKey y.id) = some y.item :=
      itemsOf_eq_some.mpr ⟨y, first_of_id idKey_item hy, rfl⟩
    rcases h _ _ _ hsplit (stale_item_iff.mpr hout) _ _ hrow hname hne with
      hid | hgone | ⟨i, hi, hid, hhash⟩
    · exact .inl hid
    · exact .inr (.inl fun z hz => hgone z.item (mem_map_of_mem hz))
    · obtain ⟨z, hz, rfl⟩ := mem_map.mp hi
      exact .inr (.inr ⟨z, hz, hid, hhash⟩)
  · intro h pre' i post' heq hstale k j hk hname hne
    obtain ⟨pre, rest, rfl, rfl, hrest⟩ := map_eq_append_iff.mp heq
    obtain ⟨x, post, rfl, rfl, rfl⟩ := map_eq_cons_iff.mp hrest
    obtain ⟨y, hy, rfl⟩ := itemsOf_eq_some.mp hk
    rcases h pre x post rfl (stale_item_iff.mp hstale) y (mem_values_of_first hy) hname hne
      with hid | hgone | ⟨z, hz, hid, hhash⟩
    · exact .inl hid
    · exact .inr (.inl fun i hi => by
        obtain ⟨z, hz, rfl⟩ := mem_map.mp hi
        exact hgone z hz)
    · exact .inr (.inr ⟨z.item, mem_map_of_mem hz, hid, hhash⟩)

theorem remotes_have_own_names (hr : NamesUnique remote) (hl : remotes.Perm remote.values) :
    (remotes.map item).Pairwise fun x y => x.name = y.name → x.name = none := by
  refine pairwise_map.mpr (List.Pairwise.imp_of_mem (fun {x y} hx hy hne hname => ?_)
    (remotes_pairwise hl))
  by_contra hsome
  exact hne (by rw [hr x (hl.mem_iff.mp hx) y (hl.mem_iff.mp hy) hname hsome])

theorem edits_of_batches (deletes updates : List Intention) :
    (batchIntentionUpdates deletes updates).flatten.map TxnOp.edit =
      (deletes.map (·.id)).map .remove ++ (updates.map item).map .write := by
  rw [batchIntentionUpdates, flatten_batches, map_append]
  simp only [map_map]
  rfl

theorem copies_of_batches (hl : remotes.Perm remote.values) {op : TxnOp}
    (h : op ∈ (batchIntentionUpdates (diffIntentions s.listIntentions remotes).1
      (diffIntentions s.listIntentions remotes).2).flatten) : op.Copies := by
  rw [batchIntentionUpdates, flatten_batches] at h
  rcases mem_append.mp h with h | h
  · obtain ⟨x, hx, rfl⟩ := mem_map.mp h
    obtain ⟨k, hk⟩ := key_of_mem (mem_diffIntentions_deletes.mp hx).1
    exact .delete hk
  · obtain ⟨x, hx, rfl⟩ := mem_map.mp h
    rw [diffIntentions_updates] at hx
    obtain ⟨k, hk⟩ := key_of_mem (hl.mem_iff.mp (mem_filter.mp hx).1)
    exact .update hk

/-- A round copies the intentions exactly when every source and destination that changes hands
is given up before it is taken. -/
theorem intentions_are_replicated_iff (index : Nat → Nat) (hs : NamesUnique s.intentions)
    (hr : NamesUnique remote) (hl : remotes.Perm remote.values) :
    (∃ s', replicateIntentions index remotes s = (.ok [], s') ∧
        SameIntentions s'.intentions remotes) ↔ HandedOver s.intentions remotes := by
  obtain ⟨errors, s', hrun, hiff, happly⟩ := applyTxns_copies
    (fun op hop => copies_of_batches hl hop) (proper_itemsOf idKey_item hs) index 0
  have hround : replicateIntentions index remotes s = (.ok errors, s') := by
    rw [replicateIntentions_eq, hrun]
  rw [edits_of_batches] at hiff happly
  have hplan := diffIntentions_plan (s := s) hl
  have herrors : errors = [] ↔ HandedOver s.intentions remotes := by
    rw [hiff, hplan.admits_iff (remotes_have_own_names hr hl) fun _ => trivial,
      handsOver_items_iff]
    exact and_iff_left fun _ _ _ _ _ _ _ => trivial
  rw [← herrors, hround]
  constructor
  · rintro ⟨s'', heq, -⟩
    exact Except.ok.inj (Prod.ext_iff.mp heq).1
  · rintro rfl
    refine ⟨s', rfl, fun id hash => ?_⟩
    have hsame := hplan.same id hash
    rw [← happly rfl, exists_itemsOf] at hsame
    simpa [item] using hsame

end Round

end Laws

section Example

attribute [local instance] ascii

def intentionFrom (id source : String) (hash : Byte) : Intention where
  id := id
  sourceNS := "default"
  sourceName := source
  destinationNS := "default"
  destinationName := "db"
  precedence := 9
  hash := [hash]

def storeOf (l : List Intention) : State :=
  { State.empty with intentions := Table.empty.putAll l }

def firstID : String := "a0000000-0000-0000-0000-000000000001"

def secondID : String := "b0000000-0000-0000-0000-000000000002"

/-- Two intentions of a secondary datacenter. -/
def beforeExchange : State :=
  storeOf [intentionFrom firstID "web" 1, intentionFrom secondID "api" 2]

/-- The primary datacenter has exchanged their sources. -/
def afterExchange : State :=
  storeOf [intentionFrom firstID "api" 3, intentionFrom secondID "web" 4]

/-- The transaction that should copy the exchange. -/
def exchangeOps : List TxnOp :=
  [updateIntentionOp (intentionFrom firstID "api" 3),
    updateIntentionOp (intentionFrom secondID "web" 4)]

theorem exchangeOps_refused :
    ¬ Admits idKey anyRow beforeExchange.intentionItems (exchangeOps.map TxnOp.edit) := by
  rintro ⟨⟨hfree, -⟩, -⟩
  have hid := hfree (idKey secondID) (intentionFrom secondID "api" 2).item (by rfl) rfl (by decide)
  exact absurd hid (by decide)

/-- Two intentions that exchange their sources are valid before and after it, but a round that
has to copy the exchange fails at every index and changes nothing. -/
theorem an_exchange_is_never_replicated :
    NamesUnique beforeExchange.intentions ∧ NamesUnique afterExchange.intentions ∧
      ∀ index, ∃ e errors, replicateIntentions index afterExchange.listIntentions beforeExchange =
        (.ok (e :: errors), beforeExchange) := by
  have hunique : NamesUnique beforeExchange.intentions := by
    unfold NamesUnique
    decide
  refine ⟨hunique, by unfold NamesUnique; decide, fun index => ?_⟩
  have hbatches : batchIntentionUpdates
      (diffIntentions beforeExchange.listIntentions afterExchange.listIntentions).1
      (diffIntentions beforeExchange.listIntentions afterExchange.listIntentions).2 =
        [exchangeOps] := by decide
  have hops : ∀ op ∈ exchangeOps, op.Copies := by
    simp only [exchangeOps, mem_cons, not_mem_nil, or_false, forall_eq_or_imp, forall_eq]
    exact ⟨.update (k := idKey firstID) (by decide), .update (k := idKey secondID) (by decide)⟩
  obtain ⟨errors, s', hrun, hiff, -⟩ :=
    txnDispatchFrom_copies hops (proper_itemsOf idKey_item hunique) (index 0) 0
  cases errors with
  | nil => exact absurd (hiff.mp rfl) exchangeOps_refused
  | cons e errors =>
    refine ⟨e, errors, ?_⟩
    have htxn : txnDispatch (index 0) exchangeOps beforeExchange = (.ok ([], e :: errors), s') := by
      unfold txnDispatch
      rw [bind_of_ok hrun]
      rfl
    rw [replicateIntentions_eq, hbatches]
    simp [applyTxns, txnRW, txnRWState, Txn.commit, htxn]

/-- The first intention gives up its source, and a new one takes it. -/
def afterHandover : List Intention :=
  [intentionFrom firstID "api" 3, intentionFrom secondID "web" 4]

theorem a_handover_is_replicated :
    ∃ s', replicateIntentions (fun i => i + 20) afterHandover
        (storeOf [intentionFrom firstID "web" 1]) = (.ok [], s') ∧
      SameIntentions s'.intentions afterHandover := by
  have hhanded : HandedOver (storeOf [intentionFrom firstID "web" 1]).intentions afterHandover := by
    rintro pre x post heq - y hy hname -
    obtain rfl : y = intentionFrom firstID "web" 1 := by
      have hvalues : (storeOf [intentionFrom firstID "web" 1]).intentions.values =
        [intentionFrom firstID "web" 1] := by decide
      simpa [hvalues] using hy
    match pre, heq with
    | [], heq =>
      obtain ⟨rfl, -⟩ := cons_eq_cons.mp heq
      exact absurd hname (by decide)
    | z :: pre, heq =>
      obtain ⟨rfl, -⟩ := cons_eq_cons.mp heq
      exact .inr (.inr ⟨_, mem_cons_self, rfl, by decide⟩)
  have hlisted : afterHandover.Perm (storeOf afterHandover).intentions.values := by decide
  exact (intentions_are_replicated_iff _ (by unfold NamesUnique; decide)
    (by unfold NamesUnique; decide) hlisted).mpr hhanded

end Example

end OpenGyoza
