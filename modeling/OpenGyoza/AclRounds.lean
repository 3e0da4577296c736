-- When a round of the access control replication may be believed: what it
-- deletes and writes, batch by batch, and when the two sides agree after a
-- round that reports success.
import OpenGyoza.AclReplication
import OpenGyoza.Keys
import OpenGyoza.SnapshotRows

namespace OpenGyoza

open Memdb Replication Txn List

section Laws

variable [External] {s : State} {responses : List (Except Fault Unit)}

/-! ## Batches -/

/-- Batches applied one after the other, with the answers to them. A refused batch leaves the
store alone. -/
inductive BatchRun {β : Type} (apply : Nat → List β → StoreTxn Unit) :
    List (List β) → List (Except Fault Unit) → State → State → Prop
  | nil (s : State) : BatchRun apply [] [] s s
  | cons {idx : Nat} {batch : List β} {batches : List (List β)}
      {responses : List (Except Fault Unit)} {s s' : State}
      (h : BatchRun apply batches responses
        (commit (apply idx batch) (fun _ => true) s) s') :
      BatchRun apply (batch :: batches) ((apply idx batch s).1 :: responses) s s'

/-- All batches were accepted. -/
def Accepted (responses : List (Except Fault Unit)) : Prop := ∀ r ∈ responses, r = .ok ()

variable {around : Surroundings} {s' : State}

theorem applyBatches_run {β : Type} {phase : Phase} {apply : Nat → List β → StoreTxn Unit}
    {redacted : β → Bool} {notices : Bool} {redactedText failedText : String} {i : Nat}
    {batches : List (List β)} {outcome : Outcome}
    (h : applyBatches around phase apply redacted notices redactedText failedText i batches s =
      ((outcome, responses), s')) :
    ∃ done rest, batches = done ++ rest ∧ BatchRun apply done responses s s' ∧
      (outcome = .finished → rest = [] ∧ (notices = true → Accepted responses)) := by
  induction batches generalizing i s responses with
  | nil =>
    cases h
    exact ⟨[], [], rfl, .nil _, fun _ => ⟨rfl, fun _ r hr => absurd hr not_mem_nil⟩⟩
  | cons batch batches ih =>
    have hone : ∀ idx, BatchRun apply [batch] [(apply idx batch s).1] s
        (commit (apply idx batch) (fun _ => true) s) := fun _ => .cons (.nil _)
    unfold applyBatches at h
    split at h
    · cases h
      exact ⟨[], _, rfl, .nil _, nofun⟩
    split at h
    · cases h
      exact ⟨[], _, rfl, .nil _, nofun⟩
    rename_i idx hraft
    dsimp only at h
    split at h
    · cases h
      exact ⟨[batch], batches, rfl, hone idx, nofun⟩
    · cases h
      exact ⟨[batch], batches, rfl, hone idx, nofun⟩
    rename_i notices _ _ hpanic hnoticed
    split at h
    · cases h
      exact ⟨[batch], batches, rfl, hone idx, nofun⟩
    rcases hrest : applyBatches around phase apply redacted notices redactedText failedText (i + 1)
      batches (commit (apply idx batch) (fun _ => true) s) with ⟨⟨outcome, later⟩, s''⟩
    rw [hrest] at h
    obtain ⟨⟨rfl, rfl⟩, rfl⟩ := h
    obtain ⟨done, rest, rfl, hrun, hend⟩ := ih hrest
    refine ⟨batch :: done, rest, rfl, .cons hrun, fun hout => ?_⟩
    refine ⟨(hend hout).1, fun hn r hr => ?_⟩
    rcases mem_cons.mp hr with rfl | hr
    · cases hresponse : (apply idx batch s).1 with
      | ok u => rfl
      | error fault =>
        cases fault with
        | error text => exact absurd hresponse (hnoticed text hn)
        | panic text => exact absurd hresponse (hpanic text)
    · exact (hend hout).2 hn r hr

section Round

variable {α : Type} {tr : ACLTypeReplicator α} {primary s : State}
  {remoteIndex lastRemoteIndex : Nat}

/-- The IDs that a round deletes and writes. -/
def roundDiff (tr : ACLTypeReplicator α) (last : Nat) (locals remotes : List α) :
    Diff String String :=
  diffACLType last ((sortState tr locals).map tr.toMeta) ((sortState tr remotes).map tr.toMeta)

theorem replicateACLType_succeeds {round : Round}
    (h : replicateACLType tr around primary remoteIndex lastRemoteIndex s = (round, s'))
    (hexit : round.exit = false) (herr : round.err = none) :
    ∃ remotes locals updated s1 rs rs',
      (tr.fetchRemote primary).1 = .ok remotes ∧ (tr.fetchLocal s).1 = .ok locals ∧
      (fetchPending tr (sortState tr remotes) (roundDiff tr
        (if remoteIndex < lastRemoteIndex then 0 else lastRemoteIndex) locals remotes).updates
        primary).1 = .ok updated ∧
      BatchRun tr.deleteLocalBatch (batches (fun _ => 1) aclBatchDeleteSize (roundDiff tr
        (if remoteIndex < lastRemoteIndex then 0 else lastRemoteIndex) locals remotes).deletes)
        rs s s1 ∧ (tr.noticesDelete = true → Accepted rs) ∧
      BatchRun tr.updateLocalBatch (batches tr.estimatedSize aclBatchUpsertSize updated)
        rs' s1 s' ∧ (tr.noticesUpdate = true → Accepted rs') ∧
      round.responses = rs ++ rs' := by
  have hfail : ∀ text responses (s0 : State), (roundError text responses, s0) ≠ (round, s') := by
    rintro text responses s0 heq
    obtain ⟨rfl, -⟩ := Prod.ext_iff.mp heq
    simp [roundError] at herr
  have hstop : ∀ responses (s0 : State), (roundExit responses, s0) ≠ (round, s') := by
    rintro responses s0 heq
    obtain ⟨rfl, -⟩ := Prod.ext_iff.mp heq
    simp [roundExit] at hexit
  unfold replicateACLType at h
  split at h
  · exact absurd h (hfail _ _ _)
  rename_i remotes hremotes
  split at h
  · exact absurd h (hstop _ _)
  split at h
  · exact absurd h (hfail _ _ _)
  rename_i locals hlocals
  dsimp only at h
  split at h
  · exact absurd h (hfail _ _ _)
  rename_i updated hupdated
  split at h
  · exact absurd h (hstop _ _)
  · exact absurd h (hfail _ _ _)
  rename_i rs s1 hdelete
  split at h
  · exact absurd h (hstop _ _)
  · exact absurd h (hfail _ _ _)
  rename_i rs' s2 hupdate
  obtain ⟨rfl, rfl⟩ := Prod.ext_iff.mp h
  obtain ⟨deleted, _, hdeleted, hdrun, hdend⟩ := applyBatches_run hdelete
  obtain ⟨rfl, hdacc⟩ := hdend rfl
  obtain ⟨written, _, hwritten, hurun, huend⟩ := applyBatches_run hupdate
  obtain ⟨rfl, huacc⟩ := huend rfl
  rw [append_nil] at hdeleted hwritten
  rw [← hdeleted] at hdrun
  rw [← hwritten] at hurun
  exact ⟨remotes, locals, updated, s1, rs, rs', hremotes, hlocals, hupdated, hdrun, hdacc, hurun,
    huacc, rfl⟩

end Round

/-- The two sides hold the same items, by ID and hash. -/
def SameItems (ls rs : List ItemMeta) : Prop :=
  ∀ id hash, id ≠ "" → ((∃ l ∈ ls, l.id = id ∧ l.hash = hash) ↔ ∃ r ∈ rs, r.id = id ∧ r.hash = hash)

/-! ## Lists that are worked off -/

/-- A relation between the items of a list and the stores before and after them that goes on
from one list to the next. -/
structure Composes {β : Type} (R : List β → State → State → Prop) : Prop where
  nil : ∀ s, R [] s s
  append : ∀ {xs ys s s₁ s'}, R xs s s₁ → R ys s₁ s' → R (xs ++ ys) s s'

section Composes

variable {β : Type} {R : List β → State → State → Prop}

theorem Composes.forEach (hR : Composes R) {set : β → StoreTxn Unit}
    (h : ∀ x s s', set x s = (.ok (), s') → R [x] s s') {xs : List β}
    (hrun : forEach xs set s = (.ok (), s')) : R xs s s' := by
  induction xs generalizing s with
  | nil =>
    obtain ⟨-, rfl⟩ := Prod.ext_iff.mp hrun
    exact hR.nil s
  | cons x xs ih =>
    obtain ⟨_, s1, hx, hxs⟩ := bind_eq_ok.mp hrun
    exact hR.append (h x s s1 hx) (ih hxs)

theorem Composes.batches (hR : Composes R) {apply : Nat → List β → StoreTxn Unit}
    (h : ∀ idx xs s s', apply idx xs s = (.ok (), s') → R xs s s') {batches : List (List β)}
    (hrun : BatchRun apply batches responses s s') (hacc : Accepted responses) :
    R batches.flatten s s' := by
  induction hrun with
  | nil s => exact hR.nil s
  | @cons idx batch batches responses s s' hrest ih =>
    obtain ⟨hbatch, hrestacc⟩ := forall_mem_cons.mp hacc
    have hok : apply idx batch s = (.ok (), (apply idx batch s).2) := Prod.ext hbatch rfl
    have hcommit : commit (apply idx batch) (fun _ => true) s = (apply idx batch s).2 := by
      rw [commit, hok]
      rfl
    exact hR.append (h idx batch s _ hok) (hcommit ▸ ih hrestacc)

end Composes

/-! ## The difference -/

omit [External] in
/-- Only items without an ID share one. -/
def IDsUnique (l : List ItemMeta) : Prop := l.Pairwise fun a b => a.id = b.id → a.id = ""

omit [External] in
theorem pairwise_lt_of_sorted {l : List ItemMeta} (hsorted : l.Pairwise fun a b => a.id ≤ b.id)
    (hunique : IDsUnique l) :
    (l.filter fun a => !(a.id == "")).Pairwise fun a b => a.id < b.id := by
  rw [pairwise_filter]
  refine (hsorted.and hunique).imp fun {a b} h ha _ => ?_
  obtain ⟨hle, heq⟩ := h
  exact lt_of_le_of_ne hle fun hab => by simp [heq hab] at ha

omit [External] in
theorem mem_diffACLType_deletes {last : Nat} {ls rs : List ItemMeta}
    (hls : ls.Pairwise fun a b => a.id ≤ b.id) (hlu : IDsUnique ls)
    (hrs : rs.Pairwise fun a b => a.id ≤ b.id) (hru : IDsUnique rs) {id : String} :
    id ∈ (diffACLType last ls rs).deletes ↔
      id ≠ "" ∧ (∃ l ∈ ls, l.id = id) ∧ ∀ r ∈ rs, r.id ≠ id := by
  unfold diffACLType
  rw [walk_eq _ _ _ _ _ (pairwise_lt_of_sorted hls hlu) (pairwise_lt_of_sorted hrs hru)]
  simp only [mem_map, mem_filter, Bool.and_eq_true, Bool.not_eq_true', beq_eq_false_iff_ne,
    lacks, all_eq_true, Bool.or_eq_true, beq_iff_eq, bne_iff_ne]
  constructor
  · rintro ⟨l, ⟨hl, hne, hgone⟩, rfl⟩
    refine ⟨hne, ⟨l, hl, rfl⟩, fun r hr heq => ?_⟩
    rcases hgone r hr with hempty | hother
    · exact hne (heq.symm.trans hempty)
    · exact hother heq.symm
  · rintro ⟨hne, ⟨l, hl, rfl⟩, hgone⟩
    exact ⟨l, ⟨hl, hne, fun r hr => .inr (hgone r hr).symm⟩, rfl⟩

/-- No local item with the ID of `r` has its hash. -/
def HashMissing (ls : List ItemMeta) (r : ItemMeta) : Prop :=
  ∀ l ∈ ls, l.id = r.id → l.hash ≠ r.hash

omit [External] in
theorem diffACLType_updates (last : Nat) {ls rs : List ItemMeta}
    (hls : ls.Pairwise fun a b => a.id ≤ b.id) (hlu : IDsUnique ls)
    (hrs : rs.Pairwise fun a b => a.id ≤ b.id) (hru : IDsUnique rs)
    (hagree : ∀ l ∈ ls, ∀ r ∈ rs, l.id = r.id → r.id ≠ "" → r.modIndex ≤ last → l.hash = r.hash) :
    ∃ p : ItemMeta → Bool, (diffACLType last ls rs).updates = (rs.filter p).map (·.id) ∧
      ∀ r ∈ rs, p r = true ↔ r.id ≠ "" ∧ HashMissing ls r := by
  unfold diffACLType
  rw [walk_eq _ _ _ _ _ (pairwise_lt_of_sorted hls hlu) (pairwise_lt_of_sorted hrs hru)]
  refine ⟨_, rfl, fun r hr => ?_⟩
  simp only [Bool.and_eq_true, Bool.not_eq_true', beq_eq_false_iff_ne, outdated, all_eq_true,
    Bool.or_eq_true, beq_iff_eq, bne_iff_ne, decide_eq_true_eq]
  refine and_congr_right fun hne => ?_
  constructor
  · intro h l hl hid
    rcases h l hl with (hempty | hother) | ⟨-, hhash⟩
    · exact absurd (hid.symm.trans hempty) hne
    · exact absurd hid hother
    · exact hhash.symm
  · intro h l hl
    by_cases hid : l.id = r.id
    · refine .inr ⟨?_, (h l hl hid).symm⟩
      by_contra hold
      exact h l hl hid (hagree l hl r hr hid hne (Nat.le_of_not_lt hold))
    · exact .inl (.inr hid)

theorem sortState_perm {α : Type} (tr : ACLTypeReplicator α) (l : List α) :
    (sortState tr l).Perm l := perm_insertionSort _ _

theorem sortState_sorted {α : Type} (tr : ACLTypeReplicator α) (l : List α) :
    ((sortState tr l).map tr.toMeta).Pairwise fun a b => a.id ≤ b.id := by
  rw [pairwise_map]
  exact pairwise_insertionSort _ _

/-! ## Items written one after the other -/

section Changes

variable {β η : Type} {items : State → Rows (List Byte) String String η}
  {edit : β → Edit String String η}
  {ok : Option (Item String String η) → Item String String η → Prop} {V : β → Prop}

/-- What `set` does is to make a change, exactly when it is allowed. -/
def MakesChange (items : State → Rows (List Byte) String String η)
    (edit : β → Edit String String η)
    (ok : Option (Item String String η) → Item String String η → Prop) (V : β → Prop)
    (set : β → StoreTxn Unit) : Prop :=
  ∀ x s, V x → Proper idKey (items s) →
    ((edit x).Allowed idKey ok (items s) ∧ ∃ s', set x s = (.ok (), s') ∧
        items s' = (edit x).apply idKey (items s)) ∨
      (¬ (edit x).Allowed idKey ok (items s) ∧ ∃ text s', set x s = (.error (.error text), s'))

/-- The same for a whole batch. -/
def MakesChanges (items : State → Rows (List Byte) String String η)
    (edit : β → Edit String String η)
    (ok : Option (Item String String η) → Item String String η → Prop) (V : β → Prop)
    (apply : List β → StoreTxn Unit) : Prop :=
  ∀ xs s, (∀ x ∈ xs, V x) → Proper idKey (items s) →
    (Admits idKey ok (items s) (xs.map edit) ∧ ∃ s', apply xs s = (.ok (), s') ∧
        items s' = applyAll idKey (items s) (xs.map edit)) ∨
      (¬ Admits idKey ok (items s) (xs.map edit) ∧
        ∃ text s', apply xs s = (.error (.error text), s'))

theorem forEach_makesChanges {set : β → StoreTxn Unit} (h : MakesChange items edit ok V set) :
    MakesChanges items edit ok V fun xs => forEach xs set := by
  intro xs
  induction xs with
  | nil => exact fun s _ _ => .inl ⟨trivial, s, rfl, rfl⟩
  | cons x xs ih =>
    intro s hV hs
    rcases h x s (hV x mem_cons_self) hs with
      ⟨hallowed, s1, hrun, hitems⟩ | ⟨hrefused, text, s1, hrun⟩
    · have hs1 : Proper idKey (items s1) := hitems ▸ hs.apply hallowed
      rcases ih s1 (fun y hy => hV y (mem_cons_of_mem _ hy)) hs1 with
        ⟨hadmits, s', hrest, happly⟩ | ⟨hadmits, text, s', hrest⟩
      · refine .inl ⟨⟨hallowed, hitems ▸ hadmits⟩, s', ?_, ?_⟩
        · exact (bind_of_ok hrun).trans hrest
        · rw [happly, hitems]
          rfl
      · refine .inr ⟨fun h => hadmits (hitems ▸ h.2), text, s', ?_⟩
        exact (bind_of_ok hrun).trans hrest
    · exact .inr ⟨fun h => hrefused h.1, text, s1, bind_of_error hrun⟩

theorem MakesChanges.withIndex {apply : List β → StoreTxn Unit}
    (h : MakesChanges items edit ok V apply)
    (hindex : ∀ (s : State) (t : Table indexKey), items { s with index := t } = items s)
    (idx : Nat) (table : String) (context : String → String) :
    MakesChanges items edit ok V
      (fun xs => apply xs >>= fun _ => wrap context (indexUpdateMaxTxn idx table)) := by
  intro xs s hV hs
  rcases h xs s hV hs with ⟨hadmits, s1, hrun, hitems⟩ | ⟨hadmits, text, s1, hrun⟩
  · refine .inl ⟨hadmits, { s1 with index := raise table idx s1.index }, ?_,
      (hindex s1 _).trans hitems⟩
    refine (bind_of_ok hrun).trans ?_
    simp [wrap, indexUpdateMaxTxn_eq]
  · exact .inr ⟨hadmits, text, s1, bind_of_error hrun⟩

theorem BatchRun.makesChanges {apply : Nat → List β → StoreTxn Unit}
    (h : ∀ idx, MakesChanges items edit ok V (apply idx)) {batches : List (List β)}
    (hrun : BatchRun apply batches responses s s') (hV : ∀ x ∈ batches.flatten, V x)
    (hs : Proper idKey (items s)) :
    (Accepted responses ↔ Admits idKey ok (items s) (batches.flatten.map edit)) ∧
      (Accepted responses → items s' = applyAll idKey (items s) (batches.flatten.map edit)) := by
  induction hrun with
  | nil s => exact ⟨⟨fun _ => trivial, fun _ r hr => absurd hr not_mem_nil⟩, fun _ => rfl⟩
  | @cons idx batch batches responses s s' hrest ih =>
    simp only [flatten_cons, mem_append] at hV
    simp only [flatten_cons, map_append, admits_append, applyAll_append]
    have hcons : Accepted ((apply idx batch s).1 :: responses) ↔
        (apply idx batch s).1 = .ok () ∧ Accepted responses := forall_mem_cons
    rcases h idx batch s (fun x hx => hV x (.inl hx)) hs with
      ⟨hadmits, s1, hbatch, hitems⟩ | ⟨hadmits, text, s1, hbatch⟩
    · have hcommit : commit (apply idx batch) (fun _ => true) s = s1 := by
        simp [commit, hbatch]
      rw [hcommit] at ih
      obtain ⟨hiff, happly⟩ := ih (fun x hx => hV x (.inr hx)) (hitems ▸ hadmits.proper hs)
      refine ⟨?_, fun hacc => ?_⟩
      · rw [hcons, hbatch, hiff, hitems]
        simp [hadmits]
      · rw [happly (hcons.mp hacc).2, hitems]
    · have hnot : ¬ Accepted ((apply idx batch s).1 :: responses) := by
        rw [hcons, hbatch]
        simp
      exact ⟨⟨fun hacc => absurd hacc hnot, fun hall => absurd hall.1 hadmits⟩,
        fun hacc => absurd hacc hnot⟩

theorem changed_composes (items : State → Rows (List Byte) String String η)
    (edit : β → Edit String String η) (V : β → Prop) :
    Composes fun xs s s' => (∀ x ∈ xs, V x) →
      items s' = applyAll idKey (items s) (xs.map edit) where
  nil _ _ := rfl
  append hx hy hV := by
    obtain ⟨hVx, hVy⟩ := forall_mem_append.mp hV
    rw [hy hVy, hx hVx, map_append, applyAll_append]

theorem withIndex_eq_ok {m : StoreTxn Unit} {context : String → String} {idx : Nat} {table : String}
    (h : (m >>= fun _ => wrap context (indexUpdateMaxTxn idx table)) s = (.ok (), s')) :
    ∃ s1 t, m s = (.ok (), s1) ∧ s' = { s1 with index := t } := by
  obtain ⟨_, s1, hm, hlast⟩ := bind_eq_ok.mp h
  rw [wrap_eq_ok, indexUpdateMaxTxn_eq] at hlast
  obtain ⟨-, rfl⟩ := Prod.ext_iff.mp hlast
  exact ⟨s1, _, hm, rfl⟩

end Changes

/-! ## Rounds for items with names -/

section Named

variable {α η : Type} {tr : ACLTypeReplicator α} {item : α → Item String String η}
  {hash : η → List Byte} {locals remotes : List α} {last : Nat}

theorem idsUnique_sortState (h : IDsUnique (locals.map tr.toMeta)) :
    IDsUnique ((sortState tr locals).map tr.toMeta) := by
  refine (((sortState_perm tr locals).map tr.toMeta).pairwise_iff ?_).mpr h
  intro a b hab heq
  rw [heq]
  exact hab heq.symm

theorem mem_sortState_map {a : ItemMeta} :
    a ∈ (sortState tr locals).map tr.toMeta ↔ a ∈ locals.map tr.toMeta :=
  ((sortState_perm tr locals).map tr.toMeta).mem_iff

theorem sortState_ids_lt (hu : IDsUnique (remotes.map tr.toMeta))
    (hne : ∀ x ∈ remotes, (tr.toMeta x).id ≠ "") :
    (sortState tr remotes).Pairwise fun x y => (tr.toMeta x).id < (tr.toMeta y).id := by
  have hlt := pairwise_lt_of_sorted (sortState_sorted tr remotes) (idsUnique_sortState hu)
  rw [filter_eq_self.mpr, pairwise_map] at hlt
  · exact hlt
  · intro a ha
    obtain ⟨x, hx, rfl⟩ := mem_map.mp (mem_sortState_map.mp ha)
    simpa using hne x hx

variable {m : Rows (List Byte) String String η}

theorem roundDiff_plan (tr : ACLTypeReplicator α) (item : α → Item String String η)
    (hash : η → List Byte) (last : Nat) (locals remotes : List α)
    (hid : ∀ x, (item x).id = (tr.toMeta x).id)
    (hhash : ∀ x, hash (item x).content = (tr.toMeta x).hash)
    (hkeyed : ∀ k y, m k = some y → idKey y.id = k) (hlocals : ∀ P : Item String String η → Prop,
      (∃ k y, m k = some y ∧ P y) ↔ ∃ x ∈ locals, P (item x))
    (hkeys : remotes.Pairwise fun x y => idKey (tr.toMeta x).id ≠ idKey (tr.toMeta y).id)
    (hlu : IDsUnique (locals.map tr.toMeta)) (hru : IDsUnique (remotes.map tr.toMeta))
    (hlne : ∀ x ∈ locals, (tr.toMeta x).id ≠ "") (hrne : ∀ x ∈ remotes, (tr.toMeta x).id ≠ "")
    (hagree : ∀ l ∈ locals, ∀ r ∈ remotes, (tr.toMeta l).id = (tr.toMeta r).id →
      (tr.toMeta r).modIndex ≤ last → (tr.toMeta l).hash = (tr.toMeta r).hash) :
    ∃ p : α → Bool,
      (roundDiff tr last locals remotes).updates =
        ((sortState tr remotes).filter p).map (fun x => (tr.toMeta x).id) ∧
      Plan idKey hash m ((sortState tr remotes).map item) (roundDiff tr last locals remotes).deletes
        (((sortState tr remotes).filter p).map item) := by
  have hsl := sortState_sorted tr locals
  have hsr := sortState_sorted tr remotes
  have hlu' := idsUnique_sortState hlu
  have hru' := idsUnique_sortState hru
  have hmem : ∀ {x}, x ∈ sortState tr remotes ↔ x ∈ remotes := (sortState_perm tr remotes).mem_iff
  obtain ⟨q, hupdates, hq⟩ := diffACLType_updates last hsl hlu' hsr hru'
    (by
      intro l hl r hr heq _ hmod
      obtain ⟨x, hx, rfl⟩ := mem_map.mp (mem_sortState_map.mp hl)
      obtain ⟨y, hy, rfl⟩ := mem_map.mp (mem_sortState_map.mp hr)
      exact hagree x hx y hy heq hmod)
  refine ⟨fun x => q (tr.toMeta x), ?_, hkeyed, ?_, fun id => ?_, ?_⟩
  · unfold roundDiff
    rw [hupdates, filter_map, map_map]
    rfl
  · rw [pairwise_map]
    simp only [hid]
    exact ((sortState_perm tr remotes).pairwise_iff fun h => h.symm).mpr hkeys
  · unfold roundDiff
    rw [mem_diffACLType_deletes hsl hlu' hsr hru', hlocals fun y => y.id = id]
    constructor
    · rintro ⟨-, ⟨l, hl, rfl⟩, hgone⟩
      obtain ⟨x, hx, rfl⟩ := mem_map.mp (mem_sortState_map.mp hl)
      refine ⟨⟨x, hx, hid x⟩, fun i hi => ?_⟩
      obtain ⟨y, hy, rfl⟩ := mem_map.mp hi
      rw [hid]
      exact hgone _ (mem_map_of_mem hy)
    · rintro ⟨⟨x, hx, rfl⟩, hgone⟩
      rw [hid] at hgone ⊢
      refine ⟨hlne x hx, ⟨_, mem_sortState_map.mpr (mem_map_of_mem hx), rfl⟩, fun r hr => ?_⟩
      obtain ⟨y, hy, rfl⟩ := mem_map.mp hr
      rw [← hid]
      exact hgone _ (mem_map_of_mem hy)
  · classical
    refine ⟨fun i => Stale hash m i, ?_, fun i _ => by simp⟩
    rw [filter_map]
    refine congrArg _ (filter_congr fun x hx => ?_)
    have hstale : Stale hash m (item x) ↔ q (tr.toMeta x) = true := by
      rw [hq _ (mem_map_of_mem hx), and_iff_right (hrne x (hmem.mp hx))]
      constructor
      · intro hs l hl heq
        obtain ⟨y, hy, rfl⟩ := mem_map.mp (mem_sortState_map.mp hl)
        obtain ⟨k, i, hk, rfl⟩ := (hlocals fun i => i = item y).mpr ⟨y, hy, rfl⟩
        have hne := hs k (item y) hk (by rw [hid, hid, heq])
        rwa [hhash, hhash] at hne
      · intro hmissing k i hk heq
        obtain ⟨y, hy, rfl⟩ := (hlocals fun j => j = i).mp ⟨k, i, hk, rfl⟩
        rw [hhash, hhash]
        exact hmissing _ (mem_sortState_map.mpr (mem_map_of_mem hy))
          (by rw [← hid, heq, hid])
    by_cases hqx : q (tr.toMeta x) = true <;> simp [hstale, hqx]

def NamesFit (hash : η → List Byte)
    (ok : Option (Item String String η) → Item String String η → Prop)
    (m : Rows (List Byte) String String η) (items : List (Item String String η)) : Prop :=
  ∀ x ∈ items, Stale hash m x →
    (∀ k y, m k = some y → y.name = x.name → y.id = x.id ∨
      ∀ z ∈ items, z.id = y.id → z.id < x.id ∧ hash z.content ≠ hash y.content) ∧
    ∀ k y, m k = some y → y.id = x.id → ok (some y) x

theorem copied_iff {ok : Option (Item String String η) → Item String String η → Prop}
    {m1 m' : Rows (List Byte) String String η} {items updates : List (Item String String η)}
    {deletes : List String} {rs rs' : List (Except Fault Unit)}
    (hplan : Plan idKey hash m items deletes updates)
    (hsorted : items.Pairwise fun x y => x.id < y.id)
    (hnames : items.Pairwise fun x y => x.name ≠ y.name) (hnamed : ∀ x ∈ items, x.name ≠ none)
    (hnew : ∀ x, ok none x) (hdeleted : Accepted rs)
    (hleft : m1 = applyAll idKey m (deletes.map .remove))
    (hwritten : (Accepted rs' ↔ Admits idKey ok m1 (updates.map .write)) ∧
      (Accepted rs' → m' = applyAll idKey m1 (updates.map .write))) :
    ((∀ id c, (∃ k y, m' k = some y ∧ y.id = id ∧ hash y.content = c) ↔
        ∃ x ∈ items, x.id = id ∧ hash x.content = c) ∧ Accepted (rs ++ rs')) ↔
      NamesFit hash ok m items := by
  subst hleft
  obtain ⟨hiff, happly⟩ := hwritten
  have hall : Accepted (rs ++ rs') ↔ Accepted rs' := by
    constructor
    · exact fun h r hr => h r (mem_append_right _ hr)
    · intro h r hr
      rcases mem_append.mp hr with hr | hr
      · exact hdeleted r hr
      · exact h r hr
  have hadmits : Accepted rs' ↔ NamesFit hash ok m items := by
    have happend : Admits idKey ok m (deletes.map .remove ++ updates.map .write) ↔
        Admits idKey ok (applyAll idKey m (deletes.map .remove)) (updates.map .write) := by
      rw [admits_append, and_iff_right (admits_removes _ _)]
    rw [hiff, ← happend, hplan.admits_iff (hnames.imp fun hne heq => absurd heq hne) hnew,
      handsOver_iff_of_sorted hsorted]
    constructor
    · rintro ⟨hnames, hoks⟩ x hx hs
      exact ⟨fun k y hk heq => hnames x hx hs k y hk heq (hnamed x hx), hoks x hx hs⟩
    · intro h
      exact ⟨fun x hx hs k y hk heq _ => (h x hx hs).1 k y hk heq, fun x hx hs => (h x hx hs).2⟩
  rw [hall, ← hadmits]
  refine ⟨fun h => h.2, fun h => ⟨fun id c => ?_, h⟩⟩
  rw [happly h, ← applyAll_append]
  exact hplan.same id c

end Named

/-! ## Kinds of items with names -/

section Kind

variable {α η : Type}

structure NamedKind (tr : ACLTypeReplicator α) (item : α → Item String String η)
    (hash : η → List Byte) (ok : Option (Item String String η) → Item String String η → Prop)
    (Good : α → Prop) (rows : State → List α)
    (items : State → Rows (List Byte) String String η) : Prop where
  id_eq : ∀ x, (item x).id = (tr.toMeta x).id
  hash_eq : ∀ x, hash (item x).content = (tr.toMeta x).hash
  named : ∀ x, (item x).name ≠ none
  new : ∀ x, ok none x
  items_iff : ∀ (s : State) (P : Item String String η → Prop),
    (∃ k y, items s k = some y ∧ P y) ↔ ∃ x ∈ rows s, P (item x)
  keyed : ∀ s k y, items s k = some y → idKey y.id = k
  keys : ∀ s, (rows s).Pairwise fun x y => idKey (item x).id ≠ idKey (item y).id
  ids : ∀ s, ∀ x ∈ rows s, (item x).id ≠ "" ∧ ∃ k, uuidKey (item x).id = .ok k
  /-- What is listed are the rows, as far as they are compared. -/
  listed : ∀ s l, (tr.fetchRemote s).1 = .ok l ∨ (tr.fetchLocal s).1 = .ok l →
    l.map item = (rows s).map item ∧ l.map tr.toMeta = (rows s).map tr.toMeta
  good : ∀ s l, (tr.fetchRemote s).1 = .ok l → (∀ x ∈ rows s, Good x) → ∀ x ∈ l, Good x
  fetched : ∀ s l remotes p updated, (tr.fetchRemote s).1 = .ok l → (∀ x ∈ remotes, x ∈ l) →
    (remotes.Pairwise fun x y => (tr.toMeta x).id < (tr.toMeta y).id) →
    (fetchPending tr remotes ((remotes.filter p).map fun x => (tr.toMeta x).id) s).1 =
      .ok updated → updated = remotes.filter p
  deleted : ∀ batches rs s s₁, BatchRun tr.deleteLocalBatch batches rs s s₁ →
    (∀ id ∈ batches.flatten, ∃ k, uuidKey id = .ok k) → Proper idKey (items s) →
    (tr.noticesDelete = true → Accepted rs) →
    Accepted rs ∧ items s₁ = applyAll idKey (items s) (batches.flatten.map .remove)
  written : ∀ idx, MakesChanges items (fun x => .write (item x)) ok Good (tr.updateLocalBatch idx)

def RowsFit (item : α → Item String String η) (hash : η → List Byte)
    (ok : Option (Item String String η) → Item String String η → Prop) (ls rs : List α) : Prop :=
  ∀ x ∈ rs, (∀ y ∈ ls, (item y).id = (item x).id → hash (item y).content ≠ hash (item x).content) →
    (∀ y ∈ ls, (item y).name = (item x).name → (item y).id = (item x).id ∨
      ∀ z ∈ rs, (item z).id = (item y).id →
        (item z).id < (item x).id ∧ hash (item z).content ≠ hash (item y).content) ∧
    ∀ y ∈ ls, (item y).id = (item x).id → ok (some (item y)) (item x)

namespace NamedKind

variable {tr : ACLTypeReplicator α} {item : α → Item String String η} {hash : η → List Byte}
  {ok : Option (Item String String η) → Item String String η → Prop} {Good : α → Prop}
  {rows : State → List α} {items : State → Rows (List Byte) String String η}

variable (kind : NamedKind tr item hash ok Good rows items)
include kind

theorem idsUnique (s : State) : IDsUnique ((rows s).map tr.toMeta) := by
  refine pairwise_map.mpr ((kind.keys s).imp fun {x y} hne heq => ?_)
  rw [kind.id_eq, kind.id_eq] at hne
  exact absurd (congrArg idKey heq) hne

theorem forall_items (s : State) (P : Item String String η → Prop) :
    (∀ k y, items s k = some y → P y) ↔ ∀ x ∈ rows s, P (item x) := by
  have h := not_congr (kind.items_iff s fun y => ¬ P y)
  push Not at h
  exact h

variable {s primary : State}

theorem namesFit_iff {remotes : List α}
    (h : ∀ i, i ∈ remotes.map item ↔ i ∈ (rows primary).map item) :
    NamesFit hash ok (items s) (remotes.map item) ↔
      RowsFit item hash ok (rows s) (rows primary) := by
  unfold NamesFit RowsFit Stale
  simp only [h, forall_mem_map]
  refine forall₂_congr fun x _ => imp_congr ?_ (and_congr ?_ ?_)
  · exact kind.forall_items s fun i => i.id = (item x).id → hash i.content ≠ hash (item x).content
  · exact kind.forall_items s fun i => i.name = (item x).name → i.id = (item x).id ∨
      ∀ z ∈ rows primary, (item z).id = i.id →
        (item z).id < (item x).id ∧ hash (item z).content ≠ hash i.content
  · exact kind.forall_items s fun i => i.id = (item x).id → ok (some i) (item x)

theorem sameItems_iff {remotes : List α}
    (h : ∀ i, i ∈ remotes.map item ↔ i ∈ (rows primary).map item) :
    (∀ id c, (∃ k y, items s k = some y ∧ y.id = id ∧ hash y.content = c) ↔
        ∃ i ∈ remotes.map item, i.id = id ∧ hash i.content = c) ↔
      SameItems ((rows s).map tr.toMeta) ((rows primary).map tr.toMeta) := by
  have hrows : ∀ s id c, (∃ l ∈ (rows s).map tr.toMeta, l.id = id ∧ l.hash = c) ↔
      ∃ x ∈ rows s, (item x).id = id ∧ hash (item x).content = c := by
    intro s id c
    simp [kind.id_eq, kind.hash_eq]
  have hitems : ∀ id c, (∃ i ∈ remotes.map item, i.id = id ∧ hash i.content = c) ↔
      ∃ x ∈ rows primary, (item x).id = id ∧ hash (item x).content = c := by
    intro id c
    simp [h]
  refine forall₂_congr fun id c => ?_
  rw [kind.items_iff s fun y => y.id = id ∧ hash y.content = c, hrows, hrows, hitems]
  refine ⟨fun h _ => h, fun h => ?_⟩
  by_cases hid : id = ""
  · subst hid
    have hnone : ∀ s, ¬ ∃ x ∈ rows s, (item x).id = "" ∧ hash (item x).content = c := by
      rintro s ⟨x, hx, hempty, -⟩
      exact (kind.ids s x hx).1 hempty
    exact iff_of_false (hnone s) (hnone primary)
  · exact h hid

theorem round_iff {remoteIndex last : Nat} {round : Round} (hs : Proper idKey (items s))
    (hr : ∀ x ∈ rows primary, ∀ y ∈ rows primary, (item x).name = (item y).name → x = y)
    (hgood : ∀ x ∈ rows primary, Good x)
    (hagree : ∀ y ∈ rows s, ∀ x ∈ rows primary, (tr.toMeta y).id = (tr.toMeta x).id →
      (tr.toMeta x).modIndex ≤ last → (tr.toMeta y).hash = (tr.toMeta x).hash)
    (h : replicateACLType tr around primary remoteIndex last s = (round, s'))
    (hexit : round.exit = false) (herr : round.err = none) :
    (SameItems ((rows s').map tr.toMeta) ((rows primary).map tr.toMeta) ∧
        Accepted round.responses) ↔
      RowsFit item hash ok (rows s) (rows primary) := by
  obtain ⟨remotes, locals, updated, s1, rs, rs', hremotes, hlocals, hupdated, hdrun, hdacc, hurun,
    -, hresponses⟩ := replicateACLType_succeeds h hexit herr
  obtain ⟨hri, hrm⟩ := kind.listed primary remotes (.inl hremotes)
  obtain ⟨hli, hlm⟩ := kind.listed s locals (.inr hlocals)
  have hmetas : ∀ {s : State} {l : List α}, l.map tr.toMeta = (rows s).map tr.toMeta → ∀ x ∈ l,
      ∃ y ∈ rows s, tr.toMeta y = tr.toMeta x := fun hl x hx =>
    mem_map.mp (hl ▸ mem_map_of_mem hx)
  have hne : ∀ {s : State} {l : List α}, l.map tr.toMeta = (rows s).map tr.toMeta → ∀ x ∈ l,
      (tr.toMeta x).id ≠ "" := by
    intro s l hl x hx
    obtain ⟨y, hy, heq⟩ := hmetas hl x hx
    rw [← heq, ← kind.id_eq]
    exact (kind.ids s y hy).1
  have hru : IDsUnique (remotes.map tr.toMeta) := hrm ▸ kind.idsUnique primary
  obtain ⟨p, hids, hplan⟩ := roundDiff_plan tr item hash
    (if remoteIndex < last then 0 else last) locals remotes kind.id_eq kind.hash_eq (kind.keyed s)
    (by
      intro P
      have hexists : ∀ l : List α, (∃ x ∈ l, P (item x)) ↔ ∃ i ∈ l.map item, P i := by simp
      rw [kind.items_iff, hexists, hexists, hli])
    (by
      have hkeys := kind.keys primary
      simp only [kind.id_eq] at hkeys
      rw [← pairwise_map (f := tr.toMeta) (R := fun a b => idKey a.id ≠ idKey b.id), hrm]
      exact pairwise_map.mpr hkeys)
    (hlm ▸ kind.idsUnique s) hru (hne hlm) (hne hrm)
    (by
      intro l hl r hr heq hmod
      obtain ⟨y, hy, hyl⟩ := hmetas hlm l hl
      obtain ⟨x, hx, hxr⟩ := hmetas hrm r hr
      rw [← hyl, ← hxr] at heq ⊢
      exact hagree y hy x hx heq (hxr ▸ hmod.trans (by split <;> omega)))
  have hsorted := sortState_ids_lt hru (hne hrm)
  have hperm := sortState_perm tr remotes
  obtain rfl := kind.fetched primary remotes _ p updated hremotes (fun x => hperm.mem_iff.mp)
    hsorted (hids ▸ hupdated)
  have hsame : ∀ i, i ∈ (sortState tr remotes).map item ↔ i ∈ (rows primary).map item := by
    intro i
    rw [(hperm.map item).mem_iff, hri]
  have hvalid : ∀ id ∈ (roundDiff tr (if remoteIndex < last then 0 else last) locals
      remotes).deletes, ∃ k, uuidKey id = .ok k := by
    intro id hid
    obtain ⟨x, hx, rfl⟩ := (kind.items_iff s fun y => y.id = id).mp
      ((hplan.mem_deletes id).mp hid).1
    exact (kind.ids s x hx).2
  have hupdates : ∀ x ∈ (sortState tr remotes).filter p, Good x := fun x hx =>
    kind.good primary remotes hremotes hgood x (hperm.mem_iff.mp (mem_filter.mp hx).1)
  obtain ⟨hacc, hleft⟩ := kind.deleted _ _ _ _ hdrun (by rwa [flatten_batches]) hs hdacc
  rw [flatten_batches] at hleft
  have hs1 : Proper idKey (items s1) :=
    hleft ▸ (show Admits idKey ok (items s) _ from admits_removes _ _).proper hs
  have hwritten := hurun.makesChanges kind.written (by rwa [flatten_batches]) hs1
  have hedits : ∀ l : List α, l.map (fun x => Edit.write (item x)) = (l.map item).map .write :=
    fun l => by simp
  rw [flatten_batches, hedits] at hwritten
  have hnames : ((sortState tr remotes).map item).Pairwise fun x y => x.name ≠ y.name := by
    refine ((hperm.map item).pairwise_iff fun h => h.symm).mpr ?_
    rw [hri, pairwise_map]
    refine (kind.keys primary).imp_of_mem fun {x y} hx hy hne heq => hne ?_
    rw [hr x hx y hy heq]
  rw [← kind.namesFit_iff hsame, ← kind.sameItems_iff hsame, hresponses]
  exact copied_iff hplan (pairwise_map.mpr (by simpa only [kind.id_eq] using hsorted)) hnames
    (by simpa using fun x _ => kind.named x) kind.new hacc hleft hwritten

end NamedKind

end Kind

end Laws

end OpenGyoza
