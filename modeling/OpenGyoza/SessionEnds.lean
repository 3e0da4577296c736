-- What the end of a session does to the store: its row, its check mappings
-- and its prepared queries go, the keys it holds are released or deleted, and
-- the catalog stays as it is.
import OpenGyoza.KvEffects

namespace OpenGyoza

open Memdb Txn Table

/-- The index rows that the end of a session writes. -/
def sessionIndexes : List IndexName :=
  [.table "kvs", .table "tombstones", .table "sessions", .table "prepared-queries"]

variable [External]

theorem IndexName.lower_eq_table {n : IndexName} {t : String} :
    n.lower = .table t ↔ n = .table t := by
  cases n <;> simp

/-- The catalog is the same, and of the index rows only those of sessions may have been
written, at the index `idx`. -/
structure SameCatalog (idx : Nat) (s s' : State) : Prop where
  nodes : s'.nodes = s.nodes
  services : s'.services = s.services
  checks : s'.checks = s.checks
  intentions : s'.intentions = s.intentions
  coordinates : s'.coordinates = s.coordinates
  index : ∀ n, s'.indexOf n = s.indexOf n ∨ (n ∈ sessionIndexes ∧ s'.indexOf n = some idx)

theorem SameCatalog.refl (idx : Nat) (s : State) : SameCatalog idx s s :=
  ⟨rfl, rfl, rfl, rfl, rfl, fun _ => Or.inl rfl⟩

theorem SameCatalog.trans {idx : Nat} {s s' s'' : State} (h : SameCatalog idx s s')
    (h' : SameCatalog idx s' s'') : SameCatalog idx s s'' := by
  refine ⟨h'.nodes.trans h.nodes, h'.services.trans h.services, h'.checks.trans h.checks,
    h'.intentions.trans h.intentions, h'.coordinates.trans h.coordinates, fun n => ?_⟩
  rcases h'.index n with heq | hnew
  · rw [heq]
    exact h.index n
  · exact Or.inr hnew

theorem sameCatalog_withIndex (idx : Nat) (s : State) {t : String}
    (ht : .table t ∈ sessionIndexes) : SameCatalog idx s (s.withIndex (.table t) idx) := by
  refine ⟨rfl, rfl, rfl, rfl, rfl, fun n => ?_⟩
  rw [indexOf_withIndex]
  split
  · rename_i hn
    rw [IndexName.lower_table, IndexName.lower_eq_table] at hn
    subst hn
    exact Or.inr ⟨ht, rfl⟩
  · exact Or.inl rfl

/-! ## Locks -/

/-- A key after the end of the session `u`. The index of sessions may find it. -/
def endedLock (idx : Nat) (u : List Byte) (behavior : SessionBehavior) (e : DirEntry) :
    Option DirEntry :=
  if found DirEntry.sessionEntry u e then
    match behavior with
    | .delete => none
    | _ => some { e with session := "", modifyIndex := idx }
  else some e

/-- Nothing is written but keys, tombstones and their index rows. -/
structure SameButKeys (idx : Nat) (s s' : State) : Prop extends SameCatalog idx s s' where
  sessions : s'.sessions = s.sessions
  sessionChecks : s'.sessionChecks = s.sessionChecks
  preparedQueries : s'.preparedQueries = s.preparedQueries

theorem SameButKeys.trans {idx : Nat} {s s' s'' : State} (h : SameButKeys idx s s')
    (h' : SameButKeys idx s' s'') : SameButKeys idx s s'' :=
  ⟨h.toSameCatalog.trans h'.toSameCatalog, h'.sessions.trans h.sessions,
    h'.sessionChecks.trans h.sessionChecks, h'.preparedQueries.trans h.preparedQueries⟩

theorem sameButKeys_putKey (s : State) (idx : Nat) (e : DirEntry) :
    SameButKeys idx s (s.putKey idx e) := by
  have hrow := sameCatalog_withIndex idx { s with kvs := s.kvs.upsert e }
    (show .table "kvs" ∈ sessionIndexes by decide)
  exact ⟨⟨rfl, rfl, rfl, rfl, rfl, hrow.index⟩, rfl, rfl, rfl⟩

theorem sameButKeys_removeKey (s : State) (idx : Nat) (k : Key) :
    SameButKeys idx s (s.removeKey idx k) := by
  have hstone := sameCatalog_withIndex idx
    { s with tombstones := s.tombstones.upsert { key := k, index := idx } }
    (show .table "tombstones" ∈ sessionIndexes by decide)
  have hrow := hstone.trans (sameCatalog_withIndex idx _
    (show .table "kvs" ∈ sessionIndexes by decide))
  exact ⟨⟨rfl, rfl, rfl, rfl, rfl, hrow.index⟩, rfl, rfl, rfl⟩

section Locks

variable {idx : Nat} {u : List Byte} {s : State} {e : DirEntry}

theorem session_of_found (h : found DirEntry.sessionEntry u e = true) : e.session ≠ "" := by
  rintro hfree
  simp [found, DirEntry.sessionEntry, uuidValue, hfree] at h

theorem releaseLock_spec (hheld : e.session ≠ "") (hrow : s.kvs.first e.key = some e) :
    wp (releaseLock idx e) (fun r s' => r = .ok () ∧ SameButKeys idx s s' ∧
      s'.kvs.first e.key = some { e with session := "", modifyIndex := idx } ∧
      ∀ k, k ≠ e.key → s'.kvs.first k = s.kvs.first k) s := by
  have hstored : storedEntry idx { e with session := "" } true (s.kvs.first e.key) =
      { e with session := "", modifyIndex := idx } := by
    simp [storedEntry, hrow]
  have hkv : kvKey { e with session := "", modifyIndex := idx } = .ok e.key := by
    simp [kvKey, optionalUUID, (key_of_kvs_first hrow).2]
  unfold releaseLock
  rw [wp_bind, wp_wrap]
  have hcases := kvsSetTxn_cases idx { e with session := "" } true s
  simp only [hstored] at hcases
  rcases hcases with ⟨-, old, hold, heq⟩ | ⟨_, hbad, -⟩ | ⟨-, h⟩
  · -- A held key is not what is written.
    rw [hrow] at hold
    cases hold
    simp [DirEntry.equal, hheld] at heq
  · rw [hkv] at hbad
    cases hbad
  · rw [wp_of_eq h, annotate_ok, andThen_ok, wp_pure]
    exact ⟨rfl, sameButKeys_putKey _ _ _, first_upsert_self hkv,
      fun k hk => first_upsert_ne hkv hk⟩

theorem deleteLock_spec (hrow : s.kvs.first e.key = some e) :
    wp (deleteLock idx e) (fun r s' => r = .ok () ∧ SameButKeys idx s s' ∧
      s'.kvs.first e.key = none ∧ ∀ k, k ≠ e.key → s'.kvs.first k = s.kvs.first k) s := by
  rw [deleteLock, wp_wrap, wp_of_eq (kvsDeleteTxn_eq idx e.key s), annotate_ok, hrow]
  exact ⟨rfl, sameButKeys_removeKey _ _ _, first_erase_self _ _,
    fun k hk => first_erase_ne _ hk⟩

theorem invalidateLocks_spec {behavior : SessionBehavior}
    (hb : behavior = .release ∨ behavior = .delete) :
    wp (invalidateLocks idx (s.kvs.seek DirEntry.sessionEntry u) behavior)
      (fun r s' => r = .ok () ∧ SameButKeys idx s s' ∧
        ∀ k, s'.kvs.first k = (s.kvs.first k).bind (endedLock idx u behavior)) s := by
  have hstart : SameButKeys idx s s := ⟨.refl idx s, rfl, rfl, rfl⟩
  rcases hb with rfl | rfl
  · refine wp_forEach_rows State.kvs (seek_perm _ _ _) hstart fun e k s1 hu hrow hs1 => ?_
    obtain ⟨rfl, -⟩ := key_of_kvs_first hrow
    refine wp_mono (releaseLock_spec (session_of_found hu) hrow) ?_
    rintro _ s2 ⟨rfl, hs2, hdone, hothers⟩
    exact ⟨rfl, hs1.trans hs2, hdone, hothers⟩
  · refine wp_forEach_rows State.kvs (seek_perm _ _ _) hstart fun e k s1 _ hrow hs1 => ?_
    obtain ⟨rfl, -⟩ := key_of_kvs_first hrow
    refine wp_mono (deleteLock_spec hrow) ?_
    rintro _ s2 ⟨rfl, hs2, hdone, hothers⟩
    exact ⟨rfl, hs1.trans hs2, hdone, hothers⟩

end Locks

/-! ## Prepared queries -/

section Queries

variable {idx : Nat} {u : List Byte} {s : State}

/-- The store after the delete of a prepared query. -/
def State.removeQuery (s : State) (idx : Nat) (k : List Byte) : State :=
  State.withIndex { s with preparedQueries := s.preparedQueries.erase k }
    (.table "prepared-queries") idx

theorem preparedQueryDeleteTxn_eq {id : String} {k : List Byte} (hk : uuidKey id = .ok k) :
    preparedQueryDeleteTxn idx id s =
      (.ok (), if (s.preparedQueries.first k).isSome then s.removeQuery idx k else s) := by
  apply eq_of_wp
  cases hrow : s.preparedQueries.first k with
  | none => simp [preparedQueryDeleteTxn, preparedQueryLookup, uuidArg_of_uuidKey hk,
      Txn.ofExcept, hrow]
  | some q =>
    simp [preparedQueryDeleteTxn, preparedQueryLookup, uuidArg_of_uuidKey hk, Txn.ofExcept, hrow,
      wp_delete Tables.preparedQueries (key_of_first hrow) hrow, State.removeQuery]

/-- Nothing is written but prepared queries and their index row. -/
structure SameButQueries (idx : Nat) (s s' : State) : Prop extends SameCatalog idx s s' where
  sessions : s'.sessions = s.sessions
  sessionChecks : s'.sessionChecks = s.sessionChecks
  kvs : s'.kvs = s.kvs

theorem SameButQueries.trans {s' s'' : State} (h : SameButQueries idx s s')
    (h' : SameButQueries idx s' s'') : SameButQueries idx s s'' :=
  ⟨h.toSameCatalog.trans h'.toSameCatalog, h'.sessions.trans h.sessions,
    h'.sessionChecks.trans h.sessionChecks, h'.kvs.trans h.kvs⟩

theorem sameButQueries_removeQuery (s : State) (idx : Nat) (k : List Byte) :
    SameButQueries idx s (s.removeQuery idx k) := by
  have hrow := sameCatalog_withIndex idx { s with preparedQueries := s.preparedQueries.erase k }
    (show .table "prepared-queries" ∈ sessionIndexes by decide)
  exact ⟨⟨rfl, rfl, rfl, rfl, rfl, hrow.index⟩, rfl, rfl, rfl⟩

theorem deleteQueries_spec (context : String → String) :
    wp (Txn.forEach (s.preparedQueries.seek PreparedQuery.sessionEntry u) fun query =>
        Txn.wrap context (preparedQueryDeleteTxn idx query.id))
      (fun r s' => r = .ok () ∧ SameButQueries idx s s' ∧
        s'.preparedQueries = s.preparedQueries.keep (!found PreparedQuery.sessionEntry u ·)) s := by
  refine wp_forEach_erase State.preparedQueries (I := SameButQueries idx s) (seek_perm _ _ _)
    ⟨.refl idx s, rfl, rfl, rfl⟩ fun q k s1 _ hrow hs1 => ?_
  rw [wp_wrap, wp_of_eq (preparedQueryDeleteTxn_eq
    (preparedQueryKey_eq_ok (key_of_first hrow))), annotate_ok, hrow]
  exact ⟨rfl, hs1.trans (sameButQueries_removeQuery _ _ _), rfl⟩

end Queries

/-! ## The whole end of a session -/

/-- The session `u` has ended, at the index `idx`, with all that the indexes of sessions find for
it. -/
structure SessionEnded (idx : Nat) (u : List Byte) (s s' : State) : Prop
    extends SameCatalog idx s s' where
  sessions : s'.sessions = s.sessions.erase u
  sessionChecks : s'.sessionChecks = s.sessionChecks.keep (!found SessionCheck.sessionEntry u ·)
  preparedQueries :
    s'.preparedQueries = s.preparedQueries.keep (!found PreparedQuery.sessionEntry u ·)
  locks : ∃ sess, s.sessions.first u = some sess ∧
    ∀ k, s'.kvs.first k = (s.kvs.first k).bind (endedLock idx u sess.behavior)
  writes : Relation.ReflTransGen (KeyWrite idx) s s'

theorem deleteSessionTxn_spec {idx : Nat} {s : State} {id : String} {u : List Byte}
    {sess : Session} (hid : uuidKey id = .ok u) (hrow : s.sessions.first u = some sess)
    (hb : sess.behavior = .release ∨ sess.behavior = .delete) :
    wp (deleteSessionTxn idx id) (fun r s' => r = .ok () ∧ SessionEnded idx u s s') s := by
  suffices h : wp (deleteSessionTxn idx id) (fun r s' => r = .ok () ∧
      (Relation.ReflTransGen (KeyWrite idx) s s' → SessionEnded idx u s s')) s from
    ⟨h.1, h.2 (deleteSessionTxn_does id s)⟩
  simp only [deleteSessionTxn, wp_bind, wp_wrap, uuidArg_of_uuidKey hid, Txn.ofExcept,
    wp_pure, annotate_ok, andThen_ok, wp_read, hrow,
    wp_delete Tables.sessions (key_of_first hrow) hrow, wp_setIndex]
  refine wp_mono (invalidateLocks_spec hb) ?_
  rintro _ s1 ⟨rfl, hframe1, hlocks⟩
  simp only [andThen_ok, wp_bind, wp_read]
  refine wp_mono (wp_deleteAll Tables.sessionChecks (seek_perm _ _ _) _) ?_
  rintro _ s2 ⟨rfl, rfl⟩
  simp only [andThen_ok, wp_bind, wp_read]
  refine wp_mono (deleteQueries_spec _) ?_
  rintro _ s3 ⟨rfl, hframe3, hqueries⟩
  have hcat0 := sameCatalog_withIndex idx { s with sessions := s.sessions.erase u }
    (show .table "sessions" ∈ sessionIndexes by decide)
  have hcat1 : SameCatalog idx s s1 := by
    refine SameCatalog.trans ?_ hframe1.toSameCatalog
    exact ⟨rfl, rfl, rfl, rfl, rfl, hcat0.index⟩
  have hcat3 := hframe3.toSameCatalog
  refine ⟨rfl, fun hwrites => ⟨hcat1.trans ⟨hcat3.nodes, hcat3.services, hcat3.checks,
    hcat3.intentions, hcat3.coordinates, hcat3.index⟩, ?_, ?_, ?_, ⟨sess, hrow, fun k => ?_⟩,
    hwrites⟩⟩
  · exact hframe3.sessions.trans hframe1.sessions
  · rw [hframe3.sessionChecks]
    simp only [Tables.sessionChecks_set, Tables.sessionChecks_get]
    rw [hframe1.sessionChecks]
    rfl
  · rw [hqueries]
    change s1.preparedQueries.keep _ = _
    rw [hframe1.preparedQueries]
    rfl
  · rw [hframe3.kvs]
    exact hlocks k

end OpenGyoza
