-- The references between the rows of the store: a session, a service and a
-- check name their node, a check its service, and a lock, a query and a check
-- mapping their session.
import OpenGyoza.Catalog
import OpenGyoza.SessionEnds

namespace OpenGyoza

open Memdb Txn Table List

variable [External]

/-- The session that a row names is there. -/
def State.HasSession (s : State) (id : String) : Prop :=
  ∃ u sess, uuidKey id = .ok u ∧ s.sessions.first u = some sess

theorem State.hasSession_iff {s : State} {id : String} :
    s.HasSession id ↔ (((uuidKey id).toOption.bind s.sessions.first).isSome = true) := by
  unfold State.HasSession
  cases uuidKey id with
  | error text => simp [Except.toOption]
  | ok u => simp [Except.toOption, Option.isSome_iff_exists]

instance (s : State) (id : String) : Decidable (s.HasSession id) :=
  decidable_of_iff _ State.hasSession_iff.symm

/-- Every row that names a session names one that is there, and sessions have behaviors that
the store knows. -/
structure SessionRefs (s : State) : Prop where
  behaviors : ∀ sess ∈ s.sessions.values, sess.behavior = .release ∨ sess.behavior = .delete
  mappings : ∀ m ∈ s.sessionChecks.values, s.HasSession m.session
  locks : ∀ e ∈ s.kvs.values, e.session ≠ "" → s.HasSession e.session
  queries : ∀ q ∈ s.preparedQueries.values, q.session ≠ "" → s.HasSession q.session

theorem hasUUID_iff {u : List Byte} {text : String} :
    hasUUID u text = true ↔ text ≠ "" ∧ uuidKey text = .ok u := by
  unfold hasUUID
  cases uuidKey text <;> simp

/-- No two nodes have the same ID. -/
def UniqueIDs (t : Table nodeKey) : Prop :=
  ∀ n ∈ t.values, ∀ m ∈ t.values, ∀ u, hasUUID u n.id = true → hasUUID u m.id = true → n = m

structure Sound (s : State) : Prop extends SessionRefs s where
  sessionNodes : ∀ sess ∈ s.sessions.values, (nodeRow sess.node s).isSome
  mappingChecks : ∀ m ∈ s.sessionChecks.values, ∃ c, checkRow m.node m.checkID s = some c ∧
    c.status ≠ healthCritical
  serviceNodes : ∀ svc ∈ s.services.values, (nodeRow svc.node s).isSome
  checkNodes : ∀ c ∈ s.checks.values, (nodeRow c.node s).isSome
  nodeIDs : UniqueIDs s.nodes

theorem sound_empty : Sound State.empty where
  behaviors := by simp [State.empty]
  mappings := by simp [State.empty]
  locks := by simp [State.empty]
  queries := by simp [State.empty]
  sessionNodes := by simp [State.empty]
  mappingChecks := by simp [State.empty]
  serviceNodes := by simp [State.empty]
  checkNodes := by simp [State.empty]
  nodeIDs := by simp [UniqueIDs, State.empty]

theorem name_of_nodeRow {name : String} {s : State} {n : Node} (h : nodeRow name s = some n) :
    name ≠ "" := by
  obtain ⟨hne, hk⟩ := nodeKey_eq_ok (key_of_first h)
  rintro rfl
  rw [(External.toLower_eq_empty "").mpr rfl, External.toLower_eq_empty] at hk
  exact hne hk

/-! ## The end of sessions -/

section Ends

variable {idx : Nat} {u : List Byte} {s s' : State}

theorem SessionEnded.hasSession (h : SessionEnded idx u s s') {id : String}
    (hu : uuidKey id ≠ .ok u) (hs : s.HasSession id) : s'.HasSession id := by
  obtain ⟨v, sess, hv, hrow⟩ := hs
  have hne : v ≠ u := by
    rintro rfl
    exact hu hv
  refine ⟨v, sess, hv, ?_⟩
  rw [h.sessions, first_erase_ne _ hne]
  exact hrow

theorem found_own {ν : Type} {key : ν → Except String (List Byte)} {t : Table key}
    {session : ν → String} {v : ν} (hv : v ∈ t.values) (hne : session v ≠ "")
    (hu : uuidKey (session v) = .ok u) :
    found (entryOf key fun v => uuidValue (session v)) u v = true := by
  obtain ⟨k, hk⟩ := key_of_mem hv
  refine found_iff.mpr ⟨u ++ k, ?_, prefix_append _ _⟩
  simp [entryOf, uuidValue, hne, hu, hk, Except.toOption]

theorem SessionEnded.lock (h : SessionEnded idx u s s') {e : DirEntry} (he : e ∈ s'.kvs.values)
    (hheld : e.session ≠ "") : e ∈ s.kvs.values ∧ uuidKey e.session ≠ .ok u := by
  obtain ⟨sess, -, hlocks⟩ := h.locks
  obtain ⟨k, hk⟩ := mem_values.mp he
  rw [hlocks k, Option.bind_eq_some_iff] at hk
  obtain ⟨old, hold, hend⟩ := hk
  cases hu : found DirEntry.sessionEntry u old with
  | true =>
    simp only [endedLock, hu, if_true] at hend
    split at hend
    · cases hend
    · cases hend
      exact absurd rfl hheld
  | false =>
    simp only [endedLock, hu, Bool.false_eq_true, if_false] at hend
    cases hend
    refine ⟨mem_values_of_first hold, fun hown => ?_⟩
    rw [found_iff.mpr ⟨u ++ (e.key ++ [0]), ?_, prefix_append _ _⟩] at hu
    · cases hu
    · simp [DirEntry.sessionEntry, uuidValue, hheld, hown, Except.toOption]

theorem SessionEnded.sessionRefs (h : SessionEnded idx u s s') (hs : SessionRefs s) :
    SessionRefs s' where
  behaviors := by
    intro sess hsess
    rw [h.sessions] at hsess
    exact hs.behaviors sess (mem_values_erase.mp hsess).1
  mappings := by
    intro m hm
    rw [h.sessionChecks] at hm
    obtain ⟨hmem, hu⟩ := mem_values_keep.mp hm
    obtain ⟨k, hk⟩ := mem_values.mp hmem
    have hne := (sessionCheckKey_eq_ok (key_of_first hk)).2.2.1
    refine h.hasSession (fun hown => ?_) (hs.mappings m hmem)
    rw [SessionCheck.sessionEntry, found_own hmem hne hown] at hu
    cases hu
  locks := by
    intro e he hheld
    obtain ⟨hmem, hu⟩ := h.lock he hheld
    exact h.hasSession hu (hs.locks e hmem hheld)
  queries := by
    intro q hq hheld
    rw [h.preparedQueries] at hq
    obtain ⟨hmem, hu⟩ := mem_values_keep.mp hq
    refine h.hasSession (fun hown => ?_) (hs.queries q hmem hheld)
    rw [PreparedQuery.sessionEntry, found_own hmem hheld hown] at hu
    cases hu

/-- One of the sessions in a list. -/
def Among (ids : List String) (u : List Byte) : Prop := ∃ id ∈ ids, uuidKey id = .ok u

/-- Sessions for which `E` holds end, one after the other. -/
def SessionsEnd (idx : Nat) (E : List Byte → Prop) : State → State → Prop :=
  Relation.ReflTransGen fun s s' => ∃ u, E u ∧ SessionEnded idx u s s'

section

variable {E : List Byte → Prop} (h : SessionsEnd idx E s s')
include h

theorem SessionsEnd.mono {E' : List Byte → Prop} (hE : ∀ u, E u → E' u) :
    SessionsEnd idx E' s s' := by
  induction h with
  | refl => exact .refl
  | tail _ hend ih =>
    obtain ⟨u, hu, hend⟩ := hend
    exact ih.tail ⟨u, hE u hu, hend⟩

theorem SessionsEnd.sameCatalog : SameCatalog idx s s' := by
  induction h with
  | refl => exact .refl idx s
  | tail _ hend ih =>
    obtain ⟨u, -, hend⟩ := hend
    exact ih.trans hend.toSameCatalog

theorem SessionsEnd.sessionRefs (hs : SessionRefs s) : SessionRefs s' := by
  induction h with
  | refl => exact hs
  | tail _ hend ih =>
    obtain ⟨u, -, hend⟩ := hend
    exact hend.sessionRefs ih

theorem SessionsEnd.sessions {sess : Session} (hsess : sess ∈ s'.sessions.values) :
    sess ∈ s.sessions.values := by
  induction h with
  | refl => exact hsess
  | tail _ hend ih =>
    obtain ⟨u, -, hend⟩ := hend
    rw [hend.sessions] at hsess
    exact ih (mem_values_erase.mp hsess).1

theorem SessionsEnd.sessionChecks {m : SessionCheck} (hm : m ∈ s'.sessionChecks.values) :
    m ∈ s.sessionChecks.values := by
  induction h with
  | refl => exact hm
  | tail _ hend ih =>
    obtain ⟨u, -, hend⟩ := hend
    rw [hend.sessionChecks] at hm
    exact ih (mem_values_keep.mp hm).1

theorem SessionsEnd.first_none (hu : s.sessions.first u = none) : s'.sessions.first u = none := by
  induction h with
  | refl => exact hu
  | tail _ hend ih =>
    obtain ⟨v, -, hend⟩ := hend
    rw [hend.sessions, first_erase, ih, ite_self]

theorem SessionsEnd.first_some {sess : Session} (hu : s'.sessions.first u = some sess) :
    s.sessions.first u = some sess := by
  induction h with
  | refl => exact hu
  | tail _ hend ih =>
    obtain ⟨v, -, hend⟩ := hend
    have hne : u ≠ v := by
      rintro rfl
      rw [hend.sessions, first_erase_self] at hu
      cases hu
    rw [hend.sessions, first_erase_ne _ hne] at hu
    exact ih hu

theorem SessionsEnd.ended (hu : s.sessions.first u ≠ none) (hgone : s'.sessions.first u = none) :
    E u := by
  induction h with
  | refl => exact absurd hgone hu
  | tail hends hend ih =>
    obtain ⟨v, hv, hend⟩ := hend
    by_cases huv : u = v
    · exact huv ▸ hv
    · rw [hend.sessions, first_erase_ne _ huv] at hgone
      exact ih hgone

end

theorem deleteSessionTxn_cases {id : String} (hs : SessionRefs s) (hid : uuidKey id = .ok u) :
    wp (deleteSessionTxn idx id) (fun r s' => r = .ok () ∧ SessionsEnd idx (· = u) s s' ∧
      s'.sessions.first u = none) s := by
  cases hrow : s.sessions.first u with
  | none =>
    simp only [deleteSessionTxn, wp_bind, wp_wrap, uuidArg_of_uuidKey hid, Txn.ofExcept,
      wp_pure, annotate_ok, andThen_ok, wp_read, hrow]
    exact ⟨trivial, .refl, trivial⟩
  | some sess =>
    have hb := hs.behaviors sess (mem_values_of_first hrow)
    refine wp_mono (deleteSessionTxn_spec hid hrow hb) ?_
    rintro _ s' ⟨rfl, hend⟩
    refine ⟨rfl, .single ⟨u, rfl, hend⟩, ?_⟩
    rw [hend.sessions]
    exact first_erase_self _ _

theorem deleteSessions_spec {ids : List String} (context : String) (hs : SessionRefs s)
    (hids : ∀ id ∈ ids, ∃ u, uuidKey id = .ok u) :
    wp (deleteSessions idx context ids) (fun r s' => r = .ok () ∧
      SessionsEnd idx (Among ids) s s' ∧
      ∀ id ∈ ids, ∀ u, uuidKey id = .ok u → s'.sessions.first u = none) s := by
  refine wp_forEach_all .refl ?_
  intro id hid s1 hchain
  obtain ⟨u, hu⟩ := hids id hid
  rw [wp_wrap]
  refine wp_mono (deleteSessionTxn_cases (hchain.sessionRefs hs) hu) ?_
  rintro _ s2 ⟨rfl, hstep, hgone⟩
  have hamong : SessionsEnd idx (Among ids) s1 s2 :=
    hstep.mono fun v hv => ⟨id, hid, hv ▸ hu⟩
  refine ⟨rfl, hchain.trans hamong, fun v hv => ?_, fun c hc v hv => hstep.first_none (hc v hv)⟩
  rw [hu] at hv
  cases hv
  exact hgone

theorem deleteSessionsOfCheck_spec (node checkID : String) (hs : SessionRefs s) :
    wp (deleteSessionsOfCheck idx node checkID) (fun r s' => r = .ok () ∧
      SessionsEnd idx (Among ((sessionChecksOf node checkID s).map (·.session))) s s' ∧
      sessionChecksOf node checkID s' = []) s := by
  simp only [deleteSessionsOfCheck, wp_bind, wp_read, andThen_ok]
  have hids : ∀ id ∈ (sessionChecksOf node checkID s).map (·.session), ∃ u, uuidKey id = .ok u := by
    intro id hid
    obtain ⟨m, hm, rfl⟩ := mem_map.mp hid
    obtain ⟨u, -, hu, -⟩ := hs.mappings m (mem_seek.mp hm).1
    exact ⟨u, hu⟩
  refine wp_mono (deleteSessions_spec _ hs hids) ?_
  rintro _ s' ⟨rfl, hend, hgone⟩
  refine ⟨rfl, hend, eq_nil_iff_forall_not_mem.mpr fun m hm => ?_⟩
  obtain ⟨hmem, hp⟩ := mem_seek.mp hm
  obtain ⟨u, sess, hu, hrow⟩ := (hend.sessionRefs hs).mappings m hmem
  have hold : m ∈ sessionChecksOf node checkID s := mem_seek.mpr ⟨hend.sessionChecks hmem, hp⟩
  rw [hgone m.session (mem_map_of_mem hold) u hu] at hrow
  cases hrow

end Ends

end OpenGyoza
