-- No operation of the store breaks a reference: a lock never outlives its
-- session, and a session never outlives its node or one of its checks.
import OpenGyoza.OpSteps

namespace OpenGyoza

open Memdb Txn Table List Operation

section Laws

variable [External] {idx : Nat} {s s' : State}

/-! ## New sessions -/

/-- The mapping of one check of a session. -/
def sessionCheck (sess : Session) (checkID : String) : SessionCheck :=
  { node := sess.node, checkID := checkID, session := sess.id }

/-- The store with a new session and its mappings. -/
def State.putSession (s : State) (idx : Nat) (sess : Session) : State :=
  State.withIndex { s with
    sessions := s.sessions.upsert sess
    sessionChecks := s.sessionChecks.putAll (sess.checks.map (sessionCheck sess)) }
    (.table "sessions") idx

/-- A session as it is stored. -/
def Session.stamped (sess : Session) (idx : Nat) (behavior : SessionBehavior) : Session :=
  { sess with behavior := behavior, createIndex := idx, modifyIndex := idx }

/-- A check that a session may depend on. -/
def UsableCheck (node checkID : String) (s : State) : Prop :=
  ∃ c, checkRow node checkID s = some c ∧ c.status ≠ healthCritical

theorem sessionChecksUsable_of_ok {node : String} {l : List String}
    (h : Txn.forEach l (sessionCheckUsable node) s = (.ok (), s')) :
    s' = s ∧ ∀ c ∈ l, UsableCheck node c s := by
  induction l with
  | nil =>
    cases h
    exact ⟨rfl, by simp⟩
  | cons c l ih =>
    obtain ⟨_, s1, hc, hl⟩ := bind_eq_ok.mp h
    have hfirst : s1 = s ∧ UsableCheck node c s := by
      simp only [sessionCheckUsable, bind_eq_ok, read_eq_ok] at hc
      obtain ⟨row, _, ⟨hrow, rfl⟩, hrest⟩ := hc
      cases row with
      | none => cases hrest
      | some check =>
        by_cases hcrit : check.status = healthCritical
        · simp only [hcrit, if_true] at hrest
          cases hrest
        · simp only [hcrit, if_false] at hrest
          cases hrest
          exact ⟨rfl, check, hrow, hcrit⟩
    obtain ⟨rfl, hc⟩ := hfirst
    obtain ⟨hs, hl⟩ := ih hl
    refine ⟨hs, fun x hx => ?_⟩
    rcases mem_cons.mp hx with rfl | hx
    · exact hc
    · exact hl x hx

variable {sess : Session} {ko : KeyOp} {op : Operation}

theorem insertSessionChecks_of_ok {l : List String}
    (h : Txn.forEach l (insertSessionCheck sess) s = (.ok (), s')) :
    s' = { s with sessionChecks := s.sessionChecks.putAll (l.map (sessionCheck sess)) } := by
  induction l generalizing s with
  | nil =>
    cases h
    rfl
  | cons c l ih =>
    obtain ⟨_, s1, hc, hl⟩ := bind_eq_ok.mp h
    obtain ⟨k, -, rfl⟩ := insert_eq_ok.mp (wrap_eq_ok.mp hc)
    rw [ih hl]
    rfl

theorem sessionCreateTxn_of_ok (h : sessionCreateTxn idx sess s = (.ok (), s')) :
    ∃ b u, (b = .release ∨ b = .delete) ∧ sessionKey (sess.stamped idx b) = .ok u ∧
      (nodeRow sess.node s).isSome ∧ (∀ c ∈ sess.checks, UsableCheck sess.node c s) ∧
      s' = s.putSession idx (sess.stamped idx b) := by
  simp only [sessionCreateTxn] at h
  split at h
  · cases h
  · simp only [bind_eq_ok, read_eq_ok] at h
    obtain ⟨b, s1, hvalid, row, _, ⟨hrow, rfl⟩, hrest⟩ := h
    have hbehavior : s1 = s ∧ (b = .release ∨ b = .delete) := by
      cases hv : sess.behavior <;> rw [hv] at hvalid <;> cases hvalid <;> simp
    obtain ⟨rfl, hb⟩ := hbehavior
    cases row with
    | none => cases hrest
    | some n =>
      simp only [bind_eq_ok, wrap_eq_ok, insert_eq_ok] at hrest
      obtain ⟨_, s2, husable, _, s3, ⟨u, hu, rfl⟩, _, s4, hmaps, hindex⟩ := hrest
      obtain ⟨rfl, husable⟩ := sessionChecksUsable_of_ok husable
      refine ⟨b, u, hb, hu, ?_, husable, ?_⟩
      · rw [nodeRow, hrow]
        rfl
      · rw [insertSessionChecks_of_ok hmaps] at hindex
        cases hindex
        rfl

theorem Sound.putSession (h : Sound s) {u : List Byte}
    (hb : sess.behavior = .release ∨ sess.behavior = .delete) (hu : sessionKey sess = .ok u)
    (hnode : (nodeRow sess.node s).isSome) (husable : ∀ c ∈ sess.checks, UsableCheck sess.node c s) :
    Sound (s.putSession idx sess) := by
  have hkeep : ∀ id, s.HasSession id → (s.putSession idx sess).HasSession id := by
    rintro id ⟨v, old, hv, hold⟩
    by_cases huv : v = u
    · exact ⟨v, sess, hv, huv ▸ first_upsert_self hu⟩
    · exact ⟨v, old, hv, (first_upsert_ne hu huv).trans hold⟩
  have hnew : (s.putSession idx sess).HasSession sess.id :=
    ⟨u, sess, (sessionKey_eq_ok hu).1, first_upsert_self hu⟩
  refine ⟨⟨fun x hx => ?_, fun m hm => ?_, fun e he hheld => hkeep _ (h.locks e he hheld),
    fun q hq hheld => hkeep _ (h.queries q hq hheld)⟩, fun x hx => ?_, fun m hm => ?_,
    h.serviceNodes, h.checkNodes, h.nodeIDs⟩
  · rcases mem_values_of_upsert hx with rfl | hx
    · exact hb
    · exact h.behaviors x hx
  · rcases mem_values_of_putAll hm with hm | hm
    · obtain ⟨c, -, rfl⟩ := mem_map.mp hm
      exact hnew
    · exact hkeep _ (h.mappings m hm)
  · rcases mem_values_of_upsert hx with rfl | hx
    · exact hnode
    · exact h.sessionNodes x hx
  · rcases mem_values_of_putAll hm with hm | hm
    · obtain ⟨c, hc, rfl⟩ := mem_map.mp hm
      exact husable c hc
    · exact h.mappingChecks m hm

/-! ## Keys -/

theorem Sound.withKeys (h : Sound s) {kvs : Table kvKey} {tombstones : Table tombstoneKey}
    {t : Table indexKey} (hk : ∀ e ∈ kvs.values, e.session ≠ "" → s.HasSession e.session) :
    Sound { s with kvs := kvs, tombstones := tombstones, index := t } :=
  ⟨⟨h.behaviors, h.mappings, hk, h.queries⟩, h.sessionNodes, h.mappingChecks, h.serviceNodes,
    h.checkNodes, h.nodeIDs⟩

theorem KeyOp.Writes.hasSession {e : DirEntry} (h : Sound s) (hw : ko.Writes idx s e)
    (hheld : e.session ≠ "") : s.HasSession e.session := by
  have hold (k : Key) (hne : ((s.kvs.first k).map (·.session)).getD "" ≠ "") :
      s.HasSession (((s.kvs.first k).map (·.session)).getD "") := by
    cases hk : s.kvs.first k with
    | none => simp [hk] at hne
    | some old =>
      simp only [hk, Option.map_some, Option.getD_some] at hne ⊢
      exact h.locks old (mem_values_of_first hk) hne
  cases hw with
  | set e => exact hold e.key hheld
  | cas e => exact hold e.key hheld
  | lock hne hu hsess hl =>
    rename_i e locked u sess
    have hlocked : locked.session = e.session := by
      unfold lockedEntry at hl
      split at hl
      · cases hl
        rfl
      · split at hl
        · cases hl
          rfl
        · split at hl
          · cases hl
          · cases hl
            rfl
    change s.HasSession locked.session
    rw [hlocked]
    exact ⟨u, sess, hu, hsess⟩
  | unlock => exact absurd rfl hheld

theorem KeyChange.sound (h : Sound s) (hc : KeyChange idx s ko s') : Sound s' := by
  cases hc with
  | none => exact h
  | put hw hk =>
    refine h.withKeys fun x hx hheld => ?_
    rcases mem_values_of_upsert hx with rfl | hx
    · exact hw.hasSession h hheld
    · exact h.locks x hx hheld
  | delete | deleteCAS =>
    exact h.withKeys fun x hx hheld => h.locks x (mem_values_erase.mp hx).1 hheld
  | deleteTree p =>
    have hkeep : ∀ x ∈ (s.kvs.keep fun e => !underPrefix p e.key).values, x.session ≠ "" →
        s.HasSession x.session :=
      fun x hx hheld => h.locks x (mem_values_keep.mp hx).1 hheld
    unfold State.removeTree
    split
    · exact h.withKeys hkeep
    · split <;> exact h.withKeys hkeep
  | reap => exact h.withKeys h.locks

theorem KeyChange.sessions (hc : KeyChange idx s ko s') :
    s'.sessions = s.sessions ∧ s'.sessionChecks = s.sessionChecks := by
  cases hc with
  | none | put | delete | deleteCAS | reap => exact ⟨rfl, rfl⟩
  | deleteTree p =>
    unfold State.removeTree
    split
    · exact ⟨rfl, rfl⟩
    · split <;> exact ⟨rfl, rfl⟩

theorem KeyChange.sessionsShrink (hc : KeyChange idx s ko s') : SessionsShrink s s' := by
  obtain ⟨hsessions, hmappings⟩ := hc.sessions
  exact ⟨fun u sess hu => hsessions ▸ hu, fun m hm => hmappings ▸ hm⟩

theorem KeyChange.sameCatalog (h : KeyChange idx s ko s') : SameCatalog idx s s' := by
  have htable (s1 : State) (hs1 : SameCatalog idx s s1) {t : String}
      (ht : .table t ∈ sessionIndexes) : SameCatalog idx s (s1.withIndex (.table t) idx) :=
    hs1.trans (sameCatalog_withIndex idx s1 ht)
  have hkeys {kvs : Table kvKey} {tombstones : Table tombstoneKey} :
      SameCatalog idx s { s with kvs := kvs, tombstones := tombstones } :=
    ⟨rfl, rfl, rfl, rfl, rfl, fun _ => .inl rfl⟩
  cases h with
  | none => exact .refl idx s
  | put => exact (sameButKeys_putKey s idx _).toSameCatalog
  | delete | deleteCAS => exact (sameButKeys_removeKey s idx _).toSameCatalog
  | deleteTree p =>
    unfold State.removeTree
    split
    · exact hkeys
    · split
      · exact htable _ hkeys (by decide)
      · exact htable _ (htable _ hkeys (by decide)) (by decide)
  | reap => exact hkeys

/-! ## Every operation -/

theorem Operation.created (hn : op.newSession = some sess) (h : op.Succeeds idx s s') :
    ∃ b u, (b = .release ∨ b = .delete) ∧ sessionKey (sess.stamped idx b) = .ok u ∧
      (nodeRow sess.node s).isSome ∧ (∀ c ∈ sess.checks, UsableCheck sess.node c s) ∧
      s' = s.putSession idx (sess.stamped idx b) := by
  have hop : op = .call (.sessionCreate sess) := by
    unfold newSession at hn
    split at hn
    · cases hn
      rfl
    · cases hn
  subst hop
  obtain ⟨_, s1, hcreate, hlast⟩ := bind_eq_ok.mp h
  cases hlast
  exact sessionCreateTxn_of_ok hcreate

theorem Operation.sound (hs : Sound s) (h : op.Succeeds idx s s') : Sound s' := by
  cases hk : op.keyOp with
  | some ko => exact KeyChange.sound hs (KeyOp.change (run_of_keyOp hk h))
  | none =>
    cases hn : op.newSession with
    | none => exact (steps hs hk hn .any h).sound hs
    | some sess =>
      obtain ⟨b, u, hb, hu, hnode, husable, rfl⟩ := created hn h
      exact hs.putSession hb hu hnode husable

theorem Path.sound {events : List Event} (h : Path events s s') (hs : Sound s) : Sound s' :=
  h.keeps (fun _ _ => trivial) (fun _ _ hop hs => Operation.sound hs hop) hs

theorem Operation.sessionsShrink (hs : Sound s) (hn : op.newSession = none)
    (h : op.Succeeds idx s s') : SessionsShrink s s' := by
  cases hk : op.keyOp with
  | some ko => exact (KeyOp.change (run_of_keyOp hk h)).sessionsShrink
  | none => exact (steps hs hk hn .any h).sessionsShrink

/-! ## The nodes of mappings -/

/-- A mapping names the node of its session. -/
def MappingNodes (s : State) : Prop :=
  ∀ m ∈ s.sessionChecks.values, ∀ u sess, uuidKey m.session = .ok u →
    s.sessions.first u = some sess → toLower m.node = toLower sess.node

theorem MappingNodes.of_shrink (h : MappingNodes s) (hshrink : SessionsShrink s s') :
    MappingNodes s' :=
  fun m hm u sess hu hsess =>
    h m (hshrink.sessionChecks m hm) u sess hu (hshrink.sessions u sess hsess)

/-- The session that an operation creates is not in the store. -/
def Operation.Fresh (op : Operation) (s : State) : Prop :=
  ∀ sess, op.newSession = some sess → ¬ s.HasSession sess.id

instance (op : Operation) (s : State) : Decidable (op.Fresh s) :=
  decidable_of_iff (∀ sess ∈ op.newSession, ¬ s.HasSession sess.id) Iff.rfl

theorem MappingNodes.putSession (h : MappingNodes s) (hs : Sound s) {u : List Byte}
    (hu : sessionKey sess = .ok u) (hfresh : ¬ s.HasSession sess.id) :
    MappingNodes (s.putSession idx sess) := by
  have huuid : uuidKey sess.id = .ok u := (sessionKey_eq_ok hu).1
  intro m hm v other hv hother
  by_cases huv : v = u
  · subst huv
    have hrow : (s.putSession idx sess).sessions.first v = some sess := first_upsert_self hu
    rw [hrow, Option.some.injEq] at hother
    subst hother
    rcases mem_values_of_putAll hm with hm | hm
    · obtain ⟨c, -, rfl⟩ := mem_map.mp hm
      rfl
    · obtain ⟨w, old, hw, hold⟩ := hs.mappings m hm
      rw [hv, Except.ok.injEq] at hw
      subst hw
      exact absurd ⟨v, old, huuid, hold⟩ hfresh
  · have hrow : (s.putSession idx sess).sessions.first v = s.sessions.first v :=
      first_upsert_ne hu huv
    rw [hrow] at hother
    rcases mem_values_of_putAll hm with hm | hm
    · obtain ⟨c, -, rfl⟩ := mem_map.mp hm
      have hsame : uuidKey sess.id = .ok v := hv
      rw [huuid, Except.ok.injEq] at hsame
      exact absurd hsame.symm huv
    · exact h m hm v other hv hother

theorem Operation.mappingNodes (h : MappingNodes s) (hs : Sound s) (hfresh : op.Fresh s)
    (hop : op.Succeeds idx s s') : MappingNodes s' := by
  cases hn : op.newSession with
  | none => exact h.of_shrink (sessionsShrink hs hn hop)
  | some sess =>
    obtain ⟨b, u, -, hu, -, -, rfl⟩ := created hn hop
    exact h.putSession hs hu (hfresh sess hn)

/-! ## Every run -/

structure SessionsReferenced (s : State) : Prop where
  nodes : ∀ sess ∈ s.sessions.values, ∃ n, nodeRow sess.node s = some n
  mappings : ∀ m ∈ s.sessionChecks.values, ∃ u sess c, uuidKey m.session = .ok u ∧
    s.sessions.first u = some sess ∧ toLower m.node = toLower sess.node ∧
    checkRow sess.node m.checkID s = some c ∧ c.status ≠ healthCritical
  locks : ∀ e ∈ s.kvs.values, e.session ≠ "" →
    ∃ u sess, uuidKey e.session = .ok u ∧ s.sessions.first u = some sess
  queries : ∀ q ∈ s.preparedQueries.values, q.session ≠ "" →
    ∃ u sess, uuidKey q.session = .ok u ∧ s.sessions.first u = some sess

theorem SessionsReferenced.of_sound (hs : Sound s) (h : MappingNodes s) : SessionsReferenced s where
  nodes sess hsess := Option.isSome_iff_exists.mp (hs.sessionNodes sess hsess)
  mappings m hm := by
    obtain ⟨u, sess, hu, hsess⟩ := hs.mappings m hm
    obtain ⟨c, hc, hcrit⟩ := hs.mappingChecks m hm
    have hnode := h m hm u sess hu hsess
    refine ⟨u, sess, c, hu, hsess, hnode, ?_, hcrit⟩
    rw [checkRow, rowKey_congr hnode.symm rfl]
    exact hc
  locks := hs.locks
  queries := hs.queries

end Laws

section Example

attribute [local instance] ascii

def exampleSession : Session :=
  { id := "11111111-2222-3333-4444-555555555555", node := "web", checks := ["serfHealth"] }

/-- A node with a check, a session that depends on both, and a lock of this session. -/
def lockLog : List LogEntry :=
  [{ index := 1, command := .call (.ensureNode { node := "web" }) },
   { index := 2
     command := .call (.ensureCheck { node := "web", checkID := serfCheckID, status := "passing" }) },
   { index := 3, command := .call (.sessionCreate exampleSession) },
   { index := 4, command := .call (.kvsLock { key := [107], session := exampleSession.id }) }]

end Example

end OpenGyoza
