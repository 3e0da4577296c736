-- Locks over whole runs. A lock stays with its session until the session gives
-- it back or ends, or the key is deleted, unless a key or an ID with the same
-- first bytes is taken for it. The lock index of a key counts how often the
-- lock was taken.
import OpenGyoza.Soundness

namespace OpenGyoza

open Memdb Txn Table List

section Exclusion

variable [External] {idx : Nat} {s s' : State}

/-! ## Catalog steps and locks -/

/-- A lock that has ended: it is found by the ID of a session that has ended, and the key is
deleted or not locked any more. -/
structure LockEnded (s s' : State) (k : Key) (e : DirEntry) : Prop where
  held : e.session ≠ ""
  ended : ∃ u, s.sessions.first u ≠ none ∧ s'.sessions.first u = none ∧
    found DirEntry.sessionEntry u e = true
  key : s'.kvs.first k = none ∨
    ∃ e', s'.kvs.first k = some e' ∧ e'.session = "" ∧ e'.lockIndex = e.lockIndex

/-- Sessions only end, and a key changes only when its lock has ended. -/
structure LocksEnd (s s' : State) : Prop where
  sessions : ∀ u, s.sessions.first u = none → s'.sessions.first u = none
  keys : ∀ k, s'.kvs.first k = s.kvs.first k ∨
    ∃ e, s.kvs.first k = some e ∧ LockEnded s s' k e

theorem LocksEnd.trans {s'' : State} (h : LocksEnd s s') (h' : LocksEnd s' s'') :
    LocksEnd s s'' := by
  refine ⟨fun u hu => h'.sessions u (h.sessions u hu), fun k => ?_⟩
  rcases h.keys k with hk | ⟨e, he, hended⟩
  · rcases h'.keys k with hk' | ⟨e, he, hended⟩
    · exact .inl (hk'.trans hk)
    · obtain ⟨u, hu, hgone, hfound⟩ := hended.ended
      exact .inr ⟨e, hk ▸ he, hended.held, ⟨u, mt (h.sessions u) hu, hgone, hfound⟩, hended.key⟩
  · right
    rcases h'.keys k with hk' | ⟨e', he', hended'⟩
    · obtain ⟨u, hu, hgone, hfound⟩ := hended.ended
      exact ⟨e, he, hended.held, ⟨u, hu, h'.sessions u hgone, hfound⟩, hk' ▸ hended.key⟩
    · -- The key is not locked after the first end, so no second one can follow.
      rcases hended.key with hk | ⟨e'', hk, hfree, -⟩
      · rw [hk] at he'
        cases he'
      · rw [hk, Option.some.injEq] at he'
        exact absurd (he' ▸ hfree) hended'.held

theorem SessionEnded.locksEnd {u : List Byte} (h : SessionEnded idx u s s') : LocksEnd s s' := by
  refine ⟨fun v hv => by rw [h.sessions, first_erase, hv, ite_self], fun k => ?_⟩
  obtain ⟨sess, hsess, hlocks⟩ := h.locks
  cases he : s.kvs.first k with
  | none => exact .inl (by rw [hlocks k, he]; rfl)
  | some e =>
    have hnow : s'.kvs.first k = endedLock idx u sess.behavior e := by rw [hlocks k, he]; rfl
    cases hu : found DirEntry.sessionEntry u e with
    | true =>
      have hgone : s'.sessions.first u = none := by rw [h.sessions, first_erase_self]
      refine .inr ⟨e, rfl, session_of_found hu, ⟨u, by simp [hsess], hgone, hu⟩, ?_⟩
      rw [hnow]
      simp only [endedLock, hu, if_true]
      split
      · exact .inl rfl
      · exact .inr ⟨_, rfl, rfl, rfl⟩
    | false =>
      left
      rw [hnow]
      simp [endedLock, hu]

theorem SessionsEnd.locksEnd {E : List Byte → Prop} (h : SessionsEnd idx E s s') :
    LocksEnd s s' := by
  induction h with
  | refl => exact ⟨fun _ hu => hu, fun _ => .inl rfl⟩
  | tail _ hend ih =>
    obtain ⟨u, -, hend⟩ := hend
    exact ih.trans hend.locksEnd

theorem CatalogSteps.locksEnd {p : Scope} (h : CatalogSteps idx p s s') : LocksEnd s s' := by
  induction h with
  | refl => exact ⟨fun _ hu => hu, fun _ => .inl rfl⟩
  | tail _ hstep ih =>
    obtain ⟨s1, hsame, hend⟩ := hstep.ends
    have hkept : LocksEnd _ s1 := ⟨fun u hu => by rw [hsame.sessions, hu], fun k =>
      .inl (by rw [hsame.kvs])⟩
    exact ih.trans (hkept.trans hend.locksEnd)

/-! ## What one operation does to one key -/

def KeyOp.frees (k : Key) (x : String) : KeyOp → Bool
  | unlock e => e.key = k ∧ e.session = x
  | delete j => j = k
  | deleteCAS _ j => j = k
  | deleteTree p => p.isPrefixOf k
  | set _ | cas _ | lock _ | reap _ => false

/-- An operation is about a session: about the session itself, its node, or one of its checks. -/
def Scope.Names (p : Scope) (s : State) (u : List Byte) : Prop :=
  p.ends u ∨
    (∃ node, p.leaves node ∧ ∃ sess ∈ s.sessions.values, uuidKey sess.id = .ok u ∧
      toLower sess.node = toLower node) ∨
    ∃ node checkID, p.Downs node checkID ∧ ∃ m ∈ s.sessionChecks.values,
      uuidKey m.session = .ok u ∧ toLower m.node = toLower node ∧
        toLower m.checkID = toLower checkID

/-- What an operation is about. -/
def Event.scope (ev : Event) : Scope := ev.op.scope (fun _ _ => True) ev.before

/-- An operation ends the session with the ID `u`. -/
def Event.Ends (ev : Event) (u : List Byte) : Prop :=
  ev.before.sessions.first u ≠ none ∧ ev.after.sessions.first u = none

def Event.Releases (ev : Event) (k : Key) (x : String) : Prop :=
  (∃ ko ∈ ev.op.keyOp, ko.frees k x) ∨
    ∃ u, uuidKey x = .ok u ∧ ev.Ends u ∧ ev.scope.Names ev.before u

def Event.Slips (ev : Event) (k : Key) (x : String) : Prop :=
  ev.op.keyOp = some (.deleteTree (k ++ [0])) ∨
    ∃ u, ev.Ends u ∧ ev.scope.Ends ev.before u ∧
      found DirEntry.sessionEntry u { key := k, session := x } = true ∧
      ¬ (uuidKey x = .ok u ∧ ev.scope.Names ev.before u)

/-- An operation ends the lock of a session, or may do so. -/
def Event.Frees (ev : Event) (k : Key) (x : String) : Prop := ev.Releases k x ∨ ev.Slips k x

section

variable {ev : Event} {ko : KeyOp} {k : Key} {x : String} (hop : ev.op.keyOp = some ko)
  (h : ev.op.Succeeds ev.index ev.before ev.after)
include hop h

theorem Event.not_ends (u : List Byte) : ¬ ev.Ends u := by
  rintro ⟨hu, hgone⟩
  rw [(KeyOp.change (Operation.run_of_keyOp hop h)).sessions.1] at hgone
  exact hu hgone

theorem Event.releases_iff : ev.Releases k x ↔ ko.frees k x = true := by
  refine ⟨?_, fun hfrees => .inl ⟨ko, hop, hfrees⟩⟩
  rintro (⟨ko', hop', hfrees⟩ | ⟨u, -, hends, -⟩)
  · exact Option.some.inj (hop'.symm.trans hop) ▸ hfrees
  · exact absurd hends (Event.not_ends hop h u)

theorem Event.slips_iff : ev.Slips k x ↔ ko = .deleteTree (k ++ [0]) := by
  refine ⟨?_, fun htree => .inl (htree ▸ hop)⟩
  rintro (htree | ⟨u, hends, -⟩)
  · exact Option.some.inj (hop.symm.trans htree)
  · exact absurd hends (Event.not_ends hop h u)

end

/-- All that an operation may do to a key with the entry `e`. -/
inductive EntryChange (ev : Event) (k : Key) (e : DirEntry) : Option DirEntry → Prop
  | same : EntryChange ev k e (some e)
  | write {w e' : DirEntry} (hop : ev.op.keyOp = some (.set w) ∨ ev.op.keyOp = some (.cas w))
      (hk : w.key = k) (hsession : e'.session = e.session) (hindex : e'.lockIndex = w.lockIndex) :
      EntryChange ev k e (some e')
  | relock {e' : DirEntry} (hsession : e'.session = e.session)
      (hindex : e'.lockIndex = e.lockIndex) : EntryChange ev k e (some e')
  | acquire {w e' : DirEntry} (hop : ev.op.keyOp = some (.lock w)) (hk : w.key = k)
      (hfree : e.session = "") (hsession : e'.session = w.session) (hheld : w.session ≠ "")
      (hindex : e'.lockIndex = e.lockIndex + 1) : EntryChange ev k e (some e')
  | release {e' : DirEntry} (hrelease : ev.Frees k e.session) (hheld : e.session ≠ "")
      (hsession : e'.session = "") (hindex : e'.lockIndex = e.lockIndex) :
      EntryChange ev k e (some e')
  | gone (hrelease : ev.Frees k e.session) : EntryChange ev k e none

variable {ev : Event} {e : DirEntry} {k : Key} {x : String}

theorem KeyOp.Writes.entryChange {ko : KeyOp} {e' : DirEntry} (hop : ev.op.keyOp = some ko)
    (hw : ko.Writes ev.index ev.before e') (he : ev.before.kvs.first e'.key = some e) :
    EntryChange ev e'.key e (some e') := by
  cases hw with
  | set w =>
    refine .write (.inl hop) rfl ?_ rfl
    have hold : ev.before.kvs.first w.key = some e := he
    simp [storedEntry, hold]
  | cas w =>
    refine .write (.inr hop) rfl ?_ rfl
    have hold : ev.before.kvs.first w.key = some e := he
    simp [storedEntry, hold]
  | @lock w locked u sess hheld hu hsess hl =>
    have hkey := lockedEntry_key hl
    have hold : ev.before.kvs.first w.key = some e := by
      rw [← hkey]
      exact he
    rw [hold] at hl
    unfold lockedEntry at hl
    by_cases hsame : e.session = w.session
    · simp only [hsame, if_true, Option.some.injEq] at hl
      subst hl
      exact .relock hsame.symm rfl
    · simp only [hsame, if_false] at hl
      by_cases hfree : e.session = ""
      · simp only [hfree, ne_eq, not_true_eq_false, if_false, Option.some.injEq] at hl
        subst hl
        exact .acquire hop rfl hfree rfl hheld rfl
      · simp only [ne_eq, hfree, not_false_eq_true, if_true, reduceCtorEq] at hl
  | @unlock w old hold hheld hne =>
    have hsame : ev.before.kvs.first w.key = some e := he
    rw [hold, Option.some.injEq] at hsame
    subst hsame
    have hfrees : ev.Releases w.key old.session := .inl ⟨_, hop, by simp [KeyOp.frees, hheld]⟩
    exact .release (.inl hfrees) (hheld ▸ hne) rfl rfl

theorem KeyChange.entryChange {ko : KeyOp} (hop : ev.op.keyOp = some ko)
    (hc : KeyChange ev.index ev.before ko ev.after) (he : ev.before.kvs.first k = some e) :
    EntryChange ev k e (ev.after.kvs.first k) := by
  have hsame (h : ev.after.kvs.first k = ev.before.kvs.first k) :
      EntryChange ev k e (ev.after.kvs.first k) := by
    rw [h, he]
    exact .same
  obtain ⟨i, op, before, after⟩ := ev
  dsimp only at hc he hsame ⊢
  cases hc with
  | none | reap => exact hsame rfl
  | @put _ e' hw hk =>
    by_cases hkey : k = e'.key
    · subst hkey
      have hnow : (before.putKey i e').kvs.first e'.key = some e' := first_upsert_self hk
      rw [hnow]
      exact hw.entryChange hop he
    · exact hsame (first_upsert_ne hk hkey)
  | @delete j hj =>
    by_cases hkey : k = j
    · subst hkey
      have hnow : (before.removeKey i k).kvs.first k = Option.none := first_erase_self _ _
      rw [hnow]
      exact .gone (.inl (.inl ⟨_, hop, by simp [KeyOp.frees]⟩))
    · exact hsame (first_erase_ne _ hkey)
  | @deleteCAS cidx j hj =>
    by_cases hkey : k = j
    · subst hkey
      have hnow : (before.removeKey i k).kvs.first k = Option.none := first_erase_self _ _
      rw [hnow]
      exact .gone (.inl (.inl ⟨_, hop, by simp [KeyOp.frees]⟩))
    · exact hsame (first_erase_ne _ hkey)
  | deleteTree p =>
    have hnow : (before.removeTree i p).kvs.first k =
        (some e).filter fun e => !underPrefix p e.key := by
      rw [removeTree_kvs, first_keep, he]
    have hkey := (key_of_kvs_first he).1
    by_cases hp : underPrefix p k = true
    · have hgone : (before.removeTree i p).kvs.first k = Option.none := by
        rw [hnow]
        simp [hkey, hp]
      rw [hgone]
      rcases underPrefix_iff.mp hp with hpfx | rfl
      · exact .gone (.inl (.inl ⟨_, hop, isPrefixOf_iff_prefix.mpr hpfx⟩))
      · exact .gone (.inr (.inl hop))
    · have hkept : (before.removeTree i p).kvs.first k = some e := by
        rw [hnow]
        simp [hkey, hp]
      rw [hkept]
      exact .same

theorem Event.entryChange (hs : Sound ev.before) (h : ev.op.Succeeds ev.index ev.before ev.after)
    (he : ev.before.kvs.first k = some e) : EntryChange ev k e (ev.after.kvs.first k) := by
  cases hk : ev.op.keyOp with
  | some ko => exact KeyChange.entryChange hk (KeyOp.change (Operation.run_of_keyOp hk h)) he
  | none =>
    cases hn : ev.op.newSession with
    | some sess =>
      obtain ⟨b, u, -, -, -, -, hafter⟩ := Operation.created hn h
      have hsame : ev.after.kvs = ev.before.kvs := by
        rw [hafter]
        rfl
      rw [hsame, he]
      exact .same
    | none =>
      have hsteps := Operation.steps hs hk hn .any h
      rcases (CatalogSteps.locksEnd hsteps).keys k with hkey | ⟨old, hold, hended⟩
      · rw [hkey, he]
        exact .same
      · rw [he, Option.some.injEq] at hold
        subst hold
        have hrelease : ev.Frees k e.session := by
          obtain ⟨u, hu, hgone, hfound⟩ := hended.ended
          by_cases hown : uuidKey e.session = .ok u ∧ ev.scope.Names ev.before u
          · exact .inl (.inr ⟨u, hown.1, ⟨hu, hgone⟩, hown.2⟩)
          · refine .inr (.inr ⟨u, ⟨hu, hgone⟩, CatalogSteps.ended hsteps hu hgone, ?_, hown⟩)
            rw [← (key_of_kvs_first he).1]
            exact hfound
        rcases hended.key with hnow | ⟨e', hnow, hfree, hindex⟩
        · rw [hnow]
          exact .gone hrelease
        · rw [hnow]
          exact .release hrelease hended.held hfree hindex

/-! ## Exclusion -/

/-- A key is locked by a session. -/
def State.HeldBy (s : State) (k : Key) (x : String) : Prop :=
  x ≠ "" ∧ (s.kvs.first k).map (·.session) = some x

instance (s : State) (k : Key) (x : String) : Decidable (s.HeldBy k x) :=
  inferInstanceAs (Decidable (_ ∧ _))

theorem State.HeldBy.unique {y : String} (h : s.HeldBy k x) (h' : s.HeldBy k y) :
    x = y := Option.some.inj (h.2.symm.trans h'.2)

theorem Event.heldBy (hs : Sound ev.before) (h : ev.op.Succeeds ev.index ev.before ev.after)
    (hno : ¬ ev.Frees k x) (hheld : ev.before.HeldBy k x) : ev.after.HeldBy k x := by
  obtain ⟨hx, hmap⟩ := hheld
  obtain ⟨e, he, rfl⟩ := Option.map_eq_some_iff.mp hmap
  have hc := Event.entryChange hs h he
  generalize hnow : ev.after.kvs.first k = now at hc
  cases hc with
  | same => exact ⟨hx, by rw [hnow]; rfl⟩
  | write _ _ hsession | relock hsession =>
    exact ⟨hx, by rw [hnow, Option.map_some, hsession]⟩
  | acquire _ _ hfree => exact absurd hfree hx
  | release hrelease | gone hrelease => exact absurd hrelease hno

theorem Path.heldBy {events : List Event} (h : Path events s s') (hs : Sound s)
    (hno : ∀ ev ∈ events, ¬ ev.Frees k x) (hheld : s.HeldBy k x) : s'.HeldBy k x := by
  have hboth : Sound s' ∧ s'.HeldBy k x := by
    refine h.keeps (I := fun s => Sound s ∧ s.HeldBy k x) hno ?_ ⟨hs, hheld⟩
    rintro ev hno hop ⟨hs, hheld⟩
    exact ⟨Operation.sound hs hop, Event.heldBy hs hop hno hheld⟩
  exact hboth.2

theorem not_succeeds_lock {op : Operation} {w : DirEntry} (hop : op.keyOp = some (.lock w))
    (hk : w.key = k) (hheld : s.HeldBy k x) (hne : w.session ≠ x) : ¬ op.Succeeds idx s s' := by
  intro h
  obtain ⟨hx, hmap⟩ := hheld
  obtain ⟨e, he, rfl⟩ := Option.map_eq_some_iff.mp hmap
  have hrun := Operation.run_of_keyOp hop h
  simp only [KeyOp.run, kvsLockTxn, bind_eq_ok, pure_eq_ok] at hrun
  obtain ⟨o, s1, hlock, hsome, -⟩ := hrun
  have hnone : lockedEntry idx w (some e) = none := by
    simp [lockedEntry, hne.symm, hx]
  split at hlock
  · cases hlock
  · obtain ⟨u, s2, hlookup, hrest⟩ := bind_eq_ok.mp hlock
    obtain ⟨-, rfl⟩ := uuidKey_of_lookup hlookup
    obtain ⟨row, s3, hread, hrest⟩ := bind_eq_ok.mp hrest
    cases hread
    cases hsess : s2.sessions.first u with
    | none =>
      simp only [hsess] at hrest
      cases hrest
    | some sess =>
      simp only [hsess] at hrest
      obtain ⟨old, s4, hread, hrest⟩ := bind_eq_ok.mp hrest
      cases hread
      simp only [hk, he, hnone] at hrest
      obtain ⟨rfl, -⟩ := pure_eq_ok.mp hrest
      cases hsome

/-- A lock stays with its session until it is released, in every run in which nothing else is
taken for it: it is held at the end when no release follows, nobody else holds it, and before
another session takes it there is a release. -/
theorem a_lock_is_held_until_it_is_released {log : List LogEntry} {before after : List Event}
    (hlog : history log .empty = before ++ after) {k : Key} {x : String}
    (hheld : (endOf .empty before).HeldBy k x) (hslips : ∀ ev ∈ after, ¬ ev.Slips k x) :
    ((∀ ev ∈ after, ¬ ev.Releases k x) → (replay log .empty).HeldBy k x) ∧
      (∀ y, (endOf .empty before).HeldBy k y → y = x) ∧
      ∀ between ev rest w, after = between ++ ev :: rest → ev.op.keyOp = some (.lock w) →
        w.key = k → w.session ≠ x → ∃ release ∈ between, release.Releases k x := by
  have hpath := history_path log .empty
  rw [hlog] at hpath
  obtain ⟨hbefore, hafter⟩ := hpath.of_append
  have hs : Sound (endOf .empty before) := hbefore.sound sound_empty
  refine ⟨fun hno => hafter.heldBy hs (fun ev hev => not_or.mpr ⟨hno ev hev, hslips ev hev⟩) hheld,
    fun y hy => hy.unique hheld, ?_⟩
  intro between ev rest w hsplit hop hk hne
  rw [hsplit] at hafter hslips
  obtain ⟨hbetween, hrest⟩ := hafter.of_append
  by_contra hnone
  push Not at hnone
  have hstill := hbetween.heldBy hs
    (fun ev hev => not_or.mpr ⟨hnone ev hev, hslips ev (mem_append_left _ hev)⟩) hheld
  generalize endOf (endOf .empty before) between = s₁ at hrest hstill
  cases hrest with
  | cons hsucceeds _ => exact not_succeeds_lock hop hk hstill hne hsucceeds

end Exclusion

section ExclusionExample

attribute [local instance] ascii

def exampleLock (lockIndex : UInt64) : DirEntry :=
  { key := [107], session := exampleSession.id, lockIndex := lockIndex }

/-- A lock is taken, its value is set, and it is given back and taken again. -/
def relockLog (lockIndex : UInt64) : List LogEntry :=
  lockLog ++
    [{ index := 5, command := .call (.kvsSet (exampleLock lockIndex)) },
     { index := 6, command := .call (.kvsUnlock (exampleLock 0)) },
     { index := 7, command := .call (.kvsLock (exampleLock 0)) }]

theorem a_lock_is_held_over_a_set :
    (endOf .empty ((history ((relockLog 0).take 5) .empty).take 4)).HeldBy [107]
        exampleSession.id ∧
      (replay ((relockLog 0).take 5) .empty).HeldBy [107] exampleSession.id := by
  have hheld : (endOf .empty ((history ((relockLog 0).take 5) .empty).take 4)).HeldBy [107]
      exampleSession.id := by decide
  have hset : ∀ ev ∈ (history ((relockLog 0).take 5) .empty).drop 4,
      ev.op.keyOp = some (.set (exampleLock 0)) := by decide
  have hsucceeds {ev : Event} (hev : ev ∈ (history ((relockLog 0).take 5) .empty).drop 4) :=
    (history_path _ .empty).succeeds (mem_of_mem_drop hev)
  refine ⟨hheld, (a_lock_is_held_until_it_is_released (take_append_drop 4 _).symm hheld ?_).1 ?_⟩
  · intro ev hev hslips
    cases (Event.slips_iff (hset ev hev) (hsucceeds hev)).mp hslips
  · intro ev hev hreleases
    cases (Event.releases_iff (hset ev hev) (hsucceeds hev)).mp hreleases

/-- The tree under a locked key and a zero byte is deleted. -/
def zeroTreeLog : List LogEntry :=
  lockLog ++ [{ index := 5, command := .call (.kvsDeleteTree [107, 0]) }]

/-- The key is deleted with the tree, although the prefix is none of the key. -/
theorem a_lock_is_lost_to_a_longer_prefix :
    (endOf .empty ((history zeroTreeLog .empty).take 4)).HeldBy [107] exampleSession.id ∧
      (∀ ev ∈ (history zeroTreeLog .empty).drop 4, ¬ ev.Releases [107] exampleSession.id) ∧
      ¬ (replay zeroTreeLog .empty).HeldBy [107] exampleSession.id := by
  have htree : ∀ ev ∈ (history zeroTreeLog .empty).drop 4,
      ev.op.keyOp = some (.deleteTree [107, 0]) := by decide
  refine ⟨by decide, fun ev hev hreleases => ?_, by decide⟩
  have hsucceeds := (history_path zeroTreeLog .empty).succeeds (mem_of_mem_drop hev)
  cases (Event.releases_iff (htree ev hev) hsucceeds).mp hreleases

end ExclusionExample

section Sequencers

variable [External] {s s' : State}

/-! ## The lock index -/

/-- What the lock index owes to a change of an entry: it grows by one when the lock is taken,
and it stays otherwise. -/
def LockCounted (e e' : DirEntry) : Prop :=
  if e.session = "" ∧ e'.session ≠ "" then e'.lockIndex.toNat = e.lockIndex.toNat + 1
  else e'.lockIndex = e.lockIndex

instance (e e' : DirEntry) : Decidable (LockCounted e e') :=
  inferInstanceAs (Decidable (ite _ _ _))

def KeyOp.KeepsLockIndex (s : State) : KeyOp → Prop
  | set w => ∀ old ∈ s.kvs.first w.key, w.lockIndex = old.lockIndex
  | cas w => ∀ old ∈ s.kvs.first w.key, w.lockIndex = old.lockIndex
  | lock w =>
    ∀ old ∈ s.kvs.first w.key, old.session = "" → old.lockIndex.toNat + 1 < UInt64.size
  | delete _ | deleteCAS _ _ | deleteTree _ | unlock _ | reap _ => True

instance (s : State) (ko : KeyOp) : Decidable (ko.KeepsLockIndex s) :=
  match ko with
  | .set w => inferInstanceAs (Decidable (∀ old ∈ s.kvs.first w.key, _))
  | .cas w => inferInstanceAs (Decidable (∀ old ∈ s.kvs.first w.key, _))
  | .lock w => inferInstanceAs (Decidable (∀ old ∈ s.kvs.first w.key, _))
  | .delete _ | .deleteCAS _ _ | .deleteTree _ | .unlock _ | .reap _ => .isTrue trivial

/-- Every key operation of an event keeps the lock index. -/
def Event.KeepsLockIndex (ev : Event) : Prop :=
  ∀ ko ∈ ev.op.keyOp, ko.KeepsLockIndex ev.before

instance (ev : Event) : Decidable ev.KeepsLockIndex :=
  inferInstanceAs (Decidable (∀ ko ∈ ev.op.keyOp, _))

variable {ev : Event} {k : Key} {e e' : DirEntry} {events : List Event}

theorem EntryChange.lockCounted (hc : EntryChange ev k e (some e'))
    (he : ev.before.kvs.first k = some e) (hkeep : ev.KeepsLockIndex) : LockCounted e e' := by
  have hsame (hsession : e'.session = e.session ∨ e'.session = "")
      (hindex : e'.lockIndex = e.lockIndex) : LockCounted e e' := by
    unfold LockCounted
    rw [if_neg]
    · exact hindex
    · rintro ⟨hfree, hheld⟩
      rcases hsession with h | h
      · exact hheld (h.trans hfree)
      · exact hheld h
  cases hc with
  | same => exact hsame (.inl rfl) rfl
  | @write w _ hop hk hsession hindex =>
    have hstored : w.lockIndex = e.lockIndex := by
      rcases hop with hop | hop
      · exact hkeep _ hop e (hk ▸ he)
      · exact hkeep _ hop e (hk ▸ he)
    exact hsame (.inl hsession) (hindex.trans hstored)
  | relock hsession hindex => exact hsame (.inl hsession) hindex
  | release _ _ hsession hindex => exact hsame (.inr hsession) hindex
  | @acquire w _ hop hk hfree hsession hheld hindex =>
    have hsmall : e.lockIndex.toNat + 1 < UInt64.size := hkeep _ hop e (hk ▸ he) hfree
    unfold LockCounted
    rw [if_pos ⟨hfree, hsession ▸ hheld⟩, hindex, UInt64.toNat_add]
    exact Nat.mod_eq_of_lt hsmall

theorem EntryChange.session (hc : EntryChange ev k e (some e')) (hheld : e.session ≠ "") :
    e'.session = e.session ∨ e'.session = "" := by
  cases hc with
  | same => exact .inl rfl
  | write _ _ hsession | relock hsession => exact .inl hsession
  | release _ _ hsession => exact .inr hsession
  | acquire _ _ hfree => exact absurd hfree hheld

omit [External] in
theorem LockCounted.le (h : LockCounted e e') : e.lockIndex.toNat ≤ e'.lockIndex.toNat := by
  unfold LockCounted at h
  split at h
  · omega
  · rw [h]

/-- A path on which a key is never deleted and every operation keeps the lock index. -/
structure Tenured (k : Key) (events : List Event) : Prop where
  present : ∀ ev ∈ events, (ev.after.kvs.first k).isSome
  keeps : ∀ ev ∈ events, ev.KeepsLockIndex

theorem Tenured.tail (h : Tenured k (ev :: events)) : Tenured k events :=
  ⟨fun x hx => h.present x (mem_cons_of_mem _ hx),
    fun x hx => h.keeps x (mem_cons_of_mem _ hx)⟩

theorem Tenured.head (h : Tenured k (ev :: events)) (hs : Sound ev.before)
    (hop : ev.op.Succeeds ev.index ev.before ev.after) (he : ev.before.kvs.first k = some e) :
    ∃ e', ev.after.kvs.first k = some e' ∧ LockCounted e e' ∧
      (e.session ≠ "" → e'.session = e.session ∨ e'.session = "") := by
  obtain ⟨e', he'⟩ := Option.isSome_iff_exists.mp (h.present ev mem_cons_self)
  have hc := Event.entryChange hs hop he
  rw [he'] at hc
  exact ⟨e', he', hc.lockCounted he (h.keeps ev mem_cons_self), hc.session⟩

section

variable (h : Path events s s') (hs : Sound s) (ht : Tenured k events) (he : s.kvs.first k = some e)
  (he' : s'.kvs.first k = some e')
include h hs ht he he'

theorem Path.lockIndex_le :
    e.lockIndex.toNat ≤ e'.lockIndex.toNat := by
  induction h generalizing e with
  | nil s =>
    rw [he, Option.some.injEq] at he'
    rw [he']
  | cons hop _ ih =>
    obtain ⟨e1, he1, hcount, -⟩ := ht.head hs hop he
    exact hcount.le.trans (ih (Operation.sound hs hop) ht.tail he1 he')

theorem Path.lockIndex_lt (hfree : e.session = "") (hheld : e'.session ≠ "") :
    e.lockIndex.toNat < e'.lockIndex.toNat := by
  induction h generalizing e with
  | nil s =>
    rw [he, Option.some.injEq] at he'
    exact absurd (he' ▸ hfree) hheld
  | cons hop hrest ih =>
    obtain ⟨e1, he1, hcount, -⟩ := ht.head hs hop he
    have hs1 := Operation.sound hs hop
    by_cases hfree1 : e1.session = ""
    · exact hcount.le.trans_lt (ih hs1 ht.tail he1 he' hfree1)
    · have hle := hrest.lockIndex_le hs1 ht.tail he1 he'
      unfold LockCounted at hcount
      rw [if_pos ⟨hfree, hfree1⟩] at hcount
      omega

theorem Path.one_tenure (hheld : e.session ≠ "") (hsession : e'.session = e.session)
    (hindex : e'.lockIndex = e.lockIndex) :
    ∀ ev ∈ events, ∃ e1, ev.after.kvs.first k = some e1 ∧ e1.session = e.session ∧
      e1.lockIndex = e.lockIndex := by
  induction h generalizing e with
  | nil s => exact fun _ hev => absurd hev not_mem_nil
  | cons hop hrest ih =>
    obtain ⟨e1, he1, hcount, hnext⟩ := ht.head hs hop he
    have hs1 := Operation.sound hs hop
    have hindex1 : e1.lockIndex = e.lockIndex := by
      unfold LockCounted at hcount
      rwa [if_neg fun h => hheld h.1] at hcount
    rcases hnext hheld with hsession1 | hfree
    · intro ev hev
      rcases mem_cons.mp hev with rfl | hev
      · exact ⟨e1, he1, hsession1, hindex1⟩
      · have hrest' := ih hs1 ht.tail he1 he' (hsession1 ▸ hheld) (hsession.trans hsession1.symm)
          (hindex.trans hindex1.symm) ev hev
        rwa [hsession1, hindex1] at hrest'
    · -- The lock was free in between, so its index is higher at the end.
      have hlt := hrest.lockIndex_lt hs1 ht.tail he1 he' hfree (hsession ▸ hheld)
      rw [hindex, hindex1] at hlt
      exact absurd hlt (lt_irrefl _)

end

structure SequencersSound (log : List LogEntry) : Prop where
  counted : ∀ ev ∈ history log .empty, ∀ k e e', ev.before.kvs.first k = some e →
    ev.after.kvs.first k = some e' → LockCounted e e'
  tenure : ∀ before between after, history log .empty = before ++ (between ++ after) →
    ∀ k, (∀ ev ∈ between, (ev.after.kvs.first k).isSome) →
    ∀ e e', (endOf .empty before).kvs.first k = some e →
      (endOf .empty (before ++ between)).kvs.first k = some e' →
      e.session ≠ "" → e'.session = e.session → e'.lockIndex = e.lockIndex →
      ∀ ev ∈ between, ∃ e₁, ev.after.kvs.first k = some e₁ ∧ e₁.session = e.session ∧
        e₁.lockIndex = e.lockIndex

/-- The lock index is a sequencer in every run whose sets bring the stored index along. -/
theorem lock_indexes_identify_tenures {log : List LogEntry}
    (h : ∀ ev ∈ history log .empty, ev.KeepsLockIndex) : SequencersSound log where
  counted := by
    intro ev hev k e e' he he'
    obtain ⟨before, after, hsplit⟩ := append_of_mem hev
    have hpath := history_path log .empty
    rw [hsplit] at hpath
    obtain ⟨hbefore, hafter⟩ := hpath.of_append
    have hs := hbefore.sound sound_empty
    generalize endOf .empty before = s₁ at hafter hs
    cases hafter with
    | cons hop _ =>
      have hc := Event.entryChange hs hop he
      rw [he'] at hc
      exact hc.lockCounted he (h ev hev)
  tenure := by
    intro before between after hsplit k hpresent e e' he he' hheld hsession hindex
    have hpath := history_path log .empty
    rw [hsplit] at hpath
    obtain ⟨hbefore, hrest⟩ := hpath.of_append
    obtain ⟨hbetween, -⟩ := hrest.of_append
    have hkeeps : ∀ ev ∈ between, ev.KeepsLockIndex := by
      intro ev hev
      apply h
      rw [hsplit]
      simp [hev]
    have hend : endOf .empty (before ++ between) = endOf (endOf .empty before) between :=
      foldl_append
    rw [hend] at he'
    exact hbetween.one_tenure (hbefore.sound sound_empty) ⟨hpresent, hkeeps⟩ he he' hheld hsession
      hindex

end Sequencers

section SequencersExample

attribute [local instance] ascii

/-- A plain set with no lock index sets it back, and the next tenure has the index of the
first one. -/
theorem a_set_resets_the_lock_index :
    ((history (relockLog 0) .empty).drop 3).map
        (fun ev => (ev.after.kvs.first [107]).map fun e => (e.session, e.lockIndex)) =
      [some (exampleSession.id, 1), some (exampleSession.id, 0), some ("", 0),
        some (exampleSession.id, 1)] ∧ ¬ SequencersSound (relockLog 0) := by
  refine ⟨by decide, fun h => ?_⟩
  have hcount := h.counted _
    (getElem_mem (by decide : 4 < (history (relockLog 0) .empty).length)) [107]
    { exampleLock 1 with createIndex := 4, modifyIndex := 4 }
    { exampleLock 0 with createIndex := 4, modifyIndex := 5 } (by decide) (by decide)
  exact absurd hcount (by decide)

theorem a_set_with_the_stored_lock_index :
    (∀ ev ∈ history (relockLog 1) .empty, ev.KeepsLockIndex) ∧ SequencersSound (relockLog 1) := by
  have hkeeps : ∀ ev ∈ history (relockLog 1) .empty, ev.KeepsLockIndex := by decide
  exact ⟨hkeeps, lock_indexes_identify_tenures hkeeps⟩

end SequencersExample

end OpenGyoza
