-- The syncer of anti-entropy: its state machine, its two triggers, and the calls that pause and
-- resume it. A trigger that is raised leads to a sync, or stays visible until one starts.
import OpenGyoza.Runs

namespace OpenGyoza

inductive SyncEvent where
  | shutdown
  | syncFullNotif
  | syncFullTimer
  | syncChangesNotif

inductive SyncPhase where
  | fullSync
  /-- A full sync is about to start. -/
  | startFull
  | inFull
  | retryFullSync
  /-- The notification for a full sync was taken, and the delay is not over. -/
  | staggered
  | partialSync
  /-- The notification of changes was taken, and the pause count is not yet looked at. -/
  | taken
  /-- A sync of the changes is about to start. -/
  | startChanges
  | inChanges
  | done
  /-- A panic has ended the process. -/
  | crashed
  deriving DecidableEq

/-- A trigger is a channel for one token. -/
structure StateSyncer where
  phase : SyncPhase := .fullSync
  syncFull : Bool := false
  syncChanges : Bool := false
  paused : Nat := 0
  /-- The calls of `Resume` that have to raise the trigger. -/
  resuming : Nat := 0
  /-- The trigger was raised, and no sync has started since. -/
  raised : Bool := false

inductive SyncAct where
  /-- The syncer goes on, with an event if it waits for one, and with the outcome of its sync. -/
  | next (e : SyncEvent) (failed : Bool)
  | triggerChanges
  | triggerFull
  | pause
  /-- `Resume` up to the end of its lock. -/
  | resume
  /-- `Resume` after its lock. -/
  | resumed

namespace StateSyncer

/-- A step of `nextFSMState`, with the notification of a full sync and its delay apart. -/
def nextFSMState (e : SyncEvent) (failed : Bool) (s : StateSyncer) : StateSyncer :=
  match s.phase with
  | .fullSync => { s with phase := if s.paused ≠ 0 then .retryFullSync else .startFull }
  | .startFull => { s with phase := .inFull, raised := false }
  | .inFull => { s with phase := if failed then .retryFullSync else .partialSync }
  | .retryFullSync =>
    match e with
    | .syncFullNotif =>
      if s.syncFull then { s with phase := .staggered, syncFull := false } else s
    | .syncFullTimer => { s with phase := .fullSync }
    | .shutdown => { s with phase := .done }
    | .syncChangesNotif => s
  | .staggered =>
    match e with
    | .shutdown => { s with phase := .done }
    | _ => { s with phase := .fullSync }
  | .partialSync =>
    match e with
    | .syncFullNotif =>
      if s.syncFull then { s with phase := .staggered, syncFull := false } else s
    | .syncFullTimer => { s with phase := .fullSync }
    | .syncChangesNotif =>
      if s.syncChanges then { s with phase := .taken, syncChanges := false } else s
    | .shutdown => { s with phase := .done }
  | .taken => { s with phase := if s.paused ≠ 0 then .partialSync else .startChanges }
  | .startChanges => { s with phase := .inChanges, raised := false }
  | .inChanges => { s with phase := .partialSync }
  | .done | .crashed => s

def step (s : StateSyncer) : SyncAct → StateSyncer
  | .next e failed => s.nextFSMState e failed
  | .triggerChanges => { s with syncChanges := true, raised := true }
  | .triggerFull => { s with syncFull := true }
  | .pause => { s with paused := s.paused + 1 }
  | .resume =>
    match s.paused with
    | 0 => { s with phase := .crashed }
    | 1 => { s with paused := 0, resuming := s.resuming + 1 }
    | n + 2 => { s with paused := n + 1 }
  | .resumed =>
    match s.resuming with
    | 0 => s
    | n + 1 => { s with resuming := n, syncChanges := true, raised := true }

/-- The three places in which a notification can be seen. -/
def Visible (s : StateSyncer) : Prop :=
  s.syncChanges = true ∨ s.phase ∈ [.fullSync, .startFull, .retryFullSync, .staggered] ∨
    0 < s.paused

/-- The syncer has taken the notification and goes on with it, or the last `Resume` has yet to
raise the trigger. -/
def InHand (s : StateSyncer) : Prop := s.phase ∈ [.taken, .startChanges] ∨ 0 < s.resuming

/-- The notification is not lost while the syncer is not shut down. -/
def Kept (s : StateSyncer) : Prop :=
  s.raised = true → s.phase ∉ [.done, .crashed] → s.Visible ∨ s.InHand

theorem Kept.next {s : StateSyncer} (h : s.Kept) (e : SyncEvent) (failed : Bool) :
    (s.nextFSMState e failed).Kept := by
  -- each branch keeps the token, or goes to a phase that stands for it, or starts a sync
  unfold Kept Visible InHand at *
  fun_cases nextFSMState e failed s
  all_goals simp_all [Nat.pos_iff_ne_zero]
  all_goals split <;> simp_all

theorem Kept.step {s : StateSyncer} (h : s.Kept) (act : SyncAct) : (s.step act).Kept := by
  cases act with
  | next e failed => exact h.next e failed
  | triggerChanges => exact fun _ _ => .inl (.inl rfl)
  | triggerFull => exact h
  | pause => exact fun _ _ => .inl (.inr (.inr (Nat.succ_pos _)))
  | resume =>
    simp only [StateSyncer.step]
    split
    · exact fun _ hphase => absurd (by simp) hphase
    · exact fun _ _ => .inr (.inr (Nat.succ_pos _))
    · exact fun _ _ => .inl (.inr (.inr (Nat.succ_pos _)))
  | resumed =>
    simp only [StateSyncer.step]
    split
    · exact h
    · exact fun _ _ => .inl (.inl rfl)

/-- In every run, a notification that no sync has answered can be seen or is in hand. -/
theorem no_notification_is_lost (acts : List SyncAct) :
    (acts.foldl StateSyncer.step {}).Kept :=
  Runs.keeps (fun _ act h => h.step act) (nofun) acts

/-- Between taking the notification and starting the sync, it is in none of the three places. -/
theorem a_notification_is_in_hand :
    let s := [.next .shutdown false, .next .shutdown false, .next .shutdown false, .triggerChanges,
      .next .syncChangesNotif false].foldl StateSyncer.step {}
    s.raised = true ∧ s.phase ∉ [.done, .crashed] ∧ ¬ s.Visible := by
  unfold Visible
  decide

end StateSyncer

end OpenGyoza
