-- The watcher of the CA roots that the fetches of leaf certificates share. The first fetch that
-- subscribes starts it, and the last one that leaves cancels it. What is left behind then keeps
-- the next fetch from starting another one.
import OpenGyoza.Runs

namespace OpenGyoza

/-- What the cache sends to the watcher. -/
inductive RootsEvent where
  | failed (err : String)
  | invalid
  | roots (activeRootID : String)

/-- A goroutine that runs `rootWatcher`. -/
structure RootWatcher where
  /-- Its context is cancelled. -/
  cancelled : Bool := false
  /-- `Notify` has returned without an error. -/
  registered : Bool := false
  exited : Bool := false
  oldRoots : Option String := none

/-- It runs or is about to, and its context is not cancelled. -/
def RootWatcher.alive (w : RootWatcher) : Bool := !w.cancelled && !w.exited

structure RootWatch where
  subscribers : List (Nat × Bool) := []
  watcher : Option RootWatcher := none
  /-- The number of fetches so far. -/
  fetches : Nat := 0

inductive RootAct where
  /-- A fetch subscribes. -/
  | fetchStart
  | fetchDone (ch : Nat)
  /-- A fetch takes the token from its channel. -/
  | take (ch : Nat)
  /-- `Notify` returns to the watcher. -/
  | register (failed : Bool)
  | event (e : RootsEvent)
  /-- The watcher sees that its context is done. -/
  | stop

namespace RootWatch

/-- The channel of a new fetch has a token already. -/
def fetchStart (s : RootWatch) : RootWatch :=
  { subscribers := s.subscribers ++ [(s.fetches, true)]
    watcher := some (s.watcher.getD {})
    fetches := s.fetches + 1 }

def fetchDone (ch : Nat) (s : RootWatch) : RootWatch :=
  let subscribers := s.subscribers.filter (·.1 ≠ ch)
  { s with
    subscribers := subscribers
    watcher := if subscribers.isEmpty then s.watcher.map ({ · with cancelled := true })
      else s.watcher }

/-- A channel that has a token keeps it. -/
def notifyChange (subscribers : List (Nat × Bool)) : List (Nat × Bool) :=
  subscribers.map fun c => (c.1, true)

/-- `rootWatcher` until it waits for events. -/
def register (failed : Bool) (w : RootWatcher) (s : RootWatch) : RootWatch :=
  if w.registered || w.exited then s
  else if failed then
    { s with
      subscribers := notifyChange s.subscribers
      watcher := some { w with exited := true } }
  else { s with watcher := some { w with registered := true } }

def event (e : RootsEvent) (w : RootWatcher) (s : RootWatch) : RootWatch :=
  if !w.registered || w.exited then s
  else match e with
    | .failed _ | .invalid => { s with subscribers := notifyChange s.subscribers }
    | .roots id =>
      if w.oldRoots = some id then s
      else
        { s with
          subscribers := notifyChange s.subscribers
          watcher := some { w with oldRoots := some id } }

def stop (w : RootWatcher) (s : RootWatch) : RootWatch :=
  if w.registered && w.cancelled then { s with watcher := some { w with exited := true } } else s

def step (s : RootWatch) : RootAct → RootWatch
  | .fetchStart => s.fetchStart
  | .fetchDone ch => s.fetchDone ch
  | .take ch =>
    { s with subscribers := s.subscribers.map fun c => if c.1 = ch then (ch, false) else c }
  | .register failed => s.watcher.elim s fun w => s.register failed w
  | .event e => s.watcher.elim s fun w => s.event e w
  | .stop => s.watcher.elim s fun w => s.stop w

/-- While a fetch is subscribed, a watcher is there for it. -/
def Watched (s : RootWatch) : Prop := s.subscribers ≠ [] → s.watcher.any (·.alive) = true

/-- The step leaves the fetches watched. If the watcher sees that the active root has changed, they
all have a token. -/
structure Serves (s : RootWatch) (act : RootAct) : Prop where
  watched : (s.step act).Watched
  delivered : ∀ w id, s.watcher = some w → w.registered = true → w.exited = false →
    act = .event (.roots id) → w.oldRoots ≠ some id →
    ∀ c ∈ (s.step act).subscribers, c.2 = true

def Fresh (s : RootWatch) : RootAct → Prop
  | .fetchStart => s.watcher.all (·.alive) = true
  | .register true => ∀ w, s.watcher = some w → w.registered = false → w.exited = false →
    s.subscribers = []
  | _ => True

variable {s : RootWatch}

theorem delivered (s : RootWatch) {w : RootWatcher} {id : String} (hw : s.watcher = some w)
    (hreg : w.registered = true) (hexit : w.exited = false) (hid : w.oldRoots ≠ some id) :
    ∀ c ∈ (s.step (.event (.roots id))).subscribers, c.2 = true := by
  simp [step, event, notifyChange, hw, hreg, hexit, hid]

theorem watched_iff (hs : s.Watched) (act : RootAct) : (s.step act).Watched ↔ s.Fresh act := by
  cases act with
  | fetchStart =>
    cases hw : s.watcher <;> simp [step, fetchStart, Watched, Fresh, hw, RootWatcher.alive]
  | fetchDone ch =>
    refine iff_of_true (fun hsub => ?_) trivial
    have hsome : s.subscribers ≠ [] := fun hnil => hsub (by simp [step, fetchDone, hnil])
    simp only [step, fetchDone] at hsub ⊢
    rw [if_neg (by simpa using hsub)]
    exact hs hsome
  | take ch => exact iff_of_true (fun hsub => hs (by simpa [step] using hsub)) trivial
  | register failed =>
    cases hw : s.watcher with
    | none => cases failed <;> simpa [step, hw, Fresh] using hs
    | some w =>
      simp only [step, hw, Option.elim_some]
      fun_cases register failed w s
      all_goals cases failed <;> simp_all [Watched, Fresh, RootWatcher.alive, notifyChange]
      grind
  | event e =>
    refine iff_of_true ?_ trivial
    cases hw : s.watcher with
    | none => simpa [step, hw] using hs
    | some w =>
      simp only [step, hw, Option.elim_some]
      fun_cases event e w s
      all_goals simp_all [Watched, RootWatcher.alive, notifyChange]
  | stop =>
    refine iff_of_true ?_ trivial
    cases hw : s.watcher with
    | none => simpa [step, hw] using hs
    | some w =>
      simp only [step, hw, Option.elim_some]
      fun_cases stop w s
      all_goals simp_all [Watched, RootWatcher.alive]

/-- Fetches are watched and hear of every change, exactly as long as the first watcher serves. -/
theorem fetches_are_watched_iff (acts : List RootAct) :
    Runs.Along RootWatch.step Serves {} acts ↔ Runs.Along RootWatch.step Fresh {} acts := by
  refine Runs.along_iff (I := Watched) (fun s act hs => ?_)
    (fun s act hs => (watched_iff hs act).mpr) (by simp [Watched])
  refine ⟨fun h => (watched_iff hs act).mp h.watched, fun h => ⟨(watched_iff hs act).mpr h, ?_⟩⟩
  rintro w id hw hreg hexit rfl hid
  exact s.delivered hw hreg hexit hid

/-- The fetch after the last one has left is not watched, nor one whose watcher cannot register. -/
theorem fetches_are_not_watched :
    ¬ Runs.Along RootWatch.step Serves {} [.fetchStart, .fetchDone 0, .fetchStart] ∧
    ¬ Runs.Along RootWatch.step Serves {} [.fetchStart, .register true] := by
  constructor
  · rintro ⟨-, -, h, -⟩
    exact absurd (h.watched (by decide)) (by decide)
  · rintro ⟨-, h, -⟩
    exact absurd (h.watched (by decide)) (by decide)

end RootWatch

end OpenGyoza
