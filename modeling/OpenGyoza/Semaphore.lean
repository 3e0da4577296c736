-- The semaphore whose size can be changed. An acquirer that finds no free slot waits in a queue,
-- and a release hands its slot to the first of the queue without a look at the size.
import OpenGyoza.Runs

namespace OpenGyoza

open List

/-! ## The semaphore -/

/-- A waiter is known by the number of its call, which stands for its channel too. -/
structure Dynamic where
  size : Int
  cur : Int := 0
  waiters : List Nat := []

def newDynamic (n : Int) : Dynamic := { size := n }

namespace Dynamic

def setSize (n : Int) (s : Dynamic) : Dynamic := { s with size := n }

/-- `Acquire` under its first lock. It returns whether a slot was free. -/
def acquire (ready : Nat) (s : Dynamic) : Bool × Dynamic :=
  if s.cur < s.size then (true, { s with cur := s.cur + 1 })
  else (false, { s with waiters := s.waiters ++ [ready] })

/-- `Acquire` under its second lock, after the context was done. It returns whether there is no
error. -/
def cancel (ready : Nat) (closed : Bool) (s : Dynamic) : Bool × Dynamic :=
  if closed then (true, s) else (false, { s with waiters := s.waiters.erase ready })

/-- The channel that is closed is returned. -/
def release (s : Dynamic) : Except String (Option Nat × Dynamic) :=
  if s.cur < 1 then .error "semaphore: bad release"
  else match s.waiters with
    | [] => .ok (none, { s with cur := s.cur - 1 })
    | next :: rest => .ok (some next, { s with waiters := rest })

end Dynamic

/-! ## Its callers -/

/-- Where a call of `Acquire` is. Its channel is closed or not while it is in the queue. -/
inductive Acquiring where
  | waits (closed : Bool)
  /-- The context was done, and the second lock is not yet taken. -/
  | cancelled (closed : Bool)
  /-- It has returned without an error. -/
  | holds
  | released
  /-- It has returned the error of its context. -/
  | failed
  deriving DecidableEq

namespace Acquiring

def close : Acquiring → Acquiring
  | waits _ => waits true
  | cancelled _ => cancelled true
  | c => c

/-- It has a slot, though it may not know yet. -/
def granted : Acquiring → Bool
  | waits closed | cancelled closed => closed
  | holds => true
  | released | failed => false

/-- It is still in `Acquire` and has no slot. -/
def blocked : Acquiring → Bool
  | waits closed | cancelled closed => !closed
  | holds | released | failed => false

end Acquiring

/-- The semaphore and the calls of `Acquire` in the order in which they came. -/
structure Slots where
  sem : Dynamic
  calls : List Acquiring := []
  panicked : Bool := false

/-- What happens next. Each part under a lock is one step. -/
inductive SlotAct where
  | acquire
  /-- The context of the call is done, and the call takes note of it. -/
  | done (i : Nat)
  | cancel (i : Nat)
  /-- The call takes note of its closed channel. -/
  | wake (i : Nat)
  /-- The holder gives its slot back. -/
  | release (i : Nat)
  | setSize (n : Int)

namespace Slots

/-- A step that is not possible changes nothing. -/
def step (s : Slots) : SlotAct → Slots
  | .acquire =>
    let r := s.sem.acquire s.calls.length
    { s with sem := r.2, calls := s.calls ++ [if r.1 then .holds else .waits false] }
  | .done i =>
    match s.calls[i]? with
    | some (.waits closed) => { s with calls := s.calls.set i (.cancelled closed) }
    | _ => s
  | .cancel i =>
    match s.calls[i]? with
    | some (.cancelled closed) =>
      let r := s.sem.cancel i closed
      { s with sem := r.2, calls := s.calls.set i (if r.1 then .holds else .failed) }
    | _ => s
  | .wake i =>
    match s.calls[i]? with
    | some (.waits true) => { s with calls := s.calls.set i .holds }
    | _ => s
  | .release i =>
    match s.calls[i]? with
    | some .holds =>
      match s.sem.release with
      | .error _ => { s with panicked := true }
      | .ok (none, sem) => { s with sem := sem, calls := s.calls.set i .released }
      | .ok (some j, sem) =>
        { s with sem := sem, calls := (s.calls.set i .released).modify j Acquiring.close }
    | _ => s
  | .setSize n => { s with sem := s.sem.setSize n }

def start (n : Int) : Slots := { sem := newDynamic n }

def holders (s : Slots) : Nat := s.calls.countP Acquiring.granted

/-! ## The slots are accounted for -/

/-- The counter is the number of slots that are held, and the queue has the blocked calls in the
order in which they came. -/
structure Accounted (s : Slots) : Prop where
  counter : s.sem.cur = s.holders
  arrival : s.sem.waiters.Pairwise (· < ·)
  queue : ∀ i, i ∈ s.sem.waiters ↔ ∃ c, s.calls[i]? = some c ∧ c.blocked
  calm : s.panicked = false

variable {s : Slots} {i : Nat} {c d : Acquiring}

theorem holders_set (hc : s.calls[i]? = some c) (sem : Dynamic) :
    ({ s with sem := sem, calls := s.calls.set i d } : Slots).holders + c.granted.toNat =
      s.holders + d.granted.toNat := by
  obtain ⟨hi, rfl⟩ := List.getElem?_eq_some_iff.mp hc
  have hpos : s.calls[i].granted = true → 0 < s.calls.countP Acquiring.granted := fun h =>
    countP_pos_iff.mpr ⟨_, getElem_mem hi, h⟩
  unfold holders
  rw [countP_set hi]
  cases hg : s.calls[i].granted <;> cases d.granted <;> simp_all

theorem Accounted.move (h : s.Accounted) (hc : s.calls[i]? = some c) {sem : Dynamic}
    (hcur : sem.cur + c.granted.toNat = s.sem.cur + d.granted.toNat)
    (harrival : sem.waiters.Pairwise (· < ·))
    (hqueue : ∀ k, k ∈ sem.waiters ↔ (k = i ∧ d.blocked) ∨ (k ≠ i ∧ k ∈ s.sem.waiters)) :
    ({ s with sem := sem, calls := s.calls.set i d } : Slots).Accounted := by
  have hi : i < s.calls.length := (List.getElem?_eq_some_iff.mp hc).1
  refine ⟨?_, harrival, fun k => ?_, h.calm⟩
  · have hset := holders_set (d := d) hc sem
    have hcounter := h.counter
    dsimp only
    omega
  · rw [hqueue k, h.queue k, getElem?_set]
    by_cases hk : k = i
    · simp [hk, hi]
    · simp [hk, Ne.symm hk]

theorem Accounted.stay (h : s.Accounted) (hc : s.calls[i]? = some c) (hg : d.granted = c.granted)
    (hb : d.blocked = c.blocked) : ({ s with calls := s.calls.set i d } : Slots).Accounted := by
  refine h.move hc (by rw [hg]) h.arrival fun k => ?_
  by_cases hk : k = i
  · simp [hk, h.queue i, hc, hb]
  · simp [hk]

theorem Accounted.leave (h : s.Accounted) (hc : s.calls[i]? = some c) (hblocked : c.blocked)
    (hd : d.blocked = false) {waiters : List Nat} (hw : waiters = s.sem.waiters.erase i) {cur : Int}
    (hcur : cur = s.sem.cur + d.granted.toNat) :
    ({ s with
        sem := { s.sem with cur := cur, waiters := waiters }
        calls := s.calls.set i d } : Slots).Accounted := by
  have hnodup : s.sem.waiters.Nodup := h.arrival.imp fun hlt => Nat.ne_of_lt hlt
  have hg : c.granted = false := by cases c <;> simp_all [Acquiring.blocked, Acquiring.granted]
  subst hw hcur
  refine h.move hc (by simp [hg]) (h.arrival.sublist erase_sublist) fun k => ?_
  simp [hd, hnodup.mem_erase_iff]

theorem accounted_start (n : Int) : (start n).Accounted := by
  constructor <;> simp [start, newDynamic, holders]

theorem call_append (p : Acquiring → Bool) (c : Acquiring) (k : Nat) :
    (∃ d, (s.calls ++ [c])[k]? = some d ∧ p d) ↔
      (∃ d, s.calls[k]? = some d ∧ p d) ∨ (k = s.calls.length ∧ p c) := by
  rcases Nat.lt_trichotomy k s.calls.length with hk | rfl | hk
  · simp [getElem?_append_left hk, hk.ne]
  · simp
  · simp [getElem?_eq_none hk.le, getElem?_append_right hk.le, Nat.sub_ne_zero_of_lt hk,
      hk.ne']

theorem Accounted.acquire (h : s.Accounted) : (s.step .acquire).Accounted := by
  have hold : ∀ k ∈ s.sem.waiters, k < s.calls.length := by
    intro k hk
    obtain ⟨c, hc, -⟩ := (h.queue k).mp hk
    exact (List.getElem?_eq_some_iff.mp hc).1
  simp only [step, Dynamic.acquire]
  split
  · refine ⟨?_, h.arrival, fun k => ?_, h.calm⟩
    · simp [holders, Acquiring.granted, h.counter]
    · rw [h.queue k, call_append]
      simp [Acquiring.blocked]
  · refine ⟨?_, ?_, fun k => ?_, h.calm⟩
    · simp [holders, Acquiring.granted, h.counter]
    · exact pairwise_append.mpr ⟨h.arrival, by simp, by simpa using hold⟩
    · rw [mem_append, h.queue k, call_append]
      simp [Acquiring.blocked]

theorem Accounted.release (h : s.Accounted) (hi : s.calls[i]? = some .holds) :
    (s.step (.release i)).Accounted := by
  have hone : 1 ≤ s.holders :=
    countP_pos_iff.mpr ⟨_, mem_of_getElem? hi, rfl⟩
  have hcur : ¬ s.sem.cur < 1 := by
    rw [h.counter]
    omega
  have hfreed : ({ s with
      sem := { s.sem with cur := s.sem.cur - 1 }
      calls := s.calls.set i .released } : Slots).Accounted := by
    refine h.move hi (by simp [Acquiring.granted]) h.arrival fun k => ?_
    by_cases hk : k = i
    · simp [hk, h.queue i, hi, Acquiring.blocked]
    · simp [hk]
  simp only [step, hi, Dynamic.release, if_neg hcur]
  cases hw : s.sem.waiters with
  | nil => simpa [hw] using hfreed
  | cons j rest =>
    have hj : j ∈ s.sem.waiters := hw ▸ mem_cons_self
    obtain ⟨c, hc, hblocked⟩ := (hfreed.queue j).mp hj
    have hclosed : c.close.blocked = false ∧ c.close.granted = true := by
      cases c <;> simp_all [Acquiring.blocked, Acquiring.close, Acquiring.granted]
    have hmodify : (s.calls.set i .released).modify j Acquiring.close =
        (s.calls.set i .released).set j c.close := by
      rw [modify_eq_set_getElem?, show (s.calls.set i .released)[j]? = some c from hc]
      rfl
    dsimp only
    rw [hmodify]
    exact hfreed.leave hc hblocked hclosed.1 (by simp [hw]) (by simp [hclosed.2])

theorem Accounted.step (h : s.Accounted) (act : SlotAct) : (s.step act).Accounted := by
  cases act with
  | acquire => exact h.acquire
  | done i =>
    simp only [Slots.step]
    split
    · rename_i hc
      exact h.stay hc rfl rfl
    · exact h
  | cancel i =>
    simp only [Slots.step, Dynamic.cancel]
    split
    · rename_i closed hc
      cases closed with
      | true => exact h.stay hc rfl rfl
      | false => exact h.leave hc rfl rfl rfl (by simp [Acquiring.granted])
    · exact h
  | wake i =>
    simp only [Slots.step]
    split
    · rename_i hc
      exact h.stay hc rfl rfl
    · exact h
  | release i =>
    by_cases hi : s.calls[i]? = some .holds
    · exact h.release hi
    · simpa only [Slots.step] using h
  | setSize n => exact ⟨h.counter, h.arrival, h.queue, h.calm⟩

/-- A call that is cancelled fails without a slot, or returns with the one that it was given. -/
def Settles (s : Slots) (i : Nat) : Prop :=
  ∀ closed, s.calls[i]? = some (.cancelled closed) →
    (s.step (.cancel i)).sem.cur = s.sem.cur ∧
    ((s.step (.cancel i)).calls[i]? = some .failed ∨ (s.step (.cancel i)).calls[i]? = some .holds)

theorem settles (s : Slots) (i : Nat) : s.Settles i := by
  intro closed hc
  have hi : i < s.calls.length := (List.getElem?_eq_some_iff.mp hc).1
  simp only [Slots.step, hc, Dynamic.cancel]
  cases closed <;> simp [hi]

/-- Whatever the callers do, the counter and the queue are right, no release panics, and a
cancelled call has a slot exactly when it returns without an error. -/
theorem slots_are_accounted_for (n : Int) (acts : List SlotAct) :
    (acts.foldl Slots.step (start n)).Accounted ∧
      ∀ i, (acts.foldl Slots.step (start n)).Settles i :=
  ⟨Runs.keeps (fun _ act h => h.step act) (accounted_start n) acts, settles _⟩

/-! ## The size -/

/-- The call has a slot. -/
def Granted (s : Slots) (i : Nat) : Prop := ∃ c, s.calls[i]? = some c ∧ c.granted

/-- A slot is given only within the size, and nobody waits while there are free slots. -/
structure Governed (s : Slots) (act : SlotAct) : Prop where
  within : ∀ i, ¬ s.Granted i → (s.step act).Granted i →
    ((s.step act).holders : Int) ≤ (s.step act).sem.size
  prompt : (s.step act).sem.waiters ≠ [] → (s.step act).sem.size ≤ (s.step act).holders

def KeepsSize (s : Slots) : SlotAct → Prop
  | .setSize n => s.sem.waiters ≠ [] → n ≤ s.holders
  | .release i => s.calls[i]? = some .holds → s.sem.waiters ≠ [] → (s.holders : Int) ≤ s.sem.size
  | _ => True

/-- Nobody waits while there are free slots. -/
def Full (s : Slots) : Prop := s.sem.waiters ≠ [] → s.sem.size ≤ s.holders

theorem granted_set (hc : s.calls[i]? = some c) (hd : d.granted → c.granted) {sem : Dynamic}
    {k : Nat} (h : ({ s with sem := sem, calls := s.calls.set i d } : Slots).Granted k) :
    s.Granted k := by
  unfold Granted at h ⊢
  grind

/-- A step that at most moves one call, without a slot for it, and shortens the queue. -/
def Idle (s : Slots) (act : SlotAct) : Prop :=
  s.step act = s ∨ ∃ i c d waiters, s.calls[i]? = some c ∧ (d.granted → c.granted) ∧
    (s.sem.waiters = [] → waiters = []) ∧
    s.step act = { s with sem := { s.sem with waiters := waiters }, calls := s.calls.set i d }

theorem governed_of_idle (h : s.Accounted) (hfull : s.Full) {act : SlotAct} (hidle : s.Idle act) :
    s.Governed act := by
  have hnext := (h.step act).counter
  rcases hidle with hsame | ⟨i, c, d, waiters, hc, hd, hempty, hstep⟩
  · refine ⟨fun i hnot hi => absurd (hsame ▸ hi) hnot, ?_⟩
    rw [hsame]
    exact hfull
  · refine ⟨fun k hnot hk => absurd (granted_set hc hd (hstep ▸ hk)) hnot, ?_⟩
    rw [← hnext, hstep]
    exact fun hw => h.counter ▸ hfull fun hnil => hw (hempty hnil)

theorem governed_release (h : s.Accounted) (hfull : s.Full) (hi : s.calls[i]? = some .holds) :
    s.Governed (.release i) ↔ s.KeepsSize (.release i) := by
  have hcounter := h.counter
  have hnext := (h.step (.release i)).counter
  have hcur : ¬ s.sem.cur < 1 := by
    have hone : 1 ≤ s.holders := countP_pos_iff.mpr ⟨_, mem_of_getElem? hi, rfl⟩
    omega
  cases hw : s.sem.waiters with
  | nil =>
    have hstep : s.step (.release i) = { s with
        sem := { s.sem with cur := s.sem.cur - 1 }, calls := s.calls.set i .released } := by
      simp only [step, hi, Dynamic.release, if_neg hcur, hw]
    refine iff_of_true ⟨fun k hnot hk => ?_, fun hne => ?_⟩ fun _ hne => absurd hw hne
    · exact absurd (granted_set hi (fun _ => rfl) (hstep ▸ hk)) hnot
    · exact absurd (hstep ▸ hw) hne
  | cons j rest =>
    have hstep : s.step (.release i) = { s with
        sem := { s.sem with waiters := rest }
        calls := (s.calls.set i .released).modify j Acquiring.close } := by
      simp only [step, hi, Dynamic.release, if_neg hcur, hw]
    have hsame : ((s.step (.release i)).holders : Int) = s.holders := by
      rw [← hnext, ← hcounter, hstep]
    have hqueued : s.sem.waiters ≠ [] := by simp [hw]
    constructor
    · intro hgoverned _ _
      obtain ⟨c, hc, hblocked⟩ := (h.queue j).mp (by simp [hw])
      have hother : i ≠ j ∧ ¬ s.Granted j ∧ c.close.granted := by
        cases c <;> grind [Acquiring.blocked, Acquiring.granted, Acquiring.close, Granted]
      have hclosed : (s.step (.release i)).calls[j]? = some c.close := by
        simp [hstep, getElem?_set_ne hother.1, hc]
      have hwithin := hgoverned.within j hother.2.1 ⟨_, hclosed, hother.2.2⟩
      rwa [hsame, hstep] at hwithin
    · intro hkeeps
      refine ⟨fun k _ _ => ?_, fun _ => ?_⟩
      · rw [hsame, hstep]
        exact hkeeps hi hqueued
      · rw [hsame, hstep]
        exact hfull hqueued

theorem governed_iff (h : s.Accounted) (hfull : s.Full) (act : SlotAct) :
    s.Governed act ↔ s.KeepsSize act := by
  have hcounter := h.counter
  have hnext := (h.step act).counter
  cases act with
  | acquire =>
    refine iff_of_true ⟨fun i hnot hi => ?_, fun hw => ?_⟩ trivial
    · by_cases hfree : s.sem.cur < s.sem.size
      · rw [← hnext]
        simp only [step, Dynamic.acquire, if_pos hfree]
        omega
      · simp only [step, Dynamic.acquire, if_neg hfree] at hi
        rcases (call_append Acquiring.granted _ i).mp hi with hold | ⟨-, hfalse⟩
        · exact absurd hold hnot
        · cases hfalse
    · rw [← hnext]
      simp only [step, Dynamic.acquire] at hw ⊢
      grind [Full]
  | done i =>
    refine iff_of_true (governed_of_idle h hfull ?_) trivial
    simp only [Idle, step]
    split
    · rename_i closed hc
      exact .inr ⟨i, _, .cancelled closed, s.sem.waiters, hc, id, id, rfl⟩
    · exact .inl rfl
  | wake i =>
    refine iff_of_true (governed_of_idle h hfull ?_) trivial
    simp only [Idle, step]
    split
    · rename_i hc
      exact .inr ⟨i, _, _, s.sem.waiters, hc, fun _ => rfl, id, rfl⟩
    · exact .inl rfl
  | cancel i =>
    refine iff_of_true (governed_of_idle h hfull ?_) trivial
    simp only [Idle, step, Dynamic.cancel]
    split
    · rename_i closed hc
      cases closed with
      | true => exact .inr ⟨i, _, _, s.sem.waiters, hc, fun _ => rfl, id, rfl⟩
      | false =>
        exact .inr ⟨i, _, .failed, s.sem.waiters.erase i, hc, id, fun hnil => by simp [hnil], rfl⟩
    · exact .inl rfl
  | release i =>
    by_cases hi : s.calls[i]? = some .holds
    · exact governed_release h hfull hi
    · refine iff_of_true (governed_of_idle h hfull (.inl ?_)) fun hholds => absurd hholds hi
      simp only [step]
  | setSize n =>
    refine ⟨fun hgoverned => hgoverned.prompt, fun hkeeps => ⟨fun i hnot hi => ?_, hkeeps⟩⟩
    exact absurd hi hnot

/-- The size governs every step of a run exactly as long as it is kept to. -/
theorem size_governs (n : Int) (acts : List SlotAct) :
    Runs.Along Slots.step Governed (start n) acts ↔
      Runs.Along Slots.step KeepsSize (start n) acts := by
  refine Runs.along_iff (I := fun s => s.Accounted ∧ s.Full)
    (fun s act hs => governed_iff hs.1 hs.2 act) (fun s act hs hkeeps => ?_)
    ⟨accounted_start n, fun hw => absurd rfl hw⟩
  exact ⟨hs.1.step act, ((governed_iff hs.1 hs.2 act).mpr hkeeps).prompt⟩

/-- A call stays queued when the size is raised, and a slot above a lowered size is handed on. -/
theorem size_does_not_govern :
    ¬ Runs.Along Slots.step Governed (start 1) [.acquire, .acquire, .setSize 2] ∧
    ¬ Runs.Along Slots.step Governed (start 2)
      [.acquire, .acquire, .setSize 1, .acquire, .release 0] := by
  constructor
  · rintro ⟨-, -, h, -⟩
    exact absurd (h.prompt (by decide)) (by decide)
  · rintro ⟨-, -, -, -, h, -⟩
    exact absurd (h.within 2 (by rintro ⟨c, ⟨⟩, ⟨⟩⟩) ⟨_, rfl, rfl⟩) (by decide)

end Slots

end OpenGyoza
