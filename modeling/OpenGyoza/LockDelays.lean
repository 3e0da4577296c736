-- The lock delays of keys. Each delay is kept by key, and a timer that was
-- started with it takes the entry of the key away again, whichever call set it.
import OpenGyoza.Timers
import OpenGyoza.TxnEndpoint

namespace OpenGyoza

open Timers Relation List Clocked

/-! ## The delays -/

structure Delay where
  delay : KeyMap Key Time

namespace Delay

def new : Delay := { delay := .empty }

/-- The time at which the delay of the key ends. A key without one has the zero time. -/
def getExpiration (d : Delay) (key : Key) : Option Time := d.delay.get key

/-- What a timer does to the entry of its key. -/
def expire (key : Key) (d : Delay) : Delay := { delay := d.delay.erase key }

/-- The keys that cannot be locked now. The zero time is after no time. -/
def delayed (d : Delay) (now : Time) (key : Key) : Bool :=
  (d.getExpiration key).any fun expires => now < expires

@[simp] theorem getExpiration_expire_self (d : Delay) (key : Key) :
    (d.expire key).getExpiration key = none := KeyMap.get_erase_self ..

end Delay

/-- A call of `SetExpiration`, made at the time `callTime`. The caller has read the clock as
`now` before. -/
structure DelayCall where
  key : Key
  now : Time
  delay : Int
  callTime : Time

namespace DelayCall

def expires (c : DelayCall) : Time := c.now + c.delay

/-- The time at which the timer of the call is due. -/
def due (c : DelayCall) : Time := c.callTime + max 0 c.delay

end DelayCall

/-- The delays, the calls made so far with the last one first, and the calls to come. -/
structure Releases where
  delays : Delay := .new
  made : List DelayCall := []
  todo : List DelayCall

namespace Releases

/-- The last call for the key. -/
def latest (r : Releases) (key : Key) : Option DelayCall := r.made.find? fun c => c.key = key

/-- What a timer of the key does. -/
def expire (key : Key) (r : Releases) : Releases := { r with delays := r.delays.expire key }

/-- Time passes until the next call. -/
def limit (r : Releases) (t : Time) : Prop := ∀ c ∈ r.todo, t ≤ c.callTime

end Releases

/-- The map gets the end of the delay, and a timer is started for the key. -/
def setExpiration (c : DelayCall) (w : Clocked Releases Key) : Clocked Releases Key :=
  (w.update fun r => { r with
    delays := { delay := r.delays.delay.insert c.key c.expires }, made := c :: r.made }).afterFunc
    c.delay c.key

/-- The next call is made when its time has come. -/
inductive MakesCall : Clocked Releases Key → Clocked Releases Key → Prop
  | next {w : Clocked Releases Key} {c : DelayCall} {rest : List DelayCall} :
      w.state.todo = c :: rest → w.clock = c.callTime →
      MakesCall w ((setExpiration c w).update fun r => { r with todo := rest })

/-- The calls and the timers they start, in any interleaving. -/
abbrev DelayStep := Step Releases.expire Releases.limit MakesCall

/-- A state that is reached while the calls are made one after the other. -/
def Reached (calls : List DelayCall) (w : Clocked Releases Key) : Prop :=
  ∃ start, (∀ c ∈ calls, start ≤ c.callTime) ∧
    ReflTransGen DelayStep { clock := start, state := { todo := calls } } w

/-- The last delay of each key is kept until it ends, and no lock on the key is admitted. -/
def KeepsDelays (w : Clocked Releases Key) : Prop :=
  ∀ key c, w.state.latest key = some c → w.clock < c.expires →
    w.state.delays.getExpiration key = some c.expires ∧
    ∀ rule entry, entry.key = key →
      kvsPreApply (w.state.delays.delayed w.clock) rule .lock entry ≠ .ok true

def TimersInOrder (calls : List DelayCall) : Prop :=
  ∀ before first between second after,
    calls = before ++ first :: between ++ second :: after → first.key = second.key →
    second.expires ≤ max first.due second.callTime ∨
    ∃ third ∈ after, third.key = second.key ∧ third.callTime < max first.due second.callTime

/-- Calls at times that do not decrease, each with a clock that was read before. -/
structure InTime (calls : List DelayCall) : Prop where
  sorted : calls.Pairwise fun c d => c.callTime ≤ d.callTime
  read : ∀ c ∈ calls, c.now ≤ c.callTime

theorem DelayCall.expires_le_due {c : DelayCall} (h : c.now ≤ c.callTime) : c.expires ≤ c.due := by
  have hdelay : c.delay ≤ max 0 c.delay := le_max_right ..
  exact Int.add_le_add h hdelay

/-! ## What every interleaving keeps -/

structure Tracks (calls : List DelayCall) (w : Clocked Releases Key) : Prop where
  order : w.state.made.reverse ++ w.state.todo = calls
  upcoming : ∀ c ∈ w.state.todo, w.clock ≤ c.callTime
  past : ∀ c ∈ w.state.made, c.callTime ≤ w.clock
  started : ∀ timer ∈ w.timers, ∃ c ∈ w.state.made, timer = (c.due, c.key)
  entry : ∀ newer c older, w.state.made = newer ++ c :: older → (∀ n ∈ newer, n.key ≠ c.key) →
    w.state.delays.getExpiration c.key = some c.expires ∨ c.expires ≤ w.clock ∨
      ∃ first ∈ older, first.key = c.key ∧ max first.due c.callTime ≤ w.clock

namespace Tracks

variable {calls : List DelayCall} {w : Clocked Releases Key}

theorem wait (h : Tracks calls w) {t : Time} (hle : w.clock ≤ t) (hlimit : w.state.limit t) :
    Tracks calls { w with clock := t } where
  order := h.order
  upcoming := hlimit
  past c hc := (h.past c hc).trans hle
  started := h.started
  entry newer c older hmade hnewer := by
    rcases h.entry newer c older hmade hnewer with hget | hover | ⟨first, hmem, hkey, hdue⟩
    · exact .inl hget
    · exact .inr (.inl (hover.trans hle))
    · exact .inr (.inr ⟨first, hmem, hkey, hdue.trans hle⟩)

theorem fire (h : Tracks calls w) (hin : InTime calls) {timer : Int × Key} (hmem : timer ∈ w.timers)
    (hdue : timer.1 ≤ w.clock) : Tracks calls (w.run Releases.expire timer) where
  order := h.order
  upcoming := h.upcoming
  past := h.past
  started x hx := h.started x (mem_of_mem_run hx)
  entry newer c older hmade hnewer := by
    change w.state.made = _ at hmade
    change (w.state.delays.expire timer.2).getExpiration c.key = _ ∨ _
    obtain ⟨first, hfirst, rfl⟩ := h.started timer hmem
    by_cases hkey : c.key = first.key
    · -- The timer belongs to the last call itself or to an earlier one.
      rw [hmade, mem_append, mem_cons] at hfirst
      rcases hfirst with hlater | rfl | hearlier
      · exact absurd hkey.symm (hnewer first hlater)
      · have hread : first.now ≤ first.callTime := by
          refine hin.read first ?_
          rw [← h.order, hmade]
          simp
        exact .inr (.inl ((DelayCall.expires_le_due hread).trans hdue))
      · have hpast : c.callTime ≤ w.clock := h.past c (by rw [hmade]; simp)
        exact .inr (.inr ⟨first, hearlier, hkey.symm, max_le hdue hpast⟩)
    · rw [Delay.getExpiration, Delay.expire, KeyMap.get_erase_of_ne hkey]
      exact h.entry newer c older hmade hnewer

theorem call (h : Tracks calls w) {w' : Clocked Releases Key} (hcall : MakesCall w w') :
    Tracks calls w' := by
  cases hcall with
  | @next c rest htodo hclock =>
    refine ⟨?_, ?_, ?_, ?_, ?_⟩
    · rw [← h.order, htodo]
      simp [setExpiration, update, afterFunc]
    · intro d hd
      exact h.upcoming d (by rw [htodo]; exact mem_cons_of_mem _ hd)
    · intro d hd
      rcases mem_cons.mp hd with rfl | hd
      · exact hclock.ge
      · exact h.past d hd
    · intro timer htimer
      rcases mem_cons.mp htimer with rfl | htimer
      · exact ⟨c, mem_cons_self, by simp [DelayCall.due, update, hclock]⟩
      · obtain ⟨d, hd, rfl⟩ := h.started timer htimer
        exact ⟨d, mem_cons_of_mem _ hd, rfl⟩
    · intro newer d older hmade hnewer
      change (w.state.delays.delay.insert c.key c.expires).get d.key = _ ∨ _
      cases newer with
      | nil =>
        obtain ⟨rfl, -⟩ := List.cons.inj hmade
        exact .inl (KeyMap.get_insert_self ..)
      | cons n newer =>
        obtain ⟨rfl, htail⟩ := List.cons.inj hmade
        have hkey : d.key ≠ c.key := (hnewer c mem_cons_self).symm
        rw [KeyMap.get_insert_of_ne hkey]
        exact h.entry newer d older htail fun n hn => hnewer n (mem_cons_of_mem _ hn)

theorem of_reached (hin : InTime calls) (h : Reached calls w) : Tracks calls w := by
  obtain ⟨start, hstart, hrun⟩ := h
  refine run_induction hrun ?_ (fun _ _ ih => ih.wait) (fun _ _ ih => ih.fire hin)
    (fun _ _ ih => ih.call)
  exact ⟨rfl, hstart, by simp, by simp, by simp⟩

theorem getExpiration (h : Tracks calls w) (horder : TimersInOrder calls) {key : Key}
    {c : DelayCall} (hlatest : w.state.latest key = some c) (hopen : w.clock < c.expires) :
    w.state.delays.getExpiration key = some c.expires := by
  obtain ⟨hkey, newer, older, hmade, hnewer⟩ := find?_eq_some_iff_append.mp hlatest
  obtain rfl : c.key = key := by simpa using hkey
  have hothers : ∀ n ∈ newer, n.key ≠ c.key := fun n hn => by simpa using hnewer n hn
  rcases h.entry newer c older hmade hothers with hget | hover | ⟨first, hfirst, hsame, hdue⟩
  · exact hget
  · exact absurd hover (not_le_of_gt hopen)
  -- The timer of an earlier call has come due: the delay is over, or a third call was to be made.
  obtain ⟨between, before, rfl⟩ := append_of_mem hfirst
  have hsplit : calls = before.reverse ++ first :: between.reverse ++
      c :: (newer.reverse ++ w.state.todo) := by
    rw [← h.order, hmade]
    simp
  rcases horder _ _ _ _ _ hsplit hsame with hover | ⟨third, hthird, hkey', hbefore⟩
  · exact absurd (hover.trans hdue) (not_le_of_gt hopen)
  · rcases mem_append.mp hthird with hmem | hmem
    · exact absurd hkey' (hothers third (mem_reverse.mp hmem))
    · exact absurd (h.upcoming third hmem) (not_le_of_gt (hbefore.trans_le hdue))

end Tracks

/-! ## A timer that comes too early -/

theorem calls_made (calls rest : List DelayCall) {t : Time} :
    ∀ {w : Clocked Releases Key}, w.state.todo = calls ++ rest →
    (∀ c ∈ w.state.todo, w.clock ≤ c.callTime) →
    w.state.todo.Pairwise (fun c d => c.callTime ≤ d.callTime) →
    (∀ c ∈ calls, c.callTime ≤ t) → w.clock ≤ t →
    ∃ w', ReflTransGen DelayStep w w' ∧ w'.state.todo = rest ∧
      w'.state.made = calls.reverse ++ w.state.made ∧ w'.clock ≤ t ∧
      (∀ timer ∈ w.timers, timer ∈ w'.timers) ∧ ∀ c ∈ calls, (c.due, c.key) ∈ w'.timers := by
  induction calls with
  | nil => exact fun htodo _ _ _ hclock => ⟨_, .refl, htodo, rfl, hclock, fun _ h => h, by simp⟩
  | cons c calls ih =>
    intro w htodo hupcoming hsorted ht hclock
    rw [htodo, cons_append, pairwise_cons] at hsorted
    -- The clock moves on to the call, and the call is made.
    let waited : Clocked Releases Key := { w with clock := c.callTime }
    let called := (setExpiration c waited).update fun r => { r with todo := calls ++ rest }
    have hwait : DelayStep w waited := by
      refine .wait (hupcoming c (by rw [htodo]; exact mem_cons_self)) fun d hd => ?_
      rw [htodo, cons_append, mem_cons] at hd
      rcases hd with rfl | hd
      · exact le_rfl
      · exact hsorted.1 d hd
    have hcall : DelayStep waited called := .call (.next htodo rfl)
    obtain ⟨w', hrun, htodo', hmade, hclock', hkept, hstarted⟩ := ih (w := called) rfl hsorted.1
      hsorted.2 (fun d hd => ht d (mem_cons_of_mem _ hd)) (ht c mem_cons_self)
    refine ⟨w', .head hwait (.head hcall hrun), htodo', ?_, hclock', ?_, ?_⟩
    · rw [hmade]
      simp [called, waited, setExpiration, update, afterFunc]
    · exact fun timer htimer => hkept timer (mem_cons_of_mem _ htimer)
    · intro d hd
      rcases mem_cons.mp hd with rfl | hd
      · exact hkept _ mem_cons_self
      · exact hstarted d hd

theorem split_calls {t : Time} : ∀ {calls : List DelayCall},
    calls.Pairwise (fun c d => c.callTime ≤ d.callTime) →
    ∃ early late, calls = early ++ late ∧ (∀ c ∈ early, c.callTime < t) ∧
      ∀ c ∈ late, t ≤ c.callTime
  | [], _ => ⟨[], [], by simp⟩
  | c :: calls, h => by
    rw [pairwise_cons] at h
    by_cases hc : c.callTime < t
    · obtain ⟨early, late, rfl, hearly, hlate⟩ := split_calls h.2
      exact ⟨c :: early, late, rfl, by simpa [hc] using hearly, hlate⟩
    · have hle : t ≤ c.callTime := Int.not_lt.mp hc
      refine ⟨[], c :: calls, rfl, by simp, ?_⟩
      rintro d (_ | ⟨_, hd⟩)
      · exact hle
      · exact hle.trans (h.1 d hd)

theorem entry_lost {before between after : List DelayCall} {first second : DelayCall}
    (hin : InTime (before ++ first :: between ++ second :: after)) (hkey : first.key = second.key)
    (hopen : max first.due second.callTime < second.expires)
    (hlast : ∀ third ∈ after, third.key = second.key →
      max first.due second.callTime ≤ third.callTime) :
    ∃ w, Reached (before ++ first :: between ++ second :: after) w ∧
      w.state.latest second.key = some second ∧ w.clock < second.expires ∧
      w.state.delays.getExpiration second.key = none := by
  set t := max first.due second.callTime with ht
  have hsorted := hin.sorted
  obtain ⟨early, late, rfl, hearly, hlate⟩ :=
    split_calls (pairwise_append.mp hsorted).2.1.of_cons
  -- Up to the second call no call is later than the second one.
  have htimes : ∀ c ∈ before ++ first :: between ++ second :: early, c.callTime ≤ t := by
    intro c hc
    rcases mem_append.mp hc with hc | hc
    · have hle := (pairwise_append.mp hsorted).2.2 c hc second mem_cons_self
      exact hle.trans (le_max_right ..)
    · rcases mem_cons.mp hc with rfl | hc
      · exact le_max_right ..
      · exact (hearly c hc).le
  obtain ⟨start, hstart⟩ : ∃ start : Time, ∀ c ∈ before ++ first :: between ++
      second :: (early ++ late), start ≤ c.callTime := by
    cases hcalls : before ++ first :: between ++ second :: (early ++ late) with
    | nil => exact ⟨0, by simp⟩
    | cons c calls =>
      rw [hcalls, pairwise_cons] at hsorted
      exact ⟨c.callTime, by simpa using hsorted.1⟩
  have hbegin : start ≤ t := (hstart second (by simp)).trans (le_max_right ..)
  obtain ⟨w, hrun, htodo, hmade, hclock, -, hstarted⟩ :=
    calls_made (before ++ first :: between ++ second :: early) late
      (w := { clock := start, state := { todo := _ } }) (by simp) hstart hsorted htimes hbegin
  -- Time passes until the timer is due, and the timer takes the entry away.
  let waited : Clocked Releases Key := { w with clock := t }
  have hwait : DelayStep w waited := .wait hclock fun c hc => hlate c (htodo ▸ hc)
  have hfire : DelayStep waited (waited.run Releases.expire (first.due, first.key)) :=
    .fire (hstarted first (by simp)) (le_max_left ..)
  refine ⟨_, ⟨start, hstart, (hrun.tail hwait).tail hfire⟩, ?_, hopen, ?_⟩
  · have hothers : ∀ c ∈ early.reverse, c.key ≠ second.key := by
      intro c hc hsame
      rw [mem_reverse] at hc
      have := hlast c (mem_append_left _ hc) hsame
      exact absurd (hearly c hc) (not_lt_of_ge this)
    refine find?_eq_some_iff_append.mpr ⟨by simp, early.reverse,
      (before ++ first :: between).reverse, ?_, by simpa using hothers⟩
    change w.state.made = _
    rw [hmade]
    simp
  · change (w.state.delays.expire first.key).getExpiration second.key = none
    rw [hkey, Delay.getExpiration_expire_self]

/-! ## When the delays are kept -/

theorem kvsPreApply_lock_delayed {delayed : Key → Bool} {rule : Option Authorizer}
    {entry : DirEntry} (h : delayed entry.key = true) :
    kvsPreApply delayed rule .lock entry ≠ .ok true := by
  unfold kvsPreApply
  dsimp only
  split_ifs <;> simp [h]

/-- In every interleaving of the calls with their timers the last delay of each key is kept until
it ends, exactly if no timer comes due within the delay of a later call for its key. -/
theorem delays_are_kept_iff {calls : List DelayCall} (hin : InTime calls) :
    (∀ w, Reached calls w → KeepsDelays w) ↔ TimersInOrder calls := by
  constructor
  · rintro h before first between second after rfl hkey
    by_contra hnot
    push Not at hnot
    obtain ⟨w, hreached, hlatest, hopen, hnone⟩ := entry_lost hin hkey hnot.1 hnot.2
    have hkept := (h w hreached second.key second hlatest hopen).1
    rw [hnone] at hkept
    cases hkept
  · intro horder w hreached key c hlatest hopen
    have hget := (Tracks.of_reached hin hreached).getExpiration horder hlatest hopen
    refine ⟨hget, fun rule entry hentry => kvsPreApply_lock_delayed ?_⟩
    rw [hentry, Delay.delayed, hget]
    simpa using hopen

/-- A key that is released with a delay of 10, and again 5 later with a delay of 15. -/
def shortDelay : DelayCall := { key := bytesOf "k", now := 0, delay := 10, callTime := 0 }

def longDelay : DelayCall := { key := bytesOf "k", now := 5, delay := 15, callTime := 5 }

/-- The timer of the first release ends the delay of the second one halfway: a lock on the key is
admitted at 10, though the delay goes on until 20. -/
theorem an_early_timer_ends_a_later_delay :
    ∃ w, Reached [shortDelay, longDelay] w ∧ w.clock = 10 ∧
      w.state.latest (bytesOf "k") = some longDelay ∧ longDelay.expires = 20 ∧
      w.state.delays.getExpiration (bytesOf "k") = none ∧
      kvsPreApply (w.state.delays.delayed w.clock) none .lock { key := bytesOf "k" } =
        .ok true := by
  let start : Clocked Releases Key := { clock := 0, state := { todo := [shortDelay, longDelay] } }
  let released := (setExpiration shortDelay start).update fun r => { r with todo := [longDelay] }
  let again := (setExpiration longDelay { released with clock := 5 }).update
    fun r => { r with todo := [] }
  have hreleased : ReflTransGen DelayStep start { released with clock := 5 } :=
    .tail (.single (.call (.next rfl rfl))) (.wait (by decide) (by simp [Releases.limit,
      update, setExpiration, afterFunc, longDelay]))
  have hagain : ReflTransGen DelayStep start { again with clock := 10 } :=
    (hreleased.tail (.call (.next rfl rfl))).tail (.wait (by decide) (by simp [Releases.limit,
      update]))
  refine ⟨run Releases.expire (10, bytesOf "k") { again with clock := 10 },
    ⟨0, by decide, hagain.tail (.fire (by decide +kernel) (by decide))⟩, rfl, ?_, rfl, ?_, ?_⟩
  · rfl
  · decide +kernel
  · decide +kernel

/-- A delay that ends before the one that was set first is kept in every interleaving. -/
theorem a_shorter_delay_is_kept :
    let calls : List DelayCall := [{ longDelay with now := 0, callTime := 0 },
      { shortDelay with now := 5, delay := 5, callTime := 5 }]
    InTime calls ∧ ∀ w, Reached calls w → KeepsDelays w := by
  intro calls
  have hin : InTime calls := ⟨by simp [calls], by simp [calls]⟩
  refine ⟨hin, (delays_are_kept_iff hin).mpr ?_⟩
  rintro before first between second after hcalls -
  have hlen := congrArg List.length hcalls
  simp only [calls, length_append, length_cons, length_nil] at hlen
  obtain rfl : before = [] := length_eq_zero_iff.mp (by omega)
  obtain rfl : between = [] := length_eq_zero_iff.mp (by omega)
  obtain ⟨rfl, rfl, -⟩ : _ = first ∧ _ = second ∧ [] = after := by simpa [calls] using hcalls
  exact .inl (by decide)

end OpenGyoza
