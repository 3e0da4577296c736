-- The collector of tombstones. Indexes are hinted and folded into bins of
-- time, a timer for each bin takes it away when it is due, and the highest
-- index of the bin goes out on a channel that takes one at a time.
import OpenGyoza.Timers
import OpenGyoza.KeyMaps
import Mathlib.Data.List.Pairwise

namespace OpenGyoza

open Timers Relation List

/-! ## The collector -/

/-- What a collector is made with. -/
structure GCTimes where
  ttl : Int
  granularity : Int
  ttl_pos : 0 < ttl
  granularity_pos : 0 < granularity

/-- A bin: the highest index of it, and the time for which its timer was set. -/
structure ExpireInterval where
  maxIndex : Nat
  timer : Int

/-- `sending` are the indexes of callbacks that have taken their bin away and wait for room in
the channel. -/
structure TombstoneGC (times : GCTimes) where
  enabled : Bool := false
  expires : KeyMap Int ExpireInterval := .empty
  sending : List Nat := []
  expireCh : Option Nat := none

def newTombstoneGC (ttl granularity : Int) : Except String (Σ times, TombstoneGC times) :=
  if h : ttl ≤ 0 ∨ granularity ≤ 0 then
    .error "Tombstone TTL and granularity must be positive"
  else
    .ok ⟨⟨ttl, granularity, by omega, by omega⟩, {}⟩

/-- The time of the bin that is hinted at `now`. The remainder has the sign of the time. -/
def GCTimes.nextExpires (times : GCTimes) (now : Int) : Int :=
  let expires := now + times.ttl
  let remain := Int.tmod expires times.granularity
  expires + (times.granularity - remain)

namespace TombstoneGC

variable {times : GCTimes}

/-- A bin that is not there has the index 0. -/
def purgeBin (expires : Int) (t : TombstoneGC times) : Nat × TombstoneGC times :=
  match t.expires.get expires with
  | none => (0, t)
  | some exp => (exp.maxIndex, { t with expires := t.expires.erase expires })

/-- What a timer does. The index 0 is not sent. -/
def expireTime (expires : Int) (t : TombstoneGC times) : TombstoneGC times :=
  let (index, t) := t.purgeBin expires
  if index > 0 then { t with sending := index :: t.sending } else t

/-- The timer of a bin. -/
def hasTimer (t : TombstoneGC times) (timer : Int × Int) : Bool :=
  (t.expires.get timer.2).any fun exp => exp.timer = timer.1

variable {t : TombstoneGC times} {expires k : Int} {index : Nat}

@[simp] theorem get_expireTime_self : (t.expireTime expires).expires.get expires = none := by
  unfold expireTime purgeBin
  cases h : t.expires.get expires with
  | none => simpa using h
  | some exp => dsimp only; split <;> exact KeyMap.get_erase_self ..

theorem get_expireTime_of_ne (h : k ≠ expires) :
    (t.expireTime expires).expires.get k = t.expires.get k := by
  unfold expireTime purgeBin
  cases t.expires.get expires with
  | none => rfl
  | some exp => dsimp only; split <;> exact KeyMap.get_erase_of_ne h

theorem mem_sending_expireTime : index ∈ (t.expireTime expires).sending ↔
    index ∈ t.sending ∨ index > 0 ∧ ∃ exp, t.expires.get expires = some exp ∧
      exp.maxIndex = index := by
  unfold expireTime purgeBin
  cases t.expires.get expires with
  | none => simp
  | some exp =>
    split <;> simp <;> grind

end TombstoneGC

/-- A call of `Hint` that has read the clock as `called`. -/
structure Hint where
  called : Int
  index : Nat
deriving DecidableEq

/-- An index that was sent on the channel. -/
structure Emission where
  time : Int
  index : Nat
deriving DecidableEq

/-- The collector with the hints it was given and the indexes it has sent, the last ones first. -/
structure Collection (times : GCTimes) where
  gc : TombstoneGC times := {}
  hints : List Hint := []
  emitted : List Emission := []

section Calls

variable {times : GCTimes}

/-- A collector under its clock. A timer is known by the time of its bin. -/
abbrev Collector (times : GCTimes) := Clocked (Collection times) Int

def Collection.expireTime (expires : Int) (c : Collection times) : Collection times :=
  { c with gc := c.gc.expireTime expires }

namespace Collector

/-- `started` are the callbacks that wait for the lock already, which no stop of their timer
holds back. -/
def setEnabled (enabled : Bool) (started : Int × Int → Bool) (w : Collector times) :
    Collector times :=
  if enabled = w.state.gc.enabled then w
  else if enabled then w.update fun c => { c with gc := { c.gc with enabled := true } }
  else
    { w with
      timers := w.timers.filter fun timer =>
        !w.state.gc.hasTimer timer || decide (timer.1 ≤ w.clock) && started timer
      state := { w.state with gc := { w.state.gc with expires := .empty, enabled := false } } }

/-- The hint is noted. -/
def noted (h : Hint) (w : Collector times) : Collector times :=
  w.update fun c => { c with hints := h :: c.hints }

def withBin (expires : Int) (exp : ExpireInterval) (w : Collector times) : Collector times :=
  w.update fun c => { c with gc := { c.gc with expires := c.gc.expires.insert expires exp } }

/-- The index goes into the bin of its time, which is made if it is not there. -/
def hint (h : Hint) (w : Collector times) : Collector times :=
  let expires := times.nextExpires h.called
  let w := w.noted h
  if !w.state.gc.enabled then w
  else
    match w.state.gc.expires.get expires with
    | some exp =>
      if h.index > exp.maxIndex then w.withBin expires { exp with maxIndex := h.index } else w
    | none =>
      let delay := expires - w.clock
      Collector.withBin expires { maxIndex := h.index, timer := w.clock + max 0 delay }
        (w.afterFunc delay expires)

/-- A callback that waits to send an index. -/
def send (index : Nat) (w : Collector times) : Collector times :=
  w.update fun c => { c with
    gc := { c.gc with sending := c.gc.sending.erase index, expireCh := some index }
    emitted := { time := w.clock, index := index } :: c.emitted }

/-- The leader takes an index from the channel. -/
def receive (w : Collector times) : Collector times :=
  w.update fun c => { c with gc := { c.gc with expireCh := none } }

/-- Hints are made one after the other, with indexes that do not decrease. -/
def MayHint (h : Hint) (w : Collector times) : Prop :=
  h.called ≤ w.clock ∧
    ∀ earlier ∈ w.state.hints, earlier.index ≤ h.index ∧ earlier.called ≤ h.called

inductive Call : Collector times → Collector times → Prop
  | setEnabled {w : Collector times} (enabled : Bool) (started : Int × Int → Bool) :
      Call w (w.setEnabled enabled started)
  | hint {w : Collector times} {h : Hint} : MayHint h w → Call w (w.hint h)
  | send {w : Collector times} {index : Nat} : index ∈ w.state.gc.sending →
      w.state.gc.expireCh = none → Call w (w.send index)
  | receive {w : Collector times} : Call w w.receive

/-- The calls and the timers they start, in any interleaving. -/
abbrev Step : Collector times → Collector times → Prop :=
  Clocked.Step Collection.expireTime (fun _ _ => True) Call

/-- A state that a new collector comes to. -/
def Reached (w : Collector times) : Prop :=
  ∃ start, ReflTransGen Step { clock := start, state := {} } w

/-- A run in which the collector is enabled after every step. -/
def StaysEnabled : Collector times → Collector times → Prop :=
  ReflTransGen fun w w' => Step w w' ∧ w'.state.gc.enabled = true

end Collector

/-! ## Nothing is emitted early -/

namespace GCTimes

theorem le_nextExpires (times : GCTimes) (now : Int) : now + times.ttl ≤ times.nextExpires now := by
  have hlt := Int.tmod_lt_of_pos (now + times.ttl) times.granularity_pos
  simp only [nextExpires]
  omega

theorem nextExpires_le {times : GCTimes} {now : Int} (h : 0 ≤ now + times.ttl) :
    times.nextExpires now ≤ now + times.ttl + times.granularity := by
  have hnonneg := Int.tmod_nonneg times.granularity h
  simp only [nextExpires]
  omega

end GCTimes

namespace Collector

/-- The index was hinted a whole time to live before `t`. -/
def HintedBefore (w : Collector times) (index : Nat) (t : Int) : Prop :=
  ∃ h ∈ w.state.hints, h.index = index ∧ h.called + times.ttl ≤ t

variable {w : Collector times}

theorem HintedBefore.mono {index : Nat} {t t' : Int} (h : w.HintedBefore index t) (hle : t ≤ t') :
    w.HintedBefore index t' := by
  obtain ⟨hint, hmem, hindex, ht⟩ := h
  exact ⟨hint, hmem, hindex, ht.trans hle⟩

/-- Every bin has its timer and an index that was hinted before, and so had every index that left
its bin. -/
structure Good (w : Collector times) : Prop where
  hints : w.state.hints.Pairwise fun later earlier =>
    earlier.index ≤ later.index ∧ earlier.called ≤ later.called
  timers : ∀ timer ∈ w.timers, timer.2 ≤ timer.1
  bins : ∀ expires exp, w.state.gc.expires.get expires = some exp →
    w.HintedBefore exp.maxIndex expires ∧ (exp.timer, expires) ∈ w.timers ∧
      exp.timer ≤ max expires w.clock
  sending : ∀ index ∈ w.state.gc.sending, w.HintedBefore index w.clock
  emitted : ∀ e ∈ w.state.emitted, w.HintedBefore e.index e.time

variable {h : Hint} {expires : Int} {w' : Collector times}

namespace Good

variable {w : Collector times}

theorem wait (g : Good w) {t : Int} (hle : w.clock ≤ t) : Good { w with clock := t } where
  hints := g.hints
  timers := g.timers
  bins expires exp hget := by
    obtain ⟨hbefore, hmem, htimer⟩ := g.bins expires exp hget
    exact ⟨hbefore, hmem, htimer.trans (max_le_max_left _ hle)⟩
  sending index hindex := (g.sending index hindex).mono hle
  emitted := g.emitted

theorem fire (g : Good w) {timer : Int × Int} (hmem : timer ∈ w.timers)
    (hdue : timer.1 ≤ w.clock) : Good (w.run Collection.expireTime timer) := by
  refine ⟨g.hints, fun other hother => g.timers other (Clocked.mem_of_mem_run hother), ?_, ?_,
    g.emitted⟩
  · intro expires exp hget
    change (w.state.gc.expireTime timer.2).expires.get expires = some exp at hget
    have hne : expires ≠ timer.2 := by
      rintro rfl
      simp at hget
    rw [TombstoneGC.get_expireTime_of_ne hne] at hget
    obtain ⟨hbefore, htimer, hle⟩ := g.bins expires exp hget
    exact ⟨hbefore, Clocked.mem_run_of_ne htimer hne, hle⟩
  · intro index hindex
    rcases TombstoneGC.mem_sending_expireTime.mp hindex with hindex | ⟨-, exp, hget, rfl⟩
    · exact g.sending index hindex
    · -- The timer is due, so the time of its bin has come.
      exact (g.bins timer.2 exp hget).1.mono ((g.timers timer hmem).trans hdue)

theorem noted (g : Good w) (hmay : MayHint h w) : Good (w.noted h) := by
  have hmono : ∀ {index t}, w.HintedBefore index t → (w.noted h).HintedBefore index t :=
    fun ⟨hint, hmem, hhint⟩ => ⟨hint, mem_cons_of_mem _ hmem, hhint⟩
  refine ⟨pairwise_cons.mpr ⟨hmay.2, g.hints⟩, g.timers, ?_, ?_, ?_⟩
  · intro expires exp hget
    obtain ⟨hbefore, htimer⟩ := g.bins expires exp hget
    exact ⟨hmono hbefore, htimer⟩
  · exact fun index hindex => hmono (g.sending index hindex)
  · exact fun e he => hmono (g.emitted e he)

theorem withBin (g : Good w) {exp : ExpireInterval} (hbefore : w.HintedBefore exp.maxIndex expires)
    (hmem : (exp.timer, expires) ∈ w.timers) (htimer : exp.timer ≤ max expires w.clock) :
    Good (w.withBin expires exp) where
  hints := g.hints
  timers := g.timers
  bins expires' exp' hget := by
    rcases KeyMap.get_insert_cases hget with ⟨rfl, rfl⟩ | hget
    · exact ⟨hbefore, hmem, htimer⟩
    · exact g.bins expires' exp' hget
  sending := g.sending
  emitted := g.emitted

theorem afterFunc (g : Good w) {delay : Int} (hle : expires ≤ w.clock + max 0 delay) :
    Good (Clocked.afterFunc delay expires w) where
  hints := g.hints
  timers := by
    rintro timer (_ | ⟨_, hmem⟩)
    · exact hle
    · exact g.timers timer hmem
  bins expires' exp hget := by
    obtain ⟨hbefore, hmem, htimer⟩ := g.bins expires' exp hget
    exact ⟨hbefore, mem_cons_of_mem _ hmem, htimer⟩
  sending := g.sending
  emitted := g.emitted

theorem hint (g : Good w) (hmay : MayHint h w) : Good (w.hint h) := by
  have gn := g.noted hmay
  have hbefore : (w.noted h).HintedBefore h.index (times.nextExpires h.called) :=
    ⟨h, mem_cons_self, rfl, times.le_nextExpires h.called⟩
  unfold Collector.hint
  dsimp only
  split
  · exact gn
  split
  · rename_i exp hexp
    obtain ⟨-, hmem, htimer⟩ := gn.bins _ exp hexp
    split
    · exact gn.withBin hbefore hmem htimer
    · exact gn
  · exact (gn.afterFunc (by omega)).withBin hbefore mem_cons_self (by
      change (w.noted h).clock + _ ≤ max _ (w.noted h).clock
      omega)

theorem setEnabled (g : Good w) (enabled : Bool) (started : Int × Int → Bool) :
    Good (w.setEnabled enabled started) := by
  unfold Collector.setEnabled
  split
  · exact g
  split
  · exact ⟨g.hints, g.timers, g.bins, g.sending, g.emitted⟩
  · exact ⟨g.hints, fun timer hmem => g.timers timer (mem_of_mem_filter hmem), nofun,
      g.sending, g.emitted⟩

theorem send (g : Good w) {index : Nat} (hmem : index ∈ w.state.gc.sending) :
    Good (w.send index) where
  hints := g.hints
  timers := g.timers
  bins := g.bins
  sending i hi := g.sending i (mem_of_mem_erase hi)
  emitted := by
    rintro e (_ | ⟨_, he⟩)
    · exact g.sending index hmem
    · exact g.emitted e he

theorem call (g : Good w) (h : Call w w') : Good w' := by
  cases h with
  | setEnabled enabled started => exact g.setEnabled enabled started
  | hint hmay => exact g.hint hmay
  | send hmem _ => exact g.send hmem
  | receive => exact ⟨g.hints, g.timers, g.bins, g.sending, g.emitted⟩

theorem step (g : Good w) (h : Step w w') : Good w' := by
  cases h with
  | wait hle _ => exact g.wait hle
  | fire hmem hdue => exact g.fire hmem hdue
  | call h => exact g.call h

theorem of_reached (h : Reached w) : Good w := by
  obtain ⟨start, hrun⟩ := h
  induction hrun with
  | refl => exact ⟨List.Pairwise.nil, by simp, nofun, by simp, by simp⟩
  | tail _ hstep ih => exact ih.step hstep

end Good

/-! ## Nothing is forgotten -/

/-- The index of the hint, or one above it, is in the bin of the hint, waits to be sent, or was
sent. -/
def Kept (h : Hint) (w : Collector times) : Prop :=
  (∃ exp, w.state.gc.expires.get (times.nextExpires h.called) = some exp ∧
    h.index ≤ exp.maxIndex) ∨
  (∃ index ∈ w.state.gc.sending, h.index ≤ index) ∨ ∃ e ∈ w.state.emitted, h.index ≤ e.index

namespace Kept

variable {h : Hint} {w : Collector times}

theorem fire (hkept : Kept h w) (hpos : 0 < h.index) (timer : Int × Int) :
    Kept h (w.run Collection.expireTime timer) := by
  rcases hkept with ⟨exp, hget, hle⟩ | ⟨index, hindex, hle⟩ | hemitted
  · by_cases hbin : times.nextExpires h.called = timer.2
    · have hmem := TombstoneGC.mem_sending_expireTime.mpr
        (.inr ⟨hpos.trans_le hle, exp, hbin ▸ hget, rfl⟩)
      exact .inr (.inl ⟨exp.maxIndex, hmem, hle⟩)
    · exact .inl ⟨exp, (TombstoneGC.get_expireTime_of_ne hbin).trans hget, hle⟩
  · exact .inr (.inl ⟨index, TombstoneGC.mem_sending_expireTime.mpr (.inl hindex), hle⟩)
  · exact .inr (.inr hemitted)

theorem withBin (hkept : Kept h w) {exp : ExpireInterval}
    (hgrows : ∀ old, w.state.gc.expires.get expires = some old → old.maxIndex ≤ exp.maxIndex) :
    Kept h (w.withBin expires exp) := by
  rcases hkept with ⟨old, hget, hle⟩ | hkept
  · left
    by_cases hbin : times.nextExpires h.called = expires
    · exact ⟨exp, hbin ▸ KeyMap.get_insert_self .., hle.trans (hgrows old (hbin ▸ hget))⟩
    · exact ⟨old, (KeyMap.get_insert_of_ne hbin).trans hget, hle⟩
  · exact .inr hkept

theorem hint (hkept : Kept h w) (later : Hint) : Kept h (w.hint later) := by
  have hnoted : Kept h (w.noted later) := hkept
  unfold Collector.hint
  dsimp only
  split
  · exact hnoted
  split
  · rename_i exp hexp
    split
    · rename_i hhigher
      refine hnoted.withBin fun old hold => ?_
      obtain rfl := Option.some.inj (hexp.symm.trans hold)
      exact hhigher.le
    · exact hnoted
  · rename_i hnone
    have hstarted : ∀ delay expires, Kept h (Clocked.afterFunc delay expires (w.noted later)) :=
      fun _ _ => hnoted
    exact (hstarted _ _).withBin fun old hold => absurd (hnone.symm.trans hold) nofun

theorem send (hkept : Kept h w) (index : Nat) : Kept h (w.send index) := by
  rcases hkept with hbin | ⟨other, hother, hle⟩ | ⟨e, he, hle⟩
  · exact .inl hbin
  · by_cases hsent : other = index
    · exact .inr (.inr ⟨_, mem_cons_self, hsent ▸ hle⟩)
    · exact .inr (.inl ⟨other, (mem_erase_of_ne hsent).mpr hother, hle⟩)
  · exact .inr (.inr ⟨e, mem_cons_of_mem _ he, hle⟩)

theorem step (hkept : Kept h w) (hpos : 0 < h.index) (hstep : Step w w')
    (henabled : w'.state.gc.enabled = true) : Kept h w' := by
  cases hstep with
  | wait _ _ => exact hkept
  | fire _ _ => exact hkept.fire hpos _
  | call hcall =>
    cases hcall with
    | setEnabled enabled started =>
      revert henabled
      unfold Collector.setEnabled
      split_ifs
      · exact fun _ => hkept
      · exact fun _ => hkept
      · exact nofun
    | hint _ => exact hkept.hint _
    | send _ _ => exact hkept.send _
    | receive => exact hkept

theorem of_hint (henabled : w.state.gc.enabled = true) : Kept h (w.hint h) := by
  have hnot : (!(w.noted h).state.gc.enabled) = false := by
    simpa [noted, Clocked.update] using henabled
  unfold Collector.hint
  simp only [hnot, Bool.false_eq_true, ↓reduceIte]
  split
  · rename_i exp hexp
    split
    · exact .inl ⟨_, KeyMap.get_insert_self .., le_rfl⟩
    · rename_i hhigher
      exact .inl ⟨exp, hexp, Nat.not_lt.mp hhigher⟩
  · exact .inl ⟨_, KeyMap.get_insert_self .., le_rfl⟩

end Kept

theorem StaysEnabled.kept (hrun : StaysEnabled w w') (hpos : 0 < h.index) (g : Good w)
    (hkept : Kept h w) : Good w' ∧ Kept h w' := by
  induction hrun with
  | refl => exact ⟨g, hkept⟩
  | tail _ hstep ih => exact ⟨ih.1.step hstep.1, ih.2.step hpos hstep.1 hstep.2⟩

/-- The time of the hint is over, the timers that are due have run and the channel is drained. -/
structure Drained (h : Hint) (w : Collector times) : Prop where
  late : h.called + times.ttl + times.granularity ≤ w.clock
  fired : ∀ timer ∈ w.timers, w.clock < timer.1
  sent : w.state.gc.sending = []
  taken : w.state.gc.expireCh = none

theorem Kept.emitted (hkept : Kept h w) (g : Good w) (hread : 0 ≤ h.called + times.ttl)
    (hdrained : Drained h w) : ∃ e ∈ w.state.emitted, h.index ≤ e.index := by
  rcases hkept with ⟨exp, hget, -⟩ | ⟨index, hindex, -⟩ | hemitted
  · -- The bin would still have its timer, which is due.
    obtain ⟨-, hmem, htimer⟩ := g.bins _ exp hget
    have hnotdue := hdrained.fired _ hmem
    have hover := hdrained.late
    have hbin := GCTimes.nextExpires_le hread
    omega
  · rw [hdrained.sent] at hindex
    cases hindex
  · exact hemitted

theorem Good.called_le (g : Good w) {other : Hint} (hmem : h ∈ w.state.hints)
    (hother : other ∈ w.state.hints) (hlt : other.index < h.index) : other.called ≤ h.called := by
  have hlater : w.state.hints.Pairwise fun a b => b.index < a.index → b.called ≤ a.called :=
    g.hints.imp fun hle _ => hle.2
  have hearlier : w.state.hints.Pairwise
      (flip fun a b : Hint => b.index < a.index → b.called ≤ a.called) :=
    g.hints.imp fun hle hlt => absurd hle.1 (Nat.not_le.mpr hlt)
  exact hlater.forall_of_forall_of_flip (fun _ _ _ => le_rfl) hearlier hmem hother hlt

/-- Every index that is emitted was hinted a time to live before, and every hint of a lower index
was no later. And when the collector stays enabled past the time to live and one granularity after
a hint of an index above 0, under a clock that is not before 1970, then an index as high as the
hinted one is emitted. -/
theorem tombstones_expire_in_time {w : Collector times} (hreached : Reached w) :
    (∀ e ∈ w.state.emitted, ∃ h ∈ w.state.hints, h.index = e.index ∧
      h.called + times.ttl ≤ e.time ∧
      ∀ other ∈ w.state.hints, other.index < e.index → other.called ≤ h.called) ∧
    ∀ h w', w.state.gc.enabled = true → MayHint h w → 0 < h.index →
      0 ≤ h.called + times.ttl → StaysEnabled (w.hint h) w' → Drained h w' →
      ∃ e ∈ w'.state.emitted, h.index ≤ e.index := by
  have g := Good.of_reached hreached
  constructor
  · intro e he
    obtain ⟨h, hmem, hindex, hle⟩ := g.emitted e he
    exact ⟨h, hmem, hindex, hle, fun other hother hlt => g.called_le hmem hother (hindex ▸ hlt)⟩
  · intro h w' henabled hmay hpos hread hrun hdrained
    obtain ⟨g', hkept⟩ := hrun.kept hpos (g.hint hmay) (Kept.of_hint henabled)
    exact hkept.emitted g' hread hdrained

/-- A time to live of 1, in bins of 10. -/
def binsOfTen : GCTimes := ⟨1, 10, by decide, by decide⟩

def enabledAt (start : Int) : Collector binsOfTen :=
  Collector.setEnabled true (fun _ => false) { clock := start, state := {} }

theorem reached_enabledAt (start : Int) : Reached (enabledAt start) :=
  ⟨start, .single (.call (.setEnabled true _))⟩

/-- A hint of the index 0 is never answered. And before 1970 a bin comes up to two granularities
after the time to live: a hint at -8 is due at 3, and its bin at 10. -/
theorem some_hints_are_not_answered :
    (∃ w, MayHint ⟨0, 0⟩ (enabledAt 0) ∧ StaysEnabled (hint ⟨0, 0⟩ (enabledAt 0)) w ∧
      Drained ⟨0, 0⟩ w ∧ w.state.emitted = []) ∧
    ∃ w, MayHint ⟨-8, 5⟩ (enabledAt (-8)) ∧ StaysEnabled (hint ⟨-8, 5⟩ (enabledAt (-8))) w ∧
      Drained ⟨-8, 5⟩ w ∧ w.state.emitted = [] := by
  constructor
  · let hinted := hint ⟨0, 0⟩ (enabledAt 0)
    let due : Collector binsOfTen := { hinted with clock := 11 }
    have hfire : Step due (due.run Collection.expireTime (10, 10)) :=
      .fire (by decide +kernel) (by decide)
    refine ⟨due.run Collection.expireTime (10, 10), ⟨by decide, by decide⟩, ?_, ?_, rfl⟩
    · exact .tail (.single ⟨.wait (by decide) trivial, rfl⟩) ⟨hfire, by decide +kernel⟩
    · exact ⟨by decide, by decide +kernel, by decide +kernel, by decide +kernel⟩
  · refine ⟨{ hint ⟨-8, 5⟩ (enabledAt (-8)) with clock := 3 }, ⟨by decide, by decide⟩, ?_, ?_, rfl⟩
    · exact .single ⟨.wait (by decide) trivial, rfl⟩
    · exact ⟨by decide, by decide +kernel, by decide +kernel, by decide +kernel⟩

/-- The index 5 is sent when its bin is due. -/
theorem a_hint_is_answered :
    Reached (enabledAt 0) ∧ MayHint ⟨0, 5⟩ (enabledAt 0) ∧
    ∃ w, StaysEnabled (hint ⟨0, 5⟩ (enabledAt 0)) w ∧ Drained ⟨0, 5⟩ w ∧
      ∃ e ∈ w.state.emitted, 5 ≤ e.index := by
  have hmay : MayHint ⟨0, 5⟩ (enabledAt 0) := ⟨by decide, by decide⟩
  let due : Collector binsOfTen := { hint ⟨0, 5⟩ (enabledAt 0) with clock := 11 }
  let fired : Collector binsOfTen := due.run Collection.expireTime (10, 10)
  have hfire : Step due fired := .fire (by decide +kernel) (by decide)
  have hsend : Step fired (fired.send 5) := .call (.send (by decide +kernel) (by decide +kernel))
  have hrun : StaysEnabled (hint ⟨0, 5⟩ (enabledAt 0)) (fired.send 5).receive :=
    .tail (.tail (.tail (.single ⟨.wait (by decide) trivial, rfl⟩) ⟨hfire, by decide +kernel⟩)
      ⟨hsend, by decide +kernel⟩) ⟨.call .receive, by decide +kernel⟩
  have hdrained : Drained ⟨0, 5⟩ (fired.send 5).receive :=
    ⟨by decide, by decide +kernel, by decide +kernel, rfl⟩
  exact ⟨reached_enabledAt 0, hmay, _, hrun, hdrained,
    (tombstones_expire_in_time (reached_enabledAt 0)).2 _ _ (by decide) hmay (by decide)
      (by decide) hrun hdrained⟩

end Collector

end Calls

end OpenGyoza
