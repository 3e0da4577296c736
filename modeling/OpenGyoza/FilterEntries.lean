-- The filter that compacts a slice in place. It moves spans to the front while
-- it still tests what is behind them, so no position may be tested after it
-- was written.
import Mathlib.Data.List.TakeWhile

namespace OpenGyoza

open List

/-! ## The loop -/

variable {α : Type}

/-- `copy(ent[dst:dst+span], ent[src:src+span])`, which reads the span before it writes. -/
def moveSpan (l : List α) (dst src span : Nat) : List α :=
  l.take dst ++ (l.drop src).take span ++ l.drop (dst + span)

/-- A loop that goes on from `i` as long as there is an element with `p`. -/
def scan (p : α → Bool) (l : List α) (i : Nat) : Nat := i + (l.drop i).findIdx (!p ·)

/-- The loop of `FilterEntries`. `Filter` tests what the slice holds at the moment. -/
def filterLoop (filter : α → Bool) : Nat → List α → Nat → Nat → Option (Nat × List α)
  | 0, _, _, _ => none
  | fuel + 1, l, dst, src =>
    if dst < l.length then
      let src := scan filter l src
      if src = l.length then some (dst, l)
      else
        let span := scan (!filter ·) l (src + 1) - src
        if 0 < span then
          filterLoop filter fuel (moveSpan l dst src span) (dst + span) (src + span)
        else filterLoop filter fuel l dst src
    else some (dst, l)

def filterEntries (filter : α → Bool) (l : List α) : Option (Nat × List α) :=
  filterLoop filter (l.length + 1) l 0 0

/-! ## What it leaves -/

variable {p filter : α → Bool} {l cur : List α} {i dst src : Nat}

theorem take_scan (p : α → Bool) (l : List α) (i : Nat) :
    l.take (scan p l i) = l.take i ++ (l.drop i).takeWhile p := by
  rw [scan, take_add, takeWhile_eq_take_findIdx_not]

theorem scan_le (h : i ≤ l.length) : scan p l i ≤ l.length := by
  have hle := @findIdx_le_length _ (!p ·) (l.drop i)
  rw [length_drop] at hle
  unfold scan
  omega

theorem not_of_scan (h : scan p l i < l.length) : p l[scan p l i] = false := by
  have hlt : (l.drop i).findIdx (!p ·) < (l.drop i).length := by
    unfold scan at h
    rw [length_drop]
    omega
  have hstop := findIdx_getElem (w := hlt)
  simp only [getElem_drop, Bool.not_eq_true'] at hstop
  exact hstop

/-- What is before `src` was filtered and stands in front, and the rest is as it was. -/
structure Compacted (filter : α → Bool) (l cur : List α) (dst src : Nat) : Prop where
  length : cur.length = l.length
  le : dst ≤ src
  bound : src ≤ l.length
  kept : cur.take dst = (l.take src).filter (!filter ·)
  rest : cur.drop src = l.drop src

theorem Compacted.skip (h : Compacted filter l cur dst src) :
    Compacted filter l cur dst (scan filter l src) where
  length := h.length
  le := h.le.trans (Nat.le_add_right _ _)
  bound := scan_le h.bound
  kept := by
    have hnone : ((l.drop src).takeWhile filter).filter (!filter ·) = [] := by
      simpa [filter_eq_nil_iff] using fun a => mem_takeWhile_imp
    rw [take_scan, filter_append, hnone, append_nil, h.kept]
  rest := by
    rw [scan, ← drop_drop, h.rest, drop_drop]

theorem Compacted.move (h : Compacted filter l cur dst src) (hsrc : src < l.length)
    (hkept : filter l[src] = false) {span : Nat}
    (hspan : scan (!filter ·) l (src + 1) = src + span) :
    Compacted filter l (moveSpan cur dst src span) (dst + span) (src + span) := by
  have hbound : src + span ≤ l.length := hspan ▸ scan_le hsrc
  have hall : ((l.drop src).take span).filter (!filter ·) = (l.drop src).take span := by
    have hcut := take_scan (!filter ·) l (src + 1)
    rw [hspan, take_add, take_succ_eq_append_getElem hsrc, append_assoc] at hcut
    rw [append_cancel_left hcut, filter_eq_self]
    intro a ha
    rcases mem_cons.mp ha with rfl | ha
    · simp [hkept]
    · exact mem_takeWhile_imp (p := (!filter ·)) ha
  have hlen := h.length
  have hle := h.le
  have hfront : (cur.take dst ++ (cur.drop src).take span).length = dst + span := by
    simp only [length_append, length_take, length_drop]
    omega
  refine ⟨?_, by omega, hbound, ?_, ?_⟩
  · rw [moveSpan, length_append, hfront, length_drop]
    omega
  · rw [moveSpan, take_left' hfront, h.kept, h.rest, take_add, filter_append, hall]
  · have hsplit : src + span = dst + span + (src - dst) := by omega
    calc
      _ = (cur.drop (dst + span)).drop (src - dst) := by
        rw [hsplit, ← drop_drop, moveSpan, drop_left' hfront]
      _ = (cur.drop src).drop span := by rw [drop_drop, drop_drop, hsplit]
      _ = _ := by rw [h.rest, drop_drop]

theorem Compacted.ends (h : Compacted filter l cur dst src) (hsrc : src = l.length) :
    dst = (l.filter (!filter ·)).length ∧ cur.take dst = l.filter (!filter ·) := by
  have hkept := h.kept
  rw [hsrc, take_length] at hkept
  refine ⟨?_, hkept⟩
  rw [← hkept, length_take, h.length]
  exact (min_eq_left (h.le.trans h.bound)).symm

theorem filterLoop_ends {fuel : Nat} (h : Compacted filter l cur dst src)
    (hfuel : l.length < dst + fuel) :
    ∃ out, filterLoop filter fuel cur dst src = some ((l.filter (!filter ·)).length, out) ∧
      out.take (l.filter (!filter ·)).length = l.filter (!filter ·) := by
  have hle := h.le
  have hbound := h.bound
  induction fuel generalizing cur dst src with
  | zero => omega
  | succ fuel ih =>
    -- what is tested is still as it was
    have hsame : ∀ (p : α → Bool) k, scan p cur (src + k) = scan p l (src + k) := by
      intro p k
      rw [scan, scan, ← drop_drop, ← drop_drop, h.rest]
    have hfirst : scan filter cur src = scan filter l src := hsame filter 0
    have hsecond : scan (!filter ·) cur (scan filter l src + 1) =
        scan (!filter ·) l (scan filter l src + 1) := hsame _ (_ + 1)
    unfold filterLoop
    simp only [h.length, hfirst, hsecond]
    by_cases hdst : dst < l.length
    · rw [if_pos hdst]
      by_cases hsrc : scan filter l src = l.length
      · obtain ⟨rfl, hout⟩ := h.skip.ends hsrc
        exact ⟨cur, if_pos hsrc, hout⟩
      · have hlt := lt_of_le_of_ne (scan_le h.bound) hsrc
        obtain ⟨span, hspan⟩ : ∃ span, scan (!filter ·) l (scan filter l src + 1) =
            scan filter l src + (span + 1) := ⟨_, Nat.add_right_comm _ _ _⟩
        have hmove := h.skip.move hlt (not_of_scan hlt) hspan
        rw [if_neg hsrc, hspan, Nat.add_sub_cancel_left, if_pos (Nat.succ_pos span)]
        exact ih hmove (by omega) hmove.le hmove.bound
    · obtain ⟨rfl, hout⟩ := h.ends (by omega)
      exact ⟨cur, if_neg hdst, hout⟩

/-- The slice is cut to what the filter keeps of what it held at first, in its order. -/
theorem filterEntries_keeps (filter : α → Bool) (l : List α) :
    ∃ out, filterEntries filter l = some ((l.filter (!filter ·)).length, out) ∧
      out.take (l.filter (!filter ·)).length = l.filter (!filter ·) :=
  filterLoop_ends ⟨rfl, le_rfl, Nat.zero_le _, rfl, rfl⟩ (by omega)

end OpenGyoza
