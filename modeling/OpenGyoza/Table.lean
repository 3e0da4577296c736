-- A table of an in-memory database. A row gives its own primary key, or
-- the reason why it has none, and the rows stand in key order. So two
-- tables that answer every lookup alike are equal.
import Mathlib

namespace Memdb

open List

variable {κ ν : Type} [LinearOrder κ]

/-- Rows in strict key order. Each row stands beside the key it gives. -/
@[ext]
structure Table (key : ν → Except String κ) where
  rows : List (κ × ν)
  sorted : rows.Pairwise (fun a b => a.1 < b.1)
  keyed : ∀ p ∈ rows, key p.2 = .ok p.1

namespace Table

variable {key : ν → Except String κ}

instance [DecidableEq ν] : DecidableEq (Table key) := fun s t =>
  decidable_of_iff (s.rows = t.rows) Table.ext_iff.symm

/-- The table with no row. -/
def empty : Table key := ⟨[], Pairwise.nil, by simp⟩

instance : Inhabited (Table key) := ⟨empty⟩

/-- The row with the primary key `k`. -/
def first (t : Table key) (k : κ) : Option ν := (t.rows.find? (fun p => p.1 = k)).map (·.2)

/-- All rows, in key order. -/
def values (t : Table key) : List ν := t.rows.map (·.2)

/-- The rows that `p` picks, in key order. -/
def get (t : Table key) (p : ν → Bool) : List ν := t.values.filter p

section Seek

variable {β : Type} [LinearOrder β]

/-- The entry of a row in a secondary index: its value there, with its key behind it. A row
without a value is not in the index. -/
def entryOf (key : ν → Except String (List β)) (value : ν → Option (List β)) (v : ν) :
    Option (List β) := (value v).bind fun x => (key v).toOption.map (x ++ ·)

/-- A row has an entry that begins with `pfx`. -/
def found (entry : ν → Option (List β)) (pfx : List β) (v : ν) : Bool :=
  (entry v).any pfx.isPrefixOf

/-- The rows that a secondary index finds under the beginning of an entry, in the order of the
entries. -/
def seek (t : Table key) (entry : ν → Option (List β)) (pfx : List β) : List ν :=
  (t.get (found entry pfx)).insertionSort fun v w => (entry v).getD [] ≤ (entry w).getD []

end Seek

/-! ## Lookups -/

variable {t s : Table key} {k : κ} {v w : ν} {p : ν → Bool} {l : List ν}

theorem mem_rows_unique (hv : (k, v) ∈ t.rows) (hw : (k, w) ∈ t.rows) : v = w := by
  by_contra hne
  have hp : t.rows.Pairwise (fun a b => a.1 ≠ b.1) := t.sorted.imp (fun h => ne_of_lt h)
  have : Std.Symm (fun a b : κ × ν => a.1 ≠ b.1) := ⟨fun _ _ h => h.symm⟩
  exact hp.forall hv hw (by simpa using hne) rfl

theorem first_eq_some : t.first k = some v ↔ (k, v) ∈ t.rows := by
  unfold first
  constructor
  · intro h
    obtain ⟨p, hp, rfl⟩ := Option.map_eq_some_iff.mp h
    have hk := find?_some hp
    simp only [decide_eq_true_eq] at hk
    subst hk
    exact mem_of_find?_eq_some hp
  · intro h
    cases hf : t.rows.find? (fun p => p.1 = k) with
    | none =>
      have := find?_eq_none.mp hf _ h
      simp at this
    | some p =>
      have hk := find?_some hf
      simp only [decide_eq_true_eq] at hk
      subst hk
      have hp : (p.1, p.2) ∈ t.rows := mem_of_find?_eq_some hf
      simp [mem_rows_unique hp h]

theorem key_of_first (h : t.first k = some v) :
    key v = .ok k := t.keyed _ (first_eq_some.mp h)

theorem mem_values : v ∈ t.values ↔ ∃ k, t.first k = some v := by
  unfold values
  simp [first_eq_some]

theorem first_of_mem (h : v ∈ t.values) (hk : key v = .ok k) : t.first k = some v := by
  obtain ⟨j, hj⟩ := mem_values.mp h
  have := key_of_first hj
  rw [hk] at this
  cases this
  exact hj

theorem mem_values_of_first (h : t.first k = some v) :
    v ∈ t.values := mem_values.mpr ⟨k, h⟩

theorem key_of_mem (h : v ∈ t.values) : ∃ k, key v = .ok k := by
  obtain ⟨k, hk⟩ := mem_values.mp h
  exact ⟨k, key_of_first hk⟩

theorem mem_get :
    v ∈ t.get p ↔ v ∈ t.values ∧ p v = true := mem_filter

section Seek

variable {β : Type} [LinearOrder β] {entry : ν → Option (List β)} {pfx : List β}

theorem found_iff : found entry pfx v = true ↔ ∃ e, entry v = some e ∧ pfx <+: e := by
  simp [found, Option.any_eq_true]

theorem seek_perm (t : Table key) (entry : ν → Option (List β)) (pfx : List β) :
    (t.seek entry pfx).Perm (t.get (found entry pfx)) := perm_insertionSort _ _

theorem mem_seek : v ∈ t.seek entry pfx ↔ v ∈ t.values ∧ ∃ e, entry v = some e ∧ pfx <+: e := by
  rw [(seek_perm t entry pfx).mem_iff, mem_get, found_iff]

theorem mem_seek_entryOf {key : ν → Except String (List β)} {t : Table key}
    {value : ν → Option (List β)} : v ∈ t.seek (entryOf key value) pfx ↔
      ∃ k x, t.first k = some v ∧ value v = some x ∧ pfx <+: x ++ k := by
  rw [mem_seek, mem_values]
  constructor
  · rintro ⟨⟨k, hk⟩, e, he, hpfx⟩
    obtain ⟨x, hx, he⟩ := Option.bind_eq_some_iff.mp he
    rw [key_of_first hk] at he
    obtain rfl : x ++ k = e := Option.some.inj he
    exact ⟨k, x, hk, hx, hpfx⟩
  · rintro ⟨k, x, hk, hx, hpfx⟩
    exact ⟨⟨k, hk⟩, x ++ k, by simp [entryOf, hx, key_of_first hk, Except.toOption], hpfx⟩

end Seek

theorem values_pairwise (t : Table key) : t.values.Pairwise (fun v w => key v ≠ key w) := by
  unfold values
  rw [pairwise_map]
  refine t.sorted.imp_of_mem fun {a b} ha hb hlt => ?_
  rw [t.keyed a ha, t.keyed b hb]
  intro h
  injection h with h
  exact hlt.ne h

@[simp] theorem first_empty (k : κ) : (empty : Table key).first k = none := rfl

@[simp] theorem values_empty : (empty : Table key).values = [] := rfl

theorem ext_first (h : ∀ k, s.first k = t.first k) : s = t := by
  apply Table.ext
  have hmem : ∀ p : κ × ν, p ∈ s.rows ↔ p ∈ t.rows := by
    intro ⟨k, v⟩
    rw [← first_eq_some, ← first_eq_some, h]
  have hnd : ∀ u : Table key, u.rows.Nodup := fun u =>
    u.sorted.imp (fun hlt heq => absurd (heq ▸ hlt) (lt_irrefl _))
  apply Perm.eq_of_pairwise _ s.sorted t.sorted
    ((perm_ext_iff_of_nodup (hnd s) (hnd t)).mpr hmem)
  intro a b _ _ hab hba
  exact absurd hab (not_lt.mpr hba.le)

/-! ## Writes -/

/-- The table with `v` as the row of the key `k`. -/
def put (t : Table key) (k : κ) (v : ν) (h : key v = .ok k) : Table key where
  rows := t.rows.filter (fun p => p.1 < k) ++ (k, v) :: t.rows.filter (fun p => k < p.1)
  sorted := by
    rw [pairwise_append, pairwise_cons]
    refine ⟨t.sorted.filter _, ⟨?_, t.sorted.filter _⟩, ?_⟩
    · intro p hp
      simpa using (mem_filter.mp hp).2
    · intro a ha b hb
      have hak : a.1 < k := by simpa using (mem_filter.mp ha).2
      rcases mem_cons.mp hb with rfl | hb
      · exact hak
      · exact hak.trans (by simpa using (mem_filter.mp hb).2)
  keyed := by
    intro p hp
    rcases mem_append.mp hp with hp | hp
    · exact t.keyed p (mem_filter.mp hp).1
    rcases mem_cons.mp hp with rfl | hp
    · exact h
    · exact t.keyed p (mem_filter.mp hp).1

/-- Inserts `v`, or replaces the row with its key. A row without a key
leaves the table as it is. -/
def upsert (t : Table key) (v : ν) : Table key :=
  match h : key v with
  | .ok k => t.put k v h
  | .error _ => t

/-- Inserts rows one after the other. -/
def putAll (t : Table key) (l : List ν) : Table key := l.foldl upsert t

/-- The rows that `p` keeps. -/
def keep (t : Table key) (p : ν → Bool) : Table key where
  rows := t.rows.filter (fun q => p q.2)
  sorted := t.sorted.filter _
  keyed := fun q hq => t.keyed q (mem_filter.mp hq).1

/-- The table without the row of the key `k`. -/
def erase (t : Table key) (k : κ) : Table key where
  rows := t.rows.filter (fun q => q.1 ≠ k)
  sorted := t.sorted.filter _
  keyed := fun q hq => t.keyed q (mem_filter.mp hq).1

theorem first_put (t : Table key) (k j : κ) (v : ν) (h : key v = .ok k) :
    (t.put k v h).first j = if j = k then some v else t.first j := by
  apply Option.ext
  intro w
  rw [first_eq_some]
  simp only [put, mem_append, mem_filter, mem_cons, decide_eq_true_eq,
    Prod.mk.injEq]
  split
  · rename_i hjk
    subst hjk
    simp [eq_comm]
  · rename_i hjk
    rw [first_eq_some]
    constructor
    · rintro (h1 | h1 | h1)
      · exact h1.1
      · exact absurd h1.1 hjk
      · exact h1.1
    · intro h1
      rcases lt_or_gt_of_ne hjk with h2 | h2
      · exact Or.inl ⟨h1, h2⟩
      · exact Or.inr (Or.inr ⟨h1, h2⟩)

theorem first_upsert (h : key v = .ok k) (j : κ) :
    (t.upsert v).first j = if j = k then some v else t.first j := by
  unfold upsert
  split
  · rename_i k' h'
    rw [h] at h'
    cases h'
    exact first_put t k j v h
  · rename_i e he
    rw [h] at he
    cases he

@[simp] theorem first_upsert_self (h : key v = .ok k) : (t.upsert v).first k = some v := by
  simp [first_upsert h]

theorem first_upsert_ne {j : κ} (h : key v = .ok k) (hj : j ≠ k) :
    (t.upsert v).first j = t.first j := by
  simp [first_upsert h, hj]

theorem first_erase (t : Table key) (k j : κ) :
    (t.erase k).first j = if j = k then none else t.first j := by
  apply Option.ext
  intro w
  rw [first_eq_some]
  simp only [erase, mem_filter, decide_eq_true_eq]
  split
  · rename_i hjk
    simp [hjk]
  · rename_i hjk
    rw [first_eq_some]
    simp [hjk]

@[simp] theorem first_erase_self (t : Table key) (k : κ) : (t.erase k).first k = none := by
  simp [first_erase]

theorem first_erase_ne (t : Table key) {j : κ} (h : j ≠ k) : (t.erase k).first j = t.first j := by
  simp [first_erase, h]

/-- The table without the rows of some keys. -/
def eraseAll (t : Table key) (ks : List κ) : Table key := ks.foldl erase t

theorem first_eraseAll (t : Table key) (ks : List κ) (j : κ) :
    (t.eraseAll ks).first j = if j ∈ ks then none else t.first j := by
  induction ks generalizing t with
  | nil => rfl
  | cons k ks ih =>
    change ((t.erase k).eraseAll ks).first j = _
    rw [ih, first_erase]
    by_cases hj : j ∈ ks <;> by_cases hk : j = k <;> simp [hj, hk]

/-- Every row of one table is a row of the other. -/
def Within (s t : Table key) : Prop := ∀ k v, s.first k = some v → t.first k = some v

theorem Within.trans {u : Table key} (h : Within s t) (h' : Within t u) : Within s u :=
  fun k v hv => h' k v (h k v hv)

theorem Within.mem (h : Within s t) (hv : v ∈ s.values) : v ∈ t.values := by
  obtain ⟨k, hk⟩ := mem_values.mp hv
  exact mem_values_of_first (h k v hk)

theorem within_erase (t : Table key) (k : κ) : Within (t.erase k) t := by
  intro j v hj
  rw [first_erase] at hj
  split at hj
  · cases hj
  · exact hj

theorem within_eraseAll (t : Table key) (ks : List κ) : Within (t.eraseAll ks) t := by
  intro j v hj
  rw [first_eraseAll] at hj
  split at hj
  · cases hj
  · exact hj

theorem erase_of_first_none (h : t.first k = none) : t.erase k = t := by
  apply ext_first
  intro j
  rw [first_erase]
  split
  · rename_i hj
    rw [hj, h]
  · rfl

theorem first_keep (t : Table key) (p : ν → Bool) (j : κ) :
    (t.keep p).first j = (t.first j).filter p := by
  apply Option.ext
  intro w
  rw [first_eq_some, Option.filter_eq_some_iff, first_eq_some]
  simp [keep]

theorem eq_keep (h : ∀ k v, s.first k = some v ↔ t.first k = some v ∧ p v = true) :
    s = t.keep p := by
  refine ext_first fun k => ?_
  ext v
  rw [h, first_keep, Option.filter_eq_some_iff]

theorem mem_values_upsert (h : key v = .ok k) :
    w ∈ (t.upsert v).values ↔ w = v ∨ (w ∈ t.values ∧ key w ≠ .ok k) := by
  rw [mem_values]
  constructor
  · rintro ⟨j, hj⟩
    rw [first_upsert h] at hj
    split at hj
    · simp only [Option.some.injEq] at hj
      exact Or.inl hj.symm
    · rename_i hjk
      refine Or.inr ⟨mem_values_of_first hj, ?_⟩
      rw [key_of_first hj]
      simpa using hjk
  · rintro (rfl | ⟨hw, hk⟩)
    · exact ⟨k, first_upsert_self h⟩
    · obtain ⟨j, hj⟩ := mem_values.mp hw
      refine ⟨j, ?_⟩
      rw [first_upsert_ne h]
      · exact hj
      · rintro rfl
        exact hk (key_of_first hj)

theorem upsert_of_error {text : String} (h : key v = .error text) : t.upsert v = t := by
  unfold upsert
  split
  · rename_i h'
    rw [h] at h'
    cases h'
  · rfl

theorem mem_values_of_upsert (h : w ∈ (t.upsert v).values) : w = v ∨ w ∈ t.values := by
  cases hk : key v with
  | error text =>
    rw [upsert_of_error hk] at h
    exact Or.inr h
  | ok k => exact ((mem_values_upsert hk).mp h).imp_right And.left

theorem mem_values_of_putAll (h : w ∈ (t.putAll l).values) : w ∈ l ∨ w ∈ t.values := by
  induction l generalizing t with
  | nil => exact Or.inr h
  | cons v l ih =>
    rcases ih h with hl | ht
    · exact Or.inl (mem_cons_of_mem _ hl)
    · rcases mem_values_of_upsert ht with rfl | ht
      · exact Or.inl mem_cons_self
      · exact Or.inr ht

theorem first_putAll_of_not (h : ∀ v ∈ l, key v ≠ .ok k) : (t.putAll l).first k = t.first k := by
  induction l generalizing t with
  | nil => rfl
  | cons v l ih =>
    change ((t.upsert v).putAll l).first k = t.first k
    rw [ih fun w hw => h w (mem_cons_of_mem _ hw)]
    cases hv : key v with
    | error text => rw [upsert_of_error hv]
    | ok j =>
      rw [first_upsert_ne hv]
      rintro rfl
      exact h v mem_cons_self hv

theorem first_putAll_of_unique (hv : v ∈ l) (hk : key v = .ok k)
    (h : ∀ w ∈ l, key w = .ok k → w = v) : (t.putAll l).first k = some v := by
  induction l generalizing t with
  | nil => cases hv
  | cons w l ih =>
    change ((t.upsert w).putAll l).first k = some v
    by_cases hmem : v ∈ l
    · exact ih hmem fun x hx => h x (mem_cons_of_mem _ hx)
    · obtain rfl : v = w := by simpa [hmem] using hv
      rw [first_putAll_of_not, first_upsert_self hk]
      intro x hx hxk
      exact hmem (h x (mem_cons_of_mem _ hx) hxk ▸ hx)

theorem first_putAll_of_mem (hl : l.Pairwise fun v w => key v ≠ key w) (hv : v ∈ l)
    (hk : key v = .ok k) : (t.putAll l).first k = some v := by
  refine first_putAll_of_unique hv hk fun w hw hwk => ?_
  by_contra hne
  have : Std.Symm (fun a b : ν => key a ≠ key b) := ⟨fun _ _ h => h.symm⟩
  exact hl.forall hw hv hne (by rw [hwk, hk])

theorem putAll_values (t : Table key) : (empty : Table key).putAll t.values = t := by
  apply ext_first
  intro k
  cases hk : t.first k with
  | some v =>
    exact first_putAll_of_mem t.values_pairwise (mem_values_of_first hk) (key_of_first hk)
  | none =>
    rw [first_putAll_of_not, first_empty]
    intro v hv hkey
    rw [first_of_mem hv hkey] at hk
    cases hk

theorem mem_values_erase :
    w ∈ (t.erase k).values ↔ w ∈ t.values ∧ key w ≠ .ok k := by
  rw [mem_values]
  constructor
  · rintro ⟨j, hj⟩
    rw [first_erase] at hj
    split at hj
    · cases hj
    · rename_i hjk
      refine ⟨mem_values_of_first hj, ?_⟩
      rw [key_of_first hj]
      simpa using hjk
  · rintro ⟨hw, hk⟩
    obtain ⟨j, hj⟩ := mem_values.mp hw
    refine ⟨j, ?_⟩
    rw [first_erase_ne]
    · exact hj
    · rintro rfl
      exact hk (key_of_first hj)

theorem mem_values_keep :
    w ∈ (t.keep p).values ↔ w ∈ t.values ∧ p w = true := by
  rw [mem_values, mem_values]
  simp [first_keep]

theorem values_keep (t : Table key) (p : ν → Bool) : (t.keep p).values = t.get p := by
  simp [values, keep, get, filter_map, Function.comp_def]

theorem keep_keep_of {q : ν → Bool} (h : ∀ v, q v = true → p v = true) :
    (t.keep p).keep q = t.keep q := by
  refine ext_first fun k => ?_
  rw [first_keep, first_keep, first_keep, Option.filter_filter]
  congr 1
  funext v
  cases hq : q v <;> simp [h v, hq]

theorem keep_eq_keep {q : ν → Bool} : t.keep p = t.keep q ↔ ∀ v ∈ t.values, p v = q v := by
  constructor
  · intro h v hv
    have hmem : v ∈ (t.keep p).values ↔ v ∈ (t.keep q).values := by rw [h]
    rw [mem_values_keep, mem_values_keep] at hmem
    simp only [hv, true_and] at hmem
    exact Bool.eq_iff_iff.mpr hmem
  · intro h
    refine ext_first fun k => ?_
    rw [first_keep, first_keep]
    cases hk : t.first k with
    | none => rfl
    | some v => simp [Option.filter_some, h v (mem_values_of_first hk)]

theorem get_congr (h : ∀ k, (s.first k).filter p = (t.first k).filter p) : s.get p = t.get p := by
  rw [← values_keep, ← values_keep]
  congr 1
  apply ext_first
  intro k
  rw [first_keep, first_keep, h]

theorem get_upsert_of_not (h : key v = .ok k) (hv : p v = false)
    (hold : ∀ w, t.first k = some w → p w = false) : (t.upsert v).get p = t.get p := by
  apply get_congr
  intro j
  rw [first_upsert h]
  split
  · rename_i hj
    subst hj
    cases hw : t.first j with
    | none => simp [hv]
    | some w => simp [Option.filter, hv, hold w hw]
  · rfl

theorem get_erase_of_not (hold : ∀ w, t.first k = some w → p w = false) :
    (t.erase k).get p = t.get p := by
  apply get_congr
  intro j
  rw [first_erase]
  split
  · rename_i hj
    subst hj
    cases hw : t.first j with
    | none => rfl
    | some w => simp [Option.filter, hold w hw]
  · rfl

end Table

/-! ## The highest value of a list -/

section MaxOf

variable {α : Type}

/-- The highest value that `f` takes on a list, as a loop finds it that starts with 0. -/
def maxOf (f : α → Nat) (l : List α) : Nat := l.foldl (fun m a => max m (f a)) 0

theorem foldl_max_le_iff (f : α → Nat) (l : List α) (m b : Nat) :
    l.foldl (fun m a => max m (f a)) m ≤ b ↔ m ≤ b ∧ ∀ a ∈ l, f a ≤ b := by
  induction l generalizing m with
  | nil => simp
  | cons a l ih =>
    rw [foldl_cons, ih, Nat.max_le, forall_mem_cons, and_assoc]

theorem maxOf_le_iff {f : α → Nat} {l : List α} {b : Nat} : maxOf f l ≤ b ↔ ∀ a ∈ l, f a ≤ b := by
  simp [maxOf, foldl_max_le_iff]

theorem le_maxOf {f : α → Nat} {l : List α} {a : α} (h : a ∈ l) : f a ≤ maxOf f l :=
  maxOf_le_iff.mp le_rfl a h

end MaxOf

theorem exists_of_forall₂_left {α β : Type} {R : α → β → Prop} {l : List α} {l' : List β}
    (h : Forall₂ R l l') {a : α} (ha : a ∈ l) : ∃ b ∈ l', R a b := by
  induction h with
  | nil => cases ha
  | cons hab _ ih =>
    rcases mem_cons.mp ha with rfl | ha
    · exact ⟨_, mem_cons_self, hab⟩
    · obtain ⟨b, hb, hR⟩ := ih ha
      exact ⟨b, mem_cons_of_mem _ hb, hR⟩

theorem exists_of_forall₂_right {α β : Type} {R : α → β → Prop} {l : List α} {l' : List β}
    (h : Forall₂ R l l') {b : β} (hb : b ∈ l') : ∃ a ∈ l, R a b :=
  exists_of_forall₂_left h.flip hb

end Memdb
