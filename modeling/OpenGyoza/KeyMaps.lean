-- Finite maps that are walked in any order, and sets of keys that are
-- worked off one by one, again in any order. Neither the order of a walk
-- nor the number of its steps is known to what is proved about it. Lists
-- that are compacted in place while they are walked stand here as well.
import Mathlib.Data.Finset.Card
import Mathlib.Data.Finset.Dedup
import Mathlib.Data.List.Perm.Subperm
import Mathlib.Logic.Function.Basic

/-- A finite map. Its keys stand in a list, each once. -/
structure KeyMap (κ ν : Type) where
  keys : List κ
  get : κ → Option ν
  nodup : keys.Nodup
  mem_keys : ∀ k, k ∈ keys ↔ (get k).isSome

namespace KeyMap

variable {κ ν : Type}

def empty : KeyMap κ ν where
  keys := []
  get _ := none
  nodup := List.nodup_nil
  mem_keys _ := by simp

def len (m : KeyMap κ ν) : Nat := m.keys.length

variable {m : KeyMap κ ν} {k j : κ} {v : ν}

theorem mem_keys_of_get (h : m.get k = some v) : k ∈ m.keys :=
  (m.mem_keys k).mpr (by simp [h])

theorem get_of_len_zero (h : m.len = 0) (k : κ) : m.get k = none := by
  have hkeys : k ∉ m.keys := by
    rw [List.length_eq_zero_iff.mp h]
    simp
  rw [m.mem_keys] at hkeys
  simpa using hkeys

@[simp] theorem get_empty (k : κ) : (empty : KeyMap κ ν).get k = none := rfl

/-- The map without the keys whose value is missing. -/
def strip (m : KeyMap κ (Option ν)) : KeyMap κ ν where
  keys := m.keys.filter fun k => ((m.get k).join).isSome
  get k := (m.get k).join
  nodup := m.nodup.filter _
  mem_keys := by
    intro k
    rw [List.mem_filter, m.mem_keys]
    cases m.get k <;> simp

@[simp] theorem get_strip (m : KeyMap κ (Option ν)) (k : κ) : m.strip.get k = (m.get k).join := rfl

/-- The map with only the keys that `p` accepts. -/
def filter (m : KeyMap κ ν) (p : κ → Bool) : KeyMap κ ν where
  keys := m.keys.filter p
  get k := if p k then m.get k else none
  nodup := m.nodup.filter p
  mem_keys := by
    intro k
    rw [List.mem_filter, m.mem_keys]
    cases p k <;> simp

theorem get_filter {p : κ → Bool} :
    (m.filter p).get k = some v ↔ p k = true ∧ m.get k = some v := by
  show (if p k then m.get k else none) = some v ↔ _
  split <;> simp_all

theorem mem_of_len_eq {l : List κ} (hl : l.Nodup) (hsub : ∀ k ∈ l, k ∈ m.keys)
    (hlen : l.length = m.len) (hk : k ∈ m.keys) : k ∈ l := by
  have hperm := (List.subperm_of_subset hl hsub).perm_of_length_le (Nat.le_of_eq hlen.symm)
  exact hperm.mem_iff.mpr hk

variable [DecidableEq κ]

def insert (m : KeyMap κ ν) (k : κ) (v : ν) : KeyMap κ ν where
  keys := if k ∈ m.keys then m.keys else k :: m.keys
  get := Function.update m.get k (some v)
  nodup := by
    split
    · exact m.nodup
    · rename_i h
      exact List.nodup_cons.mpr ⟨h, m.nodup⟩
  mem_keys := by
    intro j
    by_cases hj : j = k
    · subst hj
      simp only [Function.update_self, Option.isSome_some, iff_true]
      split
      · assumption
      · exact List.mem_cons_self
    · rw [Function.update_of_ne hj, ← m.mem_keys j]
      split
      · rfl
      · simp [hj]

@[simp] theorem get_insert_self (m : KeyMap κ ν) (k : κ) (v : ν) : (m.insert k v).get k = some v :=
  Function.update_self ..

theorem get_insert_of_ne (h : j ≠ k) :
    (m.insert k v).get j = m.get j := Function.update_of_ne h ..

theorem get_insert_cases {u : ν} (h : (m.insert k v).get j = some u) :
    j = k ∧ u = v ∨ m.get j = some u := by
  by_cases hj : j = k
  · subst hj
    rw [get_insert_self] at h
    exact .inl ⟨rfl, (Option.some.inj h).symm⟩
  · rw [get_insert_of_ne hj] at h
    exact .inr h

def erase (m : KeyMap κ ν) (k : κ) : KeyMap κ ν := m.filter fun j => j ≠ k

@[simp] theorem get_erase_self (m : KeyMap κ ν) (k : κ) : (m.erase k).get k = none := by
  simp [erase, filter]

theorem get_erase_of_ne (h : j ≠ k) : (m.erase k).get j = m.get j := by
  simp [erase, filter, h]

end KeyMap

/-! ## Work lists -/

/-- An order of the keys in each step. -/
structure Walks (κ : Type) where
  order : Nat → List κ → List κ
  perm : ∀ i l, (order i l).Perm l

namespace Walks

variable {κ σ ε : Type} {w : Walks κ} {n : Nat} {todo : List κ} {I : List κ → σ → Prop}

theorem mem_of_head? {k : κ} (h : (w.order n todo).head? = some k) : k ∈ todo :=
  (w.perm n todo).mem_iff.mp (List.mem_of_mem_head? h)

theorem eq_nil_of_head? (h : (w.order n todo).head? = none) : todo = [] := by
  have hnil := List.head?_eq_none_iff.mp h
  exact List.perm_nil.mp (hnil ▸ (w.perm n todo).symm)

variable [DecidableEq κ]

def run (w : Walks κ) (cut : ε) (visit : κ → σ → Except ε (Option (σ × List κ))) :
    Nat → List κ → σ → Except ε σ
  | 0, _, _ => .error cut
  | n + 1, todo, s =>
    match (w.order n todo).head? with
    | none => .ok s
    | some k =>
      match visit k s with
      | .error e => .error e
      | .ok none => .ok s
      | .ok (some (s', more)) => run w cut visit n (todo.filter (· ≠ k) ++ more) s'

variable {cut : ε} {visit : κ → σ → Except ε (Option (σ × List κ))}

theorem run_induction {Q : σ → Prop}
    (step : ∀ k todo s s' more, k ∈ todo → I todo s → visit k s = .ok (some (s', more)) →
      I (todo.filter (· ≠ k) ++ more) s')
    (ended : ∀ k todo s, k ∈ todo → I todo s → visit k s = .ok none → Q s)
    (finished : ∀ s, I [] s → Q s) {s s' : σ} (hI : I todo s)
    (h : run w cut visit n todo s = .ok s') : Q s' := by
  induction n generalizing todo s with
  | zero => cases h
  | succ n ih =>
    unfold run at h
    split at h
    · rename_i hnone
      obtain rfl := eq_nil_of_head? hnone
      cases h
      exact finished _ hI
    · rename_i k hk
      have hmem := mem_of_head? hk
      split at h
      · cases h
      · rename_i hv
        cases h
        exact ended k todo _ hmem hI hv
      · rename_i t more hv
        exact ih (step k todo s t more hmem hI hv) h

theorem run_ends {μ : List κ → σ → Nat}
    (step : ∀ k todo s s' more, k ∈ todo → I todo s → visit k s = .ok (some (s', more)) →
      I (todo.filter (· ≠ k) ++ more) s' ∧ μ (todo.filter (· ≠ k) ++ more) s' < μ todo s) {s : σ}
    (hI : I todo s) (hn : μ todo s < n) :
    (∃ s', run w cut visit n todo s = .ok s') ∨
      ∃ k t e, visit k t = .error e ∧ run w cut visit n todo s = .error e := by
  induction n generalizing todo s with
  | zero => omega
  | succ n ih =>
    unfold run
    split
    · exact .inl ⟨s, rfl⟩
    · rename_i k hk
      have hmem := mem_of_head? hk
      split
      · rename_i e hv
        exact .inr ⟨k, s, e, hv, rfl⟩
      · exact .inl ⟨s, rfl⟩
      · rename_i s' more hv
        obtain ⟨hI', hless⟩ := step k todo s s' more hmem hI hv
        exact ih hI' (by omega)

/-- What is left to do in a walk that sees each key of `all` once. -/
def left (all : List κ) (seen : σ → List κ) (todo : List κ) (s : σ) : Nat :=
  (all.toFinset \ (seen s).toFinset).card * (all.toFinset.card + 1) + todo.toFinset.card

theorem run_ends_of_seen {all : List κ} (seen : σ → List κ)
    (step : ∀ k s s' more, k ∈ all → visit k s = .ok (some (s', more)) →
      (more = [] ∧ seen s' = seen s) ∨
        (k ∉ seen s ∧ seen s' = k :: seen s ∧ ∀ j ∈ more, j ∈ all)) {s : σ}
    (htodo : ∀ k ∈ todo, k ∈ all) (hn : left all seen todo s < n) :
    (∃ s', run w cut visit n todo s = .ok s') ∨
      ∃ k t e, visit k t = .error e ∧ run w cut visit n todo s = .error e := by
  refine run_ends (I := fun todo _ => ∀ k ∈ todo, k ∈ all) ?_ htodo hn
  intro k todo s s' more hk hall hv
  have hrest : ∀ j ∈ todo.filter (· ≠ k), j ∈ all := fun j hj => hall j (List.mem_filter.mp hj).1
  rcases step k s s' more (hall k hk) hv with ⟨rfl, hsame⟩ | ⟨hnew, hseen, hmore⟩
  · rw [List.append_nil]
    refine ⟨hrest, ?_⟩
    have hless : (todo.filter (· ≠ k)).toFinset.card < todo.toFinset.card := by
      refine Finset.card_lt_card ⟨fun j hj => ?_, fun hsub => ?_⟩
      · exact List.mem_toFinset.mpr (List.mem_filter.mp (List.mem_toFinset.mp hj)).1
      · simpa using hsub (List.mem_toFinset.mpr hk)
    unfold left
    rw [hsame]
    omega
  · have hall' : ∀ j ∈ todo.filter (· ≠ k) ++ more, j ∈ all := by
      intro j hj
      rcases List.mem_append.mp hj with hj | hj
      · exact hrest j hj
      · exact hmore j hj
    refine ⟨hall', ?_⟩
    have hbound : (todo.filter (· ≠ k) ++ more).toFinset.card ≤ all.toFinset.card :=
      Finset.card_le_card fun j hj =>
        List.mem_toFinset.mpr (hall' j (List.mem_toFinset.mp hj))
    have hless : (all.toFinset \ (seen s').toFinset).card <
        (all.toFinset \ (seen s).toFinset).card := by
      rw [hseen]
      refine Finset.card_lt_card ⟨fun j hj => ?_, fun hsub => ?_⟩
      · simp only [Finset.mem_sdiff, List.mem_toFinset, List.mem_cons, not_or] at hj ⊢
        exact ⟨hj.1, hj.2.2⟩
      · have hk' : k ∈ all.toFinset \ (seen s).toFinset := by simp [hall k hk, hnew]
        simpa using hsub hk'
    unfold left
    have hmul := Nat.mul_le_mul_right (all.toFinset.card + 1) hless
    rw [Nat.succ_mul] at hmul
    omega

/-! ## Collecting values -/

section Collect

variable {ν : Type} {find : κ → Option ν} {related : ν → List κ} {roots : List κ}

/-- Looks up one key, if that was not done before. The keys that its value leads to are next. -/
def lookUp (find : κ → Option ν) (related : ν → List κ) (k : κ) (m : KeyMap κ (Option ν)) :
    Except ε (Option (KeyMap κ (Option ν) × List κ)) :=
  if k ∈ m.keys then .ok (some (m, []))
  else .ok (some (m.insert k (find k), ((find k).map related).getD []))

/-- Looks up all keys to which the first ones lead. A key without a value stands in the map as
well. -/
def collect (w : Walks κ) (cut : ε) (find : κ → Option ν) (related : ν → List κ) (n : Nat)
    (todo : List κ) : Except ε (KeyMap κ (Option ν)) :=
  w.run cut (lookUp find related) n todo .empty

/-- A map with the values of the first keys, and of all to which they lead. -/
structure Collected (find : κ → Option ν) (related : ν → List κ) (roots : List κ)
    (m : KeyMap κ (Option ν)) : Prop where
  root : ∀ k ∈ roots, k ∈ m.keys
  next : ∀ k ∈ m.keys, ∀ v, find k = some v → ∀ j ∈ related v, j ∈ m.keys
  get : ∀ k ∈ m.keys, m.get k = some (find k)
  least : ∀ P : κ → Prop, (∀ k ∈ roots, P k) →
    (∀ k v, P k → find k = some v → ∀ j ∈ related v, P j) → ∀ k ∈ m.keys, P k

/-- Part of the way, a key may also stand in the list of what is to do. -/
structure Collecting (find : κ → Option ν) (related : ν → List κ) (roots todo : List κ)
    (m : KeyMap κ (Option ν)) : Prop where
  root : ∀ k ∈ roots, k ∈ m.keys ∨ k ∈ todo
  next : ∀ k ∈ m.keys, ∀ v, find k = some v → ∀ j ∈ related v, j ∈ m.keys ∨ j ∈ todo
  get : ∀ k ∈ m.keys, m.get k = some (find k)
  least : ∀ P : κ → Prop, (∀ k ∈ roots, P k) →
    (∀ k v, P k → find k = some v → ∀ j ∈ related v, P j) → ∀ k, k ∈ m.keys ∨ k ∈ todo → P k

variable {k : κ} {todo : List κ} {m : KeyMap κ (Option ν)}

theorem mem_rest {j : κ} {more : List κ} {keys : List κ} (h : j ∈ keys ∨ j ∈ todo) (hk : k ∈ keys) :
    j ∈ keys ∨ j ∈ todo.filter (· ≠ k) ++ more := by
  by_cases heq : j = k
  · exact .inl (heq ▸ hk)
  · rcases h with h | h
    · exact .inl h
    · exact .inr (List.mem_append_left _ (List.mem_filter.mpr ⟨h, by simpa using heq⟩))

theorem Collecting.skip (h : Collecting find related roots todo m) (hk : k ∈ m.keys) :
    Collecting find related roots (todo.filter (· ≠ k) ++ []) m where
  root j hj := mem_rest (h.root j hj) hk
  next i hi v hv j hj := mem_rest (h.next i hi v hv j hj) hk
  get := h.get
  least P hroots hnext j hj := by
    refine h.least P hroots hnext j (hj.imp_right fun hj => ?_)
    rw [List.append_nil] at hj
    exact (List.mem_filter.mp hj).1

theorem Collecting.look (h : Collecting find related roots todo m) (hmem : k ∈ todo)
    (hk : k ∉ m.keys) :
    Collecting find related roots (todo.filter (· ≠ k) ++ ((find k).map related).getD [])
      (m.insert k (find k)) := by
  have hkeys : (m.insert k (find k)).keys = k :: m.keys := if_neg hk
  have hself : k ∈ (m.insert k (find k)).keys := hkeys ▸ List.mem_cons_self
  have hold : ∀ j, j ∈ m.keys ∨ j ∈ todo → j ∈ (m.insert k (find k)).keys ∨ j ∈ todo :=
    fun j hj => hj.imp_left fun hj => hkeys ▸ List.mem_cons_of_mem _ hj
  constructor
  · exact fun j hj => mem_rest (hold j (h.root j hj)) hself
  · intro i hi v hv j hj
    rw [hkeys] at hi
    rcases List.mem_cons.mp hi with rfl | hi
    · exact .inr (List.mem_append_right _ (by rw [hv]; exact hj))
    · exact mem_rest (hold j (h.next i hi v hv j hj)) hself
  · intro j hj
    rw [hkeys] at hj
    by_cases heq : j = k
    · subst heq
      exact KeyMap.get_insert_self ..
    · rw [KeyMap.get_insert_of_ne heq]
      exact h.get j ((List.mem_cons.mp hj).resolve_left heq)
  · intro P hroots hnext j hj
    have hbefore := h.least P hroots hnext
    rw [hkeys] at hj
    rcases hj with hj | hj
    · rcases List.mem_cons.mp hj with rfl | hj
      · exact hbefore _ (.inr hmem)
      · exact hbefore j (.inl hj)
    · rcases List.mem_append.mp hj with hj | hj
      · exact hbefore j (.inr (List.mem_filter.mp hj).1)
      · cases hv : find k with
        | none => rw [hv] at hj; cases hj
        | some v =>
          rw [hv] at hj
          exact hnext k v (hbefore k (.inr hmem)) hv j hj

theorem collect_eq_ok (h : collect w cut find related n roots = .ok m) :
    Collected find related roots m := by
  refine run_induction (I := Collecting find related roots) ?_ ?_ ?_ ?_ h
  · intro k todo m m' more hk hI hv
    unfold lookUp at hv
    split at hv
    · cases hv
      exact hI.skip ‹_›
    · cases hv
      exact hI.look hk ‹_›
  · intro k todo m _ _ hv
    unfold lookUp at hv
    split at hv <;> cases hv
  · intro m hI
    exact ⟨fun k hk => (hI.root k hk).resolve_right (by simp),
      fun k hk v hv j hj => (hI.next k hk v hv j hj).resolve_right (by simp), hI.get,
      fun P hroots hnext k hk => hI.least P hroots hnext k (.inl hk)⟩
  · exact ⟨fun k hk => .inr hk, by simp [KeyMap.empty], by simp [KeyMap.empty],
      fun P hroots _ k hk => hroots k (hk.resolve_left (by simp [KeyMap.empty]))⟩

theorem collect_ends (cut : ε) (related : ν → List κ) {all : List κ}
    (hall : ∀ k v, find k = some v → ∀ j ∈ related v, j ∈ all) :
    ∃ b, ∀ (w : Walks κ) n roots, (∀ k ∈ roots, k ∈ all) → b ≤ n →
      ∃ m, collect w cut find related n roots = .ok m := by
  refine ⟨left all (KeyMap.keys (ν := Option ν)) all .empty + 1, fun w n roots hroots hn => ?_⟩
  have hless : left all (KeyMap.keys (ν := Option ν)) roots .empty ≤
      left all (KeyMap.keys (ν := Option ν)) all .empty := by
    refine Nat.add_le_add_left (Finset.card_le_card fun k hk => ?_) _
    exact List.mem_toFinset.mpr (hroots k (List.mem_toFinset.mp hk))
  have hstep : ∀ k (m m' : KeyMap κ (Option ν)) more, k ∈ all →
      (lookUp find related k m : Except ε _) = .ok (some (m', more)) →
      (more = [] ∧ m'.keys = m.keys) ∨
        (k ∉ m.keys ∧ m'.keys = k :: m.keys ∧ ∀ j ∈ more, j ∈ all) := by
    intro k m m' more _ hv
    unfold lookUp at hv
    split at hv
    · cases hv
      exact .inl ⟨rfl, rfl⟩
    · rename_i hk
      cases hv
      refine .inr ⟨hk, if_neg hk, fun j hj => ?_⟩
      cases hfind : find k with
      | none => rw [hfind] at hj; cases hj
      | some v =>
        rw [hfind] at hj
        exact hall k v hfind j hj
  have hends : (∃ m, collect w cut find related n roots = .ok m) ∨
      ∃ k t e, lookUp find related k t = .error e ∧
        collect w cut find related n roots = .error e :=
    run_ends_of_seen KeyMap.keys hstep hroots (by omega)
  refine hends.resolve_right ?_
  rintro ⟨k, m, e, hv, _⟩
  unfold lookUp at hv
  split at hv <;> cases hv

end Collect

end Walks

/-! ## Lists that are compacted in place -/

namespace List

variable {α : Type}

/-- Walks a list by its index from `i` on. An element is written back, or it is removed and
the index stays where it is. -/
def compactFrom (visit : α → Option α) (i : Nat) (l : List α) : List α :=
  if h : i < l.length then
    match visit l[i] with
    | some a => compactFrom visit (i + 1) (l.set i a)
    | none => compactFrom visit i (l.eraseIdx i)
  else l
termination_by l.length - i
decreasing_by
  · rw [length_set]
    omega
  · rw [length_eraseIdx_of_lt h]
    omega

theorem compactFrom_append (visit : α → Option α) (done todo : List α) :
    (done ++ todo).compactFrom visit done.length = done ++ todo.filterMap visit := by
  induction todo generalizing done with
  | nil =>
    unfold compactFrom
    simp
  | cons a todo ih =>
    unfold compactFrom
    have hlt : done.length < (done ++ a :: todo).length := by simp
    rw [dif_pos hlt, getElem_append_right (Nat.le_refl _)]
    simp only [Nat.sub_self, getElem_cons_zero, filterMap_cons]
    cases visit a with
    | none =>
      rw [eraseIdx_append_of_length_le (Nat.le_refl _), Nat.sub_self, eraseIdx_cons_zero]
      exact ih done
    | some b =>
      dsimp only
      rw [set_append_right _ _ (Nat.le_refl _), Nat.sub_self, set_cons_zero]
      have hstep := ih (done ++ [b])
      rw [length_append, append_assoc, append_assoc] at hstep
      exact hstep

theorem compactFrom_zero (visit : α → Option α) (l : List α) :
    l.compactFrom visit 0 = l.filterMap visit := compactFrom_append visit [] l

end List
