-- A unique index beside a table. A row stands in the index under its entry,
-- and a write takes away the entry of the row it replaces and puts its own in
-- the place of whatever is there. So the index tells the rows only as long as
-- no two rows have the same entry.
import OpenGyoza.PrefixTree

namespace PrefixTree.Tree

open Memdb List

variable {σ ν : Type} [LinearOrder σ]

def remove (t : Tree σ ν) (path : List σ) : Tree σ ν := t.erase path

theorem lookup_remove (t : Tree σ ν) (path path' : List σ) :
    (t.remove path).lookup path' = if path' = path then none else t.lookup path' := by
  unfold lookup remove
  rw [Table.first_erase]
  split <;> rfl

/-- The value under the longest stored path on the way to a path. -/
def longestPrefix (t : Tree σ ν) (path : List σ) : Option ν := (t.onPath path).getLast?.map (·.2)

variable {t : Tree σ ν}

theorem longestPrefix_eq_none {path : List σ} (h : ∀ p, p <+: path → t.lookup p = none) :
    t.longestPrefix path = none := by
  have hnil : t.onPath path = [] := by
    rw [onPath_eq, filterMap_eq_nil_iff]
    intro p hp
    rw [h p ((mem_inits ..).mp hp)]
    rfl
  rw [longestPrefix, hnil]
  rfl

theorem onPath_of_longest {p path : List σ} (hp : p <+: path)
    (hlongest : ∀ p', p' <+: path → t.lookup p' ≠ none → p' <+: p) :
    t.onPath path = t.onPath p := by
  obtain ⟨rest, rfl⟩ := hp
  have hbehind : ∀ l ∈ rest.inits.tail, t.lookup (p ++ l) = none := by
    intro l hl
    by_contra hstored
    have hprefix : l <+: rest := (mem_inits ..).mp (mem_of_mem_tail hl)
    have hle := (hlongest _ ((prefix_append_right_inj p).mpr hprefix) hstored).length_le
    rw [length_append] at hle
    obtain rfl : l = [] := length_eq_zero_iff.mp (by omega)
    cases rest <;> simp at hl
  rw [onPath_eq, onPath_eq, inits_append, filterMap_append]
  have hnil : (rest.inits.tail.map fun l => p ++ l).filterMap
      (fun p => (t.lookup p).map fun v => (p, v)) = [] := by
    rw [filterMap_eq_nil_iff]
    intro q hq
    obtain ⟨l, hl, rfl⟩ := mem_map.mp hq
    rw [hbehind l hl]
    rfl
  rw [hnil, append_nil]

theorem longestPrefix_cases (t : Tree σ ν) (path : List σ) :
    (∀ p, p <+: path → t.lookup p = none) ∧ t.longestPrefix path = none ∨
    ∃ p v, p <+: path ∧ t.lookup p = some v ∧
      (∀ p', p' <+: path → t.lookup p' ≠ none → p' <+: p) ∧ t.longestPrefix path = some v := by
  by_cases hnone : ∀ p, p <+: path → t.lookup p = none
  · exact .inl ⟨hnone, longestPrefix_eq_none hnone⟩
  right
  push Not at hnone
  obtain ⟨p0, hp0, hstored0⟩ := hnone
  -- Of two beginnings of a path the longer one is at least as long and begins with the other.
  obtain ⟨p, hp, hmax⟩ := ((path.inits.toFinset.filter fun p => t.lookup p ≠ none)).exists_max_image
    length ⟨p0, by simp [hp0, hstored0]⟩
  simp only [Finset.mem_filter, mem_toFinset, mem_inits] at hp hmax
  obtain ⟨v, hv⟩ := Option.ne_none_iff_exists'.mp hp.2
  have hlongest : ∀ p', p' <+: path → t.lookup p' ≠ none → p' <+: p := fun p' hp' hstored =>
    prefix_of_prefix_length_le hp' hp.1 (hmax p' ⟨hp', hstored⟩)
  refine ⟨p, v, hp.1, hv, hlongest, ?_⟩
  rw [longestPrefix, onPath_of_longest hp.1 hlongest, onPath_eq_append, first_eq, hv]
  simp

end PrefixTree.Tree

namespace Memdb

open PrefixTree

variable {κ σ ν : Type} [LinearOrder κ] [LinearOrder σ] {key : ν → Except String κ}
  {entry : ν → Option (List σ)}

/-- The index without the entry of a row. -/
def unindex (entry : ν → Option (List σ)) (old : ν) (index : Tree σ ν) : Tree σ ν :=
  match entry old with
  | none => index
  | some path => index.remove path

/-- The index after a row was written in the place of `old`. -/
def reindex (entry : ν → Option (List σ)) (old : Option ν) (new : ν) (index : Tree σ ν) :
    Tree σ ν :=
  let index := (old.map fun row => unindex entry row index).getD index
  match entry new with
  | none => index
  | some path => index.insert path new

/-- The index holds the rows that have an entry, each under its own. -/
def IsIndex (entry : ν → Option (List σ)) (table : Table key) (index : Tree σ ν) : Prop :=
  ∀ path v, index.lookup path = some v ↔ v ∈ table.values ∧ entry v = some path

namespace IsIndex

variable {table : Table key} {index : Tree σ ν}

theorem empty : IsIndex entry (Table.empty : Table key) (Table.empty : Tree σ ν) := by
  intro path v
  simp

theorem unique (h : IsIndex entry table index) {v w : ν} {path : List σ} (hv : v ∈ table.values)
    (hw : w ∈ table.values) (hpath : entry v = some path) (hsame : entry w = some path) :
    v = w := by
  have hlookup := (h path v).mpr ⟨hv, hpath⟩
  rw [(h path w).mpr ⟨hw, hsame⟩] at hlookup
  exact (Option.some.inj hlookup).symm

theorem erase (h : IsIndex entry table index) {k : κ} {old : ν} (hold : table.first k = some old) :
    IsIndex entry (table.erase k) (unindex entry old index) := by
  have hkey := Table.key_of_first hold
  have hmem := Table.mem_values_of_first hold
  -- A row other than the old one has another key.
  have hother : ∀ {v}, v ∈ table.values → (key v ≠ .ok k ↔ v ≠ old) := by
    intro v hv
    constructor
    · rintro hne rfl
      exact hne hkey
    · intro hne hk
      rw [Table.first_of_mem hv hk] at hold
      exact hne (Option.some.inj hold)
  intro path v
  rw [Table.mem_values_erase]
  unfold unindex
  cases hentry : entry old with
  | none =>
    rw [h path v]
    constructor
    · rintro ⟨hv, hpath⟩
      refine ⟨⟨hv, (hother hv).mpr ?_⟩, hpath⟩
      rintro rfl
      rw [hentry] at hpath
      cases hpath
    · exact fun ⟨⟨hv, _⟩, hpath⟩ => ⟨hv, hpath⟩
  | some gone =>
    rw [Tree.lookup_remove]
    constructor
    · intro hlookup
      split at hlookup
      · cases hlookup
      · rename_i hne
        obtain ⟨hv, hpath⟩ := (h path v).mp hlookup
        refine ⟨⟨hv, (hother hv).mpr ?_⟩, hpath⟩
        rintro rfl
        exact hne (Option.some.inj (hpath.symm.trans hentry))
    · rintro ⟨⟨hv, hne⟩, hpath⟩
      have hgone : path ≠ gone := by
        rintro rfl
        exact (hother hv).mp hne (h.unique hv hmem hpath hentry)
      rw [if_neg hgone]
      exact (h path v).mpr ⟨hv, hpath⟩

theorem upsert (h : IsIndex entry table index) {k : κ} {new : ν} (hkey : key new = .ok k)
    (hfree : ∀ w ∈ table.values, ∀ path, entry new = some path → entry w = some path →
      key w = .ok k) :
    IsIndex entry (table.upsert new) (reindex entry (table.first k) new index) := by
  -- First the old row goes away.
  have herased : IsIndex entry (table.erase k)
      (((table.first k).map fun row => unindex entry row index).getD index) := by
    cases hold : table.first k with
    | none =>
      rw [Table.erase_of_first_none hold]
      exact h
    | some old => exact h.erase hold
  intro path v
  rw [Table.mem_values_upsert hkey, ← Table.mem_values_erase]
  unfold reindex
  cases hentry : entry new with
  | none =>
    rw [herased path v]
    constructor
    · exact fun ⟨hv, hpath⟩ => ⟨.inr hv, hpath⟩
    · rintro ⟨rfl | hv, hpath⟩
      · rw [hentry] at hpath
        cases hpath
      · exact ⟨hv, hpath⟩
  | some own =>
    rw [Tree.lookup_insert]
    split
    · rename_i hown
      subst hown
      constructor
      · intro hv
        obtain rfl := Option.some.inj hv
        exact ⟨.inl rfl, hentry⟩
      · rintro ⟨rfl | hv, hpath⟩
        · rfl
        · rw [Table.mem_values_erase] at hv
          exact absurd (hfree v hv.1 path hentry hpath) hv.2
    · rename_i hne
      rw [herased path v]
      constructor
      · exact fun ⟨hv, hpath⟩ => ⟨.inr hv, hpath⟩
      · rintro ⟨rfl | hv, hpath⟩
        · exact absurd (Option.some.inj (hpath.symm.trans hentry)) hne
        · exact ⟨hv, hpath⟩

end IsIndex

end Memdb
