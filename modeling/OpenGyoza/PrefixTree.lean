-- A tree of values under paths, of which only the map that it stands for is
-- kept. The walk along a path passes the values stored on the way to it,
-- shortest path first; the walk under a path passes the values below it.
import OpenGyoza.Table

namespace PrefixTree

open Memdb List

variable {σ ν β : Type} [LinearOrder σ]

/-- The path of an entry. -/
def pathOf (entry : List σ × ν) : Except String (List σ) := .ok entry.1

/-- Values under paths, no two of them under the same path. -/
abbrev Tree (σ ν : Type) [LinearOrder σ] := Table (pathOf : List σ × ν → Except String (List σ))

namespace Tree

def lookup (t : Tree σ ν) (path : List σ) : Option ν := (t.first path).map (·.2)

def insert (t : Tree σ ν) (path : List σ) (v : ν) : Tree σ ν := t.upsert (path, v)

/-- Passes entries until the visitor says stop. -/
def walk (visit : β → List σ → ν → β × Bool) : β → List (List σ × ν) → β
  | b, [] => b
  | b, (path, v) :: entries =>
    match visit b path v with
    | (b', true) => b'
    | (b', false) => walk visit b' entries

/-- The entries on the way to a path, shortest first. -/
def onPath (t : Tree σ ν) (path : List σ) : List (List σ × ν) := path.inits.filterMap t.first

def walkPath (t : Tree σ ν) (path : List σ) (visit : β → List σ → ν → β × Bool) (b : β) : β :=
  walk visit b (t.onPath path)

/-- The entries under a path, in the order of their paths. -/
def under (t : Tree σ ν) (path : List σ) : List (List σ × ν) :=
  Table.get t fun entry => path.isPrefixOf entry.1

def walkPrefix (t : Tree σ ν) (path : List σ) (visit : β → List σ → ν → β × Bool) (b : β) : β :=
  walk visit b (t.under path)

/-! ## Laws -/

theorem first_eq (t : Tree σ ν) (path : List σ) :
    t.first path = (t.lookup path).map fun v => (path, v) := by
  unfold lookup
  cases h : t.first path with
  | none => rfl
  | some entry =>
    have hpath : pathOf entry = .ok path := Table.key_of_first h
    obtain rfl : entry.1 = path := Except.ok.inj hpath
    rfl

theorem lookup_insert (t : Tree σ ν) (path : List σ) (v : ν) (path' : List σ) :
    (t.insert path v).lookup path' = if path' = path then some v else t.lookup path' := by
  have hkey : pathOf (path, v) = .ok path := rfl
  unfold lookup insert
  rw [Table.first_upsert hkey]
  split <;> rfl

@[simp] theorem lookup_empty (path : List σ) : Tree.lookup (Table.empty : Tree σ ν) path = none := rfl

theorem ext_lookup {s t : Tree σ ν} (h : ∀ path, s.lookup path = t.lookup path) : s = t :=
  Table.ext_first fun path => by rw [first_eq, first_eq, h]

theorem onPath_eq (t : Tree σ ν) (path : List σ) :
    t.onPath path = path.inits.filterMap fun p => (t.lookup p).map fun v => (p, v) := by
  exact congrArg (fun f => path.inits.filterMap f) (funext (first_eq t))

theorem onPath_eq_append (t : Tree σ ν) (path : List σ) :
    t.onPath path = path.inits.dropLast.filterMap t.first ++ (t.first path).toList := by
  have hne : path.inits ≠ [] := ne_nil_of_length_pos (by simp)
  have hlast : path.inits.getLast hne = path := by
    rw [getLast_eq_getElem, getElem_inits]
    simp
  unfold onPath
  conv_lhs => rw [← dropLast_append_getLast hne, hlast]
  rw [filterMap_append]
  cases h : t.first path <;> simp [h]

theorem ne_of_mem_dropLast {t : Tree σ ν} {path : List σ} {entry : List σ × ν}
    (h : entry ∈ path.inits.dropLast.filterMap t.first) : entry.1 ≠ path := by
  obtain ⟨p, hp, hfirst⟩ := mem_filterMap.mp h
  have hpath : pathOf entry = .ok p := Table.key_of_first hfirst
  obtain rfl : entry.1 = p := Except.ok.inj hpath
  obtain ⟨i, hi, hget⟩ := mem_iff_getElem.mp hp
  rw [length_dropLast, length_inits, Nat.add_sub_cancel] at hi
  rw [getElem_dropLast, getElem_inits] at hget
  intro heq
  have hlength := congrArg length (hget.trans heq)
  rw [length_take] at hlength
  omega

variable {visit : β → List σ → ν → β × Bool} {entries : List (List σ × ν)}

omit [LinearOrder σ] in
theorem walk_append (h : ∀ b, ∀ e ∈ entries, (visit b e.1 e.2).2 = false) (b : β)
    (rest : List (List σ × ν)) :
    walk visit b (entries ++ rest) =
      walk visit (entries.foldl (fun b e => (visit b e.1 e.2).1) b) rest := by
  induction entries generalizing b with
  | nil => rfl
  | cons e entries ih =>
    obtain ⟨path, v⟩ := e
    have hv := h b (path, v) mem_cons_self
    rcases hvisit : visit b path v with ⟨b', stop⟩
    simp only [hvisit] at hv
    subst hv
    rw [cons_append, walk, foldl_cons]
    simp only [hvisit]
    exact ih (fun b e he => h b e (mem_cons_of_mem _ he)) b'

omit [LinearOrder σ] in
theorem walk_eq_foldl (h : ∀ b, ∀ e ∈ entries, (visit b e.1 e.2).2 = false) (b : β) :
    walk visit b entries = entries.foldl (fun b e => (visit b e.1 e.2).1) b := by
  have happend := walk_append h b []
  rwa [append_nil] at happend

omit [LinearOrder σ] in
theorem walk_eq_any {visit : Bool → List σ → ν → Bool × Bool} (found : List σ → ν → Bool)
    (h : ∀ b path v, visit b path v = if found path v then (true, true) else (b, false))
    (entries : List (List σ × ν)) :
    walk visit false entries = entries.any fun e => found e.1 e.2 := by
  induction entries with
  | nil => rfl
  | cons e entries ih =>
    obtain ⟨path, v⟩ := e
    rw [walk, h, any_cons]
    cases found path v with
    | true => rfl
    | false => simpa using ih

end Tree

theorem foldl_or {α : Type} (f : α → Option β) (l : List α) (b : Option β) :
    l.foldl (fun b a => (f a).or b) b = (l.filterMap f).getLast?.or b := by
  induction l generalizing b with
  | nil => rfl
  | cons a l ih =>
    rw [foldl_cons, ih]
    cases h : f a with
    | none => simp [h]
    | some c => cases hl : l.filterMap f <;> simp [h, hl, getLast?_cons]

theorem foldl_getD {α : Type} (f : α → Option β) (l : List α) (b : β) :
    l.foldl (fun b a => (f a).getD b) b = (l.filterMap f).getLast?.getD b := by
  induction l using reverseRecOn with
  | nil => rfl
  | append_singleton l a ih =>
    rw [foldl_append, ih, filterMap_append]
    cases h : f a <;> simp [h]

end PrefixTree
