-- Copying the rows of one table to another one: the walk over two sorted
-- lists that finds what differs, the batches in which the changes are sent,
-- changes under a name that only one row may have, and when a plan of such
-- changes can be carried out.
import OpenGyoza.Table

namespace Replication

open List

/-! ## The walk over two sorted lists -/

/-- What has to be deleted on one side, and what has to be written there. -/
@[ext]
structure Diff (α β : Type) where
  deletes : List α
  updates : List β
deriving DecidableEq

section Walk

variable {α β κ : Type} [LinearOrder κ] (localKey : α → κ) (remoteKey : β → κ)
  (changed : α → β → Bool) (skipLocal : α → Bool) (skipRemote : β → Bool)

/-- The walk along the remote side, as far as the local item `l`. `next` goes on with the local
items `ls` after it. -/
def walkRemote (next : List β → Diff α β) (l : α) (ls : List α) : List β → Diff α β
  | [] => { deletes := (l :: ls).filter (!skipLocal ·), updates := [] }
  | r :: rs =>
    if skipLocal l then next (r :: rs)
    else if skipRemote r then walkRemote next l ls rs
    else if localKey l = remoteKey r then
      let rest := next rs
      if changed l r then { rest with updates := r :: rest.updates } else rest
    else if localKey l < remoteKey r then
      let rest := next (r :: rs)
      { rest with deletes := l :: rest.deletes }
    else
      let rest := walkRemote next l ls rs
      { rest with updates := r :: rest.updates }

/-- Compares two sorted lists. What only the local side has is deleted; what it lacks, or has
in another form, is written. -/
def walk : List α → List β → Diff α β
  | [], rs => { deletes := [], updates := rs.filter (!skipRemote ·) }
  | l :: ls, rs => walkRemote localKey remoteKey changed skipLocal skipRemote (walk ls) l ls rs

/-- The remote side has no item with the key of `l`. -/
def lacks (rs : List β) (l : α) : Bool :=
  rs.all fun r => skipRemote r || localKey l != remoteKey r

/-- Every local item with the key of `r` has another form. -/
def outdated (ls : List α) (r : β) : Bool :=
  ls.all fun l => skipLocal l || localKey l != remoteKey r || changed l r

variable {rs : List β} {ls : List α}

theorem lacks_of_lt {l : α} (h : ∀ r ∈ rs, skipRemote r = false → localKey l < remoteKey r) :
    lacks localKey remoteKey skipRemote rs l = true := by
  simp only [lacks, all_eq_true, Bool.or_eq_true, bne_iff_ne]
  intro r hr
  cases hskip : skipRemote r with
  | true => exact .inl rfl
  | false => exact .inr (h r hr hskip).ne

theorem outdated_of_lt {r : β} (h : ∀ l ∈ ls, skipLocal l = false → remoteKey r < localKey l) :
    outdated localKey remoteKey changed skipLocal ls r = true := by
  simp only [outdated, all_eq_true, Bool.or_eq_true, bne_iff_ne]
  intro l hl
  cases hskip : skipLocal l with
  | true => exact .inl (.inl rfl)
  | false => exact .inl (.inr (h l hl hskip).ne')

theorem filter_outdated_cons {l : α} (h : ∀ r ∈ rs, skipRemote r = false → localKey l ≠ remoteKey r)
    :
    rs.filter (fun r => !skipRemote r &&
        outdated localKey remoteKey changed skipLocal (l :: ls) r) =
      rs.filter fun r => !skipRemote r &&
        outdated localKey remoteKey changed skipLocal ls r := by
  refine filter_congr fun r hr => ?_
  cases hskip : skipRemote r with
  | true => rfl
  | false => simp [outdated, h r hr hskip]

theorem filter_lacks_cons {r : β} (h : ∀ l ∈ ls, skipLocal l = false → localKey l ≠ remoteKey r) :
    ls.filter (fun l => !skipLocal l && lacks localKey remoteKey skipRemote (r :: rs) l) =
      ls.filter fun l => !skipLocal l && lacks localKey remoteKey skipRemote rs l := by
  refine filter_congr fun l hl => ?_
  cases hskip : skipLocal l with
  | true => rfl
  | false => simp [lacks, h l hl hskip]

theorem walk_eq (hls : (ls.filter (!skipLocal ·)).Pairwise (localKey · < localKey ·))
    (hrs : (rs.filter (!skipRemote ·)).Pairwise (remoteKey · < remoteKey ·)) :
    walk localKey remoteKey changed skipLocal skipRemote ls rs =
      { deletes := ls.filter fun l => !skipLocal l && lacks localKey remoteKey skipRemote rs l
        updates := rs.filter fun r =>
          !skipRemote r && outdated localKey remoteKey changed skipLocal ls r } := by
  induction ls generalizing rs with
  | nil => simp [walk, outdated]
  | cons l ls ih =>
    induction rs with
    | nil => simp [walk, walkRemote, lacks]
    | cons r rs ihr =>
      simp only [walk, walkRemote] at ihr ⊢
      by_cases hsl : skipLocal l
      · have hls' : (ls.filter (!skipLocal ·)).Pairwise (localKey · < localKey ·) := by
          simpa [hsl] using hls
        simp [hsl, ih hls' hrs, outdated]
      by_cases hsr : skipRemote r
      · have hrs' : (rs.filter (!skipRemote ·)).Pairwise (remoteKey · < remoteKey ·) := by
          simpa [hsr] using hrs
        simp [hsl, hsr, ihr hrs', lacks]
      have hrs0 := hrs
      simp only [hsl, hsr, Bool.not_false, filter_cons_of_pos, pairwise_cons,
        mem_filter, and_imp, Bool.not_eq_true'] at hls hrs
      obtain ⟨hl, hls'⟩ := hls
      obtain ⟨hr, hrs'⟩ := hrs
      rcases lt_trichotomy (localKey l) (remoteKey r) with hlt | heq | hgt
      · -- Only the local side has `l`: all remote keys are above it.
        have habove : ∀ r' ∈ r :: rs, skipRemote r' = false → localKey l < remoteKey r' := by
          intro r' hr' hskip
          rcases mem_cons.mp hr' with rfl | hr'
          · exact hlt
          · exact hlt.trans (hr r' hr' hskip)
        simp only [hsl, hsr, hlt.ne, hlt, if_false, if_true, ih hls' hrs0, Bool.false_eq_true]
        rw [filter_outdated_cons _ _ _ _ _ fun r' hr' hskip => (habove r' hr' hskip).ne]
        simp [hsl, lacks_of_lt localKey remoteKey skipRemote habove]
      · have hlater : outdated localKey remoteKey changed skipLocal ls r = true :=
          outdated_of_lt _ _ _ _ fun l' hl' hskip => heq ▸ hl l' hl' hskip
        simp only [hsl, hsr, heq, if_false, if_true, ih hls' hrs', Bool.false_eq_true]
        rw [filter_cons, filter_cons,
          filter_outdated_cons _ _ _ _ _ fun r' hr' hskip => (heq.trans_lt (hr r' hr' hskip)).ne,
          filter_lacks_cons _ _ _ _ fun l' hl' hskip => (heq.symm.trans_lt (hl l' hl' hskip)).ne']
        have hhead : outdated localKey remoteKey changed skipLocal (l :: ls) r = changed l r := by
          simpa [outdated, hsl, heq] using fun _ => hlater
        have hkept : lacks localKey remoteKey skipRemote (r :: rs) l = false := by
          simp [lacks, hsr, heq]
        cases hc : changed l r <;> simp [hsl, hsr, hhead, hkept, hc]
      · -- The local side lacks `r`: all local keys are above it.
        have habove : ∀ l' ∈ l :: ls, skipLocal l' = false → remoteKey r < localKey l' := by
          intro l' hl' hskip
          rcases mem_cons.mp hl' with rfl | hl'
          · exact hgt
          · exact hgt.trans (hl l' hl' hskip)
        simp only [hsl, hsr, hgt.ne', hgt.not_gt, if_false, ihr hrs', Bool.false_eq_true]
        rw [filter_lacks_cons _ _ _ _ fun l' hl' hskip => (habove l' hl' hskip).ne']
        simp [hsr, outdated_of_lt localKey remoteKey changed skipLocal habove]

end Walk

/-! ## Batches -/

section Batches

variable {α : Type}

def batchLoop (size : α → Nat) (limit : Nat) : List α → Nat → List α → List (List α)
  | [], _, batch => if batch.isEmpty then [] else [batch.reverse]
  | x :: xs, n, batch =>
    if n < limit then batchLoop size limit xs (n + size x) (x :: batch)
    else batch.reverse :: batchLoop size limit xs (size x) [x]

def batches (size : α → Nat) (limit : Nat) (l : List α) : List (List α) :=
  batchLoop size limit l 0 []

theorem flatten_batchLoop (size : α → Nat) (limit : Nat) (l : List α) (n : Nat)
    (batch : List α) : (batchLoop size limit l n batch).flatten = batch.reverse ++ l := by
  induction l generalizing n batch with
  | nil => cases batch <;> simp [batchLoop]
  | cons x xs ih =>
    unfold batchLoop
    split
    · simp [ih]
    · simp [ih]

theorem flatten_batches (size : α → Nat) (limit : Nat) (l : List α) :
    (batches size limit l).flatten = l := by
  simp [batches, flatten_batchLoop]

end Batches

/-! ## Changes under unique names -/

/-- A row as others see it: its ID, a name that no other row may have, and what it holds. -/
structure Item (ι ν η : Type) where
  id : ι
  name : Option ν
  content : η

inductive Edit (ι ν η : Type) where
  | remove (id : ι)
  | write (item : Item ι ν η)

section Edits

variable {ι κ ν η : Type} [DecidableEq κ] (key : ι → κ)
  (ok : Option (Item ι ν η) → Item ι ν η → Prop)

/-- Rows by their keys. IDs that differ may have one key. -/
abbrev Rows (κ ι ν η : Type) := κ → Option (Item ι ν η)

/-- Every row stands under the key of its ID, and no two rows have one name. -/
structure Proper (m : Rows κ ι ν η) : Prop where
  keyed : ∀ k y, m k = some y → key y.id = k
  unique : ∀ j k y z, m j = some y → m k = some z → y.name = z.name → y.name ≠ none → j = k

def Edit.apply (m : Rows κ ι ν η) : Edit ι ν η → Rows κ ι ν η
  | remove id => Function.update m (key id) none
  | write x => Function.update m (key x.id) (some x)

/-- No row with another ID has the name of the item. -/
def Free (m : Rows κ ι ν η) (x : Item ι ν η) : Prop :=
  ∀ k y, m k = some y → y.name = x.name → x.name ≠ none → y.id = x.id

/-- A row can be removed. It can be written when its name is free and `ok` holds of the row
that it replaces. -/
def Edit.Allowed (m : Rows κ ι ν η) : Edit ι ν η → Prop
  | remove _ => True
  | write x => Free m x ∧ ok (m (key x.id)) x

def applyAll (m : Rows κ ι ν η) (es : List (Edit ι ν η)) : Rows κ ι ν η :=
  es.foldl (Edit.apply key) m

/-- Each of the changes is allowed after those before it. -/
def Admits : Rows κ ι ν η → List (Edit ι ν η) → Prop
  | _, [] => True
  | m, e :: es => e.Allowed key ok m ∧ Admits (e.apply key m) es

/-- Whoever has the name of an item to be written is written before it. -/
def Handed (m : Rows κ ι ν η) (xs : List (Item ι ν η)) : Prop :=
  ∀ pre x post, xs = pre ++ x :: post → ∀ k y, m k = some y → y.name = x.name →
    x.name ≠ none → y.id = x.id ∨ ∃ z ∈ pre, key z.id = k

variable {key ok} {m : Rows κ ι ν η}

theorem Proper.apply (h : Proper key m) {e : Edit ι ν η} (ha : e.Allowed key ok m) :
    Proper key (e.apply key m) := by
  cases e with
  | remove id =>
    have hsub : ∀ k y, (Edit.remove id).apply key m k = some y → m k = some y := by
      intro k y hk
      by_cases heq : k = key id
      · subst heq
        simp [Edit.apply] at hk
      · simpa [Edit.apply, heq] using hk
    exact ⟨fun k y hk => h.keyed k y (hsub k y hk),
      fun j k y z hj hk => h.unique j k y z (hsub j y hj) (hsub k z hk)⟩
  | write x =>
    have hcases : ∀ k y, (Edit.write x).apply key m k = some y →
        (k = key x.id ∧ y = x) ∨ (k ≠ key x.id ∧ m k = some y) := by
      intro k y hk
      by_cases heq : k = key x.id
      · subst heq
        simp only [Edit.apply, Function.update_self, Option.some.injEq] at hk
        exact .inl ⟨rfl, hk.symm⟩
      · exact .inr ⟨heq, by simpa [Edit.apply, heq] using hk⟩
    -- A row that has the name of the new one has its ID, and so its key.
    have hheld : ∀ k y, m k = some y → y.name = x.name → x.name ≠ none → k = key x.id := by
      intro k y hk hname hne
      rw [← h.keyed k y hk, ha.1 k y hk hname hne]
    constructor
    · intro k y hk
      rcases hcases k y hk with ⟨rfl, rfl⟩ | ⟨-, hm⟩
      · rfl
      · exact h.keyed k y hm
    · intro j k y z hj hk hname hne
      rcases hcases j y hj with ⟨rfl, rfl⟩ | ⟨hjne, hmj⟩
      · rcases hcases k z hk with ⟨rfl, rfl⟩ | ⟨-, hmk⟩
        · rfl
        · exact (hheld k z hmk hname.symm hne).symm
      · rcases hcases k z hk with ⟨rfl, rfl⟩ | ⟨-, hmk⟩
        · exact hheld j y hmj hname (hname ▸ hne)
        · exact h.unique j k y z hmj hmk hname hne

theorem admits_append {es fs : List (Edit ι ν η)} :
    Admits key ok m (es ++ fs) ↔ Admits key ok m es ∧ Admits key ok (applyAll key m es) fs := by
  induction es generalizing m with
  | nil => simp [Admits, applyAll]
  | cons e es ih =>
    simp only [cons_append, Admits, ih, applyAll, foldl_cons]
    tauto

theorem applyAll_append (m : Rows κ ι ν η) (es fs : List (Edit ι ν η)) :
    applyAll key m (es ++ fs) = applyAll key (applyAll key m es) fs := foldl_append

theorem Admits.proper {es : List (Edit ι ν η)} (ha : Admits key ok m es) (h : Proper key m) :
    Proper key (applyAll key m es) := by
  induction es generalizing m with
  | nil => exact h
  | cons e es ih => exact ih ha.2 (h.apply ha.1)

/-! ## Removals, then writes -/

theorem admits_removes (m : Rows κ ι ν η) (ids : List ι) : Admits key ok m (ids.map .remove) := by
  induction ids generalizing m with
  | nil => trivial
  | cons id ids ih => exact ⟨trivial, ih _⟩

theorem applyAll_removes (m : Rows κ ι ν η) (ids : List ι) (k : κ) :
    applyAll key m (ids.map .remove) k = if k ∈ ids.map key then none else m k := by
  induction ids generalizing m with
  | nil => simp [applyAll]
  | cons id ids ih =>
    have hcons : applyAll key m ((id :: ids).map .remove) =
        applyAll key ((Edit.remove id).apply key m) (ids.map .remove) := rfl
    rw [hcons, ih]
    by_cases heq : k = key id <;> simp [Edit.apply, heq]

variable {xs : List (Item ι ν η)}

theorem applyAll_writes_of_not_mem (m : Rows κ ι ν η) {k : κ} (h : ∀ x ∈ xs, key x.id ≠ k) :
    applyAll key m (xs.map .write) k = m k := by
  induction xs generalizing m with
  | nil => rfl
  | cons x xs ih =>
    have hcons : applyAll key m ((x :: xs).map .write) =
        applyAll key ((Edit.write x).apply key m) (xs.map .write) := rfl
    have hne : k ≠ key x.id := (h x mem_cons_self).symm
    rw [hcons, ih _ fun y hy => h y (mem_cons_of_mem _ hy)]
    simp [Edit.apply, hne]

theorem applyAll_writes_of_mem (m : Rows κ ι ν η) (hxs : xs.Pairwise fun x y => key x.id ≠ key y.id)
    {x : Item ι ν η} (h : x ∈ xs) : applyAll key m (xs.map .write) (key x.id) = some x := by
  induction xs generalizing m with
  | nil => simp at h
  | cons y ys ih =>
    obtain ⟨hy, hys⟩ := pairwise_cons.mp hxs
    rcases mem_cons.mp h with rfl | hmem
    · exact (applyAll_writes_of_not_mem _ fun z hz => (hy z hz).symm).trans (by simp [Edit.apply])
    · exact ih _ hys hmem

theorem handed_cons {x : Item ι ν η} (hx : ∀ y ∈ xs, x.name = y.name → x.name = none) :
    Handed key m (x :: xs) ↔ Free m x ∧ Handed key ((Edit.write x).apply key m) xs := by
  constructor
  · intro h
    refine ⟨fun k y hk hname hne => ?_, fun pre x' post heq k y hk hname hne => ?_⟩
    · rcases h [] x xs rfl k y hk hname hne with hid | ⟨z, hz, -⟩
      · exact hid
      · simp at hz
    · have hmem : x' ∈ xs := heq ▸ mem_append_right _ mem_cons_self
      by_cases hkey : k = key x.id
      · -- The row is the one just written, whose name is another one.
        subst hkey
        simp only [Edit.apply, Function.update_self, Option.some.injEq] at hk
        subst hk
        exact absurd (hname ▸ hx x' hmem hname) hne
      · have hk' : m k = some y := by simpa [Edit.apply, hkey] using hk
        rcases h (x :: pre) x' post (by rw [heq]; rfl) k y hk' hname hne with hid | ⟨z, hz, hzk⟩
        · exact .inl hid
        · rcases mem_cons.mp hz with rfl | hz
          · exact absurd hzk.symm hkey
          · exact .inr ⟨z, hz, hzk⟩
  · rintro ⟨hfree, hlater⟩ pre x' post heq k y hk hname hne
    cases pre with
    | nil =>
      obtain ⟨rfl, -⟩ := cons_eq_cons.mp heq
      exact .inl (hfree k y hk hname hne)
    | cons p pre =>
      obtain ⟨rfl, htail⟩ := cons_eq_cons.mp heq
      by_cases hkey : key x.id = k
      · exact .inr ⟨x, mem_cons_self, hkey⟩
      · have hk' : (Edit.write x).apply key m k = some y := by
          simpa [Edit.apply, Ne.symm hkey] using hk
        rcases hlater pre x' post htail k y hk' hname hne with hid | ⟨z, hz, hzk⟩
        · exact .inl hid
        · exact .inr ⟨z, mem_cons_of_mem _ hz, hzk⟩

theorem admits_writes_iff (hkeys : xs.Pairwise fun x y => key x.id ≠ key y.id)
    (hnames : xs.Pairwise fun x y => x.name = y.name → x.name = none) :
    Admits key ok m (xs.map .write) ↔ Handed key m xs ∧ ∀ x ∈ xs, ok (m (key x.id)) x := by
  induction xs generalizing m with
  | nil => simp [Admits, Handed]
  | cons x xs ih =>
    obtain ⟨hx, hrest⟩ := pairwise_cons.mp hnames
    obtain ⟨hxkey, hrestkeys⟩ := pairwise_cons.mp hkeys
    have hsame : ∀ y ∈ xs, (Edit.write x).apply key m (key y.id) = m (key y.id) := fun y hy => by
      simp [Edit.apply, (hxkey y hy).symm]
    have hoks : (∀ y ∈ xs, ok ((Edit.write x).apply key m (key y.id)) y) ↔
        ∀ y ∈ xs, ok (m (key y.id)) y :=
      forall₂_congr fun y hy => by rw [hsame y hy]
    simp only [map_cons, Admits, Edit.Allowed, ih hrestkeys hrest, hoks,
      forall_mem_cons, handed_cons hx]
    tauto

end Edits

/-! ## A plan for all changes -/

section Plans

variable {ι κ ν η γ : Type} (key : ι → κ)
  (ok : Option (Item ι ν η) → Item ι ν η → Prop) (hash : η → γ)

/-- No row with the ID of `x` has its content. -/
def Stale (m : Rows κ ι ν η) (x : Item ι ν η) : Prop :=
  ∀ k y, m k = some y → y.id = x.id → hash y.content ≠ hash x.content

structure Plan (m : Rows κ ι ν η) (remotes : List (Item ι ν η)) (deletes : List ι)
    (updates : List (Item ι ν η)) : Prop where
  keyed : ∀ k y, m k = some y → key y.id = k
  keys : remotes.Pairwise fun x y => key x.id ≠ key y.id
  mem_deletes : ∀ id, id ∈ deletes ↔ (∃ k y, m k = some y ∧ y.id = id) ∧ ∀ z ∈ remotes, z.id ≠ id
  updates_eq : ∃ stale : Item ι ν η → Bool, updates = remotes.filter stale ∧
    ∀ x ∈ remotes, stale x = true ↔ Stale hash m x

def HandsOver (m : Rows κ ι ν η) (remotes : List (Item ι ν η)) : Prop :=
  ∀ pre x post, remotes = pre ++ x :: post → Stale hash m x → ∀ k y, m k = some y →
    y.name = x.name → x.name ≠ none → y.id = x.id ∨ (∀ z ∈ remotes, z.id ≠ y.id) ∨
      ∃ z ∈ pre, z.id = y.id ∧ hash z.content ≠ hash y.content

namespace Plan

variable {key ok hash} {m : Rows κ ι ν η} {remotes updates : List (Item ι ν η)} {deletes : List ι}

section

variable (h : Plan key hash m remotes deletes updates)

include h

variable {x y : Item ι ν η} {k : κ}

theorem item_eq_of_key (hx : x ∈ remotes) (hy : y ∈ remotes) (hkey : key x.id = key y.id) :
    x = y := by
  by_contra hne
  have : Std.Symm (fun x y : Item ι ν η => key x.id ≠ key y.id) := ⟨fun _ _ h => h.symm⟩
  exact h.keys.forall hx hy hne hkey

theorem row_eq_of_id {j : κ} {z : Item ι ν η} (hy : m j = some y) (hz : m k = some z)
    (hid : y.id = z.id) : y = z := by
  have hjk : j = k := by rw [← h.keyed j y hy, ← h.keyed k z hz, hid]
  subst hjk
  exact Option.some.inj (hy.symm.trans hz)

theorem stale_iff (hy : m k = some y) (hid : y.id = x.id) :
    Stale hash m x ↔ hash y.content ≠ hash x.content := by
  constructor
  · exact fun hs => hs k y hy hid
  · intro hne j z hz hzid
    rwa [h.row_eq_of_id hz hy (hzid.trans hid.symm)]

theorem mem_updates : x ∈ updates ↔ x ∈ remotes ∧ Stale hash m x := by
  obtain ⟨stale, rfl, hstale⟩ := h.updates_eq
  rw [mem_filter]
  exact and_congr_right fun hx => hstale x hx

theorem updates_keys : updates.Pairwise fun x y => key x.id ≠ key y.id := by
  obtain ⟨stale, rfl, -⟩ := h.updates_eq
  exact h.keys.filter _

variable [DecidableEq κ]

theorem left_eq_some :
    applyAll key m (deletes.map .remove) k = some y ↔
      m k = some y ∧ ∃ z ∈ remotes, z.id = y.id := by
  rw [applyAll_removes]
  constructor
  · intro hk
    split at hk
    · cases hk
    · rename_i hkept
      refine ⟨hk, ?_⟩
      by_contra hgone
      refine hkept (mem_map.mpr ⟨y.id, (h.mem_deletes y.id).mpr ⟨⟨k, y, hk, rfl⟩, ?_⟩,
        h.keyed k y hk⟩)
      exact fun z hz heq => hgone ⟨z, hz, heq⟩
  · rintro ⟨hk, z, hz, hid⟩
    rw [if_neg]
    · exact hk
    · intro hmem
      obtain ⟨id, hdel, hidk⟩ := mem_map.mp hmem
      obtain ⟨⟨j, w, hw, rfl⟩, hgone⟩ := (h.mem_deletes id).mp hdel
      have hjk : j = k := (h.keyed j w hw).symm.trans hidk
      subst hjk
      obtain rfl := Option.some.inj (hw.symm.trans hk)
      exact hgone z hz hid

theorem handed_iff :
    Handed key (applyAll key m (deletes.map .remove)) updates ↔ HandsOver hash m remotes := by
  obtain ⟨stale, heq, hstale⟩ := h.updates_eq
  subst heq
  constructor
  · intro hh pre x post heq hx k y hk hname hne
    by_cases hgone : ∀ z ∈ remotes, z.id ≠ y.id
    · exact .inr (.inl hgone)
    push Not at hgone
    obtain ⟨w, hw, hwy⟩ := hgone
    have hxmem : x ∈ remotes := heq ▸ mem_append_right _ mem_cons_self
    have hsplit : remotes.filter stale = pre.filter stale ++ x :: post.filter stale := by
      rw [heq, filter_append, filter_cons_of_pos ((hstale x hxmem).mpr hx)]
    rcases hh _ _ _ hsplit k y (h.left_eq_some.mpr ⟨hk, w, hw, hwy⟩) hname hne with
      hid | ⟨z, hz, hzk⟩
    · exact .inl hid
    · obtain ⟨hzpre, hzstale⟩ := mem_filter.mp hz
      have hzmem : z ∈ remotes := heq ▸ mem_append_left _ hzpre
      have hzw : z = w := h.item_eq_of_key hzmem hw (by rw [hzk, hwy, h.keyed k y hk])
      subst hzw
      exact .inr (.inr ⟨z, hzpre, hwy,
        ((h.stale_iff hk hwy.symm).mp ((hstale z hzmem).mp hzstale)).symm⟩)
  · intro hh pre x post heq k y hk hname hne
    obtain ⟨hk, w, hw, hwy⟩ := h.left_eq_some.mp hk
    obtain ⟨l1, l2, hremotes, rfl, hl2⟩ := filter_eq_append_iff.mp heq
    obtain ⟨l3, l4, rfl, hl3, hx, rfl⟩ := filter_eq_cons_iff.mp hl2
    rw [← append_assoc] at hremotes
    have hmem : ∀ z ∈ l1 ++ l3, z ∈ remotes := fun z hz => hremotes ▸ mem_append_left _ hz
    have hxmem : x ∈ remotes := hremotes ▸ mem_append_right _ mem_cons_self
    rcases hh (l1 ++ l3) x l4 hremotes ((hstale x hxmem).mp hx) k y hk hname hne with
      hid | hgone | ⟨z, hz, hzy, hhash⟩
    · exact .inl hid
    · exact absurd hwy (hgone w hw)
    · have hzstale := (hstale z (hmem z hz)).mpr ((h.stale_iff hk hzy.symm).mpr hhash.symm)
      rcases mem_append.mp hz with hz | hz
      · exact .inr ⟨z, mem_filter.mpr ⟨hz, hzstale⟩, by rw [hzy, h.keyed k y hk]⟩
      · exact absurd hzstale (hl3 z hz)

theorem admits_iff (hnames : remotes.Pairwise fun x y => x.name = y.name → x.name = none)
    (hnew : ∀ x, ok none x) :
    Admits key ok m (deletes.map .remove ++ updates.map .write) ↔
      HandsOver hash m remotes ∧ ∀ x ∈ remotes, Stale hash m x → ∀ k y, m k = some y →
        y.id = x.id → ok (some y) x := by
  have hnames' : updates.Pairwise fun x y => x.name = y.name → x.name = none := by
    obtain ⟨stale, rfl, -⟩ := h.updates_eq
    exact hnames.filter _
  rw [admits_append, and_iff_right (admits_removes _ _), admits_writes_iff h.updates_keys hnames',
    h.handed_iff]
  refine and_congr_right fun _ => ?_
  constructor
  · intro hok x hx hs k y hk hid
    have hleft := h.left_eq_some.mpr ⟨hk, x, hx, hid.symm⟩
    have hokx := hok x (h.mem_updates.mpr ⟨hx, hs⟩)
    rwa [← hid, h.keyed k y hk, hleft] at hokx
  · intro hok x hx
    obtain ⟨hx, hs⟩ := h.mem_updates.mp hx
    cases hleft : applyAll key m (deletes.map .remove) (key x.id) with
    | none => exact hnew x
    | some y =>
      obtain ⟨hk, z, hz, hzy⟩ := h.left_eq_some.mp hleft
      have hzx : z = x := h.item_eq_of_key hz hx (by rw [hzy, h.keyed _ y hk])
      exact hok x hx hs _ y hk (by rw [← hzy, hzx])

theorem same (id : ι) (c : γ) :
    (∃ k y, applyAll key m (deletes.map .remove ++ updates.map .write) k = some y ∧ y.id = id ∧
      hash y.content = c) ↔ ∃ x ∈ remotes, x.id = id ∧ hash x.content = c := by
  rw [applyAll_append]
  constructor
  · rintro ⟨k, y, hk, rfl, rfl⟩
    by_cases hwritten : ∃ u ∈ updates, key u.id = k
    · obtain ⟨u, hu, rfl⟩ := hwritten
      rw [applyAll_writes_of_mem _ h.updates_keys hu] at hk
      obtain rfl := Option.some.inj hk
      exact ⟨u, (h.mem_updates.mp hu).1, rfl, rfl⟩
    · rw [applyAll_writes_of_not_mem _ fun u hu huk => hwritten ⟨u, hu, huk⟩] at hk
      obtain ⟨hk, z, hz, hzy⟩ := h.left_eq_some.mp hk
      refine ⟨z, hz, hzy, ?_⟩
      by_contra hne
      refine hwritten ⟨z, h.mem_updates.mpr ⟨hz, ?_⟩, by rw [hzy, h.keyed k y hk]⟩
      exact (h.stale_iff hk hzy.symm).mpr fun heq => hne heq.symm
  · rintro ⟨x, hx, rfl, rfl⟩
    by_cases hs : Stale hash m x
    · exact ⟨key x.id, x, applyAll_writes_of_mem _ h.updates_keys (h.mem_updates.mpr ⟨hx, hs⟩),
        rfl, rfl⟩
    · have hkept := hs
      unfold Stale at hkept
      push Not at hkept
      obtain ⟨k, y, hk, hid, hhash⟩ := hkept
      refine ⟨k, y, ?_, hid, hhash⟩
      rw [applyAll_writes_of_not_mem]
      · exact h.left_eq_some.mpr ⟨hk, x, hx, hid.symm⟩
      · intro u hu huk
        obtain ⟨hu, hus⟩ := h.mem_updates.mp hu
        have hux : u = x := h.item_eq_of_key hu hx (by rw [huk, ← hid, h.keyed k y hk])
        exact hs (hux ▸ hus)

end

end Plan

theorem handsOver_iff_of_sorted [LinearOrder ι] {hash : η → γ} {m : Rows κ ι ν η}
    {remotes : List (Item ι ν η)} (hsorted : remotes.Pairwise fun x y => x.id < y.id) :
    HandsOver hash m remotes ↔ ∀ x ∈ remotes, Stale hash m x → ∀ k y, m k = some y →
      y.name = x.name → x.name ≠ none → y.id = x.id ∨
        ∀ z ∈ remotes, z.id = y.id → z.id < x.id ∧ hash z.content ≠ hash y.content := by
  constructor
  · intro h x hx hs k y hk hname hne
    obtain ⟨pre, post, heq⟩ := append_of_mem hx
    rcases h pre x post heq hs k y hk hname hne with hid | hgone | ⟨z, hz, hzy, hhash⟩
    · exact .inl hid
    · exact .inr fun z hz hzy => absurd hzy (hgone z hz)
    · refine .inr fun w hw hwy => ?_
      have hzw : w = z := by
        by_contra hwz
        have hids : remotes.Pairwise fun a b => a.id ≠ b.id := hsorted.imp fun h => ne_of_lt h
        have : Std.Symm (fun a b : Item ι ν η => a.id ≠ b.id) := ⟨fun _ _ h => h.symm⟩
        exact hids.forall hw (heq ▸ mem_append_left _ hz) hwz (hwy.trans hzy.symm)
      subst hzw
      rw [heq, pairwise_append] at hsorted
      exact ⟨hsorted.2.2 w hz x mem_cons_self, hhash⟩
  · intro h pre x post heq hs k y hk hname hne
    have hx : x ∈ remotes := heq ▸ mem_append_right _ mem_cons_self
    rcases h x hx hs k y hk hname hne with hid | hlater
    · exact .inl hid
    · by_cases hgone : ∀ z ∈ remotes, z.id ≠ y.id
      · exact .inr (.inl hgone)
      · push Not at hgone
        obtain ⟨z, hz, hzy⟩ := hgone
        obtain ⟨hlt, hhash⟩ := hlater z hz hzy
        refine .inr (.inr ⟨z, ?_, hzy, hhash⟩)
        -- An item with a smaller ID stands before `x`.
        rw [heq] at hz hsorted
        rcases mem_append.mp hz with hz | hz
        · exact hz
        · obtain ⟨hafter, -⟩ := pairwise_cons.mp (pairwise_append.mp hsorted).2.1
          rcases mem_cons.mp hz with rfl | hz
          · exact absurd hlt (lt_irrefl _)
          · exact absurd (hafter z hz) hlt.not_gt

end Plans

/-! ## The rows of a table -/

section Tables

open Memdb

variable {ι κ ν η ρ : Type} [LinearOrder κ] {tkey : ρ → Except String κ} {key : ι → κ}
  (item : ρ → Item ι ν η) {t : Table tkey} {P : Item ι ν η → Prop}

/-- The rows of a table as items. -/
def itemsOf (t : Table tkey) : Rows κ ι ν η := fun k => (t.first k).map item

variable {item} {k : κ}

theorem itemsOf_eq_some {i : Item ι ν η} :
    itemsOf item t k = some i ↔ ∃ v, t.first k = some v ∧ item v = i := by
  simp [itemsOf]

theorem exists_itemsOf : (∃ k i, itemsOf item t k = some i ∧ P i) ↔ ∃ v ∈ t.values, P (item v) := by
  constructor
  · rintro ⟨k, i, hk, hP⟩
    obtain ⟨v, hv, rfl⟩ := itemsOf_eq_some.mp hk
    exact ⟨v, Table.mem_values_of_first hv, hP⟩
  · rintro ⟨v, hv, hP⟩
    obtain ⟨k, hk⟩ := Table.mem_values.mp hv
    exact ⟨k, item v, itemsOf_eq_some.mpr ⟨v, hk, rfl⟩, hP⟩

theorem forall_itemsOf : (∀ k i, itemsOf item t k = some i → P i) ↔ ∀ v ∈ t.values, P (item v) := by
  constructor
  · intro hall v hv
    obtain ⟨k, hk⟩ := Table.mem_values.mp hv
    exact hall k (item v) (itemsOf_eq_some.mpr ⟨v, hk, rfl⟩)
  · intro hall k i hk
    obtain ⟨v, hv, rfl⟩ := itemsOf_eq_some.mp hk
    exact hall v (Table.mem_values_of_first hv)

section Keyed

variable (hkey : ∀ v k, tkey v = .ok k → key (item v).id = k)

include hkey

theorem keyed_itemsOf {i : Item ι ν η} (h : itemsOf item t k = some i) : key i.id = k := by
  obtain ⟨v, hv, rfl⟩ := itemsOf_eq_some.mp h
  exact hkey v k (Table.key_of_first hv)

theorem proper_itemsOf (h : ∀ v ∈ t.values, ∀ w ∈ t.values, (item v).name = (item w).name →
    (item v).name ≠ none → v = w) : Proper key (itemsOf item t) where
  keyed k i hk := keyed_itemsOf hkey hk
  unique j k i i' hj hk hname hne := by
    obtain ⟨v, hv, rfl⟩ := itemsOf_eq_some.mp hj
    obtain ⟨w, hw, rfl⟩ := itemsOf_eq_some.mp hk
    have hvw := h v (Table.mem_values_of_first hv) w (Table.mem_values_of_first hw) hname hne
    subst hvw
    exact Except.ok.inj ((Table.key_of_first hv).symm.trans (Table.key_of_first hw))

variable {v : ρ}

theorem first_of_id (h : v ∈ t.values) : t.first (key (item v).id) = some v := by
  obtain ⟨k, hk⟩ := Table.mem_values.mp h
  rwa [hkey v k (Table.key_of_first hk)]

theorem row_eq_of_key {w : ρ} (hv : v ∈ t.values) (hw : w ∈ t.values)
    (h : key (item v).id = key (item w).id) : v = w := by
  have hfirst := first_of_id hkey hv
  rw [h, first_of_id hkey hw] at hfirst
  exact (Option.some.inj hfirst).symm

theorem values_keys_pairwise (t : Table tkey) :
    t.values.Pairwise fun v w => key (item v).id ≠ key (item w).id := by
  refine Pairwise.imp_of_mem (fun {v w} hv hw hne heq => hne ?_) t.values_pairwise
  rw [row_eq_of_key hkey hv hw heq]

theorem itemsOf_upsert [DecidableEq κ] (hk : tkey v = .ok k) :
    itemsOf item (t.upsert v) = (Edit.write (item v)).apply key (itemsOf item t) := by
  funext j
  simp only [itemsOf, Table.first_upsert hk, Edit.apply, hkey v k hk]
  by_cases hj : j = k <;> simp [hj, itemsOf]

end Keyed

theorem itemsOf_erase [DecidableEq κ] {id : ι} (hid : key id = k) :
    itemsOf item (t.erase k) = (Edit.remove id).apply key (itemsOf item t) := by
  funext j
  simp only [itemsOf, Table.first_erase, Edit.apply, hid]
  by_cases hj : j = k <;> simp [hj, itemsOf]

theorem itemsOf_of_first_none [DecidableEq κ] {id : ι} (hid : key id = k) (h : t.first k = none) :
    itemsOf item t = (Edit.remove id).apply key (itemsOf item t) := by
  rw [← itemsOf_erase hid, Table.erase_of_first_none h]

theorem free_itemsOf_iff (hs : Proper key (itemsOf item t)) {x : Item ι ν η} {p : ρ → Bool}
    (hp : ∀ v, p v = true ↔ (item v).name = x.name) (hx : x.name ≠ none) :
    Free (itemsOf item t) x ↔ ∀ dup, t.values.find? p = some dup → (item dup).id = x.id := by
  constructor
  · intro hfree dup hdup
    obtain ⟨k, hk⟩ := Table.mem_values.mp (mem_of_find?_eq_some hdup)
    exact hfree k (item dup) (itemsOf_eq_some.mpr ⟨dup, hk, rfl⟩)
      ((hp dup).mp (find?_some hdup)) hx
  · intro h k i hk hname _
    obtain ⟨v, hv, rfl⟩ := itemsOf_eq_some.mp hk
    cases hdup : t.values.find? p with
    | none =>
      rw [find?_eq_none] at hdup
      exact absurd ((hp v).mpr hname) (hdup v (Table.mem_values_of_first hv))
    | some dup =>
      -- The row found and this one have one name, so they are the same.
      have hdname := (hp dup).mp (find?_some hdup)
      obtain ⟨j, hj⟩ := Table.mem_values.mp (mem_of_find?_eq_some hdup)
      have hjk : j = k := hs.unique j k (item dup) (item v) (itemsOf_eq_some.mpr ⟨dup, hj, rfl⟩)
        hk (hdname.trans hname.symm) (fun hnone => hx (hdname.symm.trans hnone))
      subst hjk
      obtain rfl : dup = v := Option.some.inj (hj.symm.trans hv)
      exact h dup hdup

end Tables

end Replication
