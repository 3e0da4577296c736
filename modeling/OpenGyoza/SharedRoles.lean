-- Roles are shared: all tokens that link to a role get the same pointers to
-- its service identities. The identities of a token and its roles are merged
-- in place, which can widen the scope of a role for all other tokens. What
-- the policies of a token are depends on the tokens resolved before it only
-- through that.
import OpenGyoza.LinkLookups

namespace OpenGyoza

open Memdb Fallible List Linkable IdentityHeap ACLPolicy

/-! ## Scopes -/

/-- The datacenters of a scope. An empty list stands for all of them. -/
def scopeOf (datacenters : List String) : Set String := {dc | datacenters = [] ∨ dc ∈ datacenters}

theorem mem_scopeOf {l : List String} {dc : String} : dc ∈ scopeOf l ↔ l = [] ∨ dc ∈ l := Iff.rfl

theorem mem_dropRepeats (l : List String) (a : String) : a ∈ dropRepeats l ↔ a ∈ l := by
  induction l using dropRepeats.induct with
  | case1 b l ih =>
    rw [dropRepeats, if_pos rfl, ih]
    simp
  | case2 b c l h ih =>
    rw [dropRepeats, if_neg h, mem_cons, ih]
    simp
  | case3 l h => rw [dropRepeats.eq_2 l h]

theorem mem_dedupeStringSlice (l : List String) (a : String) : a ∈ dedupeStringSlice l ↔ a ∈ l := by
  unfold dedupeStringSlice
  split
  · rfl
  · rw [mem_dropRepeats, mem_insertionSort]

theorem mergeScopes_eq_nil (a b : List String) : mergeScopes a b = [] ↔ a = [] ∨ b = [] := by
  unfold mergeScopes
  by_cases h : a = [] ∨ b = []
  · simp [h]
  · obtain ⟨x, hx⟩ := exists_mem_of_ne_nil a (not_or.mp h).1
    have hmem := (mem_dedupeStringSlice (a ++ b) x).mpr (mem_append_left b hx)
    simp [h, mergeStringSlice, ne_nil_of_mem hmem]

theorem scopeOf_mergeScopes (a b : List String) :
    scopeOf (mergeScopes a b) = scopeOf a ∪ scopeOf b := by
  ext dc
  simp only [Set.mem_union, mem_scopeOf, mergeScopes_eq_nil]
  by_cases h : a = [] ∨ b = []
  · rcases h with rfl | rfl <;> simp
  · obtain ⟨ha, hb⟩ := not_or.mp h
    simp [mergeScopes, mergeStringSlice, ha, hb, mem_dedupeStringSlice]

/-! ## Merging in place -/

namespace IdentityHeap

variable (heap : IdentityHeap)

def name (a : Nat) : String := (heap.cells a).serviceName

def scope (a : Nat) : Set String := scopeOf (heap.cells a).datacenters

end IdentityHeap

structure Joins (heap : IdentityHeap) (l out : List Nat) (heap' : IdentityHeap) : Prop where
  next : heap'.next = heap.next
  names : ∀ a, heap'.name a = heap.name a
  others : ∀ a, a ∉ out → heap'.scope a = heap.scope a
  mem : ∀ o ∈ out, o ∈ l
  covers : ∀ a ∈ l, ∃ o ∈ out, heap.name o = heap.name a
  scopes : ∀ o ∈ out, ∀ dc, dc ∈ heap'.scope o ↔
    ∃ a ∈ l, heap.name a = heap.name o ∧ dc ∈ heap.scope a

theorem dropRepeats_ordered {l : List String} (h : l.Pairwise (· ≤ ·)) :
    (dropRepeats l).Pairwise (· < ·) := by
  induction l using dropRepeats.induct with
  | case1 b l ih =>
    rw [dropRepeats, if_pos rfl]
    exact ih (pairwise_cons.mp h).2
  | case2 b c l hne ih =>
    obtain ⟨hb, hl⟩ := pairwise_cons.mp h
    rw [dropRepeats, if_neg hne]
    refine pairwise_cons.mpr ⟨fun x hx => ?_, ih hl⟩
    have hbc := lt_of_le_of_ne (hb c mem_cons_self) hne
    rcases mem_cons.mp ((mem_dropRepeats _ _).mp hx) with rfl | hx
    · exact hbc
    · exact hbc.trans_le ((pairwise_cons.mp hl).1 x hx)
  | case3 l hl =>
    match l, hl with
    | [], _ => exact .nil
    | [x], _ => simp [dropRepeats]
    | a :: b :: l, hl => exact absurd rfl (hl a b l)

theorem mergeScopes_ordered (a b : List String) : (mergeScopes a b).Pairwise (· < ·) := by
  unfold mergeScopes
  split
  · exact .nil
  · rename_i h
    obtain ⟨ha, hb⟩ := not_or.mp h
    have hlen : ¬ (a ++ b).length ≤ 1 := by
      have := length_pos_iff.mpr ha
      have := length_pos_iff.mpr hb
      rw [length_append]
      omega
    rw [mergeStringSlice, dedupeStringSlice, if_neg hlen]
    exact dropRepeats_ordered (pairwise_insertionSort _ _)

/-- The identity at `j` takes over the scope of the one at `i`. -/
def IdentityHeap.widen (heap : IdentityHeap) (j i : Nat) : IdentityHeap :=
  { heap with
    cells := Function.update heap.cells j { heap.cells j with
      datacenters := mergeScopes (heap.cells j).datacenters (heap.cells i).datacenters } }

theorem IdentityHeap.name_widen (heap : IdentityHeap) (j i a : Nat) :
    (heap.widen j i).name a = heap.name a := by
  unfold widen name
  by_cases ha : a = j
  · subst ha
    simp
  · simp [ha]

/-- What is said of a merged scope is said of one of the two. -/
def Spreads (P : List String → Prop) : Prop := ∀ a b, P (mergeScopes a b) ↔ P a ∨ P b

theorem Spreads.widen {P : List String → Prop} (hP : Spreads P) (heap : IdentityHeap)
    {j i a : Nat} : P ((heap.widen j i).cells a).datacenters ↔
      P (heap.cells a).datacenters ∨ a = j ∧ P (heap.cells i).datacenters := by
  unfold IdentityHeap.widen
  by_cases ha : a = j
  · subst ha
    simp [hP _ _]
  · simp [ha]

/-- The same list by list. An identity that took over another one has its datacenters in order
and without repetitions. -/
structure Fused (heap : IdentityHeap) (l out : List Nat) (heap' : IdentityHeap) : Prop where
  next : heap'.next = heap.next
  names : ∀ a, heap'.name a = heap.name a
  others : ∀ a, a ∉ out → heap'.cells a = heap.cells a
  mem : ∀ o ∈ out, o ∈ l
  covers : ∀ a ∈ l, ∃ o ∈ out, heap.name o = heap.name a
  ordered : out.Pairwise (heap.name · < heap.name ·)
  alone : ∀ o ∈ out, (heap'.cells o).datacenters.Pairwise (· < ·) ∨
    heap'.cells o = heap.cells o ∧ l.filter (heap.name · = heap.name o) = [o]
  spread : ∀ P, Spreads P → ∀ o ∈ out, P (heap'.cells o).datacenters ↔
    ∃ a ∈ l, heap.name a = heap.name o ∧ P (heap.cells a).datacenters

variable {j : Nat} {heap' : IdentityHeap} {l out : List Nat} {heap heap₁ heap₂ : IdentityHeap}

theorem Fused.joins (h : Fused heap l out heap') : Joins heap l out heap' where
  next := h.next
  names := h.names
  others a ha := by rw [scope, scope, h.others a ha]
  mem := h.mem
  covers := h.covers
  scopes o ho dc := h.spread (dc ∈ scopeOf ·) (fun a b => by simp [scopeOf_mergeScopes]) o ho

theorem Fused.singleton (heap : IdentityHeap) (j : Nat) : Fused heap [j] [j] heap where
  next := rfl
  names _ := rfl
  others _ _ := rfl
  mem _ ho := ho
  covers a ha := ⟨a, ha, rfl⟩
  ordered := pairwise_singleton _ _
  alone o ho := by
    rw [mem_singleton.mp ho]
    simp
  spread P _ o ho := by
    rw [mem_singleton.mp ho]
    simp

theorem Fused.same {i : Nat} (hname : heap.name j = heap.name i)
    (h : Fused (heap.widen j i) (j :: l) out heap') (hj : j ∈ out) :
    Fused heap (j :: i :: l) out heap' := by
  have hnames := heap.name_widen j i
  have hordered := h.ordered
  simp only [hnames] at hordered
  refine ⟨h.next, fun a => (h.names a).trans (hnames a), fun a ha => ?_, fun o ho => ?_,
    fun a ha => ?_, hordered, fun o ho => ?_, fun P hP o ho => ?_⟩
  · have hne : a ≠ j := fun haj => ha (haj ▸ hj)
    rw [h.others a ha]
    exact Function.update_of_ne hne _ _
  · rcases mem_cons.mp (h.mem o ho) with rfl | hmem
    · exact mem_cons_self
    · exact mem_cons_of_mem _ (mem_cons_of_mem _ hmem)
  · rcases mem_cons.mp ha with rfl | ha
    · exact ⟨a, hj, rfl⟩
    rcases mem_cons.mp ha with rfl | ha
    · exact ⟨j, hj, hname⟩
    · obtain ⟨o, ho, hoa⟩ := h.covers a (mem_cons_of_mem _ ha)
      exact ⟨o, ho, by rw [← hnames, ← hnames a, hoa]⟩
  · rcases h.alone o ho with hdcs | ⟨hcell, hfilter⟩
    · exact .inl hdcs
    simp only [hnames] at hfilter
    by_cases hne : heap.name j = heap.name o
    · -- nothing else in the list has the name of `j`
      have hmem : j ∈ (j :: l).filter (heap.name · = heap.name o) := by simp [hne]
      rw [hfilter, mem_singleton] at hmem
      subst hmem
      refine .inl ?_
      rw [hcell]
      simpa only [widen, Function.update_self] using mergeScopes_ordered _ _
    · have hcell' : (heap.widen j i).cells o = heap.cells o :=
        Function.update_of_ne (fun hoj => hne (by rw [hoj])) _ _
      rw [filter_cons_of_neg (by simpa using hne)] at hfilter
      refine .inr ⟨hcell.trans hcell', ?_⟩
      rw [filter_cons_of_neg (by simpa using hne),
        filter_cons_of_neg (by simpa [← hname] using hne), hfilter]
  · rw [h.spread P hP o ho]
    simp only [hnames, hP.widen]
    constructor
    · rintro ⟨a, ha, hao, hdc | ⟨rfl, hdc⟩⟩
      · refine ⟨a, ?_, hao, hdc⟩
        rcases mem_cons.mp ha with rfl | ha
        · exact mem_cons_self
        · exact mem_cons_of_mem _ (mem_cons_of_mem _ ha)
      · exact ⟨i, by simp, hname ▸ hao, hdc⟩
    · rintro ⟨a, ha, hao, hdc⟩
      rcases mem_cons.mp ha with rfl | ha
      · exact ⟨a, mem_cons_self, hao, .inl hdc⟩
      rcases mem_cons.mp ha with rfl | ha
      · exact ⟨j, mem_cons_self, hname.trans hao, .inr ⟨rfl, hdc⟩⟩
      · exact ⟨a, mem_cons_of_mem _ ha, hao, .inl hdc⟩

theorem Fused.next_name (hother : ∀ a ∈ l, heap.name j < heap.name a)
    (h : Fused heap l out heap') : Fused heap (j :: l) (j :: out) heap' := by
  have hj : j ∉ out := fun hj => (hother j (h.mem j hj)).false
  refine ⟨h.next, h.names, fun a ha => ?_, fun o ho => ?_, fun a ha => ?_, ?_, fun o ho => ?_,
    fun P hP o ho => ?_⟩
  · exact h.others a fun hout => ha (mem_cons_of_mem _ hout)
  · rcases mem_cons.mp ho with rfl | ho
    · exact mem_cons_self
    · exact mem_cons_of_mem _ (h.mem o ho)
  · rcases mem_cons.mp ha with rfl | ha
    · exact ⟨a, mem_cons_self, rfl⟩
    · obtain ⟨o, ho, hoa⟩ := h.covers a ha
      exact ⟨o, mem_cons_of_mem _ ho, hoa⟩
  · exact pairwise_cons.mpr ⟨fun o ho => hother o (h.mem o ho), h.ordered⟩
  · rcases mem_cons.mp ho with rfl | ho
    · refine .inr ⟨h.others o hj, ?_⟩
      rw [filter_cons_of_pos (by simp), filter_eq_nil_iff.mpr]
      simpa using fun a ha => (hother a ha).ne'
    · rw [filter_cons_of_neg (by simpa using (hother o (h.mem o ho)).ne)]
      exact h.alone o ho
  · rcases mem_cons.mp ho with rfl | ho
    · rw [h.others o hj]
      constructor
      · intro hdc
        exact ⟨o, mem_cons_self, rfl, hdc⟩
      · rintro ⟨a, ha, hao, hdc⟩
        rcases mem_cons.mp ha with rfl | ha
        · exact hdc
        · exact absurd hao (hother a ha).ne'
    · have hlt := hother o (h.mem o ho)
      rw [h.spread P hP o ho]
      constructor
      · rintro ⟨a, ha, hao, hdc⟩
        exact ⟨a, mem_cons_of_mem _ ha, hao, hdc⟩
      · rintro ⟨a, ha, hao, hdc⟩
        rcases mem_cons.mp ha with rfl | ha
        · exact absurd hao hlt.ne
        · exact ⟨a, ha, hao, hdc⟩

theorem joinIdentities_cons (j i : Nat) (l : List Nat) (heap : IdentityHeap) :
    joinIdentities j (i :: l) heap =
      if heap.name j = heap.name i then joinIdentities j l (heap.widen j i)
      else (j :: (joinIdentities i l heap).1, (joinIdentities i l heap).2) := rfl

theorem joinIdentities_fused (hsorted : (j :: l).Pairwise fun a b => heap.name a ≤ heap.name b) :
    j ∈ (joinIdentities j l heap).1 ∧
      Fused heap (j :: l) (joinIdentities j l heap).1 (joinIdentities j l heap).2 := by
  induction l generalizing j heap with
  | nil => exact ⟨mem_singleton_self j, .singleton heap j⟩
  | cons i l ih =>
    obtain ⟨hj, hrest⟩ := pairwise_cons.mp hsorted
    rw [joinIdentities_cons]
    by_cases hname : heap.name j = heap.name i
    · rw [if_pos hname]
      have hwidened : (j :: l).Pairwise fun a b =>
          (heap.widen j i).name a ≤ (heap.widen j i).name b := by
        simp only [heap.name_widen]
        exact pairwise_cons.mpr
          ⟨fun a ha => hj a (mem_cons_of_mem _ ha), (pairwise_cons.mp hrest).2⟩
      obtain ⟨hmem, hfused⟩ := ih hwidened
      exact ⟨hmem, hfused.same hname hmem⟩
    · rw [if_neg hname]
      -- in a sorted list a name that has changed does not come back
      have hlt := lt_of_le_of_ne (hj i mem_cons_self) hname
      refine ⟨mem_cons_self, (ih hrest).2.next_name fun a ha => ?_⟩
      rcases mem_cons.mp ha with rfl | ha
      · exact hlt
      · exact hlt.trans_le ((pairwise_cons.mp hrest).1 a ha)

theorem Fused.of_perm {l' : List Nat} (hl : l'.Perm l) (h : Fused heap l' out heap') :
    Fused heap l out heap' where
  next := h.next
  names := h.names
  others := h.others
  mem o ho := hl.mem_iff.mp (h.mem o ho)
  covers a ha := h.covers a (hl.mem_iff.mpr ha)
  ordered := h.ordered
  alone o ho := (h.alone o ho).imp_right fun ⟨hcell, hfilter⟩ =>
    ⟨hcell, perm_singleton.mp (hfilter ▸ (hl.filter _).symm)⟩
  spread P hP o ho := by
    rw [h.spread P hP o ho]
    simp only [hl.mem_iff]

theorem dedupeServiceIdentities_fused (sort : SliceSort) (l : List Nat) (heap : IdentityHeap) :
    Fused heap l (dedupeServiceIdentities sort l heap).1
      (dedupeServiceIdentities sort l heap).2 := by
  unfold dedupeServiceIdentities
  by_cases hlen : l.length ≤ 1
  · rw [if_pos hlen]
    rcases l with _ | ⟨j, _ | _⟩
    · exact ⟨rfl, fun _ => rfl, fun _ _ => rfl, by simp, by simp, .nil, by simp, by simp⟩
    · exact .singleton heap j
    · simp at hlen
  · rw [if_neg hlen]
    have hperm := sort.perm heap.name l
    have hsorted := sort.sorted heap.name l
    rw [show (fun a => (heap.cells a).serviceName) = heap.name from rfl]
    cases hsort : sort.sort heap.name l with
    | nil =>
      rw [hsort] at hperm
      simp [hperm.symm.eq_nil] at hlen
    | cons j rest =>
      rw [hsort] at hperm hsorted
      exact (joinIdentities_fused hsorted).2.of_perm hperm

/-- What becomes of the datacenters of the identities with one name. -/
def ScopesMerged (group : List (List String)) (datacenters : List String) : Prop :=
  group = [datacenters] ∨ [] ∈ group ∧ datacenters = [] ∨ [] ∉ group ∧
    datacenters.Pairwise (· < ·) ∧ ∀ dc, dc ∈ datacenters ↔ ∃ l ∈ group, dc ∈ l

/-- Of the identities with one name one is left, in the order of the names, with the
datacenters of all of them, so they give access to the same. -/
theorem identities_are_merged (sort : SliceSort) (l : List Nat) (heap : IdentityHeap) :
    ∃ out heap', dedupeServiceIdentities sort l heap = (out, heap') ∧
      out.Pairwise (heap'.name · < heap'.name ·) ∧
      (∀ n, n ∈ out.map heap'.name ↔ n ∈ l.map heap.name) ∧
      (∀ o ∈ out, ScopesMerged
        ((l.filter (heap.name · = heap'.name o)).map (heap.cells · |>.datacenters))
        (heap'.cells o).datacenters) ∧
      ∀ n dc, (∃ o ∈ out, heap'.name o = n ∧ dc ∈ heap'.scope o) ↔
        ∃ a ∈ l, heap.name a = n ∧ dc ∈ heap.scope a := by
  have h := dedupeServiceIdentities_fused sort l heap
  rcases heq : dedupeServiceIdentities sort l heap with ⟨out, heap'⟩
  rw [heq] at h
  refine ⟨out, heap', rfl, ?_⟩
  rw [show heap'.name = heap.name from funext h.names]
  refine ⟨h.ordered, fun n => ?_, fun o ho => ?_, fun n dc => ?_⟩
  · simp only [mem_map]
    constructor
    · rintro ⟨o, ho, rfl⟩
      exact ⟨o, h.mem o ho, rfl⟩
    · rintro ⟨a, ha, rfl⟩
      exact h.covers a ha
  · rcases h.alone o ho with hordered | ⟨hcell, hfilter⟩
    · have hnil := h.spread (· = []) mergeScopes_eq_nil o ho
      by_cases hall : (heap'.cells o).datacenters = []
      · exact .inr (.inl ⟨by simpa [and_assoc] using hnil.mp hall, hall⟩)
      · have hsome := fun hgroup => hall (hnil.mpr hgroup)
        refine .inr (.inr ⟨by simpa [and_assoc] using hsome, hordered, fun dc => ?_⟩)
        have hscope := h.joins.scopes o ho dc
        simp only [scope, mem_scopeOf, hall, false_or] at hscope
        rw [hscope]
        simp only [mem_map, mem_filter, decide_eq_true_eq, and_assoc]
        constructor
        · rintro ⟨a, ha, hao, hd | hd⟩
          · exact absurd ⟨a, ha, hao, hd⟩ hsome
          · exact ⟨_, ⟨a, ha, hao, rfl⟩, hd⟩
        · rintro ⟨_, ⟨a, ha, hao, rfl⟩, hd⟩
          exact ⟨a, ha, hao, .inr hd⟩
    · exact .inl (by rw [hfilter, hcell]; rfl)
  · have hscopes := h.joins.scopes
    constructor
    · rintro ⟨o, ho, rfl, hdc⟩
      exact (hscopes o ho dc).mp hdc
    · rintro ⟨a, ha, rfl, hdc⟩
      obtain ⟨o, ho, hoa⟩ := h.covers a ha
      exact ⟨o, ho, hoa, (hscopes o ho dc).mpr ⟨a, ha, hoa.symm, hdc⟩⟩

/-! ## Stored roles -/

/-- The roles and policies that are stored. -/
structure StoredLinks where
  roles : String → Option ACLRole
  policies : String → Option ACLPolicy

/-- No service identity that was there has another name or scope now. -/
structure Kept (heap heap' : IdentityHeap) : Prop where
  next : heap.next ≤ heap'.next
  names : ∀ a < heap.next, heap'.name a = heap.name a
  scopes : ∀ a < heap.next, heap'.scope a = heap.scope a

theorem Kept.refl (heap : IdentityHeap) : Kept heap heap := ⟨le_rfl, fun _ _ => rfl, fun _ _ => rfl⟩

theorem Kept.trans (h : Kept heap heap₁) (h' : Kept heap₁ heap₂) : Kept heap heap₂ where
  next := h.next.trans h'.next
  names a ha := (h'.names a (ha.trans_le h.next)).trans (h.names a ha)
  scopes a ha := (h'.scopes a (ha.trans_le h.next)).trans (h.scopes a ha)

/-- The cell holds a service identity, with its scope spelled in any way. -/
def IdentityHeap.Holds (heap : IdentityHeap) (a : Nat) (svcid : ACLServiceIdentity) : Prop :=
  a < heap.next ∧ heap.name a = svcid.serviceName ∧ heap.scope a = scopeOf svcid.datacenters

theorem IdentityHeap.Holds.kept {a : Nat} {svcid : ACLServiceIdentity} (h : heap.Holds a svcid)
    (hkept : Kept heap heap') : heap'.Holds a svcid :=
  ⟨h.1.trans_le hkept.next, (hkept.names a h.1).trans h.2.1, (hkept.scopes a h.1).trans h.2.2⟩

/-- A role that is held says what the stored role says. -/
structure HeldRole.Mirrors (r : HeldRole) (heap : IdentityHeap) (role : ACLRole) : Prop where
  id : r.id = role.id
  policies : r.policies = role.policies
  identities : List.Forall₂ heap.Holds r.identities role.serviceIdentities

theorem HeldRole.Mirrors.kept {r : HeldRole} {role : ACLRole} (h : r.Mirrors heap role)
    (hkept : Kept heap heap') : r.Mirrors heap' role :=
  ⟨h.id, h.policies, h.identities.imp fun _ _ ha => ha.kept hkept⟩

theorem allocate_kept (l : List ACLServiceIdentity) (heap : IdentityHeap) :
    Kept heap (allocate l heap).2 := by
  have hcell : ∀ a < heap.next, (allocate l heap).2.cells a = heap.cells a := by
    intro a ha
    have hnot : ¬ heap.next ≤ a := by omega
    simp only [allocate, hnot, decide_false]
    cases l[a - heap.next]? <;> rfl
  refine ⟨Nat.le_add_right _ _, fun a ha => ?_, fun a ha => ?_⟩
  · unfold IdentityHeap.name
    rw [hcell a ha]
  · unfold scope
    rw [hcell a ha]

theorem allocate_holds (l : List ACLServiceIdentity) (heap : IdentityHeap) :
    List.Forall₂ (allocate l heap).2.Holds (allocate l heap).1 l := by
  rw [forall₂_iff_get]
  refine ⟨by simp [allocate], fun i hi hi' => ?_⟩
  have hcell : (allocate l heap).2.cells (heap.next + i) = l.get ⟨i, hi'⟩ := by
    simp [allocate, hi', Option.filter]
  have haddress : (allocate l heap).1.get ⟨i, hi⟩ = heap.next + i := by
    simp [allocate]
  rw [haddress]
  refine ⟨?_, ?_, ?_⟩
  · show heap.next + i < heap.next + l.length
    omega
  · unfold IdentityHeap.name
    rw [hcell]
  · unfold scope
    rw [hcell]

theorem holdRoles_cons (role : ACLRole) (roles : List ACLRole) (s : Resolver) :
    holdRoles (role :: roles) s =
      (do
        let rest ← holdRoles roles
        return HeldRole.mk role.id role.policies (allocate role.serviceIdentities s.heap).1 :: rest)
        { s with heap := (allocate role.serviceIdentities s.heap).2 } := by
  rw [holdRoles]
  rfl

theorem wp_holdRoles (roles : List ACLRole) (s : Resolver) :
    wp (holdRoles roles) (fun res s' => ∃ l, res = .ok l ∧
      ∃ heap, s' = { s with heap := heap } ∧ Kept s.heap heap ∧
      List.Forall₂ (HeldRole.Mirrors · heap) l roles) s := by
  induction roles generalizing s with
  | nil => exact ⟨[], rfl, s.heap, rfl, .refl _, .nil⟩
  | cons role roles ih =>
    have hrest := ih { s with heap := (allocate role.serviceIdentities s.heap).2 }
    rw [wp_congr (holdRoles_cons role roles s)]
    refine wp_then hrest ?_
    rintro rest s' ⟨heap, rfl, hkept, hall⟩
    have hholds := (allocate_holds role.serviceIdentities s.heap).imp fun _ _ ha => ha.kept hkept
    exact ⟨_, rfl, heap, rfl, (allocate_kept _ _).trans hkept, .cons ⟨rfl, rfl, hholds⟩ hall⟩

section Shared

variable (cfg : ResolverConfig) {s : Resolver}

/-- An ID that is not resolved in the local store is the ID of what it stands for. -/
def StoredLinks.OwnRole (w : StoredLinks) (id : String) : Prop :=
  ∀ role, w.roles id = some role → role.id = id

def StoredLinks.OwnPolicy (w : StoredLinks) (id : String) : Prop :=
  ∀ p, w.policies id = some p → p.id = id

structure Serves (w : StoredLinks) (env : Nat → Moment) (heap : IdentityHeap) : Prop where
  roleFound : ∀ n id r, (env n).resolveRoleFromID id = some (.ok r) →
    ∃ role, w.roles id = some role ∧ r.Mirrors heap role
  roleGone : ∀ n id text, (env n).resolveRoleFromID id = some (.error text) →
    isErrNotFound text ∧ w.roles id = none
  roleElsewhere : ∀ n id, (env n).resolveRoleFromID id = none → w.OwnRole id
  roleAnswers : ∀ n secret ids, (∀ id ∈ ids, w.OwnRole id) →
    ∃ l, (env n).roleResolve secret ids = .ok l ∧
      ∀ role, role ∈ l ↔ ∃ id ∈ ids, w.roles id = some role
  policyFound : ∀ n id p, (env n).resolvePolicyFromID id = some (.ok p) → w.policies id = some p
  policyGone : ∀ n id text, (env n).resolvePolicyFromID id = some (.error text) →
    isErrNotFound text ∧ w.policies id = none
  policyElsewhere : ∀ n id, (env n).resolvePolicyFromID id = none → w.OwnPolicy id
  policyAnswers : ∀ n secret ids, (∀ id ∈ ids, w.OwnPolicy id) →
    ∃ l, (env n).policyResolve secret ids = .ok l ∧
      ∀ p, p ∈ l ↔ ∃ id ∈ ids, w.policies id = some p

/-- The policies that are cached are the stored ones. -/
def PoliciesInStep (w : StoredLinks) (s : Resolver) : Prop :=
  ∀ id e, s.policies id = some e → w.OwnPolicy id ∧ e.value = w.policies id

/-- What is cached is what is stored, and the roles of the local store are as they were. -/
structure InStep (w : StoredLinks) (heap : IdentityHeap) (s : Resolver) : Prop where
  kept : Kept heap s.heap
  roles : ∀ id e, s.roles id = some e → w.OwnRole id ∧
    match e.value with
    | none => w.roles id = none
    | some r => ∃ role, w.roles id = some role ∧ r.Mirrors s.heap role
  policies : PoliciesInStep w s

theorem InStep.step {w : StoredLinks} {s' : Resolver} (h : InStep w heap s)
    (hkept : Kept s.heap s'.heap) (hroles : s'.roles = s.roles) (hpolicies : PoliciesInStep w s') :
    InStep w heap s' := by
  refine ⟨h.kept.trans hkept, fun id e he => ?_, hpolicies⟩
  rw [hroles] at he
  obtain ⟨hown, hvalue⟩ := h.roles id e he
  refine ⟨hown, ?_⟩
  cases hv : e.value with
  | none =>
    rw [hv] at hvalue
    exact hvalue
  | some r =>
    rw [hv] at hvalue
    obtain ⟨role, hrole, hmirrors⟩ := hvalue
    exact ⟨role, hrole, hmirrors.kept hkept⟩

def KeptHeap (s s' : Resolver) : Prop := Kept s.heap s'.heap

/-- Nothing happens to roles. -/
def SameRoles (s s' : Resolver) : Prop := s'.heap = s.heap ∧ s'.roles = s.roles

def FitsRole (w : StoredLinks) (s : Resolver) (id : String) (r : HeldRole) : Prop :=
  ∃ role, w.roles id = some role ∧ r.Mirrors s.heap role

theorem keep_update {α : Type} {drops : Drops} {cache : String → Option α} {key id : String}
    {a e : α} (h : cachePut drops key a cache id = some e) :
    id = key ∧ e = a ∨ cache id = some e := by
  unfold cachePut keep at h
  split at h
  · cases h
  · by_cases hid : id = key
    · subst hid
      rw [Function.update_self] at h
      exact .inl ⟨rfl, (Option.some.inj h).symm⟩
    · rw [Function.update_of_ne hid] at h
      exact .inr h

variable {w : StoredLinks} {env : Nat → Moment} {heap : IdentityHeap}

theorem roles_served (h : Serves w env heap) :
    (linkedRoles cfg).Served env (InStep w heap) KeptHeap (FitsRole w)
      (fun id => (w.roles id).isSome) w.OwnRole where
  lawful := ⟨fun _ _ => rfl, fun _ _ => rfl⟩
  later_trans := Kept.trans
  fits_later := by
    rintro s s1 id r hkept ⟨role, hrole, hmirrors⟩
    exact ⟨role, hrole, hmirrors.kept hkept⟩
  moment n hs := ⟨⟨hs.kept, hs.roles, hs.policies⟩, Kept.refl _⟩
  sight := by
    intro s n id hs
    unfold sight linkedRoles
    dsimp only
    cases hlookup : (env n).resolveRoleFromID id with
    | some found =>
      cases found with
      | ok r =>
        obtain ⟨role, hrole, hmirrors⟩ := h.roleFound n id r hlookup
        exact ⟨_, rfl, role, hrole, hmirrors.kept hs.kept⟩
      | error text =>
        obtain ⟨htext, hnone⟩ := h.roleGone n id text hlookup
        exact ⟨.gone, by simp [htext], by simp [hnone]⟩
    | none =>
      cases hcache : s.roles id with
      | none => exact ⟨_, rfl, h.roleElsewhere n id hlookup⟩
      | some e =>
        obtain ⟨hown, hvalue⟩ := hs.roles id e hcache
        rcases e with ⟨value, time⟩
        cases value with
        | none =>
          refine ⟨.gone, rfl, ?_⟩
          have hnone : w.roles id = none := hvalue
          simp [hnone]
        | some r =>
          obtain ⟨role, hrole, hmirrors⟩ := hvalue
          by_cases hage : (env n).now - time ≥ cfg.aclRoleTTL
          · refine ⟨.expired ⟨some r, time⟩ r, by simp [hage], ⟨role, hrole, hmirrors⟩, ?_, hown⟩
            exact hmirrors.id.trans (hown role hrole)
          · exact ⟨.value r, by simp [hage], role, hrole, hmirrors⟩
  put := by
    intro s m id v hs hown hvalue hnone
    refine ⟨⟨hs.kept, fun i e he => ?_, hs.policies⟩, Kept.refl _⟩
    rcases keep_update he with ⟨rfl, rfl⟩ | he
    · refine ⟨hown, ?_⟩
      cases v with
      | none => simpa using hnone rfl
      | some r => exact (hvalue r rfl).1
    · exact hs.roles i e he
  request := by
    intro s n secret ids hs hids
    obtain ⟨l, hl, hmem⟩ := h.roleAnswers n secret ids hids
    have hrequest : (linkedRoles cfg).request (env n) secret ids s =
        (holdRoles l >>= fun roles => pure (.ok roles)) s := by
      simp only [linkedRoles, hl]
      rfl
    rw [wp_congr hrequest]
    refine wp_then (wp_holdRoles l s) ?_
    rintro roles s' ⟨heap', rfl, hkept, hall⟩
    refine ⟨_, rfl, roles, rfl, hs.step hkept rfl hs.policies, hkept, ?_, ?_⟩
    · intro r hr
      obtain ⟨role, hrole, hmirrors⟩ := exists_of_forall₂_left hall hr
      obtain ⟨id, hid, hstored⟩ := (hmem role).mp hrole
      exact ⟨id, hid, ⟨_, hstored, hmirrors⟩, hmirrors.id.trans (hids id hid _ hstored)⟩
    · intro id hid hpresent
      obtain ⟨role, hrole⟩ := Option.isSome_iff_exists.mp hpresent
      obtain ⟨r, hr, hmirrors⟩ := exists_of_forall₂_right hall ((hmem role).mpr ⟨id, hid, hrole⟩)
      exact ⟨r, hr, hmirrors.id.trans (hids id hid role hrole)⟩

theorem policies_served (h : Serves w env heap) :
    (linkedPolicies cfg).Served env (PoliciesInStep w) SameRoles
      (fun _ id p => w.policies id = some p) (fun id => (w.policies id).isSome) w.OwnPolicy where
  lawful := ⟨fun _ _ => rfl, fun _ _ => rfl⟩
  later_trans h1 h2 := ⟨h2.1.trans h1.1, h2.2.trans h1.2⟩
  fits_later _ hp := hp
  moment n hs := ⟨hs, rfl, rfl⟩
  sight := by
    intro s n id hs
    unfold sight linkedPolicies
    dsimp only
    cases hlookup : (env n).resolvePolicyFromID id with
    | some found =>
      cases found with
      | ok p => exact ⟨_, rfl, h.policyFound n id p hlookup⟩
      | error text =>
        obtain ⟨htext, hnone⟩ := h.policyGone n id text hlookup
        exact ⟨.gone, by simp [htext], by simp [hnone]⟩
    | none =>
      cases hcache : s.policies id with
      | none => exact ⟨_, rfl, h.policyElsewhere n id hlookup⟩
      | some e =>
        obtain ⟨hown, hvalue⟩ := hs id e hcache
        rcases e with ⟨value, time⟩
        cases value with
        | none => exact ⟨.gone, rfl, by simp [← hvalue]⟩
        | some p =>
          have hp : w.policies id = some p := hvalue.symm
          by_cases hage : (env n).now - time ≥ cfg.aclPolicyTTL
          · exact ⟨.expired ⟨some p, time⟩ p, by simp [hage], hp, hown p hp, hown⟩
          · exact ⟨.value p, by simp [hage], hp⟩
  put := by
    intro s m id v hs hown hvalue hnone
    refine ⟨fun i e he => ?_, rfl, rfl⟩
    rcases keep_update he with ⟨rfl, rfl⟩ | he
    · refine ⟨hown, ?_⟩
      cases v with
      | none =>
        have habsent : w.policies i = none := by simpa using hnone rfl
        exact habsent.symm
      | some p => exact (hvalue p rfl).1.symm
    · exact hs i e he
  request := by
    intro s n secret ids hs hids
    obtain ⟨l, hl, hmem⟩ := h.policyAnswers n secret ids hids
    have hrequest : (linkedPolicies cfg).request (env n) secret ids s = (.ok (.ok l), s) := by
      simp only [linkedPolicies, hl]
      rfl
    unfold wp
    rw [hrequest]
    refine ⟨_, rfl, l, rfl, hs, ⟨rfl, rfl⟩, fun p hp => ?_, fun id hid hpresent => ?_⟩
    · obtain ⟨id, hid, hpolicy⟩ := (hmem p).mp hp
      exact ⟨id, hid, hpolicy, hids id hid p hpolicy⟩
    · obtain ⟨p, hp⟩ := Option.isSome_iff_exists.mp hpresent
      exact ⟨p, (hmem p).mpr ⟨id, hid, hp⟩, hids id hid p hp⟩

/-! ## The service identities of a token -/

/-- The service identities of a token and of the roles that are stored for it. -/
def StoredLinks.identities (w : StoredLinks) (t : ACLToken) : List ACLServiceIdentity :=
  t.serviceIdentities ++
    t.roles.flatMap fun link => ((w.roles link.id).map (·.serviceIdentities)).getD []

/-- The datacenters in which one of the identities gives rights to a service. -/
def scopeFor (l : List ACLServiceIdentity) (name : String) : Set String :=
  {dc | ∃ svcid ∈ l, svcid.serviceName = name ∧ dc ∈ scopeOf svcid.datacenters}

/-- Nothing that is merged for the token is valid where a role's own identity of that name is
not. -/
def StoredLinks.Separate (w : StoredLinks) (t : ACLToken) : Prop :=
  ∀ link ∈ t.roles, ∀ role, w.roles link.id = some role → ∀ svcid ∈ role.serviceIdentities,
    scopeFor (w.identities t) svcid.serviceName ⊆ scopeOf svcid.datacenters

variable {t : ACLToken} {roles : List HeldRole}

theorem addresses_hold (hroles : Stands (FitsRole w) (fun id => (w.roles id).isSome) s
      (t.roles.map (·.id)) roles) :
    (∀ a ∈ (allocate t.serviceIdentities s.heap).1 ++ roles.flatMap (·.identities),
      ∃ svcid ∈ w.identities t, (allocate t.serviceIdentities s.heap).2.Holds a svcid) ∧
    ∀ svcid ∈ w.identities t,
      ∃ a ∈ (allocate t.serviceIdentities s.heap).1 ++ roles.flatMap (·.identities),
        (allocate t.serviceIdentities s.heap).2.Holds a svcid := by
  have hown := allocate_holds t.serviceIdentities s.heap
  have hkept := allocate_kept t.serviceIdentities s.heap
  constructor
  · intro a ha
    rcases mem_append.mp ha with ha | ha
    · obtain ⟨svcid, hmem, hholds⟩ := exists_of_forall₂_left hown ha
      exact ⟨svcid, mem_append_left _ hmem, hholds⟩
    · obtain ⟨r, hr, ha⟩ := mem_flatMap.mp ha
      obtain ⟨id, hid, role, hrole, hmirrors⟩ := hroles.sound r hr
      obtain ⟨link, hlink, rfl⟩ := mem_map.mp hid
      obtain ⟨svcid, hmem, hholds⟩ := exists_of_forall₂_left hmirrors.identities ha
      refine ⟨svcid, mem_append_right _ (mem_flatMap.mpr ⟨link, hlink, ?_⟩),
        hholds.kept hkept⟩
      simpa [hrole] using hmem
  · intro svcid hmem
    rcases mem_append.mp hmem with hmem | hmem
    · obtain ⟨a, ha, hholds⟩ := exists_of_forall₂_right hown hmem
      exact ⟨a, mem_append_left _ ha, hholds⟩
    · obtain ⟨link, hlink, hmem⟩ := mem_flatMap.mp hmem
      cases hrole : w.roles link.id with
      | none => simp [hrole] at hmem
      | some role =>
        obtain ⟨r, hr, role', hrole', hmirrors⟩ :=
          hroles.complete link.id (mem_map_of_mem hlink) (by simp [hrole])
        obtain rfl := Option.some.inj (hrole.symm.trans hrole')
        have hmem : svcid ∈ role.serviceIdentities := by simpa [hrole] using hmem
        obtain ⟨a, ha, hholds⟩ := exists_of_forall₂_right hmirrors.identities hmem
        exact ⟨a, mem_append_right _ (mem_flatMap.mpr ⟨r, hr, ha⟩), hholds.kept hkept⟩

/-- What a list of merged identities has to be: one for each name, with all scopes of that
name. -/
structure Merged (l out : List ACLServiceIdentity) : Prop where
  names : ∀ x ∈ out, ∃ svcid ∈ l, svcid.serviceName = x.serviceName
  scopes : ∀ x ∈ out, scopeOf x.datacenters = scopeFor l x.serviceName
  all : ∀ svcid ∈ l, ∃ x ∈ out, x.serviceName = svcid.serviceName

theorem Joins.merged {addresses : List Nat} {l : List ACLServiceIdentity}
    (hjoins : Joins heap₁ addresses out heap₂)
    (hsound : ∀ a ∈ addresses, ∃ svcid ∈ l, heap₁.Holds a svcid)
    (hcomplete : ∀ svcid ∈ l, ∃ a ∈ addresses, heap₁.Holds a svcid) :
    (∀ o ∈ out, heap₂.scope o = scopeFor l (heap₁.name o)) ∧ Merged l (out.map heap₂.cells) := by
  have hscope : ∀ o ∈ out, heap₂.scope o = scopeFor l (heap₁.name o) := by
    intro o ho
    ext dc
    rw [hjoins.scopes o ho dc]
    constructor
    · rintro ⟨a, ha, hname, hdc⟩
      obtain ⟨svcid, hmem, hholds⟩ := hsound a ha
      exact ⟨svcid, hmem, hholds.2.1.symm.trans hname, hholds.2.2 ▸ hdc⟩
    · rintro ⟨svcid, hmem, hname, hdc⟩
      obtain ⟨a, ha, hholds⟩ := hcomplete svcid hmem
      exact ⟨a, ha, hholds.2.1.trans hname, hholds.2.2 ▸ hdc⟩
  refine ⟨hscope, fun x hx => ?_, fun x hx => ?_, fun svcid hmem => ?_⟩
  · obtain ⟨o, ho, rfl⟩ := mem_map.mp hx
    obtain ⟨svcid, hmem, hholds⟩ := hsound o (hjoins.mem o ho)
    exact ⟨svcid, hmem, hholds.2.1.symm.trans (hjoins.names o).symm⟩
  · obtain ⟨o, ho, rfl⟩ := mem_map.mp hx
    have hname : (heap₂.cells o).serviceName = heap₁.name o := hjoins.names o
    rw [hname]
    exact hscope o ho
  · obtain ⟨a, ha, hholds⟩ := hcomplete svcid hmem
    obtain ⟨o, ho, hname⟩ := hjoins.covers a ha
    exact ⟨heap₂.cells o, mem_map_of_mem ho,
      ((hjoins.names o).trans hname).trans hholds.2.1⟩

theorem Joins.kept (hroles : Stands (FitsRole w) (fun id => (w.roles id).isSome) s
      (t.roles.map (·.id)) roles) (hseparate : w.Separate t)
    (hheap1 : heap₁ = (allocate t.serviceIdentities s.heap).2) (hjoins : Joins heap₁
      ((allocate t.serviceIdentities s.heap).1 ++ roles.flatMap (·.identities)) out heap₂)
    (hscope : ∀ o ∈ out, heap₂.scope o = scopeFor (w.identities t) (heap₁.name o)) :
    Kept s.heap heap₂ := by
  have hkept : Kept s.heap heap₁ := hheap1 ▸ allocate_kept t.serviceIdentities s.heap
  refine ⟨hkept.next.trans_eq hjoins.next.symm, fun a ha => ?_, fun a ha => ?_⟩
  · rw [hjoins.names, hkept.names a ha]
  by_cases hout : a ∈ out
  · -- the identities of the token itself stand behind all others
    have hrole : a ∈ roles.flatMap (·.identities) := by
      rcases mem_append.mp (hjoins.mem a hout) with hown | hrole
      · have hge := (mem_range'_1.mp hown).1
        omega
      · exact hrole
    obtain ⟨r, hr, ha⟩ := mem_flatMap.mp hrole
    obtain ⟨id, hid, role, hrole, hmirrors⟩ := hroles.sound r hr
    obtain ⟨link, hlink, rfl⟩ := mem_map.mp hid
    obtain ⟨svcid, hmem, hholds⟩ := exists_of_forall₂_left hmirrors.identities ha
    have hname : heap₁.name a = svcid.serviceName := (hholds.kept hkept).2.1
    rw [hscope a hout, hname, hholds.2.2]
    refine Set.Subset.antisymm (hseparate link hlink role hrole svcid hmem) fun dc hdc => ?_
    refine ⟨svcid, mem_append_right _ (mem_flatMap.mpr ⟨link, hlink, ?_⟩), rfl, hdc⟩
    simpa [hrole] using hmem
  · rw [hjoins.others a hout, hkept.scopes a ha]

theorem wp_mergeIdentities (env : Nat → Moment)
    (hroles : Stands (FitsRole w) (fun id => (w.roles id).isSome) s
      (t.roles.map (·.id)) roles) :
    wp (mergeIdentities env t roles) (fun res s' => ∃ out, res = .ok out ∧
      ∃ heap', s' = { s with moment := s.moment + 1, heap := heap' } ∧ Merged (w.identities t) out ∧
      (w.Separate t → Kept s.heap heap')) s := by
  obtain ⟨hsound, hcomplete⟩ := addresses_hold hroles
  have hjoins := (dedupeServiceIdentities_fused (env s.moment).sort
    ((allocate t.serviceIdentities s.heap).1 ++ roles.flatMap (·.identities))
    (allocate t.serviceIdentities s.heap).2).joins
  obtain ⟨hscope, hmerged⟩ := hjoins.merged hsound hcomplete
  exact ⟨_, rfl, _, rfl, hmerged, fun hseparate => hjoins.kept hroles hseparate rfl hscope⟩

/-! ## The policies of a token -/

section Policies

variable [Blake2b]

/-- The rules of a policy and where they are valid. -/
def ACLPolicy.content (p : ACLPolicy) : String × SyntaxVersion × Set String :=
  (p.rules, p.syntaxVersion, scopeOf p.datacenters)

def StoredLinks.policyIDs (w : StoredLinks) (t : ACLToken) : List String :=
  t.policies.map (·.id) ++
    t.roles.flatMap fun link => ((w.roles link.id).map fun role => role.policies.map (·.id)).getD []

/-- What the policies of a token say: the stored ones that it links to, and one for each service
that an identity of it names. -/
def StoredLinks.contents (w : StoredLinks) (t : ACLToken) :
    Set (String × SyntaxVersion × Set String) :=
  {c | ∃ id ∈ w.policyIDs t, ∃ p, w.policies id = some p ∧ p.content = c} ∪
    {c | ∃ svcid ∈ w.identities t, (serviceIdentityRules svcid.serviceName, .current,
      scopeFor (w.identities t) svcid.serviceName) = c}

omit [Blake2b] in
theorem mem_filterPoliciesByScope {l : List ACLPolicy} {p : ACLPolicy} :
    p ∈ filterPoliciesByScope cfg l ↔ p ∈ l ∧ cfg.datacenter ∈ scopeOf p.datacenters := by
  unfold filterPoliciesByScope
  rw [mem_flatMap]
  simp only [mem_scopeOf]
  constructor
  · rintro ⟨q, hq, hp⟩
    by_cases hall : q.datacenters = []
    · rw [if_pos hall] at hp
      rw [mem_singleton.mp hp]
      exact ⟨hq, .inl hall⟩
    · rw [if_neg hall] at hp
      obtain ⟨dc, hdc, rfl⟩ := mem_map.mp hp
      obtain ⟨hdc, heq⟩ := mem_filter.mp hdc
      exact ⟨hq, .inr (of_decide_eq_true heq ▸ hdc)⟩
  · rintro ⟨hp, hscope⟩
    refine ⟨p, hp, ?_⟩
    by_cases hall : p.datacenters = []
    · rw [if_pos hall]
      exact mem_singleton_self p
    · rw [if_neg hall]
      refine mem_map.mpr ⟨cfg.datacenter, mem_filter.mpr ⟨?_, by simp⟩, rfl⟩
      exact hscope.resolve_left hall

variable {s : Resolver}

omit [Blake2b] in
theorem mem_policyIDs (hroles : Stands (FitsRole w) (fun id => (w.roles id).isSome) s
      (t.roles.map (·.id)) roles) (id : String) :
    id ∈ dedupeStringSlice
        (t.policies.map (·.id) ++ roles.flatMap fun role => role.policies.map (·.id)) ↔
      id ∈ w.policyIDs t := by
  rw [mem_dedupeStringSlice, mem_append, StoredLinks.policyIDs, mem_append]
  refine or_congr_right ?_
  simp only [mem_flatMap]
  constructor
  · rintro ⟨r, hr, hid⟩
    obtain ⟨key, hkey, role, hrole, hmirrors⟩ := hroles.sound r hr
    obtain ⟨link, hlink, rfl⟩ := mem_map.mp hkey
    refine ⟨link, hlink, ?_⟩
    simpa [hrole, ← hmirrors.policies] using hid
  · rintro ⟨link, hlink, hid⟩
    cases hrole : w.roles link.id with
    | none => simp [hrole] at hid
    | some role =>
      obtain ⟨r, hr, role', hrole', hmirrors⟩ :=
        hroles.complete link.id (mem_map_of_mem hlink) (by simp [hrole])
      obtain rfl := Option.some.inj (hrole.symm.trans hrole')
      refine ⟨r, hr, ?_⟩
      rw [hmirrors.policies]
      simpa [hrole] using hid

@[simp] theorem syntheticPolicy_content (svcid : ACLServiceIdentity) :
    svcid.syntheticPolicy.content =
      (serviceIdentityRules svcid.serviceName, .current, scopeOf svcid.datacenters) := rfl

/-- What the policies say that are resolved for a token. -/
def StoredLinks.granted (w : StoredLinks) (cfg : ResolverConfig) (t : ACLToken) :
    Set (String × SyntaxVersion × Set String) :=
  if t.policies.isEmpty && t.serviceIdentities.isEmpty && t.roles.isEmpty then
    {c | ∃ p ∈ t.embeddedPolicy, p.content = c}
  else {c ∈ w.contents t | cfg.datacenter ∈ c.2.2}

theorem contents_of_parts {policies : List ACLPolicy} {identities : List ACLServiceIdentity}
    {ids : List String} (hids : ∀ id, id ∈ ids ↔ id ∈ w.policyIDs t)
    (hpolicies : Stands (fun _ id p => w.policies id = some p)
      (fun id => (w.policies id).isSome) s ids policies)
    (hidentities : Merged (w.identities t) identities) :
    content '' {p | p ∈ policies ++ identities.map ACLServiceIdentity.syntheticPolicy} =
      w.contents t := by
  ext c
  constructor
  · rintro ⟨p, hp, rfl⟩
    rcases mem_append.mp hp with hp | hp
    · obtain ⟨id, hid, hstored⟩ := hpolicies.sound p hp
      exact .inl ⟨id, (hids id).mp hid, p, hstored, rfl⟩
    · obtain ⟨x, hx, rfl⟩ := mem_map.mp hp
      obtain ⟨svcid, hmem, hname⟩ := hidentities.names x hx
      refine .inr ⟨svcid, hmem, ?_⟩
      rw [syntheticPolicy_content, hidentities.scopes x hx, hname]
  · rintro (⟨id, hid, p, hstored, rfl⟩ | ⟨svcid, hmem, rfl⟩)
    · obtain ⟨q, hq, hsame⟩ := hpolicies.complete id ((hids id).mpr hid) (by simp [hstored])
      obtain rfl := Option.some.inj (hstored.symm.trans hsame)
      exact ⟨p, mem_append_left _ hq, rfl⟩
    · obtain ⟨x, hx, hname⟩ := hidentities.all svcid hmem
      refine ⟨x.syntheticPolicy, mem_append_right _ (mem_map_of_mem hx), ?_⟩
      rw [syntheticPolicy_content, hidentities.scopes x hx, hname]

theorem wp_resolvePoliciesForIdentity (h : Serves w env heap) (hs : InStep w heap s) (t : ACLToken)
    :
    wp (resolvePoliciesForIdentity cfg env t) (fun res s' => ∃ l, res = .ok l ∧
      content '' {p | p ∈ l} = w.granted cfg t ∧
      (w.Separate t → InStep w heap s')) s := by
  unfold resolvePoliciesForIdentity StoredLinks.granted
  simp only [isEmpty_map]
  by_cases hempty : (t.policies.isEmpty && t.serviceIdentities.isEmpty && t.roles.isEmpty) = true
  · simp only [hempty, if_true]
    refine ⟨_, rfl, ?_, fun _ => hs⟩
    ext c
    simp
  · simp only [hempty]
    refine wp_then ((roles_served cfg h).collect hs t _) ?_
    rintro roles s1 ⟨hs1, -, hroles⟩
    refine wp_then (wp_mergeIdentities env hroles) ?_
    rintro identities s2 ⟨heap₂, rfl, hmerged, hkept2⟩
    have hstart : PoliciesInStep w { s1 with moment := s1.moment + 1, heap := heap₂ } :=
      hs1.policies
    refine wp_then ((policies_served cfg h).collect hstart t _) ?_
    rintro policies s3 ⟨hs3, hsame, hstands⟩
    refine ⟨_, rfl, ?_, fun hseparate => ?_⟩
    · rw [← contents_of_parts (mem_policyIDs hroles) hstands hmerged]
      ext c
      constructor
      · rintro ⟨p, hp, rfl⟩
        obtain ⟨hp, hscope⟩ := (mem_filterPoliciesByScope cfg).mp hp
        exact ⟨⟨p, hp, rfl⟩, hscope⟩
      · rintro ⟨⟨p, hp, rfl⟩, hscope⟩
        exact ⟨p, (mem_filterPoliciesByScope cfg).mpr ⟨hp, hscope⟩, rfl⟩
    · have hheap : s3.heap = heap₂ := hsame.1
      show InStep w heap s3
      refine hs1.step ?_ hsame.2 hs3
      rw [hheap]
      exact hkept2 hseparate

/-- The resolver after the policies of one token after the other were resolved. -/
def resolveAll (env : Nat → Moment) : List ACLToken → Resolver → Resolver
  | [], s => s
  | t :: tokens, s => resolveAll env tokens (resolvePoliciesForIdentity cfg env t s).2

theorem resolveAll_inStep (h : Serves w env heap) {tokens : List ACLToken} (hs : InStep w heap s)
    (htokens : ∀ t ∈ tokens, w.Separate t) : InStep w heap (resolveAll cfg env tokens s) := by
  induction tokens generalizing s with
  | nil => exact hs
  | cons t tokens ih =>
    obtain ⟨ht, hrest⟩ := forall_mem_cons.mp htokens
    obtain ⟨l, -, -, hstep⟩ := wp_resolvePoliciesForIdentity cfg h hs t
    exact ih (hstep ht) hrest

/-- No token that was resolved before merged an identity of a role with a wider one. Then the
roles are as they were, and what the policies of a token say does not depend on the tokens
before it. -/
theorem resolutions_do_not_disturb_each_other (h : Serves w env heap) {s : Resolver}
    (hs : InStep w heap s) (earlier : List ACLToken) (hearlier : ∀ t ∈ earlier, w.Separate t)
    (t : ACLToken) :
    Kept heap (resolveAll cfg env earlier s).heap ∧
      ∃ l l', (resolvePoliciesForIdentity cfg env t s).1 = .ok l ∧
        (resolvePoliciesForIdentity cfg env t (resolveAll cfg env earlier s)).1 = .ok l' ∧
        content '' {p | p ∈ l'} = content '' {p | p ∈ l} := by
  have hafter := resolveAll_inStep cfg h hs hearlier
  obtain ⟨l, hl, hcontent, -⟩ := wp_resolvePoliciesForIdentity cfg h hs t
  obtain ⟨l', hl', hcontent', -⟩ := wp_resolvePoliciesForIdentity cfg h hafter t
  exact ⟨hafter.kept, l, l', hl, hl', hcontent'.trans hcontent.symm⟩

end Policies

end Shared

section Example

attribute [local instance] keepBytes

def webIn (dc : String) : ACLServiceIdentity := { serviceName := "web", datacenters := [dc] }

/-- Two roles that give rights to one service in two datacenters. -/
def twoRoles : StoredLinks where
  roles id :=
    if id = "r1" then some { id := "r1", name := "one", serviceIdentities := [webIn "dc1"] }
    else if id = "r2" then some { id := "r2", name := "two", serviceIdentities := [webIn "dc2"] }
    else none
  policies _ := none

def twoCells : IdentityHeap where
  cells a := if a = 0 then webIn "dc1" else webIn "dc2"
  next := 2

/-- A server of the ACL datacenter, which has all roles in its own store. -/
def primary : Moment where
  now := 0
  resolveRoleFromID id := some (
    if id = "r1" then .ok { id := "r1", identities := [0] }
    else if id = "r2" then .ok { id := "r2", identities := [1] }
    else .error "ACL not found")
  resolvePolicyFromID _ := some (.error "ACL not found")
  getPolicy _ := .error "ACL not found"
  tokenRead _ := .ok none
  policyResolve _ _ := .ok []
  roleResolve _ ids := .ok (ids.filterMap twoRoles.roles)
  sort := insertionSlices
  walk := ⟨fun _ l => l, fun _ => .refl⟩
  compiling := { order := insertionOrder }

def secondDatacenter : ResolverConfig := { datacenter := "dc2" }

def freshResolver : Resolver := { rules := emptyHeap, heap := twoCells }

def withRoles (ids : List String) (own : List ACLServiceIdentity) : ACLToken where
  accessorID := ""
  secretID := ""
  roles := ids.map fun id => { id := id }
  serviceIdentities := own

/-- The scopes of the policies that are resolved for a token. -/
def resolvedScopes (t : ACLToken) (s : Resolver) : Option (List (List String)) :=
  match (resolvePoliciesForIdentity secondDatacenter (fun _ => primary) t s).1 with
  | .ok l => some (l.map (·.datacenters))
  | .error _ => none

/-- The first role alone gives nothing in `dc2`, until a token with both roles is resolved. -/
theorem a_shared_role_is_widened :
    resolvedScopes (withRoles ["r1"] []) freshResolver = some [] ∧
      resolvedScopes (withRoles ["r1"] [])
        (resolveAll secondDatacenter (fun _ => primary) [withRoles ["r1", "r2"] []]
          freshResolver) = some [["dc1", "dc2"]] := by
  decide +kernel

theorem primary_serves : Serves twoRoles (fun _ => primary) twoCells where
  roleFound _ id r hr := by
    unfold twoRoles
    simp only [primary, Option.some.injEq] at hr ⊢
    split at hr
    · obtain rfl := Except.ok.inj hr
      exact ⟨_, if_pos ‹_›, rfl, rfl, .cons ⟨by decide, rfl, rfl⟩ .nil⟩
    · rw [if_neg ‹_›]
      split at hr
      · obtain rfl := Except.ok.inj hr
        exact ⟨_, if_pos ‹_›, rfl, rfl, .cons ⟨by decide, rfl, rfl⟩ .nil⟩
      · cases hr
  roleGone _ id text hr := by
    unfold twoRoles
    simp only [primary, Option.some.injEq] at hr ⊢
    split at hr
    · cases hr
    · split at hr
      · cases hr
      · obtain rfl := Except.error.inj hr
        refine ⟨by decide +kernel, ?_⟩
        rw [if_neg ‹_›, if_neg ‹_›]
  roleElsewhere _ _ hr := by cases hr
  roleAnswers _ _ ids _ := ⟨_, rfl, fun _ => mem_filterMap⟩
  policyFound _ _ _ hp := by cases hp
  policyGone _ _ text hp := by
    obtain rfl := Except.error.inj (Option.some.inj hp)
    exact ⟨by decide +kernel, rfl⟩
  policyElsewhere _ _ hp := by cases hp
  policyAnswers _ _ ids _ := ⟨[], rfl, by simp [twoRoles]⟩

/-- A token that merges a role with identities of other services leaves the role alone. -/
theorem a_role_of_its_own_is_kept :
    Kept twoCells (resolveAll secondDatacenter (fun _ => primary)
        [withRoles ["r1"] [{ serviceName := "db" }]] freshResolver).heap ∧
      ∃ l l', (resolvePoliciesForIdentity secondDatacenter (fun _ => primary)
          (withRoles ["r1"] []) freshResolver).1 = .ok l ∧
        (resolvePoliciesForIdentity secondDatacenter (fun _ => primary) (withRoles ["r1"] [])
          (resolveAll secondDatacenter (fun _ => primary)
            [withRoles ["r1"] [{ serviceName := "db" }]] freshResolver)).1 = .ok l' ∧
        content '' {p | p ∈ l'} = content '' {p | p ∈ l} := by
  have hstep : InStep twoRoles twoCells freshResolver :=
    ⟨.refl _, by simp [freshResolver], nofun⟩
  refine resolutions_do_not_disturb_each_other secondDatacenter primary_serves hstep _
    (fun t ht => ?_) _
  rw [mem_singleton.mp ht]
  intro link hlink role hrole svcid hmem dc hdc
  obtain rfl := mem_singleton.mp hlink
  obtain rfl := Option.some.inj hrole
  obtain rfl := mem_singleton.mp hmem
  obtain ⟨other, hother, hname, hdc⟩ := hdc
  rcases mem_cons.mp hother with rfl | hother
  · exact absurd hname (by decide)
  · obtain rfl := mem_singleton.mp hother
    exact hdc

end Example

end OpenGyoza
