-- What is left of the rules of many policies after they are merged: for each
-- segment the strongest of the rules that any policy has for it.
import OpenGyoza.AclAuthorizer

namespace OpenGyoza

open Memdb PrefixTree List ServicePolicy

/-! ## Strength -/

/-- Rules in the order in which they win: deny over write over list over read. -/
def Access.strength : Access → Nat
  | read => 0
  | list => 1
  | write => 2
  | deny => 3

theorem Access.strength_injective : Function.Injective Access.strength := by
  intro a b h
  cases a <;> cases b <;> simp_all [strength]

instance : LinearOrder Access := LinearOrder.lift' Access.strength Access.strength_injective

theorem takesPrecedenceOver_some (a b : Access) :
    takesPrecedenceOver (some a) (some b) = decide (b ≤ a) := by
  cases a <;> cases b <;> rfl

theorem stronger_none (a : Option Access) : stronger a none = a := by
  rcases a with _ | a
  · rfl
  · cases a <;> rfl

theorem none_stronger (b : Option Access) : stronger none b = b := by
  rcases b with _ | b
  · rfl
  · cases b <;> rfl

theorem stronger_some (a b : Access) : stronger (some a) (some b) = some (max b a) := by
  unfold stronger
  rw [takesPrecedenceOver_some]
  by_cases h : b ≤ a
  · simp [h]
  · simp [h, le_of_not_ge h]

theorem max?_congr {l l' : List Access} (h : ∀ a, a ∈ l ↔ a ∈ l') : l.max? = l'.max? := by
  apply Option.ext
  intro a
  simp [max?_eq_some_iff, h]

theorem max?_append (l : List Access) (o : Option Access) :
    (l ++ o.toList).max? = stronger o l.max? := by
  cases o with
  | none => rw [Option.toList_none, append_nil, none_stronger]
  | some a =>
    cases l with
    | nil => exact (stronger_none _).symm
    | cons b l =>
      have hmax : ∀ c : Access, (l ++ [a]).foldl max c = max (l.foldl max c) a := by
        intro c
        rw [foldl_append]
        rfl
      rw [Option.toList_some, cons_append, max?_cons', max?_cons', hmax,
        stronger_some]

/-! ## Rules by segment -/

/-- What the rules of a list grant for one segment. -/
def accessFor (rules : List Rule) (n : Key) : List Access :=
  (rules.filter (·.segment = n)).map (·.policy)

/-- What the first rule for a segment grants. -/
def ruleFor (rules : List Rule) (n : Key) : Option Access :=
  (rules.find? (·.segment = n)).map (·.policy)

/-- No two rules have one segment. -/
def SegmentsUnique (rules : List Rule) : Prop := (rules.map (·.segment)).Nodup

theorem ruleFor_nil (n : Key) : ruleFor [] n = none := rfl

theorem ruleFor_cons (r : Rule) (rules : List Rule) (n : Key) :
    ruleFor (r :: rules) n = if r.segment = n then some r.policy else ruleFor rules n := by
  unfold ruleFor
  rw [find?_cons]
  split <;> simp_all

variable {rules : List Rule}

theorem ruleFor_eq_none_iff {n : Key} : ruleFor rules n = none ↔ n ∉ rules.map (·.segment) := by
  simp [ruleFor]

theorem ruleFor_append (rules rules' : List Rule) (n : Key) :
    ruleFor (rules ++ rules') n = (ruleFor rules n).or (ruleFor rules' n) := by
  unfold ruleFor
  rw [find?_append]
  cases rules.find? (·.segment = n) <;> simp

theorem ruleFor_eq_some_iff (h : SegmentsUnique rules) {n : Key} {a : Access} :
    ruleFor rules n = some a ↔ { segment := n, policy := a } ∈ rules := by
  induction rules with
  | nil => simp [ruleFor_nil]
  | cons r rules ih =>
    obtain ⟨hnew, hrest⟩ := nodup_cons.mp h
    rw [ruleFor_cons, mem_cons]
    by_cases hn : r.segment = n
    · have hnot : { segment := n, policy := a } ∉ rules := fun hmem =>
        hnew (mem_map.mpr ⟨_, hmem, hn.symm⟩)
      subst hn
      simp only [if_true, Option.some.injEq, hnot, or_false]
      exact ⟨fun heq => heq ▸ rfl, fun heq => (congrArg Rule.policy heq).symm⟩
    · rw [if_neg hn, ih hrest]
      refine ⟨.inr, fun hmem => hmem.resolve_left fun heq => hn ?_⟩
      rw [← heq]

theorem ruleFor_perm {rules' : List Rule} (h : rules.Perm rules') (hunique : SegmentsUnique rules)
    (n : Key) : ruleFor rules n = ruleFor rules' n := by
  have hunique' : SegmentsUnique rules' := (h.map _).nodup_iff.mp hunique
  apply Option.ext
  intro a
  rw [ruleFor_eq_some_iff hunique, ruleFor_eq_some_iff hunique', h.mem_iff]

theorem ruleFor_replace (merged : List Rule) (r : Rule) (n : Key) :
    ruleFor (merged.map fun q => if q.segment = r.segment then r else q) n =
      if r.segment = n then (ruleFor merged n).map fun _ => r.policy else ruleFor merged n := by
  induction merged with
  | nil => simp [ruleFor_nil]
  | cons q merged ih =>
    rw [map_cons, ruleFor_cons, ruleFor_cons, ih]
    by_cases hq : q.segment = r.segment
    · by_cases hn : r.segment = n
      · simp [hq, hn]
      · simp [hq, hn]
    · by_cases hn : r.segment = n
      · have hqn : q.segment ≠ n := hn ▸ hq
        simp [hn, hqn]
      · simp [hq, hn]

theorem mergeRule_ruleFor (merged : List Rule) (r : Rule) (n : Key) :
    ruleFor (mergeRule merged r) n =
      if r.segment = n then some ((ruleFor merged n).elim r.policy fun b => max b r.policy)
      else ruleFor merged n := by
  unfold mergeRule
  cases hfind : merged.find? (·.segment = r.segment) with
  | none =>
    have hnone : ruleFor merged r.segment = none := by simp [ruleFor, hfind]
    rw [ruleFor_append, ruleFor_cons, ruleFor_nil]
    by_cases hn : r.segment = n
    · subst hn
      simp [hnone]
    · simp [hn]
  | some permission =>
    have hsome : ruleFor merged r.segment = some permission.policy := by simp [ruleFor, hfind]
    simp only [takesPrecedenceOver_some, decide_eq_true_eq]
    by_cases hle : permission.policy ≤ r.policy
    · rw [if_pos hle, ruleFor_replace]
      by_cases hn : r.segment = n
      · subst hn
        simp [hsome, hle]
      · simp [hn]
    · rw [if_neg hle]
      by_cases hn : r.segment = n
      · subst hn
        simp [hsome, le_of_not_ge hle]
      · simp [hn]

theorem mergeRule_unique {merged : List Rule} (h : SegmentsUnique merged) (r : Rule) :
    SegmentsUnique (mergeRule merged r) := by
  unfold mergeRule
  cases hfind : merged.find? (·.segment = r.segment) with
  | none =>
    have hnone : ruleFor merged r.segment = none := by simp [ruleFor, hfind]
    have hnew := ruleFor_eq_none_iff.mp hnone
    unfold SegmentsUnique
    rw [map_append]
    exact List.Nodup.append h (nodup_singleton _) (by simpa using hnew)
  | some permission =>
    dsimp only
    split
    · have hsame : (merged.map fun q => if q.segment = r.segment then r else q).map (·.segment) =
          merged.map (·.segment) := by
        rw [map_map]
        refine map_congr_left fun q _ => ?_
        by_cases hq : q.segment = r.segment <;> simp [hq]
      unfold SegmentsUnique
      rwa [hsame]
    · exact h

theorem foldl_mergeRule (rules merged : List Rule) (n : Key) :
    ruleFor (rules.foldl mergeRule merged) n =
      ((ruleFor merged n).toList ++ accessFor rules n).max? := by
  induction rules generalizing merged with
  | nil => cases h : ruleFor merged n <;> simp [accessFor, h]
  | cons r rules ih =>
    rw [foldl_cons, ih, mergeRule_ruleFor]
    by_cases hn : r.segment = n
    · have hrest : accessFor (r :: rules) n = r.policy :: accessFor rules n := by
        simp [accessFor, hn]
      rw [if_pos hn, hrest]
      cases ruleFor merged n with
      | none => rfl
      | some b => rfl
    · simp [accessFor, hn]

theorem foldl_mergeRule_unique {merged : List Rule} (h : SegmentsUnique merged)
    (rules : List Rule) : SegmentsUnique (rules.foldl mergeRule merged) := by
  induction rules generalizing merged with
  | nil => exact h
  | cons r rules ih => exact ih (mergeRule_unique h r)

/-! ## Rules for services -/

/-- What the rules of a list say about the intentions of a service. -/
def intentionsFor (rules : List ServicePolicy) (n : Key) : List Access :=
  (rules.filter (·.name = n)).filterMap (·.intentions)

/-- What the rules of a list grant for a service. -/
def policiesFor (rules : List ServicePolicy) (n : Key) : List Access :=
  accessFor (rules.map rule) n

theorem policiesFor_eq (rules : List ServicePolicy) (n : Key) :
    policiesFor rules n = (rules.filter (·.name = n)).map (·.policy) := by
  unfold policiesFor accessFor
  rw [filter_map, map_map]
  rfl

theorem policiesFor_concat (rules : List ServicePolicy) (sp : ServicePolicy) (n : Key) :
    policiesFor (rules ++ [sp]) n =
      policiesFor rules n ++ (if sp.name = n then some sp.policy else none).toList := by
  rw [policiesFor_eq, policiesFor_eq, filter_append, map_append]
  by_cases hn : sp.name = n <;> simp [hn]

theorem intentionsFor_concat (rules : List ServicePolicy) (sp : ServicePolicy) (n : Key) :
    intentionsFor (rules ++ [sp]) n =
      intentionsFor rules n ++ (if sp.name = n then sp.intentions else none).toList := by
  unfold intentionsFor
  rw [filter_append, filterMap_append]
  by_cases hn : sp.name = n
  · cases h : sp.intentions <;> simp [hn, h]
  · simp [hn]

theorem combine_eq (existing sp : ServicePolicy) :
    existing.combine sp = { existing with
      policy := max existing.policy sp.policy
      intentions := stronger sp.intentions existing.intentions } := by
  unfold combine
  rw [takesPrecedenceOver_some]
  by_cases h : existing.policy ≤ sp.policy
  · simp [h]
  · simp [h, le_of_not_ge h]

theorem combine_self (sp : ServicePolicy) : sp.combine sp = sp := by
  rw [combine_eq, max_self]
  cases h : sp.intentions with
  | none => rw [stronger_none, ← h]
  | some a => rw [stronger_some, max_self, ← h]

structure ServicesMerged (c : Nat → ServicePolicy) (l : List Nat) (refs : List Nat)
    (cells : Nat → ServicePolicy) : Prop where
  name : ∀ a, (cells a).name = (c a).name
  others : ∀ a, a ∉ refs → cells a = c a
  unique : (refs.map fun a => (c a).name).Nodup
  source : ∀ a ∈ refs, a ∈ l
  covered : ∀ a ∈ l, (c a).name ∈ refs.map fun a => (c a).name
  first : ∀ a ∈ refs, ((l.map c).filter (·.name = (c a).name)).head? = some (c a)
  policy : ∀ a ∈ refs, (policiesFor (l.map c) (c a).name).max? = some (cells a).policy
  intentions : ∀ a ∈ refs, (intentionsFor (l.map c) (c a).name).max? = (cells a).intentions

theorem servicesMerged_nil (c : Nat → ServicePolicy) : ServicesMerged c [] [] c := by
  constructor <;> simp

namespace ServicesMerged

variable {c cells : Nat → ServicePolicy} {l refs : List Nat}

section

variable (h : ServicesMerged c l refs cells)
include h

theorem eq_of_name {a b : Nat} (ha : a ∈ refs) (hb : b ∈ refs) (heq : (c a).name = (c b).name) :
    a = b := inj_on_of_nodup_map h.unique ha hb heq

theorem first_append (sp : Nat) {a : Nat} (ha : a ∈ refs) :
    (((l ++ [sp]).map c).filter (·.name = (c a).name)).head? = some (c a) := by
  rw [map_append, filter_append, head?_append, h.first a ha]
  rfl

theorem step_new {sp : Nat} (hnew : ∀ a ∈ refs, (c a).name ≠ (c sp).name) :
    ServicesMerged c (l ++ [sp]) (refs ++ [sp]) cells := by
  have hnot : sp ∉ refs := fun hmem => hnew sp hmem rfl
  have hfresh : ∀ a ∈ l, (c a).name ≠ (c sp).name := by
    intro a ha heq
    obtain ⟨b, hb, hname⟩ := mem_map.mp (h.covered a ha)
    exact hnew b hb (hname.trans heq)
  have hempty : (l.map c).filter (·.name = (c sp).name) = [] := by
    simpa using hfresh
  refine ⟨h.name, fun a ha => h.others a fun hmem => ha (mem_append_left _ hmem), ?_, ?_, ?_,
    ?_, ?_, ?_⟩
  · rw [map_append]
    refine List.Nodup.append h.unique (nodup_singleton _) ?_
    simpa using hnew
  · intro a ha
    rcases mem_append.mp ha with ha | ha
    · exact mem_append_left _ (h.source a ha)
    · exact mem_append_right _ ha
  · intro a ha
    rw [map_append]
    rcases mem_append.mp ha with ha | ha
    · exact mem_append_left _ (h.covered a ha)
    · exact mem_append_right _ (mem_map_of_mem ha)
  · intro a ha
    rcases mem_append.mp ha with ha | ha
    · exact h.first_append sp ha
    · obtain rfl := mem_singleton.mp ha
      rw [map_append, filter_append, hempty]
      simp
  · intro a ha
    rw [map_append, map_singleton, policiesFor_concat, max?_append]
    rcases mem_append.mp ha with ha | ha
    · rw [if_neg fun heq => hnew a ha heq.symm, none_stronger, h.policy a ha]
    · obtain rfl := mem_singleton.mp ha
      rw [policiesFor_eq, hempty, if_pos rfl, h.others a hnot]
      exact stronger_none _
  · intro a ha
    rw [map_append, map_singleton, intentionsFor_concat, max?_append]
    rcases mem_append.mp ha with ha | ha
    · rw [if_neg fun heq => hnew a ha heq.symm, none_stronger, h.intentions a ha]
    · obtain rfl := mem_singleton.mp ha
      rw [intentionsFor, hempty, if_pos rfl, h.others a hnot]
      exact stronger_none _

theorem step_again {sp : Nat} (hsp : sp ∈ refs) : ServicesMerged c (l ++ [sp]) refs cells := by
  have hmem : ∀ a, a ∈ l ++ [sp] ↔ a ∈ l := by
    intro a
    simp only [mem_append, mem_singleton]
    exact ⟨fun ha => ha.elim id fun heq => heq ▸ h.source sp hsp, .inl⟩
  refine ⟨h.name, h.others, h.unique, fun a ha => (hmem a).mpr (h.source a ha),
    fun a ha => h.covered a ((hmem a).mp ha), fun a ha => h.first_append sp ha, fun a ha => ?_,
    fun a ha => ?_⟩
  · rw [← h.policy a ha]
    refine max?_congr fun x => ?_
    simp only [policiesFor_eq, mem_map, mem_filter, hmem]
  · rw [← h.intentions a ha]
    refine max?_congr fun x => ?_
    simp only [intentionsFor, mem_filterMap, mem_filter, mem_map, hmem]

theorem step_combine {sp existing : Nat} (hsp : sp ∉ refs) (hmem : existing ∈ refs)
    (hname : (c existing).name = (c sp).name) :
    ServicesMerged c (l ++ [sp]) refs
      (Function.update cells existing ((cells existing).combine (cells sp))) := by
  have hother : ∀ {a}, a ∈ refs → a ≠ existing → (c sp).name ≠ (c a).name := fun ha hne heq =>
    hne (h.eq_of_name ha hmem (heq.symm.trans hname.symm))
  refine ⟨fun a => ?_, fun a ha => ?_, h.unique, fun a ha => mem_append_left _ (h.source a ha),
    fun a ha => ?_, fun a ha => h.first_append sp ha, fun a ha => ?_, fun a ha => ?_⟩
  · by_cases heq : a = existing
    · subst heq
      rw [Function.update_self, combine_eq]
      exact h.name a
    · rw [Function.update_of_ne heq, h.name]
  · have hne : a ≠ existing := by
      rintro rfl
      exact ha hmem
    rw [Function.update_of_ne hne, h.others a ha]
  · rcases mem_append.mp ha with ha | ha
    · exact h.covered a ha
    · obtain rfl := mem_singleton.mp ha
      exact mem_map.mpr ⟨existing, hmem, hname⟩
  · rw [map_append, map_singleton, policiesFor_concat, max?_append, h.policy a ha]
    by_cases heq : a = existing
    · subst heq
      rw [if_pos hname.symm, Function.update_self, combine_eq, h.others sp hsp, stronger_some]
    · rw [if_neg (hother ha heq), Function.update_of_ne heq, none_stronger]
  · rw [map_append, map_singleton, intentionsFor_concat, max?_append, h.intentions a ha]
    by_cases heq : a = existing
    · subst heq
      rw [if_pos hname.symm, Function.update_self, combine_eq, h.others sp hsp]
    · rw [if_neg (hother ha heq), Function.update_of_ne heq, none_stronger]

theorem step (sp : Nat) :
    ServicesMerged c (l ++ [sp]) (mergeService (refs, cells) sp).1
      (mergeService (refs, cells) sp).2 := by
  unfold mergeService
  cases hfind : refs.find? fun a => (cells a).name = (cells sp).name with
  | none =>
    refine h.step_new fun a ha => ?_
    have hne := find?_eq_none.mp hfind a ha
    rwa [decide_eq_true_eq, h.name, h.name] at hne
  | some existing =>
    have hmem := mem_of_find?_eq_some hfind
    have hname := find?_some hfind
    rw [decide_eq_true_eq, h.name, h.name] at hname
    by_cases hsp : sp ∈ refs
    · obtain rfl := h.eq_of_name hmem hsp hname
      dsimp only
      rw [combine_self, Function.update_eq_self]
      exact h.step_again hsp
    · exact h.step_combine hsp hmem hname

theorem foldl (sps : List Nat) :
    ServicesMerged c (l ++ sps) (sps.foldl mergeService (refs, cells)).1
      (sps.foldl mergeService (refs, cells)).2 := by
  induction sps generalizing l refs cells with
  | nil => simpa using h
  | cons sp sps ih =>
    have hrest := ih (h.step sp)
    rwa [append_assoc] at hrest

theorem ruleFor_map {refs' : List Nat} (hperm : refs'.Perm refs) (f : ServicePolicy → Access) :
    SegmentsUnique (refs'.map fun a => { segment := (cells a).name, policy := f (cells a) }) ∧
      ∀ n, ruleFor (refs'.map fun a => { segment := (cells a).name, policy := f (cells a) }) n =
        (policiesFor (l.map c) n).max?.map fun p => f
          { name := n, policy := p, intentions := (intentionsFor (l.map c) n).max? } := by
  have hsegments : (refs'.map fun a => ({ segment := (cells a).name, policy := f (cells a) } :
      Rule)).map (·.segment) = refs'.map fun a => (c a).name := by
    rw [map_map]
    exact map_congr_left fun a _ => h.name a
  have hunique : SegmentsUnique
      (refs'.map fun a => { segment := (cells a).name, policy := f (cells a) }) := by
    unfold SegmentsUnique
    rw [hsegments]
    exact (hperm.map _).nodup_iff.mpr h.unique
  refine ⟨hunique, fun n => ?_⟩
  by_cases hn : ∃ a ∈ refs, (c a).name = n
  · obtain ⟨a, ha, rfl⟩ := hn
    rw [h.policy a ha, h.intentions a ha, Option.map_some, ruleFor_eq_some_iff hunique,
      mem_map]
    exact ⟨a, hperm.mem_iff.mpr ha, by rw [← h.name a]⟩
  · have hnone : policiesFor (l.map c) n = [] := by
      rw [policiesFor_eq, map_eq_nil_iff, filter_eq_nil_iff]
      intro sp hsp
      obtain ⟨a, ha, rfl⟩ := mem_map.mp hsp
      obtain ⟨b, hb, hname⟩ := mem_map.mp (h.covered a ha)
      exact fun heq => hn ⟨b, hb, hname.trans (of_decide_eq_true heq)⟩
    rw [hnone, max?_nil, Option.map_none, ruleFor_eq_none_iff, hsegments]
    rintro hmem
    obtain ⟨a, ha, hname⟩ := mem_map.mp hmem
    exact hn ⟨a, hperm.mem_iff.mp ha, hname⟩

end

end ServicesMerged

/-! ## When a merge changes nothing -/

/-- For every name the first rule already says all that the later ones say. -/
def Settled (rules : List ServicePolicy) : Prop :=
  ∀ n first rest, rules.filter (·.name = n) = first :: rest → ∀ q ∈ rest,
    q.policy ≤ first.policy ∧ stronger q.intentions first.intentions = first.intentions

theorem policies_of_settled {first : ServicePolicy} {rest : List ServicePolicy}
    (h : ∀ q ∈ rest, q.policy ≤ first.policy) :
    ((first :: rest).map (·.policy)).max? = some first.policy := by
  rw [max?_eq_some_iff]
  refine ⟨mem_cons_self, fun b hb => ?_⟩
  obtain ⟨q, hq, rfl⟩ := mem_map.mp hb
  rcases mem_cons.mp hq with rfl | hq
  · exact le_rfl
  · exact h q hq

theorem intentions_of_settled {first : ServicePolicy} {rest : List ServicePolicy}
    (h : ∀ q ∈ rest, stronger q.intentions first.intentions = first.intentions) :
    ((first :: rest).filterMap (·.intentions)).max? = first.intentions := by
  cases hfirst : first.intentions with
  | none =>
    have hrest : ∀ q ∈ first :: rest, q.intentions = none := by
      intro q hq
      rcases mem_cons.mp hq with rfl | hq
      · exact hfirst
      · simpa [hfirst, stronger_none] using h q hq
    rw [filterMap_eq_nil_iff.mpr hrest, max?_nil]
  | some i =>
    rw [max?_eq_some_iff]
    refine ⟨mem_filterMap.mpr ⟨first, mem_cons_self, hfirst⟩, fun b hb => ?_⟩
    obtain ⟨q, hq, hqb⟩ := mem_filterMap.mp hb
    rcases mem_cons.mp hq with rfl | hq
    · exact le_of_eq (Option.some.inj (hqb.symm.trans hfirst))
    · have hstrong := h q hq
      rw [hqb, hfirst, stronger_some, Option.some.injEq] at hstrong
      exact max_eq_left_iff.mp hstrong

theorem ServicesMerged.unchanged {c cells : Nat → ServicePolicy} {l refs : List Nat}
    (h : ServicesMerged c l refs cells) (hsettled : Settled (l.map c)) : cells = c := by
  funext a
  by_cases ha : a ∈ refs
  · obtain ⟨rest, hfilter⟩ := head?_eq_some_iff.mp (h.first a ha)
    have hle := hsettled _ _ _ hfilter
    have hpolicy : (cells a).policy = (c a).policy := by
      have hmax := h.policy a ha
      rw [policiesFor_eq, hfilter, policies_of_settled fun q hq => (hle q hq).1] at hmax
      exact (Option.some.inj hmax).symm
    have hintentions : (cells a).intentions = (c a).intentions := by
      rw [← h.intentions a ha, intentionsFor, hfilter,
        intentions_of_settled fun q hq => (hle q hq).2]
    have hname := h.name a
    cases hcell : cells a
    cases hold : c a
    simp_all
  · exact h.others a ha

/-! ## The merged policy -/

theorem foldl_mergePolicy (policies : List StoredPolicy) (acc : Merging) :
    policies.foldl mergePolicy acc =
      let services := fun m => (policies.flatMap (·.services m)).foldl mergeService
        (acc.services m, acc.heap.cells m)
      { acl := policies.foldl (fun b p => stronger p.acl b) acc.acl
        rules := fun f m => (policies.flatMap (·.rules f m)).foldl mergeRule (acc.rules f m)
        services := fun m => (services m).1
        keyring := policies.foldl (fun b p => stronger p.keyring b) acc.keyring
        operator := policies.foldl (fun b p => stronger p.operator b) acc.operator
        heap := { acc.heap with cells := fun m => (services m).2 } } := by
  induction policies generalizing acc with
  | nil => rfl
  | cons p policies ih =>
    rw [foldl_cons, ih]
    simp [mergePolicy]

/-- All rules of a kind. -/
def rulesOf (policies : List (Policy ServicePolicy)) (f : Family) (m : Matching) : List Rule :=
  policies.flatMap (·.rules f m)

def servicesOf (policies : List (Policy ServicePolicy)) (m : Matching) : List ServicePolicy :=
  policies.flatMap (·.services m)

section Merged

variable [Blake2b] (order : MapOrder) (policies : List StoredPolicy) (heap : Heap)

/-- The rules of the merged policy, as they stand after the merge. -/
def mergedPolicy : Policy ServicePolicy :=
  (mergePolicies order policies heap).2.load (mergePolicies order policies heap).1

omit [Blake2b] in
theorem servicesOf_load (m : Matching) :
    servicesOf (policies.map heap.load) m =
      (policies.flatMap (·.services m)).map (heap.cells m) := by
  unfold servicesOf
  rw [flatMap_map, map_flatMap]
  rfl

theorem merged_rules (f : Family) (m : Matching) :
    SegmentsUnique ((mergedPolicy order policies heap).rules f m) ∧
      ∀ n, ruleFor ((mergedPolicy order policies heap).rules f m) n =
        (accessFor (rulesOf (policies.map heap.load) f m) n).max? := by
  have hrules : (mergedPolicy order policies heap).rules f m =
      order.rules ((policies.flatMap (·.rules f m)).foldl mergeRule []) := by
    simp [mergedPolicy, mergePolicies, Heap.load, foldl_mergePolicy]
  have hunique : SegmentsUnique ((policies.flatMap (·.rules f m)).foldl mergeRule []) :=
    foldl_mergeRule_unique (show SegmentsUnique [] from nodup_nil) _
  have hperm := order.rules_perm ((policies.flatMap (·.rules f m)).foldl mergeRule [])
  have hunique' : SegmentsUnique ((mergedPolicy order policies heap).rules f m) := by
    rw [hrules]
    exact (hperm.map _).nodup_iff.mpr hunique
  refine ⟨hunique', fun n => ?_⟩
  rw [hrules] at hunique' ⊢
  rw [ruleFor_perm hperm hunique', foldl_mergeRule, rulesOf, flatMap_map]
  rfl

theorem merged_services (m : Matching) : ∃ refs cells,
    ServicesMerged (heap.cells m) (policies.flatMap (·.services m)) refs cells ∧
      (mergedPolicy order policies heap).services m = (order.addresses refs).map cells := by
  have hmerged := (servicesMerged_nil (heap.cells m)).foldl
    (policies.flatMap fun p : StoredPolicy => p.services m)
  rw [nil_append] at hmerged
  refine ⟨_, _, hmerged, ?_⟩
  simp [mergedPolicy, mergePolicies, Heap.load, foldl_mergePolicy]

/-- What the merged rules say about the intentions of a service. -/
def intentionFor (rules : List ServicePolicy) (n : Key) : Option Access :=
  (policiesFor rules n).max?.map fun p => intention
    { name := n, policy := p, intentions := (intentionsFor rules n).max? }

theorem merged_service_rules (m : Matching) :
    SegmentsUnique (((mergedPolicy order policies heap).services m).map rule) ∧
      ∀ n, ruleFor (((mergedPolicy order policies heap).services m).map rule) n =
        (policiesFor (servicesOf (policies.map heap.load) m) n).max? := by
  obtain ⟨refs, cells, hmerged, hservices⟩ := merged_services order policies heap m
  obtain ⟨hunique, hrule⟩ := hmerged.ruleFor_map (order.addresses_perm refs) (·.policy)
  rw [hservices, map_map, servicesOf_load]
  exact ⟨hunique, fun n => (hrule n).trans (by simp)⟩

theorem merged_intention_rules (m : Matching) :
    SegmentsUnique (((mergedPolicy order policies heap).services m).map
        intentionRule) ∧
      ∀ n, ruleFor (((mergedPolicy order policies heap).services m).map
        intentionRule) n =
          intentionFor (servicesOf (policies.map heap.load) m) n := by
  obtain ⟨refs, cells, hmerged, hservices⟩ := merged_services order policies heap m
  rw [hservices, map_map, servicesOf_load]
  exact hmerged.ruleFor_map (order.addresses_perm refs) intention

theorem mergePolicies_heap (h : ∀ m, Settled (servicesOf (policies.map heap.load) m)) :
    (mergePolicies order policies heap).2 = heap := by
  have hcells : ∀ m, ((policies.flatMap (·.services m)).foldl mergeService
      ([], heap.cells m)).2 = heap.cells m := by
    intro m
    have hmerged := (servicesMerged_nil (heap.cells m)).foldl
      (policies.flatMap fun p : StoredPolicy => p.services m)
    rw [nil_append] at hmerged
    exact hmerged.unchanged (servicesOf_load policies heap m ▸ h m)
  unfold mergePolicies
  simp [foldl_mergePolicy, hcells]

end Merged

end OpenGyoza
