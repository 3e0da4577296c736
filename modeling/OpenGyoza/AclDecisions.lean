-- What the authorizer of a list of policies decides: the strongest of the
-- rules for a name, or else of the rules for its longest beginning that has
-- any. Where the rules come from, and how often, does not matter.
import OpenGyoza.RuleMerging

namespace OpenGyoza

open Memdb PrefixTree List

/-! ## Trees -/

/-- What a tree has for a path. -/
def RuleTree.at (t : RuleTree) (m : Matching) (n : Key) : Option Access :=
  (t.lookup n).bind fun leaf =>
    match m with
    | .exact => leaf.exactRule
    | .byPrefix => leaf.prefixRule

theorem lookup_insertPolicyIntoRadix (segment : Key) (e p : Option Access) (t : RuleTree)
    (n : Key) : (insertPolicyIntoRadix segment e p t).lookup n =
      if n = segment then some { exactRule := e.or (RuleTree.at t .exact n)
                                 prefixRule := p.or (RuleTree.at t .byPrefix n) }
      else t.lookup n := by
  unfold insertPolicyIntoRadix RuleTree.at
  by_cases hn : n = segment
  · subst hn
    cases h : t.lookup n <;> simp [Tree.lookup_insert]
  · cases h : t.lookup segment <;> simp [Tree.lookup_insert, hn]

/-- The leaf for a path after a rule is put into one of its places. -/
def putRule (m : Matching) (a : Access) (t : RuleTree) (n : Key) : Leaf :=
  match m with
  | .exact => { exactRule := some a, prefixRule := RuleTree.at t .byPrefix n }
  | .byPrefix => { exactRule := RuleTree.at t .exact n, prefixRule := some a }

theorem lookup_insertRule (m : Matching) (t : RuleTree) (r : Rule) (n : Key) :
    (insertRule m t r).lookup n =
      if n = r.segment then some (putRule m r.policy t n) else t.lookup n := by
  cases m <;> simp [insertRule, lookup_insertPolicyIntoRadix, putRule]

theorem lookup_foldl_insertRule (m : Matching) {rules : List Rule} (h : SegmentsUnique rules)
    (t : RuleTree) (n : Key) : (rules.foldl (insertRule m) t).lookup n =
      match ruleFor rules n with
      | none => t.lookup n
      | some a => some (putRule m a t n) := by
  induction rules generalizing t with
  | nil => rfl
  | cons r rules ih =>
    obtain ⟨hnew, hrest⟩ := nodup_cons.mp h
    rw [foldl_cons, ih hrest, ruleFor_cons]
    by_cases hn : r.segment = n
    · subst hn
      have hnone : ruleFor rules r.segment = none := ruleFor_eq_none_iff.mpr hnew
      simp [hnone, lookup_insertRule]
    · have hlookup : (insertRule m t r).lookup n = t.lookup n := by
        rw [lookup_insertRule, if_neg fun heq => hn heq.symm]
      have hput : ∀ a, putRule m a (insertRule m t r) n = putRule m a t n := by
        intro a
        simp [putRule, RuleTree.at, hlookup]
      simp [hn, hlookup, hput]

/-- The leaf for a path with the given rules, if there is any. -/
def leafOf : Option Access → Option Access → Option Leaf
  | none, none => none
  | e, p => some { exactRule := e, prefixRule := p }

variable {exact prefixes : List Rule}

theorem lookup_loadRules (he : SegmentsUnique exact) (hp : SegmentsUnique prefixes) (n : Key) :
    (loadRules exact prefixes).lookup n = leafOf (ruleFor exact n) (ruleFor prefixes n) := by
  unfold loadRules
  rw [lookup_foldl_insertRule _ hp]
  have hexact := lookup_foldl_insertRule .exact he Table.empty n
  cases hpn : ruleFor prefixes n <;> cases hen : ruleFor exact n <;>
    simp_all [putRule, RuleTree.at, leafOf]

theorem at_loadRules (he : SegmentsUnique exact) (hp : SegmentsUnique prefixes) (m : Matching)
    (n : Key) :
    RuleTree.at (loadRules exact prefixes) m n =
      match m with
      | .exact => ruleFor exact n
      | .byPrefix => ruleFor prefixes n := by
  unfold RuleTree.at
  rw [lookup_loadRules he hp]
  cases ruleFor exact n <;> cases ruleFor prefixes n <;> cases m <;> rfl

theorem filterMap_onPath (t : RuleTree) (n : Key) :
    (t.onPath n).filterMap (fun entry => entry.2.prefixRule) =
      n.inits.filterMap (RuleTree.at t .byPrefix) := by
  unfold Tree.onPath
  rw [filterMap_filterMap]
  refine congrArg (fun f => n.inits.filterMap f) (funext fun p => ?_)
  unfold RuleTree.at Tree.lookup
  cases t.first p <;> rfl

theorem getPolicy_eq (n : Key) (t : RuleTree) :
    getPolicy n t = (RuleTree.at t .exact n).or
      (n.inits.filterMap (RuleTree.at t .byPrefix)).getLast? := by
  rw [← filterMap_onPath]
  unfold getPolicy Tree.walkPath
  rw [Tree.onPath_eq_append]
  generalize hbefore : n.inits.dropLast.filterMap t.first = before
  have hne : ∀ e ∈ before, e.1 ≠ n := fun e he => Tree.ne_of_mem_dropLast (hbefore ▸ he)
  rw [Tree.walk_append fun b e he => by simp [hne e he]]
  -- On the way only rules for beginnings count, and each takes the place of the one before.
  have hfold : before.foldl (fun found e =>
      (if e.2.exactRule.isSome ∧ e.1 = n then (e.2.exactRule, true)
        else (e.2.prefixRule.or found, false)).1) none =
      (before.filterMap fun e => e.2.prefixRule).getLast? := by
    rw [foldl_ext _ (fun found e => e.2.prefixRule.or found) none
      fun found e he => by simp [hne e he], foldl_or, Option.or_none]
  rw [hfold]
  cases hfirst : t.first n with
  | none =>
    have hexact : RuleTree.at t .exact n = none := by simp [RuleTree.at, Tree.lookup, hfirst]
    simp [hexact, Tree.walk]
  | some entry =>
    obtain ⟨path, leaf⟩ := entry
    obtain rfl : path = n := Except.ok.inj (show pathOf (path, leaf) = .ok n from
      Table.key_of_first hfirst)
    have hexact : RuleTree.at t .exact path = leaf.exactRule := by
      simp [RuleTree.at, Tree.lookup, hfirst]
    rw [hexact]
    cases he : leaf.exactRule with
    | some a => simp [Tree.walk, he]
    | none => cases hp : leaf.prefixRule <;> simp [Tree.walk, he, hp]

theorem merged_tree {e p : Key → Option Access}
    (he : SegmentsUnique exact ∧ ∀ n, ruleFor exact n = e n)
    (hp : SegmentsUnique prefixes ∧ ∀ n, ruleFor prefixes n = p n) (n : Key) :
    (loadRules exact prefixes).lookup n = leafOf (e n) (p n) := by
  rw [lookup_loadRules he.1 hp.1, he.2, hp.2]

/-! ## Decisions -/

/-- The kinds of resources whose names are looked up. -/
inductive Resource where
  | plain (f : Family)
  | service

/-- What can be asked about a name. Only keys can be listed. -/
inductive Verb : Resource → Type where
  | read (r : Resource) : Verb r
  | write (r : Resource) : Verb r
  | list : Verb (.plain .key)

def Verb.required {r : Resource} : Verb r → Access
  | read _ => .read
  | write _ => .write
  | list => .list

/-- The answer of an authorizer. -/
def Authorizer.decides (a : Authorizer) : (r : Resource) → Verb r → Key → Bool
  | _, .read (.plain .agent) => a.agentRead
  | _, .write (.plain .agent) => a.agentWrite
  | _, .read (.plain .key) => a.keyRead
  | _, .write (.plain .key) => a.keyWrite
  | _, .list => a.keyList
  | _, .read (.plain .node) => a.nodeRead
  | _, .write (.plain .node) => a.nodeWrite
  | _, .read (.plain .session) => a.sessionRead
  | _, .write (.plain .session) => a.sessionWrite
  | _, .read (.plain .event) => a.eventRead
  | _, .write (.plain .event) => a.eventWrite
  | _, .read (.plain .preparedQuery) => a.preparedQueryRead
  | _, .write (.plain .preparedQuery) => a.preparedQueryWrite
  | _, .read .service => a.serviceRead
  | _, .write .service => a.serviceWrite

def PolicyAuthorizer.tree (p : PolicyAuthorizer) : Resource → RuleTree
  | .plain .agent => p.agentRules
  | .plain .key => p.keyRules
  | .plain .node => p.nodeRules
  | .plain .session => p.sessionRules
  | .plain .event => p.eventRules
  | .plain .preparedQuery => p.preparedQueryRules
  | .service => p.serviceRules

theorem byRule_some (a required : Access) (parent : Bool) :
    PolicyAuthorizer.byRule (some a) required parent = (enforce (some a) required).1 := by
  cases a <;> cases required <;> rfl

theorem decides_eq (p : PolicyAuthorizer) (r : Resource) (v : Verb r) (n : Key) :
    p.toAuthorizer.decides r v n = PolicyAuthorizer.byRule (getPolicy n (p.tree r)) v.required
      (p.parent.decides r v n) := by
  cases v with
  | list => rfl
  | read => rcases r with f | _ <;> [cases f; skip] <;> rfl
  | write => rcases r with f | _ <;> [cases f; skip] <;> rfl

/-- What the rules of all policies grant for one segment. -/
def granted (policies : List (Policy ServicePolicy)) (r : Resource) (m : Matching) (n : Key) :
    List Access :=
  match r with
  | .plain f => accessFor (rulesOf policies f m) n
  | .service => policiesFor (servicesOf policies m) n

/-- The longest beginning of a name for which any policy has a rule. -/
def longestPrefix (policies : List (Policy ServicePolicy)) (r : Resource) (n : Key) : Option Key :=
  (n.inits.filter fun p => granted policies r .byPrefix p ≠ []).getLast?

/-- The rules that govern a name: all exact rules for it, or else all rules for its longest
beginning that has any. -/
def governing (policies : List (Policy ServicePolicy)) (r : Resource) (n : Key) : List Access :=
  if granted policies r .exact n ≠ [] then granted policies r .exact n
  else
    match longestPrefix policies r n with
    | some p => granted policies r .byPrefix p
    | none => []

/-- The strongest of the rules that govern a name decides, and the parent when there is none. -/
def referenceDecision (parent : Authorizer) (policies : List (Policy ServicePolicy)) (r : Resource)
    (v : Verb r) (n : Key) : Bool :=
  match (governing policies r n).max? with
  | some rule => (enforce (some rule) v.required).1
  | none => parent.decides r v n

section Decisions

variable [Blake2b] {policies policies' : List (Policy ServicePolicy)}

theorem at_tree (order : MapOrder) (parent : Authorizer) (policies : List StoredPolicy)
    (heap : Heap) (r : Resource) (m : Matching) (n : Key) :
    RuleTree.at ((newPolicyAuthorizer order parent policies heap).1.tree r) m n =
      (granted (policies.map heap.load) r m n).max? := by
  rcases r with f | _
  · obtain ⟨he, hen⟩ := merged_rules order policies heap f .exact
    obtain ⟨hp, hpn⟩ := merged_rules order policies heap f .byPrefix
    have htree : (newPolicyAuthorizer order parent policies heap).1.tree (.plain f) =
        loadRules ((mergedPolicy order policies heap).rules f .exact)
          ((mergedPolicy order policies heap).rules f .byPrefix) := by
      cases f <;> rfl
    rw [htree, at_loadRules he hp]
    cases m with
    | exact => exact hen n
    | byPrefix => exact hpn n
  · obtain ⟨he, hen⟩ := merged_service_rules order policies heap .exact
    obtain ⟨hp, hpn⟩ := merged_service_rules order policies heap .byPrefix
    have htree : (newPolicyAuthorizer order parent policies heap).1.tree .service =
        loadRules (((mergedPolicy order policies heap).services .exact).map ServicePolicy.rule)
          (((mergedPolicy order policies heap).services .byPrefix).map ServicePolicy.rule) := rfl
    rw [htree, at_loadRules he hp]
    cases m with
    | exact => exact hen n
    | byPrefix => exact hpn n

omit [Blake2b] in
theorem getLast?_filterMap {α β : Type} (f : α → Option β) (l : List α) :
    (l.filterMap f).getLast? = (l.filter fun a => (f a).isSome).getLast?.bind f := by
  induction l using List.reverseRecOn with
  | nil => rfl
  | append_singleton l a ih => cases h : f a <;> simp [h, ih]

theorem getPolicy_tree (order : MapOrder) (parent : Authorizer) (policies : List StoredPolicy)
    (heap : Heap) (r : Resource) (n : Key) :
    getPolicy n ((newPolicyAuthorizer order parent policies heap).1.tree r) =
      (governing (policies.map heap.load) r n).max? := by
  have hprefix : n.inits.filterMap (RuleTree.at
      ((newPolicyAuthorizer order parent policies heap).1.tree r) .byPrefix) =
      n.inits.filterMap fun p => (granted (policies.map heap.load) r .byPrefix p).max? :=
    congrArg (fun f => n.inits.filterMap f) (funext fun p => at_tree ..)
  have hsome : ∀ l : List Access, l.max?.isSome = decide (l ≠ []) := by
    intro l
    cases l <;> rfl
  rw [getPolicy_eq, at_tree, hprefix, getLast?_filterMap]
  simp only [hsome]
  unfold governing longestPrefix
  by_cases hexact : granted (policies.map heap.load) r .exact n = []
  · rw [if_neg (not_not.mpr hexact), hexact, max?_nil, Option.none_or]
    cases (n.inits.filter fun p => granted (policies.map heap.load) r .byPrefix p ≠ []).getLast? <;>
      rfl
  · rw [if_pos hexact]
    obtain ⟨a, ha⟩ := Option.isSome_iff_exists.mp ((hsome _).trans (decide_eq_true hexact))
    rw [ha, Option.some_or]

omit [Blake2b] in
theorem mem_granted_congr (h : ∀ p, p ∈ policies' ↔ p ∈ policies) (r : Resource) (m : Matching)
    (n : Key) (a : Access) : a ∈ granted policies' r m n ↔ a ∈ granted policies r m n := by
  rcases r with f | _
  · simp [granted, accessFor, rulesOf, h]
  · simp [granted, policiesFor_eq, servicesOf, h]

omit [Blake2b] in
theorem referenceDecision_congr (h : ∀ p, p ∈ policies' ↔ p ∈ policies) (parent : Authorizer)
    (r : Resource) (v : Verb r) (n : Key) :
    referenceDecision parent policies' r v n = referenceDecision parent policies r v n := by
  have hmem := mem_granted_congr h r
  have hempty : ∀ m n, granted policies' r m n = [] ↔ granted policies r m n = [] := by
    intro m n
    simp [eq_nil_iff_forall_not_mem, hmem]
  have hlongest : longestPrefix policies' r n = longestPrefix policies r n := by
    unfold longestPrefix
    simp [hempty]
  have hgoverning : (governing policies' r n).max? = (governing policies r n).max? := by
    refine max?_congr fun a => ?_
    unfold governing
    simp only [ne_eq, hempty, hlongest]
    split
    · exact hmem .exact n a
    · split
      · exact hmem .byPrefix _ a
      · exact Iff.rfl
  unfold referenceDecision
  rw [hgoverning]

/-- The authorizer of a list of policies decides by the strongest of the rules that govern a
name, and the parent when there is none. So neither the order of the policies nor how often they
stand in the list makes a difference. -/
theorem decisions_follow_the_strongest_rule (order : MapOrder) (parent : Authorizer)
    (policies : List StoredPolicy) (heap : Heap) (r : Resource) (v : Verb r) (n : Key) :
    (newPolicyAuthorizer order parent policies heap).1.toAuthorizer.decides r v n =
        referenceDecision parent (policies.map heap.load) r v n ∧
      ∀ order' policies' heap', (∀ p, p ∈ policies'.map heap'.load ↔ p ∈ policies.map heap.load) →
        (newPolicyAuthorizer order' parent policies' heap').1.toAuthorizer.decides r v n =
          (newPolicyAuthorizer order parent policies heap).1.toAuthorizer.decides r v n := by
  have hreference : ∀ order policies heap,
      (newPolicyAuthorizer order parent policies heap).1.toAuthorizer.decides r v n =
        referenceDecision parent (policies.map heap.load) r v n := by
    intro order policies heap
    rw [decides_eq, getPolicy_tree]
    unfold referenceDecision
    cases (governing (policies.map heap.load) r n).max? with
    | none => rfl
    | some a => exact byRule_some a v.required _
  refine ⟨hreference order policies heap, fun order' policies' heap' h => ?_⟩
  rw [hreference, hreference, referenceDecision_congr h]

end Decisions

/-! ## What an authorizer depends on -/

theorem loadRules_congr {exact' prefixes' : List Rule} {e p : Key → Option Access}
    (he : SegmentsUnique exact ∧ ∀ n, ruleFor exact n = e n)
    (hp : SegmentsUnique prefixes ∧ ∀ n, ruleFor prefixes n = p n)
    (he' : SegmentsUnique exact' ∧ ∀ n, ruleFor exact' n = e n)
    (hp' : SegmentsUnique prefixes' ∧ ∀ n, ruleFor prefixes' n = p n) :
    loadRules exact prefixes = loadRules exact' prefixes' :=
  Tree.ext_lookup fun n => (merged_tree he hp n).trans (merged_tree he' hp' n).symm

/-- A policy without its ID and version. -/
def Policy.content {ρ : Type} (p : Policy ρ) : Policy ρ := { p with id := "", revision := 0 }

variable {vs vs' : List (Policy ServicePolicy)}

theorem foldl_content {β : Type} {f : β → Policy ServicePolicy → β}
    (hf : ∀ b p, f b p.content = f b p) (h : vs.map Policy.content = vs'.map Policy.content)
    (b : β) : vs.foldl f b = vs'.foldl f b := by
  have hcontent : ∀ l : List (Policy ServicePolicy),
      (l.map Policy.content).foldl f b = l.foldl f b := by
    intro l
    rw [foldl_map]
    simp [hf]
  rw [← hcontent, h, hcontent]

theorem flatMap_content {β : Type} {f : Policy ServicePolicy → List β} (hf : ∀ p, f p.content = f p)
    (h : vs.map Policy.content = vs'.map Policy.content) : vs.flatMap f = vs'.flatMap f := by
  have hcontent : ∀ l : List (Policy ServicePolicy),
      (l.map Policy.content).flatMap f = l.flatMap f := by
    intro l
    rw [flatMap_map]
    simp [hf]
  rw [← hcontent, h, hcontent]

section Content

variable [Blake2b]

theorem merged_single (order : MapOrder) (policies : List StoredPolicy) (heap : Heap) :
    (mergedPolicy order policies heap).acl =
        (policies.map heap.load).foldl (fun b p => stronger p.acl b) none ∧
      (mergedPolicy order policies heap).keyring =
        (policies.map heap.load).foldl (fun b p => stronger p.keyring b) none ∧
      (mergedPolicy order policies heap).operator =
        (policies.map heap.load).foldl (fun b p => stronger p.operator b) none := by
  simp [mergedPolicy, mergePolicies, Heap.load, foldl_mergePolicy, foldl_map]

theorem newPolicyAuthorizer_congr {order order' : MapOrder} {parent : Authorizer}
    {policies policies' : List StoredPolicy} {heap heap' : Heap}
    (h : (policies.map heap.load).map Policy.content =
      (policies'.map heap'.load).map Policy.content) :
    (newPolicyAuthorizer order parent policies heap).1 =
      (newPolicyAuthorizer order' parent policies' heap').1 := by
  have hrules : ∀ f m,
      rulesOf (policies.map heap.load) f m = rulesOf (policies'.map heap'.load) f m :=
    fun f m => flatMap_content (fun _ => rfl) h
  have hservices : ∀ m,
      servicesOf (policies.map heap.load) m = servicesOf (policies'.map heap'.load) m :=
    fun m => flatMap_content (fun _ => rfl) h
  have htree : ∀ f, loadRules ((mergedPolicy order policies heap).rules f .exact)
      ((mergedPolicy order policies heap).rules f .byPrefix) =
      loadRules ((mergedPolicy order' policies' heap').rules f .exact)
        ((mergedPolicy order' policies' heap').rules f .byPrefix) := fun f =>
    loadRules_congr (merged_rules ..) (merged_rules ..) (hrules f .exact ▸ merged_rules ..)
      (hrules f .byPrefix ▸ merged_rules ..)
  obtain ⟨hacl, hkeyring, hoperator⟩ := merged_single order policies heap
  obtain ⟨hacl', hkeyring', hoperator'⟩ := merged_single order' policies' heap'
  rw [foldl_content (fun _ _ => rfl) h, ← hacl'] at hacl
  rw [foldl_content (fun _ _ => rfl) h, ← hkeyring'] at hkeyring
  rw [foldl_content (fun _ _ => rfl) h, ← hoperator'] at hoperator
  rw [PolicyAuthorizer.mk.injEq]
  refine ⟨rfl, hacl, htree .agent, ?_, htree .key, htree .node, ?_, htree .session,
    htree .event, htree .preparedQuery, hkeyring, hoperator⟩
  · exact loadRules_congr (merged_intention_rules ..) (merged_intention_rules ..)
      (hservices .exact ▸ merged_intention_rules ..)
      (hservices .byPrefix ▸ merged_intention_rules ..)
  · exact loadRules_congr (merged_service_rules ..) (merged_service_rules ..)
      (hservices .exact ▸ merged_service_rules ..) (hservices .byPrefix ▸ merged_service_rules ..)

end Content

section Example

/-- A hash that keeps all bytes. -/
@[reducible] def keepBytes : Blake2b where
  sum256 := id
  hex bytes := String.ofList (bytes.map fun b => Char.ofNat b.val)
  sum256_injective := Function.injective_id
  hex_injective := by
    intro a b h
    have hchars := congrArg String.toList h
    simp only [String.toList_ofList] at hchars
    refine List.map_injective_iff.mpr (fun x y hxy => ?_) hchars
    have hval := congrArg Char.toNat hxy
    have hsmall : ∀ z : Byte, (Char.ofNat z.val).toNat = z.val := by
      intro z
      have hvalid : z.val.isValidChar := .inl (by omega)
      unfold Char.ofNat
      rw [dif_pos hvalid]
      rfl
    exact Fin.ext (by rw [← hsmall x, ← hsmall y, hval])

attribute [local instance] keepBytes

def insertionOrder : MapOrder where
  rules := id
  addresses := id
  rules_perm := .refl
  addresses_perm := .refl

def emptyHeap : Heap where
  cells _ _ := { name := [], policy := .deny }

/-- A policy with one rule for the keys that begin with `segment`. -/
def keyPrefixPolicy (segment : Key) (policy : Access) : StoredPolicy where
  rules f m := if f = .key ∧ m = .byPrefix then [{ segment := segment, policy := policy }] else []

theorem a_longer_beginning_decides :
    (newPolicyAuthorizer insertionOrder denyAll
      [keyPrefixPolicy [1] .read, keyPrefixPolicy [1, 2] .write] emptyHeap).1.toAuthorizer.decides
        (.plain .key) (.write _) [1, 2, 3] = true ∧
      (newPolicyAuthorizer insertionOrder denyAll
        [keyPrefixPolicy [1, 2] .write, keyPrefixPolicy [1] .read, keyPrefixPolicy [1, 2] .write]
          emptyHeap).1.toAuthorizer.decides (.plain .key) (.write _) [1, 2, 3] = true := by
  obtain ⟨hreference, hsame⟩ := decisions_follow_the_strongest_rule insertionOrder denyAll
    [keyPrefixPolicy [1] .read, keyPrefixPolicy [1, 2] .write] emptyHeap (.plain .key) (.write _)
    [1, 2, 3]
  have htrue : referenceDecision denyAll
      ([keyPrefixPolicy [1] .read, keyPrefixPolicy [1, 2] .write].map emptyHeap.load)
      (.plain .key) (.write _) [1, 2, 3] = true := by decide
  refine ⟨hreference.trans htrue, (hsame _ _ _ fun p => ?_).trans (hreference.trans htrue)⟩
  simp only [map_cons, map_nil, mem_cons, not_mem_nil, or_false]
  tauto

end Example

end OpenGyoza
