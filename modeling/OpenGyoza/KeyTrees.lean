-- Trees of keys are deleted with one permission for the whole tree. It should
-- never reach a key that the token may not delete alone.
import OpenGyoza.TxnEndpoint

namespace OpenGyoza

open Memdb PrefixTree Table List

/-! ## The rules above and below a path -/

/-- The rule for the longest beginning of a path. -/
def ruleAbove (t : RuleTree) (path : Key) : Option Access :=
  (path.inits.filterMap (RuleTree.at t .byPrefix)).getLast?

/-- No rule at a path or below it forbids to write. -/
def WritableBelow (t : RuleTree) (path : Key) : Prop :=
  ∀ q m a, path <+: q → RuleTree.at t m q = some a → a = .write

theorem walkPath_above {β : Type} {visit : β → Key → Leaf → β × Bool} {f : Access → β}
    (h : ∀ b q leaf, visit b q leaf = ((leaf.prefixRule.map f).getD b, false)) (t : RuleTree)
    (path : Key) (b : β) : t.walkPath path visit b = ((ruleAbove t path).map f).getD b := by
  unfold Tree.walkPath ruleAbove
  rw [← filterMap_onPath, ← getLast?_map, map_filterMap, ← foldl_getD,
    Tree.walk_eq_foldl fun b e _ => by rw [h]]
  simp only [h]

theorem walkPrefix_below (t : RuleTree) (path : Key) :
    t.walkPrefix path (fun denied _ leaf =>
      if leaf.prefixRule.any (· ≠ .write) then (true, true)
      else if leaf.exactRule.any (· ≠ .write) then (true, true)
      else (denied, false)) false = false ↔ WritableBelow t path := by
  unfold Tree.walkPrefix
  rw [Tree.walk_eq_any fun _ leaf =>
    leaf.prefixRule.any (· ≠ .write) || leaf.exactRule.any (· ≠ .write), any_eq_false]
  · constructor
    · intro h q m a hq ha
      obtain ⟨leaf, hleaf, hrule⟩ := Option.bind_eq_some_iff.mp ha
      have hfirst : t.first q = some (q, leaf) := by simp [Tree.first_eq, hleaf]
      have hmem : (q, leaf) ∈ t.under path :=
        mem_get.mpr ⟨mem_values_of_first hfirst, by simpa using hq⟩
      have hnot := h (q, leaf) hmem
      cases m <;> simp_all
    · rintro h ⟨q, leaf⟩ hmem
      obtain ⟨hvalue, hq⟩ := mem_get.mp hmem
      have hfirst : t.first q = some (q, leaf) := first_of_mem hvalue rfl
      have hat : ∀ m a, RuleTree.at t m q = some a → a = .write := fun m a =>
        h q m a (by simpa using hq)
      simp only [RuleTree.at, Tree.lookup, hfirst] at hat
      have hexact := hat .exact
      have hprefix := hat .byPrefix
      simp_all [Option.any_eq_true]
  · intro denied q leaf
    cases leaf.prefixRule.any (· ≠ .write) <;> cases leaf.exactRule.any (· ≠ .write) <;> rfl

theorem keyWritePrefix_iff (p : PolicyAuthorizer) (path : Key) :
    p.keyWritePrefix path = true ↔
      (match ruleAbove p.keyRules path with
        | some rule => rule = .write
        | none => p.parent.keyWritePrefix path = true) ∧ WritableBelow p.keyRules path := by
  unfold PolicyAuthorizer.keyWritePrefix
  dsimp only
  rw [walkPath_above (f := fun rule => (true, rule == .write)), ← walkPrefix_below]
  · generalize p.keyRules.walkPrefix path _ false = denied
    cases ruleAbove p.keyRules path <;> cases p.parent.keyWritePrefix path <;> simp
  · intro state q leaf
    cases leaf.prefixRule <;> rfl

theorem getPolicy_below {t : RuleTree} {path k : Key} (hk : path <+: k)
    (hbelow : WritableBelow t path) :
    getPolicy k t = some .write ∨ getPolicy k t = ruleAbove t path := by
  obtain ⟨rest, rfl⟩ := hk
  have hexact : ∀ a, RuleTree.at t .exact (path ++ rest) = some a → a = .write :=
    fun a => hbelow _ .exact a (prefix_append _ _)
  rw [getPolicy_eq, inits_append, filterMap_append, getLast?_append]
  cases he : RuleTree.at t .exact (path ++ rest) with
  | some a => simp [hexact a he]
  | none =>
    rw [Option.none_or]
    cases hlast : ((rest.inits.tail.map (path ++ ·)).filterMap
        (RuleTree.at t .byPrefix)).getLast? with
    | none => exact .inr (by rw [Option.none_or]; rfl)
    | some a =>
      obtain ⟨q, hq, ha⟩ := mem_filterMap.mp (mem_of_getLast? hlast)
      obtain ⟨l, -, rfl⟩ := mem_map.mp hq
      left
      rw [Option.some_or, hbelow _ .byPrefix a (prefix_append _ _) ha]

/-! ## Chains of authorizers -/

/-- The permission for a tree of keys covers each of its keys. -/
def Authorizer.CoversTrees (a : Authorizer) : Prop :=
  ∀ path k, path <+: k → a.keyWritePrefix path = true → a.keyWrite k = true

theorem PolicyAuthorizer.coversTrees {p : PolicyAuthorizer} (h : p.parent.CoversTrees) :
    p.toAuthorizer.CoversTrees := by
  intro path k hk hallowed
  obtain ⟨habove, hbelow⟩ := (keyWritePrefix_iff p path).mp hallowed
  change byTree p.keyRules k .write p.parent.keyWrite = true
  unfold byTree
  rcases getPolicy_below hk hbelow with hrule | hrule
  · rw [hrule, byRule_some]
    rfl
  · rw [hrule]
    cases hfound : ruleAbove p.keyRules path with
    | some rule =>
      rw [hfound] at habove
      rw [byRule_some, show rule = .write from habove]
      rfl
    | none =>
      rw [hfound] at habove
      exact h path k hk habove

section Laws

variable [Blake2b]

/-- The authorizers of tokens: policies over policies, and at the end an answer for all. -/
inductive AuthorizerChain : Authorizer → Prop
  | static (allowManage defaultAllow : Bool) :
      AuthorizerChain (staticAuthorizer allowManage defaultAllow)
  | policies (order : MapOrder) {parent : Authorizer} (policies : List StoredPolicy) (heap : Heap)
      (hparent : AuthorizerChain parent) :
      AuthorizerChain (newPolicyAuthorizer order parent policies heap).1.toAuthorizer

theorem AuthorizerChain.coversTrees {a : Authorizer} (h : AuthorizerChain a) : a.CoversTrees := by
  induction h with
  | static => exact fun _ _ _ h => h
  | policies order policies heap _ ih => exact PolicyAuthorizer.coversTrees ih

/-! ## Deletes of trees -/

/-- A policy that forbids one key. -/
def denyKeyPolicy (k : Key) : StoredPolicy where
  rules f m := if f = .key ∧ m = .exact then [{ segment := k, policy := .deny }] else []

/-- Allows all keys but one. -/
def allButKey (k : Key) : PolicyAuthorizer :=
  (newPolicyAuthorizer insertionOrder allowAll [denyKeyPolicy k] emptyHeap).1

theorem at_allButKey (k : Key) (m : Matching) (q : Key) :
    RuleTree.at (allButKey k).keyRules m q = if m = .exact ∧ k = q then some .deny else none := by
  have htree := at_tree insertionOrder allowAll [denyKeyPolicy k] emptyHeap
    (.plain .key) m q
  refine htree.trans ?_
  have hrules : rulesOf ([denyKeyPolicy k].map emptyHeap.load) .key m =
      if m = .exact then [{ segment := k, policy := .deny }] else [] := by
    simp [rulesOf, Heap.load, denyKeyPolicy]
  rw [granted, hrules]
  by_cases hm : m = .exact <;> by_cases hq : k = q <;> simp [accessFor, hm, hq]

theorem allButKey_keyWrite (k : Key) : (allButKey k).toAuthorizer.keyWrite k = false := by
  change PolicyAuthorizer.byTree (allButKey k).keyRules k .write _ = false
  unfold PolicyAuthorizer.byTree
  rw [getPolicy_eq, at_allButKey, if_pos ⟨rfl, rfl⟩, Option.some_or, byRule_some]
  rfl

theorem allButKey_keyWritePrefix (k : Key) (b : Byte) :
    (allButKey k).toAuthorizer.keyWritePrefix (k ++ [b]) = true := by
  refine (keyWritePrefix_iff _ _).mpr ⟨?_, fun q m a hq ha => ?_⟩
  · have habove : ruleAbove (allButKey k).keyRules (k ++ [b]) = none := by
      simp [ruleAbove, at_allButKey]
    rw [habove]
    rfl
  · rw [at_allButKey] at ha
    split at ha
    · rename_i hrule
      obtain ⟨-, rfl⟩ := hrule
      have hlength := hq.length_le
      simp at hlength
    · cases ha

variable [External]

omit [Blake2b] in
theorem removed_key {idx : Nat} {path k : Key} {e : DirEntry} {s s' : State}
    (hrun : kvsDeleteTreeTxn idx path s = (.ok (), s')) (he : s.kvs.first k = some e) :
    s'.kvs.first k = none ↔ path <+: k ∨ path = k ++ [0] := by
  obtain ⟨rfl, -⟩ := key_of_kvs_first he
  rw [kvsDeleteTreeTxn_eq] at hrun
  obtain ⟨-, rfl⟩ := Prod.mk.inj hrun
  rw [removeTree_kvs, first_keep, he, Option.filter_some, ← underPrefix_iff]
  simp

omit [Blake2b] [External] in
theorem kvsPreApply_deleteTree {delayed : Key → Bool} {rule : Option Authorizer}
    {entry : DirEntry} :
    kvsPreApply delayed rule .deleteTree entry = .ok true ↔
      ∀ a ∈ rule, a.keyWritePrefix entry.key = true := by
  cases rule <;> simp [kvsPreApply]

omit [Blake2b] [External] in
theorem kvsPreApply_delete {delayed : Key → Bool} {rule : Option Authorizer} {entry : DirEntry} :
    kvsPreApply delayed rule .delete entry = .ok true ↔
      entry.key ≠ [] ∧ ∀ a ∈ rule, a.keyWrite entry.key = true := by
  cases rule <;> by_cases hkey : entry.key = [] <;> simp [kvsPreApply, hkey]

/-- A token that may write a tree may write each key below it. A delete of a tree that is
admitted takes away only keys whose delete would be admitted, for all authorizers, exactly when
it does not reach for a stored key by the zero byte that ends it in the index. -/
theorem tree_deletes_stay_below (entry : DirEntry) (s : State) :
    (∀ a, AuthorizerChain a → ∀ path k, path <+: k → a.keyWritePrefix path = true →
      a.keyWrite k = true) ∧
    ((∀ (rule : Option Authorizer) (delayed : Key → Bool) (idx : Nat) (s' : State) (k : Key),
        (∀ a ∈ rule, AuthorizerChain a) →
        kvsPreApply delayed rule .deleteTree entry = .ok true →
        kvsDeleteTreeTxn idx entry.key s = (.ok (), s') →
        s.kvs.first k ≠ none → s'.kvs.first k = none →
        kvsPreApply delayed rule .delete { key := k } = .ok true) ↔
      ∀ k, entry.key = k ++ [0] → s.kvs.first k = none) := by
  refine ⟨fun a ha => ha.coversTrees, ?_, ?_⟩
  · intro h k hkey
    by_contra hstored
    obtain ⟨e, he⟩ := Option.ne_none_iff_exists'.mp hstored
    have hchain : AuthorizerChain (allButKey k).toAuthorizer := .policies _ _ _ (.static _ _)
    have hdelete := h (some (allButKey k).toAuthorizer) (fun _ => false) 0 _ k
      (by simpa using hchain)
      (kvsPreApply_deleteTree.mpr (by simp [hkey, allButKey_keyWritePrefix]))
      (kvsDeleteTreeTxn_eq 0 entry.key s) hstored
      ((removed_key (kvsDeleteTreeTxn_eq 0 entry.key s) he).mpr (.inr hkey))
    have hwrite := (kvsPreApply_delete.mp hdelete).2 _ rfl
    rw [allButKey_keyWrite] at hwrite
    cases hwrite
  · intro h rule delayed idx s' k hchain hadmitted hrun hstored hremoved
    obtain ⟨e, he⟩ := Option.ne_none_iff_exists'.mp hstored
    rw [kvsPreApply_deleteTree] at hadmitted
    refine kvsPreApply_delete.mpr ⟨(key_of_kvs_first he).2, fun a ha => ?_⟩
    rcases (removed_key hrun he).mp hremoved with hbelow | hends
    · exact (hchain a ha).coversTrees entry.key k hbelow (hadmitted a ha)
    · exact absurd (h k hends) hstored

end Laws

section Example

attribute [local instance] ascii keepBytes

/-- The key `k`, which the token may not write. -/
def guardedKey : LogEntry :=
  { index := 1, command := .call (.kvsSet { key := bytesOf "k", value := bytesOf "v" }) }

/-- A delete of the tree under `k` and a zero byte is admitted for a token that may not write
`k`, and takes away `k`. -/
theorem a_zero_byte_reaches_a_guarded_key :
    let s := replay [guardedKey] .empty
    let rule := some (allButKey (bytesOf "k")).toAuthorizer
    kvsPreApply (fun _ => false) rule .deleteTree { key := bytesOf "k" ++ [0] } = .ok true ∧
      kvsPreApply (fun _ => false) rule .delete { key := bytesOf "k" } =
        .error errPermissionDenied ∧
      (s.kvs.first (bytesOf "k")).isSome ∧
      ((kvsDeleteTreeTxn 2 (bytesOf "k" ++ [0]) s).2.kvs.first (bytesOf "k")) = none := by
  decide +kernel

end Example

end OpenGyoza
