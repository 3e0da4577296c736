-- Policies that are compiled into authorizers with a cache. Parsed policies
-- are kept by the hash of their content, and authorizers by the IDs and
-- versions of their policies. A merge changes the rules that it finds in
-- the cache, so what was compiled before can change what is compiled now.
import OpenGyoza.AclDecisions

namespace OpenGyoza

open Memdb PrefixTree List Policy

section Caches

variable [External] [Hcl] [Blake2b] {v : Policy ServicePolicy} {policies' : List ACLPolicy}

/-! ## The cache -/

/-- What is cached, and the heap with the rules of the cached policies. -/
structure CacheState where
  parsedPolicies : String → Option StoredPolicy := fun _ => none
  authorizers : String → Option PolicyAuthorizer := fun _ => none
  heap : Heap

/-- Which keys a cache drops when something is put into it. -/
abbrev Drops := String → Bool

def keep {α : Type} (drops : Drops) (entries : String → Option α) : String → Option α :=
  fun key => if drops key then none else entries key

/-- The hash of a policy, which is computed when it is not set. -/
def ACLPolicy.setHash (p : ACLPolicy) : List Byte :=
  if p.hash = [] then
    Blake2b.sum256 (bytesOf p.name ++ bytesOf p.description ++ bytesOf p.rules ++
      p.datacenters.flatMap bytesOf)
  else p.hash

def ACLPolicy.cacheKey (p : ACLPolicy) : String := Blake2b.hex p.setHash

def hashKey (policies : List ACLPolicy) : String :=
  Blake2b.hex (Blake2b.sum256 (policies.flatMap fun p => bytesOf p.id ++ bigEndian p.modifyIndex))

def ACLPolicy.parse (p : ACLPolicy) : Except String (Policy ServicePolicy) :=
  newPolicyFromSource p.id p.modifyIndex p.rules p.syntaxVersion

def ACLPolicy.parseError (p : ACLPolicy) (err : String) : String :=
  "failed to parse " ++ quote p.name ++ ": " ++ err

def resolveWithCache (drops : Nat → Drops) :
    Nat → List ACLPolicy → CacheState → Except String (List StoredPolicy) × CacheState
  | _, [], s => (.ok [], s)
  | i, policy :: policies, s =>
    match s.parsedPolicies policy.cacheKey with
    | some cached =>
      let (rest, s') := resolveWithCache drops (i + 1) policies s
      (rest.map (cached :: ·), s')
    | none =>
      match policy.parse with
      | .error err => (.error (policy.parseError err), s)
      | .ok p =>
        let (stored, heap) := s.heap.store p
        let (rest, s') := resolveWithCache drops (i + 1) policies { s with
          heap := heap
          parsedPolicies := keep (drops i)
            (Function.update s.parsedPolicies policy.cacheKey (some stored)) }
        (rest.map (stored :: ·), s')

/-- How Go and the cache behave in one call. -/
structure Circumstances where
  order : MapOrder
  parsedDrops : Nat → Drops := fun _ _ => false
  authorizerDrops : Drops := fun _ => false

def compile (c : Circumstances) (parent : Authorizer) (policies : List ACLPolicy)
    (s : CacheState) : Except String PolicyAuthorizer × CacheState :=
  match s.authorizers (hashKey policies) with
  | some authorizer => (.ok authorizer, s)
  | none =>
    match resolveWithCache c.parsedDrops 0 policies s with
    | (.error err, s') => (.error ("failed to parse the ACL policies: " ++ err), s')
    | (.ok parsed, s') =>
      let (authorizer, heap) := newPolicyAuthorizer c.order parent parsed s'.heap
      (.ok authorizer, { s' with
        heap := heap
        authorizers := keep c.authorizerDrops
          (Function.update s'.authorizers (hashKey policies) (some authorizer)) })

def merge (c : Circumstances) (policies : List ACLPolicy) (s : CacheState) :
    Except String StoredPolicy × CacheState :=
  match resolveWithCache c.parsedDrops 0 policies s with
  | (.error err, s') => (.error err, s')
  | (.ok parsed, s') =>
    let (merged, heap) := mergePolicies c.order parsed s'.heap
    (.ok merged, { s' with heap := heap })

/-- What happens to a cache. -/
inductive CacheCall where
  | compile (c : Circumstances) (parent : Authorizer) (policies : List ACLPolicy)
  | merge (c : Circumstances) (policies : List ACLPolicy)
  | evict (parsed authorizers : Drops)

def CacheCall.run (s : CacheState) : CacheCall → CacheState
  | compile c parent policies => (OpenGyoza.compile c parent policies s).2
  | merge c policies => (OpenGyoza.merge c policies s).2
  | evict parsed authorizers =>
    { s with
      parsedPolicies := keep parsed s.parsedPolicies
      authorizers := keep authorizers s.authorizers }

def runCalls (calls : List CacheCall) (s : CacheState) : CacheState := calls.foldl CacheCall.run s

def CacheCall.policies : CacheCall → List ACLPolicy
  | compile _ _ policies => policies
  | merge _ policies => policies
  | evict _ _ => []

def emptyCache (heap : Heap) : CacheState := { heap := heap }

/-! ## The heap only grows -/

section Heap

/-- Every address of the policy was given out. -/
def StoredPolicy.Within (p : StoredPolicy) (heap : Heap) : Prop :=
  ∀ m, ∀ a ∈ p.services m, a < heap.next

/-- Nothing that was in the heap is changed. -/
structure Heap.Grows (heap heap' : Heap) : Prop where
  next : heap.next ≤ heap'.next
  cells : ∀ m, ∀ a < heap.next, heap'.cells m a = heap.cells m a

omit [External] [Hcl] [Blake2b]

theorem Heap.Grows.refl (heap : Heap) : heap.Grows heap := ⟨le_rfl, fun _ _ _ => rfl⟩

variable {heap heap' : Heap}

theorem Heap.Grows.trans {heap'' : Heap} (h : heap.Grows heap') (h' : heap'.Grows heap'') :
    heap.Grows heap'' :=
  ⟨h.next.trans h'.next, fun m a ha =>
    (h'.cells m a (ha.trans_le h.next)).trans (h.cells m a ha)⟩

theorem Heap.Grows.within (h : heap.Grows heap') {p : StoredPolicy} (hp : p.Within heap) :
    p.Within heap' :=
  fun m a ha => (hp m a ha).trans_le h.next

theorem Heap.Grows.load (h : heap.Grows heap') {p : StoredPolicy} (hp : p.Within heap) :
    heap'.load p = heap.load p := by
  have hservices : ∀ m, (p.services m).map (heap'.cells m) = (p.services m).map (heap.cells m) :=
    fun m => map_congr_left fun a ha => h.cells m a (hp m a ha)
  unfold Heap.load
  simp [hservices]

theorem Heap.store_grows (heap : Heap) (p : Policy ServicePolicy) :
    heap.Grows (heap.store p).2 := by
  refine ⟨?_, fun m a ha => ?_⟩
  · show heap.next ≤ heap.next + (p.services .exact).length + (p.services .byPrefix).length
    omega
  · exact if_pos ha

theorem Heap.store_within (heap : Heap) (p : Policy ServicePolicy) :
    StoredPolicy.Within (heap.store p).1 (heap.store p).2 := by
  intro m a ha
  obtain ⟨i, hi, rfl⟩ := mem_range'.mp ha
  show heap.next + 1 * i < heap.next + (p.services .exact).length + (p.services .byPrefix).length
  cases m <;> omega

theorem Heap.load_store (heap : Heap) (p : Policy ServicePolicy) :
    (heap.store p).2.load (heap.store p).1 = p := by
  have hservices : ∀ m, (List.range' heap.next (p.services m).length).map
      ((heap.store p).2.cells m) = p.services m := by
    intro m
    refine ext_getElem (by simp) fun i hi hi' => ?_
    simp [Heap.store, hi']
  unfold Heap.load
  simp only [Heap.store] at hservices ⊢
  simp [hservices]

end Heap

/-! ## Fresh policies -/

/-- What the rules of a policy are read from. -/
def ACLPolicy.source (p : ACLPolicy) : String × SyntaxVersion := (p.rules, p.syntaxVersion)

/-- The policies parsed anew. -/
def parseAll : List ACLPolicy → Except String (List (Policy ServicePolicy))
  | [] => .ok []
  | p :: policies =>
    match p.parse with
    | .error err => .error (p.parseError err)
    | .ok v => (parseAll policies).map (v :: ·)

variable {p : ACLPolicy} {policies : List ACLPolicy} {parent : Authorizer} {a : PolicyAuthorizer}
  {calls : List CacheCall} {s : CacheState} {call : CacheCall} {c : Circumstances}

omit [Blake2b] in
theorem parse_congr {q : ACLPolicy} (h : p.source = q.source) :
    p.parse.map content = q.parse.map content := by
  obtain ⟨hrules, hsyntax⟩ := Prod.mk.inj h
  unfold ACLPolicy.parse newPolicyFromSource
  rw [hrules, hsyntax]
  split
  · rfl
  · cases q.syntaxVersion with
    | legacy => cases parseLegacy q.rules <;> rfl
    | current => cases parseCurrent q.rules <;> rfl

omit [Blake2b] in
theorem parse_ok_congr {q : ACLPolicy} (h : p.source = q.source) (hv : p.parse = .ok v) :
    ∃ w, q.parse = .ok w ∧ w.content = v.content := by
  have hmap := parse_congr h
  rw [hv] at hmap
  cases hq : q.parse with
  | error e => rw [hq] at hmap; cases hmap
  | ok w => rw [hq] at hmap; exact ⟨w, rfl, (Except.ok.inj hmap).symm⟩

omit [Blake2b] in
theorem parseAll_congr (h : policies.map ACLPolicy.source = policies'.map ACLPolicy.source)
    {vs : List (Policy ServicePolicy)} (hvs : parseAll policies = .ok vs) :
    ∃ vs', parseAll policies' = .ok vs' ∧ vs'.map content = vs.map content := by
  induction policies generalizing policies' vs with
  | nil =>
    obtain rfl := map_eq_nil_iff.mp h.symm
    exact ⟨vs, hvs, rfl⟩
  | cons p policies ih =>
    obtain ⟨q, policies', rfl, hq, hrest⟩ := map_eq_cons_iff.mp h.symm
    unfold parseAll at hvs ⊢
    cases hv : p.parse with
    | error err => rw [hv] at hvs; cases hvs
    | ok v =>
      rw [hv] at hvs
      obtain ⟨w, hw, hcontent⟩ := parse_ok_congr hq.symm hv
      cases hall : parseAll policies with
      | error err => rw [hall] at hvs; cases hvs
      | ok ws =>
        rw [hall] at hvs
        cases hvs
        obtain ⟨ws', hws', hcontents⟩ := ih hrest.symm hall
        refine ⟨w :: ws', ?_, ?_⟩
        · rw [hw, hws']; rfl
        · rw [map_cons, map_cons, hcontent, hcontents]

/-! ## What the cache holds -/

/-- The authorizer that the policies have when they are parsed anew. -/
def Compiled (parent : Authorizer) (policies : List ACLPolicy) (a : PolicyAuthorizer) : Prop :=
  ∃ vs, parseAll policies = .ok vs ∧ ∃ order stored heap,
    (stored.map (Heap.load heap)).map content = vs.map content ∧
    a = (newPolicyAuthorizer order parent stored heap).1

theorem Compiled.congr (h : policies.map ACLPolicy.source = policies'.map ACLPolicy.source)
    (ha : Compiled parent policies a) : Compiled parent policies' a := by
  obtain ⟨vs, hvs, order, stored, heap, hcontent, rfl⟩ := ha
  obtain ⟨vs', hvs', hsame⟩ := parseAll_congr h hvs
  exact ⟨vs', hvs', order, stored, heap, hcontent.trans hsame.symm, rfl⟩

theorem Compiled.unique {a' : PolicyAuthorizer} (h : Compiled parent policies a)
    (h' : Compiled parent policies a') : a = a' := by
  obtain ⟨vs, hvs, order, stored, heap, hcontent, rfl⟩ := h
  obtain ⟨vs', hvs', order', stored', heap', hcontent', rfl⟩ := h'
  obtain rfl := Except.ok.inj (hvs.symm.trans hvs')
  exact newPolicyAuthorizer_congr (hcontent.trans hcontent'.symm)

/-- The calls of a run are told apart by what the caches go by. -/
structure Distinct (calls : List CacheCall) : Prop where
  /-- Policies with the same hash have the same text. -/
  source : ∀ call ∈ calls, ∀ p ∈ call.policies, ∀ call' ∈ calls, ∀ q ∈ call'.policies,
    p.cacheKey = q.cacheKey → p.source = q.source
  /-- Lists with the same IDs and versions are compiled from the same texts, and for the same
  parent. -/
  versions : ∀ c parent policies c' parent' policies',
    .compile c parent policies ∈ calls → .compile c' parent' policies' ∈ calls →
    hashKey policies = hashKey policies' →
    parent = parent' ∧ policies.map ACLPolicy.source = policies'.map ACLPolicy.source

def CacheCall.Settles (call : CacheCall) : Prop :=
  ∀ vs, parseAll call.policies = .ok vs → ∀ m, Settled (servicesOf vs m)

/-- What the caches hold was put there by calls of the run, and was not altered since. -/
structure Faithful (calls : List CacheCall) (s : CacheState) : Prop where
  parsed : ∀ key stored, s.parsedPolicies key = some stored → stored.Within s.heap ∧
    ∃ call ∈ calls, ∃ p ∈ call.policies, p.cacheKey = key ∧
      ∃ v, p.parse = .ok v ∧ (s.heap.load stored).content = v.content
  authorizers : ∀ key a, s.authorizers key = some a → ∃ c parent policies,
    .compile c parent policies ∈ calls ∧ hashKey policies = key ∧ Compiled parent policies a

theorem faithful_emptyCache (calls : List CacheCall) (heap : Heap) :
    Faithful calls (emptyCache heap) where
  parsed := by
    intro key stored h
    cases h
  authorizers := by
    intro key a h
    cases h

omit [External] [Hcl] [Blake2b] in
theorem keep_eq_some {α : Type} {drops : Drops} {entries : String → Option α} {key : String}
    {a : α} (h : keep drops entries key = some a) : entries key = some a := by
  unfold keep at h
  split at h
  · cases h
  · exact h

theorem Faithful.evict (h : Faithful calls s) (parsed authorizers : Drops) : Faithful calls { s with
      parsedPolicies := keep parsed s.parsedPolicies
      authorizers := keep authorizers s.authorizers } where
  parsed := fun key stored hkey => h.parsed key stored (keep_eq_some hkey)
  authorizers := fun key a hkey => h.authorizers key a (keep_eq_some hkey)

theorem Faithful.put (h : Faithful calls s) (hcall : call ∈ calls) (hp : p ∈ call.policies)
    (hv : p.parse = .ok v) (drops : Drops) : Faithful calls { s with
      heap := (s.heap.store v).2
      parsedPolicies := keep drops
        (Function.update s.parsedPolicies p.cacheKey (some (s.heap.store v).1)) } where
  parsed := by
    intro key stored hkey
    have hentry := keep_eq_some hkey
    by_cases hsame : key = p.cacheKey
    · subst hsame
      rw [Function.update_self] at hentry
      cases hentry
      refine ⟨s.heap.store_within v, call, hcall, p, hp, rfl, v, hv, ?_⟩
      rw [s.heap.load_store v]
    · rw [Function.update_of_ne hsame] at hentry
      obtain ⟨hwithin, hsource⟩ := h.parsed key stored hentry
      have hgrows := s.heap.store_grows v
      refine ⟨hgrows.within hwithin, ?_⟩
      rw [hgrows.load hwithin]
      exact hsource
  authorizers := h.authorizers

theorem Faithful.putAuthorizer (h : Faithful calls s) (hcall : .compile c parent policies ∈ calls)
    (ha : Compiled parent policies a) (drops : Drops) : Faithful calls { s with
      authorizers := keep drops
        (Function.update s.authorizers (hashKey policies) (some a)) } where
  parsed := h.parsed
  authorizers := by
    intro key b hkey
    have hentry := keep_eq_some hkey
    by_cases hsame : key = hashKey policies
    · subst hsame
      rw [Function.update_self] at hentry
      cases hentry
      exact ⟨c, parent, policies, hcall, rfl, ha⟩
    · rw [Function.update_of_ne hsame] at hentry
      exact h.authorizers key b hentry

/-! ## The steps -/

/-- What a call takes from the caches is what parsing anew gives. -/
structure Resolves (calls : List CacheCall) (policies : List ACLPolicy) (s : CacheState)
    (out : Except String (List StoredPolicy) × CacheState) : Prop where
  faithful : Faithful calls out.2
  grows : s.heap.Grows out.2.heap
  refused : ∀ err, parseAll policies = .error err → out.1 = .error err
  taken : ∀ vs, parseAll policies = .ok vs → ∃ stored, out.1 = .ok stored ∧
    (∀ p ∈ stored, p.Within out.2.heap) ∧
    (stored.map out.2.heap.load).map content = vs.map content

theorem Resolves.cons {s0 : CacheState} {out : Except String (List StoredPolicy) × CacheState}
    (h : Resolves calls policies s out) (hgrows : s0.heap.Grows s.heap) (hv : p.parse = .ok v)
    {stored : StoredPolicy} (hwithin : stored.Within s.heap)
    (hcontent : (s.heap.load stored).content = v.content) :
    Resolves calls (p :: policies) s0 (out.1.map (stored :: ·), out.2) where
  faithful := h.faithful
  grows := hgrows.trans h.grows
  refused := by
    intro err herr
    unfold parseAll at herr
    rw [hv] at herr
    cases hall : parseAll policies with
    | error e =>
      rw [hall] at herr
      cases herr
      simp [h.refused _ hall, Except.map]
    | ok vs => rw [hall] at herr; cases herr
  taken := by
    intro ws hws
    unfold parseAll at hws
    rw [hv] at hws
    cases hall : parseAll policies with
    | error e => rw [hall] at hws; cases hws
    | ok vs =>
      rw [hall] at hws
      cases hws
      obtain ⟨rest, hrest, hrestWithin, hcontents⟩ := h.taken vs hall
      refine ⟨stored :: rest, ?_, ?_, ?_⟩
      · simp [hrest, Except.map]
      · exact forall_mem_cons.mpr ⟨h.grows.within hwithin, hrestWithin⟩
      · rw [map_cons, map_cons, map_cons, h.grows.load hwithin, hcontent, hcontents]

theorem resolveWithCache_resolves (hd : Distinct calls) (hcall : call ∈ calls) (drops : Nat → Drops)
    (i : Nat) (hsub : ∀ p ∈ policies, p ∈ call.policies) (hs : Faithful calls s) :
    Resolves calls policies s (resolveWithCache drops i policies s) := by
  induction policies generalizing i s with
  | nil =>
    refine ⟨hs, .refl _, ?_, ?_⟩
    · intro err herr
      cases herr
    · intro vs hvs
      cases hvs
      exact ⟨[], rfl, by simp, rfl⟩
  | cons p policies ih =>
    obtain ⟨hp, hrest⟩ := forall_mem_cons.mp hsub
    unfold resolveWithCache
    cases hcached : s.parsedPolicies p.cacheKey with
    | some cached =>
      obtain ⟨hwithin, call', hcall', q, hq, hkey, w, hw, hcontent⟩ := hs.parsed _ _ hcached
      obtain ⟨v, hv, hsame⟩ := parse_ok_congr (hd.source _ hcall' q hq _ hcall p hp hkey) hw
      exact (ih (i + 1) hrest hs).cons (.refl _) hv hwithin (hcontent.trans hsame.symm)
    | none =>
      cases hv : p.parse with
      | error err =>
        refine ⟨hs, .refl _, ?_, ?_⟩
        · intro e he
          unfold parseAll at he
          rw [hv] at he
          cases he
          rfl
        · intro vs hvs
          unfold parseAll at hvs
          rw [hv] at hvs
          cases hvs
      | ok v =>
        exact (ih (i + 1) hrest (hs.put hcall hp hv (drops i))).cons (s.heap.store_grows v) hv
          (s.heap.store_within v) (congrArg content (s.heap.load_store v))

theorem Resolves.unaltered (hsettles : call.Settles) {s' : CacheState} {stored : List StoredPolicy}
    (h : Resolves calls call.policies s (.ok stored, s')) (order : MapOrder) :
    (mergePolicies order stored s'.heap).2 = s'.heap := by
  cases hall : parseAll call.policies with
  | error err => cases h.refused err hall
  | ok vs =>
    obtain ⟨_, hstored, _, hcontents⟩ := h.taken vs hall
    cases hstored
    refine mergePolicies_heap order stored s'.heap fun m => ?_
    have hservices : servicesOf (stored.map s'.heap.load) m = servicesOf vs m :=
      flatMap_content (fun _ => rfl) hcontents
    rw [hservices]
    exact hsettles vs hall m

/-- The policies are refused, or have the authorizer of policies that are parsed anew. -/
def Answer (parent : Authorizer) (policies : List ACLPolicy)
    (r : Except String PolicyAuthorizer) : Prop :=
  (∀ err, parseAll policies = .error err →
    r = .error ("failed to parse the ACL policies: " ++ err)) ∧
  ∀ vs, parseAll policies = .ok vs → ∃ a, r = .ok a ∧ Compiled parent policies a

theorem Answer.unique {r r' : Except String PolicyAuthorizer} (h : Answer parent policies r)
    (h' : Answer parent policies r') : r = r' := by
  cases hall : parseAll policies with
  | error err => rw [h.1 err hall, h'.1 err hall]
  | ok vs =>
    obtain ⟨a, rfl, ha⟩ := h.2 vs hall
    obtain ⟨a', rfl, ha'⟩ := h'.2 vs hall
    rw [ha.unique ha']

theorem answer_of_compiled (h : Compiled parent policies a) : Answer parent policies (.ok a) := by
  obtain ⟨vs, hvs, _⟩ := id h
  refine ⟨fun err herr => ?_, fun _ _ => ⟨a, rfl, h⟩⟩
  cases hvs.symm.trans herr

theorem compiled_of_answer (h : Answer parent policies (.ok a)) : Compiled parent policies a := by
  cases hall : parseAll policies with
  | error err => cases h.1 err hall
  | ok vs =>
    obtain ⟨_, hsame, hcompiled⟩ := h.2 vs hall
    cases hsame
    exact hcompiled

theorem compile_answer (hd : Distinct calls) (hcall : .compile c parent policies ∈ calls)
    (hs : Faithful calls s) : Answer parent policies (compile c parent policies s).1 := by
  unfold compile
  cases hcached : s.authorizers (hashKey policies) with
  | some authorizer =>
    obtain ⟨c', parent', policies', hcall', hkey, hcompiled⟩ := hs.authorizers _ _ hcached
    obtain ⟨rfl, hsame⟩ := hd.versions _ _ _ _ _ _ hcall' hcall hkey
    exact answer_of_compiled (hcompiled.congr hsame)
  | none =>
    have hresolves := resolveWithCache_resolves hd hcall c.parsedDrops 0
      (fun p (hp : p ∈ policies) => hp) hs
    generalize resolveWithCache c.parsedDrops 0 policies s = resolved at hresolves ⊢
    obtain ⟨out, s'⟩ := resolved
    cases hall : parseAll policies with
    | error err =>
      obtain rfl := hresolves.refused err hall
      refine ⟨fun e he => ?_, fun vs hvs => ?_⟩
      · cases hall.symm.trans he
        rfl
      · cases hall.symm.trans hvs
    | ok vs =>
      obtain ⟨stored, rfl, _, hcontents⟩ := hresolves.taken vs hall
      exact answer_of_compiled ⟨vs, hall, c.order, stored, s'.heap, hcontents, rfl⟩

theorem compile_faithful (hd : Distinct calls) (hcall : .compile c parent policies ∈ calls)
    (hsettles : (CacheCall.compile c parent policies).Settles) (hs : Faithful calls s) :
    Faithful calls (compile c parent policies s).2 := by
  have hanswer := compile_answer hd hcall hs
  unfold compile at hanswer ⊢
  generalize s.authorizers (hashKey policies) = cached at hanswer ⊢
  cases cached with
  | some authorizer => exact hs
  | none =>
    have hresolves := resolveWithCache_resolves hd hcall c.parsedDrops 0
      (fun p (hp : p ∈ policies) => hp) hs
    generalize resolveWithCache c.parsedDrops 0 policies s = resolved at hanswer hresolves ⊢
    obtain ⟨_ | stored, s'⟩ := resolved
    · exact hresolves.faithful
    · have hheap : (newPolicyAuthorizer c.order parent stored s'.heap).2 = s'.heap :=
        hresolves.unaltered hsettles c.order
      simp only [hheap]
      exact hresolves.faithful.putAuthorizer hcall (compiled_of_answer hanswer) c.authorizerDrops

theorem merge_faithful (hd : Distinct calls) (hcall : .merge c policies ∈ calls)
    (hsettles : (CacheCall.merge c policies).Settles) (hs : Faithful calls s) :
    Faithful calls (merge c policies s).2 := by
  unfold merge
  have hresolves := resolveWithCache_resolves hd hcall c.parsedDrops 0
    (fun p (hp : p ∈ policies) => hp) hs
  generalize resolveWithCache c.parsedDrops 0 policies s = resolved at hresolves ⊢
  obtain ⟨_ | stored, s'⟩ := resolved
  · exact hresolves.faithful
  · have hheap := hresolves.unaltered hsettles c.order
    simp only [hheap]
    exact hresolves.faithful

theorem run_faithful (hd : Distinct calls) (hcall : call ∈ calls) (hsettles : call.Settles)
    (hs : Faithful calls s) : Faithful calls (CacheCall.run s call) := by
  cases call with
  | compile c parent policies => exact compile_faithful hd hcall hsettles hs
  | merge c policies => exact merge_faithful hd hcall hsettles hs
  | evict parsed authorizers => exact hs.evict parsed authorizers

theorem runs_faithful (hd : Distinct calls) {run : List CacheCall}
    (hrun : ∀ call ∈ run, call ∈ calls ∧ call.Settles) (hs : Faithful calls s) :
    Faithful calls (runCalls run s) := by
  induction run generalizing s with
  | nil => exact hs
  | cons call run ih =>
    obtain ⟨hcall, hrest⟩ := forall_mem_cons.mp hrun
    exact ih hrest (run_faithful hd hcall.1 hcall.2 hs)

omit [External] [Hcl] in
theorem Distinct.alone (hd : Distinct calls) (hcall : .compile c parent policies ∈ calls)
    (c' : Circumstances) : Distinct [.compile c' parent policies] where
  source := by
    intro call hc p hp call' hc' q hq hkey
    obtain rfl := mem_singleton.mp hc
    obtain rfl := mem_singleton.mp hc'
    exact hd.source _ hcall p hp _ hcall q hq hkey
  versions := by
    intro c1 parent1 policies1 c2 parent2 policies2 h1 h2 _
    cases mem_singleton.mp h1
    cases mem_singleton.mp h2
    exact ⟨rfl, rfl⟩

/-- In a run whose calls are told apart by what the caches go by, and in which no earlier call
had anything to add to the first rule for a service, every authorizer is the one that the same
policies have when they are parsed anew and the caches are empty. -/
theorem earlier_calls_do_not_matter (earlier : List CacheCall) (c : Circumstances)
    (parent : Authorizer) (policies : List ACLPolicy)
    (hd : Distinct (earlier ++ [.compile c parent policies]))
    (hsettles : ∀ call ∈ earlier, call.Settles) (heap heap' : Heap) (c' : Circumstances) :
    (compile c parent policies (runCalls earlier (emptyCache heap))).1 =
      (compile c' parent policies (emptyCache heap')).1 := by
  have hcall : .compile c parent policies ∈ earlier ++ [.compile c parent policies] := by
    simp
  have hfaithful := runs_faithful hd
    (fun call h => ⟨mem_append_left _ h, hsettles call h⟩) (faithful_emptyCache _ heap)
  have hcached := compile_answer hd hcall hfaithful
  have hfresh := compile_answer (hd.alone hcall c') mem_cons_self (faithful_emptyCache _ heap')
  exact hcached.unique hfresh

end Caches

section Example

/-- A policy that has one rule, for the service `web`, is written as what the rule grants. -/
@[reducible] def webRule : Hcl where
  decode text := .ok { services := fun
    | .exact => [{ name := bytesOf "web", policy := text }]
    | .byPrefix => [] }
  decodeLegacy text := .ok { services := [{ name := bytesOf "web", policy := text }] }

attribute [local instance] ascii webRule keepBytes

def webReader : ACLPolicy := { id := "1", name := "reader", rules := "read", modifyIndex := 1 }

def webWriter : ACLPolicy := { id := "2", name := "writer", rules := "write", modifyIndex := 2 }

def plainly : Circumstances := { order := insertionOrder }

/-- A token with both policies is used first. From then on a token that may only read writes. -/
theorem a_reader_becomes_a_writer :
    (compile plainly denyAll [webReader] (runCalls
      [.compile plainly denyAll [webReader, webWriter]] (emptyCache emptyHeap))).1.map
        (·.toAuthorizer.serviceWrite (bytesOf "web")) = .ok true ∧
    (compile plainly denyAll [webReader] (emptyCache emptyHeap)).1.map
        (·.toAuthorizer.serviceWrite (bytesOf "web")) = .ok false := by
  decide +kernel

/-- With the policies the other way round the first rule already grants all. -/
theorem a_reader_stays_a_reader :
    (compile plainly denyAll [webReader] (runCalls
      [.compile plainly denyAll [webWriter, webReader]] (emptyCache emptyHeap))).1 =
    (compile plainly denyAll [webReader] (emptyCache emptyHeap)).1 := by
  have hcalls : ∀ c parent policies, CacheCall.compile c parent policies ∈
      [CacheCall.compile plainly denyAll [webWriter, webReader]] ++
        [.compile plainly denyAll [webReader]] →
      parent = denyAll ∧ policies ∈ [[webWriter, webReader], [webReader]] := by
    intro c parent policies h
    simp only [cons_append, nil_append, mem_cons, CacheCall.compile.injEq,
      not_mem_nil, or_false] at h ⊢
    tauto
  have hpolicies : ∀ call ∈ [CacheCall.compile plainly denyAll [webWriter, webReader]] ++
      [.compile plainly denyAll [webReader]], ∀ p ∈ call.policies,
      p ∈ [webWriter, webReader] := by
    simp [CacheCall.policies]
  have hsources : ∀ p ∈ [webWriter, webReader], ∀ q ∈ [webWriter, webReader],
      p.cacheKey = q.cacheKey → p.source = q.source := by decide +kernel
  have hkeys : ∀ ps ∈ [[webWriter, webReader], [webReader]],
      ∀ qs ∈ [[webWriter, webReader], [webReader]], hashKey ps = hashKey qs →
      ps.map ACLPolicy.source = qs.map ACLPolicy.source := by decide +kernel
  have hsettled : Settled [{ name := bytesOf "web", policy := .write },
      { name := bytesOf "web", policy := .read }] := by
    intro n first rest h q hq
    by_cases hn : bytesOf "web" = n
    · simp only [hn, decide_true, filter_cons_of_pos, filter_nil, List.cons.injEq] at h
      obtain ⟨rfl, rfl⟩ := h
      obtain rfl := mem_singleton.mp hq
      exact ⟨show Access.read ≤ .write by decide, rfl⟩
    · simp [hn] at h
  refine earlier_calls_do_not_matter _ plainly denyAll [webReader] ⟨?_, ?_⟩ ?_ _ _ _
  · intro call hcall p hp call' hcall' q hq hkey
    exact hsources p (hpolicies call hcall p hp) q (hpolicies call' hcall' q hq) hkey
  · intro c parent policies c' parent' policies' h h' hkey
    obtain ⟨rfl, hmem⟩ := hcalls c parent policies h
    obtain ⟨rfl, hmem'⟩ := hcalls c' parent' policies' h'
    exact ⟨rfl, hkeys _ hmem _ hmem' hkey⟩
  · intro call hcall vs hvs m
    obtain rfl := mem_singleton.mp hcall
    cases hvs
    cases m with
    | exact => exact hsettled
    | byPrefix =>
      intro n first rest h
      cases h

end Example

end OpenGyoza
