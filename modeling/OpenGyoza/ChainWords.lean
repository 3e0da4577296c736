-- The compilation of a chain comes to an end. All names that it can meet
-- stand in the request and in the entries, and it does not crash unless a
-- route has no destination or the hash of the overrides is too short.
import OpenGyoza.ChainEnds
import OpenGyoza.ChainWalk

namespace OpenGyoza

open Memdb Relation List

/-! ## The words of a chain -/

def KeyMap.values {κ ν : Type} (m : KeyMap κ ν) : List ν := m.keys.filterMap m.get

theorem KeyMap.mem_values {κ ν : Type} {m : KeyMap κ ν} {k : κ} {v : ν} (h : m.get k = some v) :
    v ∈ KeyMap.values m :=
  mem_filterMap.mpr ⟨k, KeyMap.mem_keys_of_get h, h⟩

def ServiceRouterConfigEntry.words (e : ServiceRouterConfigEntry) : List String :=
  (e.routes.filterMap (·.destination)).flatMap fun dest =>
    [dest.service, dest.serviceSubset, dest.namespaceName]

def ServiceSplitterConfigEntry.words (e : ServiceSplitterConfigEntry) : List String :=
  e.splits.flatMap fun split => [split.service, split.serviceSubset, split.namespaceName]

def ServiceResolverConfigEntry.words (e : ServiceResolverConfigEntry) : List String :=
  e.defaultSubset ::
    (e.redirect.toList.flatMap fun r =>
      [r.service, r.serviceSubset, r.namespaceName, r.datacenter]) ++
    e.failover.flatMap fun (_, f) =>
      f.service :: f.serviceSubset :: f.namespaceName :: f.datacenters

/-- All names in the request and in the entries from which a destination can be made. -/
def CompileRequest.words (req : CompileRequest) (e : DiscoveryChainConfigEntries) : List String :=
  ["", req.serviceName, req.evaluateInNamespace, req.evaluateInDatacenter] ++
    ((KeyMap.values e.routers).flatMap (·.words) ++ (KeyMap.values e.splitters).flatMap (·.words) ++
      (KeyMap.values e.resolvers).flatMap (·.words))

/-- A destination made of words. -/
structure Spoken (words : List String) (q : Destination) : Prop where
  service : q.service ∈ words
  named : q.service ≠ ""
  serviceSubset : q.serviceSubset ∈ words
  namespaceName : q.namespaceName ∈ words
  datacenter : q.datacenter ∈ words

theorem defaultIfEmpty_mem {words : List String} {val defaultVal : String} (h : val ∈ words)
    (h' : defaultVal ∈ words) : defaultIfEmpty val defaultVal ∈ words := by
  unfold defaultIfEmpty
  split
  · exact h
  · exact h'

section Words

variable {req : CompileRequest} {e : DiscoveryChainConfigEntries} {w : String}

theorem mem_words_request
    (hw : w ∈ ["", req.serviceName, req.evaluateInNamespace, req.evaluateInDatacenter]) :
    w ∈ req.words e :=
  mem_append_left _ hw

theorem mem_words_resolver (service : String) (hw : w ∈ (e.resolverFor service).words) :
    w ∈ req.words e := by
  unfold DiscoveryChainConfigEntries.resolverFor at hw
  cases hget : e.resolvers.get service with
  | none =>
    rw [hget] at hw
    have hempty : w = "" := by
      simpa [newDefaultServiceResolver, ServiceResolverConfigEntry.words] using hw
    rw [hempty]
    exact mem_append_left _ mem_cons_self
  | some resolver =>
    rw [hget] at hw
    refine mem_append_right _ (mem_append_right _ ?_)
    exact mem_flatMap.mpr ⟨resolver, KeyMap.mem_values hget, hw⟩

theorem spoken_destination {service serviceSubset namespaceName datacenter : String}
    (hservice : service ∈ req.words e) (hnamed : service ≠ "")
    (hsubset : serviceSubset ∈ req.words e) (hnamespace : namespaceName ∈ req.words e)
    (hdatacenter : datacenter ∈ req.words e) :
    Spoken (req.words e) (req.destination service serviceSubset namespaceName datacenter) :=
  ⟨hservice, hnamed, hsubset, defaultIfEmpty_mem hnamespace (mem_words_request (by simp)),
    defaultIfEmpty_mem hdatacenter (mem_words_request (by simp))⟩

theorem spoken_rewrite {q : Destination} (hq : Spoken (req.words e) q)
    {service serviceSubset namespaceName datacenter : String} (hservice : service ∈ req.words e)
    (hsubset : serviceSubset ∈ req.words e) (hnamespace : namespaceName ∈ req.words e)
    (hdatacenter : datacenter ∈ req.words e) :
    Spoken (req.words e) (req.rewrite q service serviceSubset namespaceName datacenter) := by
  unfold CompileRequest.rewrite
  dsimp only
  have hnamespace' := defaultIfEmpty_mem hnamespace hq.namespaceName
  have hdatacenter' := defaultIfEmpty_mem hdatacenter hq.datacenter
  by_cases hmoved : service ≠ "" ∧ service ≠ q.service
  · rw [if_pos hmoved, if_pos hmoved]
    exact spoken_destination hservice hmoved.1
      (defaultIfEmpty_mem hsubset (mem_words_request (by simp))) hnamespace' hdatacenter'
  · rw [if_neg hmoved, if_neg hmoved]
    exact spoken_destination hq.service hq.named (defaultIfEmpty_mem hsubset hq.serviceSubset)
      hnamespace' hdatacenter'

theorem spoken_settling :
    Settling req e (Spoken (req.words e)) (Spoken (req.words e)) where
  toPart := .refl _
  redirect := by
    intro q r hq hr
    have hwords : ∀ w ∈ [r.service, r.serviceSubset, r.namespaceName, r.datacenter],
        w ∈ req.words e := by
      intro w hw
      apply mem_words_resolver q.service
      refine mem_append_left _ (mem_cons_of_mem _ ?_)
      exact mem_flatMap.mpr ⟨r, by simp [hr], hw⟩
    exact spoken_rewrite hq (hwords _ (by simp)) (hwords _ (by simp)) (hwords _ (by simp))
      (hwords _ (by simp))
  defaultSubset := by
    intro q hq _ _ _
    have hempty : "" ∈ req.words e := mem_words_request (by simp)
    exact spoken_rewrite hq hempty
      (mem_words_resolver _ (mem_append_left _ mem_cons_self)) hempty hempty

theorem mem_failover {resolver : ServiceResolverConfigEntry} {subset : String}
    {f : ServiceResolverFailover} (h : resolver.failoverFor subset = some f) :
    ∃ key, (key, f) ∈ resolver.failover := by
  rcases Option.or_eq_some_iff.mp h with h | ⟨_, h⟩
  · obtain ⟨before, after, heq, _⟩ := lookup_eq_some_iff.mp h
    exact ⟨subset, by rw [heq]; simp⟩
  · obtain ⟨before, after, heq, _⟩ := lookup_eq_some_iff.mp h
    exact ⟨"*", by rw [heq]; simp⟩

theorem named_word {val name : String} (hval : val ∈ req.words e) (hname : name ∈ req.words e)
    (hne : name ≠ "") : defaultIfEmpty val name ∈ req.words e ∧ defaultIfEmpty val name ≠ "" := by
  refine ⟨defaultIfEmpty_mem hval hname, ?_⟩
  unfold defaultIfEmpty
  split
  · assumption
  · exact hne

theorem spoken_closed (hname : req.serviceName ≠ "") :
    Closed req e (Spoken (req.words e)) (Spoken (req.words e)) (Spoken (req.words e))
      fun name => name ∈ req.words e ∧ name ≠ "" := by
  have hservice : req.serviceName ∈ req.words e := mem_words_request (by simp)
  have hempty : "" ∈ req.words e := mem_words_request (by simp)
  have hroute : ∀ router, e.routers.get req.serviceName = some router →
      ∀ route ∈ router.routes, ∀ dest, route.destination = some dest →
        Spoken (req.words e) (req.routeDestination dest) := by
    intro router hrouter route hroute dest hdest
    have hwords : ∀ w ∈ [dest.service, dest.serviceSubset, dest.namespaceName],
        w ∈ req.words e := by
      intro w hw
      refine mem_append_right _ (mem_append_left _ (mem_append_left _ ?_))
      refine mem_flatMap.mpr ⟨router, KeyMap.mem_values hrouter, ?_⟩
      exact mem_flatMap.mpr ⟨dest, mem_filterMap.mpr ⟨route, hroute, hdest⟩, hw⟩
    obtain ⟨hmem, hne⟩ := named_word (hwords dest.service (by simp)) hservice hname
    exact spoken_destination hmem hne (hwords _ (by simp)) (hwords _ (by simp)) hempty
  have hsplit : ∀ name splitter, name ∈ req.words e ∧ name ≠ "" →
      e.splitters.get name = some splitter → ∀ split ∈ splitter.splits,
        split.serviceSubset ∈ req.words e ∧ split.namespaceName ∈ req.words e ∧
          defaultIfEmpty split.service name ∈ req.words e ∧
          defaultIfEmpty split.service name ≠ "" := by
    intro name splitter hN hsplitter split hsplit
    have hwords : ∀ w ∈ [split.service, split.serviceSubset, split.namespaceName],
        w ∈ req.words e := by
      intro w hw
      refine mem_append_right _ (mem_append_left _ (mem_append_right _ ?_))
      refine mem_flatMap.mpr ⟨splitter, KeyMap.mem_values hsplitter, ?_⟩
      exact mem_flatMap.mpr ⟨split, hsplit, hw⟩
    exact ⟨hwords _ (by simp), hwords _ (by simp), named_word (hwords _ (by simp)) hN.1 hN.2⟩
  constructor
  case named => exact fun q hq => hq.named
  case main => exact spoken_settling
  case settles => exact spoken_settling
  case start => exact spoken_destination hservice hname hempty hempty hempty
  case startService => exact fun q hq _ => ⟨hq.service, hq.named⟩
  case startMain => exact fun q hq _ _ => hq
  case route => exact fun router hrouter _ => hroute router hrouter
  case routeService => exact fun _ _ _ _ _ _ _ _ q hq _ => ⟨hq.service, hq.named⟩
  case routeMain => exact fun _ _ _ _ _ _ _ q hq _ _ => hq
  case split =>
    intro name splitter hN hsplitter _ split hmem _
    obtain ⟨hsubset, hnamespace, hsvc, hne⟩ := hsplit name splitter hN hsplitter split hmem
    exact spoken_destination hsvc hne hsubset hnamespace hempty
  case splitService =>
    intro name splitter hN hsplitter _ split hmem _
    exact (hsplit name splitter hN hsplitter split hmem).2.2
  case failover =>
    intro q f hq _ _ hf dc hdc
    obtain ⟨subset, hmem⟩ := mem_failover hf
    have hwords : ∀ w ∈ f.service :: f.serviceSubset :: f.namespaceName :: f.datacenters,
        w ∈ req.words e := by
      intro w hw
      apply mem_words_resolver q.service
      refine mem_append_right _ ?_
      exact mem_flatMap.mpr ⟨(subset, f), hmem, hw⟩
    have hplace : dc ∈ req.words e := by
      unfold ServiceResolverFailover.places at hdc
      split at hdc
      · exact hwords dc (by simp [hdc])
      · rw [mem_singleton.mp hdc]
        exact hempty
    exact spoken_rewrite hq (hwords _ (by simp)) (hwords _ (by simp)) (hwords _ (by simp)) hplace

theorem spoken_enough (words : List String) : ∃ m, ∀ n, m ≤ n → Enough e (Spoken words) n := by
  let ids := words.flatMap fun service => words.flatMap fun subset => words.flatMap fun ns =>
    words.map fun dc => Destination.id ⟨service, subset, ns, dc⟩
  refine ⟨e.splitters.len + ids.length + 1, fun n hn => ⟨by omega, ids, fun q hq => ?_, by omega⟩⟩
  refine mem_flatMap.mpr ⟨q.service, hq.service, ?_⟩
  refine mem_flatMap.mpr ⟨q.serviceSubset, hq.serviceSubset, ?_⟩
  refine mem_flatMap.mpr ⟨q.namespaceName, hq.namespaceName, ?_⟩
  exact mem_map.mpr ⟨q.datacenter, hq.datacenter, rfl⟩

end Words

/-! ## A compilation that returns -/

section Returning

variable [External] [ConfigExternal] [Hashstructure] {req : CompileRequest}
  {markers : CustomizationMarkers} {e : DiscoveryChainConfigEntries}

/-- What a request asks for in the place of what is configured. -/
structure Overrides where
  meshGateway : MeshGatewayMode
  protocol : String
  connectTimeout : Int

def CompileRequest.overrides (req : CompileRequest) : Overrides where
  meshGateway := req.overrideMeshGateway
  protocol := req.overrideProtocol
  connectTimeout := req.overrideConnectTimeout

structure Customizes (o : Overrides) (markers : CustomizationMarkers) : Prop where
  meshGateway : markers.meshGateway = true → o.meshGateway ≠ .modeDefault
  protocol : markers.protocol = true → o.protocol ≠ ""
  connectTimeout : markers.connectTimeout = true → 0 < o.connectTimeout
  lowerCase : markers.protocol = false → o.protocol = toLower o.protocol

/-- The hashes of the overrides have at least eight hexadecimal digits. -/
def LongHashes (o : Overrides) : Prop :=
  ∀ markers, Customizes o markers → markers.isZero = false →
    16 ^ 7 ≤ Hashstructure.hash (if markers.meshGateway then o.meshGateway else .modeDefault)
      (if markers.protocol then o.protocol else "")
      (if markers.connectTimeout then o.connectTimeout else 0)

/-- What `strings.ToLower` does. -/
structure LowerCases : Prop where
  again : ∀ text, toLower (toLower text) = toLower text
  tcp : toLower "tcp" = "tcp"
  http : toLower "http" = "http"

omit [ConfigExternal] [Hashstructure] in
theorem markers_customize {c : Compiler} (hlower : LowerCases)
    (h : Marked req c.customizedBy c.protocol) : Customizes req.overrides (c.markers req) := by
  refine ⟨h.meshGateway, fun hmarked => ?_, h.connectTimeout, fun hunmarked => ?_⟩
  · rcases (Bool.or_eq_true _ _).mp hmarked with hmarked | hmarked
    · exact h.protocol hmarked
    · exact (of_decide_eq_true hmarked).1
  · obtain ⟨-, hsame⟩ := Bool.or_eq_false_iff.mp hunmarked
    by_cases hempty : req.overrideProtocol = ""
    · show req.overrideProtocol = toLower req.overrideProtocol
      rw [hempty, (External.toLower_eq_empty "").mpr rfl]
    · have heq : req.overrideProtocol = c.protocol := by
        by_contra hne
        exact of_decide_eq_false hsame ⟨hempty, hne⟩
      show req.overrideProtocol = toLower req.overrideProtocol
      rw [heq]
      rcases h.lowerCase with h | h | ⟨text, h⟩
      · exact absurd (heq.trans h) hempty
      · rw [h, hlower.tcp]
      · rw [h, hlower.again]

omit [ConfigExternal] in
theorem customizationHash_ok (hlong : LongHashes req.overrides)
    (h : Customizes req.overrides markers) : ∃ text, customizationHash req markers = .ok text := by
  unfold customizationHash
  split
  · exact ⟨"", rfl⟩
  · exact firstDigits_ok (hlong markers h (Bool.eq_false_of_not_eq_true ‹_›))

omit [External] [ConfigExternal] in
theorem customizationHash_steps :
    customizationHash req markers ≠ .error (.panic "out of steps") := by
  have hdigits : ∀ v, firstDigits v ≠ .error (.panic "out of steps") := by
    intro v
    unfold firstDigits
    dsimp only
    split <;> simp
  unfold customizationHash
  split
  · simp
  · exact hdigits _

theorem CompileRequest.compile_eq_panic {w : Walks String} {n : Nat} {text : String}
    (hentries : req.entries = some e) (h : req.compile w n = .error (.panic text)) :
    (match assembleChain req e n { resolvers := e.resolvers } with
      | (.error fault, _) => Except.error fault
      | (.ok _, c) => c.compile w n req) = .error (.panic text) := by
  unfold CompileRequest.compile at h
  rw [hentries] at h
  split_ifs at h
  all_goals first | exact h | simp at h

/-- A route of the router that is looked at has no destination. -/
def MissingDestination (req : CompileRequest) (e : DiscoveryChainConfigEntries) : Prop :=
  ∃ router, e.routers.get req.serviceName = some router ∧
    disableAdvancedRoutingFeatures req = false ∧ ∃ route ∈ router.routes, route.destination = none

theorem CompileRequest.compile_crash (hentries : req.entries = some e) :
    ∃ m, ∀ w n, m ≤ n → ∀ text, req.compile w n = .error (.panic text) →
      (MissingDestination req e ∧ text = "invalid memory address or nil pointer dereference") ∨
      ∃ c : Compiler, Marked req c.customizedBy c.protocol ∧
        customizationHash req (c.markers req) = .error (.panic text) := by
  by_cases hname : req.serviceName = ""
  · refine ⟨0, fun w n _ text h => ?_⟩
    unfold CompileRequest.compile at h
    rw [if_pos hname] at h
    simp at h
  obtain ⟨m, hm⟩ := spoken_enough (req.words e)
  have hfaults : ∀ n, m ≤ n → Faults req e (Spoken (req.words e)) m n
      fun fault => ∀ text, fault = .panic text →
        MissingDestination req e ∧ text = "invalid memory address or nil pointer dereference" :=
    fun n hn => ⟨by simp, .inr ⟨hm m le_rfl, hm n hn⟩, fun hnot => absurd (hm m le_rfl) hnot,
      fun router hrouter henabled route hroute hnone text htext =>
        ⟨⟨router, hrouter, henabled, route, hroute, hnone⟩, (Fault.panic.inj htext).symm⟩⟩
  have hwalk : ∀ n, m ≤ n → _ := fun n hn =>
    assembleChain_together (spoken_closed hname) (.refl ..) (hfaults n hn) _ _
      (Beside.start req e e (Spoken (req.words e)))
  -- what is assembled in `m` steps is assembled in any larger number of steps
  cases hassemble : assembleChain req e m { resolvers := e.resolvers } with
  | mk result c =>
    rw [hassemble] at hwalk
    cases result with
    | error fault =>
      refine ⟨m, fun w n hn text h => .inl ?_⟩
      have hpanic := CompileRequest.compile_eq_panic hentries h
      have hrun := hwalk n hn
      generalize assembleChain req e n { resolvers := e.resolvers } = x at hrun hpanic
      cases hrun with
      | fault hfault => exact hfault text (Except.error.inj hpanic)
    | ok _ =>
      have hmarked : Marked req c.customizedBy c.protocol := by
        have hself := hwalk m le_rfl
        rw [hassemble] at hself
        cases hself with
        | ok _ hbeside => exact hbeside.marked
      obtain ⟨m', hm'⟩ := Compiler.compile_crash req (assembleChain_assembled hassemble)
      refine ⟨m + m', fun w n hn text h => .inr ⟨c, hmarked, ?_⟩⟩
      have hpanic := CompileRequest.compile_eq_panic hentries h
      have hrun := hwalk n (by omega)
      generalize assembleChain req e n { resolvers := e.resolvers } = x at hrun hpanic
      cases hrun with
      | ok _ hbeside =>
        cases hbeside with
        | mk resolvers _ _ _ _ => exact hm' w n (by omega) text hpanic

/-- No loop of a compilation goes on for ever: from some number of steps on, whatever the orders
in which the maps are walked, none of them runs out of steps. -/
theorem compilations_terminate (req : CompileRequest) :
    ∃ m, ∀ w n, m ≤ n → req.compile w n ≠ .error (.panic "out of steps") := by
  cases hentries : req.entries with
  | none =>
    refine ⟨0, fun w n _ => ?_⟩
    unfold CompileRequest.compile
    rw [hentries]
    split_ifs <;> simp
  | some e =>
    obtain ⟨m, hm⟩ := CompileRequest.compile_crash hentries
    refine ⟨m, fun w n hn h => ?_⟩
    rcases hm w n hn _ h with ⟨-, htext⟩ | ⟨c, -, hhash⟩
    · exact absurd htext (by decide)
    · exact customizationHash_steps hhash

end Returning

end OpenGyoza
