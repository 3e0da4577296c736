-- What the resolver gives out when the ACL datacenter does not answer. A nil
-- authorizer without an error stands for no checks at all, so it must never
-- come out while ACLs are enabled. It does not under the down policies that
-- name an authorizer, and it does under the ones that extend the cache.
import OpenGyoza.SharedRoles

namespace OpenGyoza

open Memdb Fallible List

/-! ## Reports of failures -/

/-- An error that is no answer: it neither says that the token is gone nor that it has changed. -/
def OutOfReach (text : String) : Prop :=
  isErrNotFound text = false ∧ isErrPermissionDenied text = false

/-- Every request in between was answered. -/
def AllAnswered (s s' : Resolver) : Prop :=
  ∃ new, s'.failures = new ++ s.failures ∧ ∀ text ∈ new, ¬ OutOfReach text

theorem AllAnswered.of_eq {s s' : Resolver} (h : s'.failures = s.failures) : AllAnswered s s' :=
  ⟨[], h, by simp⟩

theorem AllAnswered.trans {s s1 s2 : Resolver} (h : AllAnswered s s1)
    (h' : AllAnswered s1 s2) : AllAnswered s s2 := by
  obtain ⟨new, hnew, hquiet⟩ := h
  obtain ⟨new', hnew', hquiet'⟩ := h'
  refine ⟨new' ++ new, by rw [hnew', hnew, append_assoc], fun text htext => ?_⟩
  rcases mem_append.mp htext with htext | htext
  · exact hquiet' text htext
  · exact hquiet text htext

/-- The program leaves the cached authorizers alone, and when a request is not answered, it ends
with an error of the connection. -/
def Reports {α : Type} (m : Resolve α) : Prop :=
  ∀ s, Fallible.wp m (fun res s' => s'.authorizers = s.authorizers ∧
    (AllAnswered s s' ∨ ∃ text, res = .error (.remote text))) s

/-- Cached authorizers and failures are as they were. -/
def SameRecord (s s' : Resolver) : Prop :=
  s'.authorizers = s.authorizers ∧ s'.failures = s.failures

instance : Std.Refl SameRecord := ⟨fun _ => ⟨rfl, rfl⟩⟩

instance : IsTrans Resolver SameRecord :=
  ⟨fun _ _ _ h h' => ⟨h'.1.trans h.1, h'.2.trans h.2⟩⟩

/-- The program leaves the cached authorizers alone and makes no request. -/
abbrev Silent {α : Type} (m : Resolve α) : Prop := Fallible.Moves SameRecord m

section Rules

variable {α β : Type} {m : Resolve α}

theorem Silent.reports (h : Silent m) : Reports m := fun s =>
  ⟨(h s).1, .inl (.of_eq (h s).2)⟩

theorem Silent.tick (env : Nat → Moment) : Silent (tick env) := fun _ => ⟨rfl, rfl⟩

theorem Reports.bind {f : α → Resolve β} (hm : Reports m) (hf : ∀ a, Reports (f a)) :
    Reports (m >>= f) := by
  intro s
  refine wp_seq (hm s) ?_ ?_
  · rintro a s1 ⟨hsame, hquiet | ⟨text, htext⟩⟩
    · refine wp_mono (hf a s1) ?_
      rintro res s2 ⟨hsame2, hrest⟩
      refine ⟨hsame2.trans hsame, ?_⟩
      exact hrest.imp_left hquiet.trans
    · cases htext
  · rintro e s1 ⟨hsame, hrest⟩
    refine ⟨hsame, hrest.imp_right ?_⟩
    rintro ⟨text, htext⟩
    exact ⟨text, by rw [Except.error.inj htext]⟩

theorem Reports.attempt {f : Except ResolveError α → Resolve β} (hm : Reports m)
    (hf : ∀ r, Reports (f r))
    (hpass : ∀ text s, ∃ text', (f (.error (.remote text)) s).1 = .error (.remote text')) :
    Reports (Fallible.attempt m >>= f) := by
  intro s
  rw [wp_bind, wp_attempt]
  refine wp_mono (hm s) ?_
  rintro res s1 ⟨hsame, hquiet | ⟨text, rfl⟩⟩
  · rw [andThen_ok]
    refine wp_mono (hf res s1) ?_
    rintro res' s2 ⟨hsame2, hrest⟩
    exact ⟨hsame2.trans hsame, hrest.imp_left hquiet.trans⟩
  · exact ⟨(hf (.error (.remote text)) s1).1.trans hsame, .inr (hpass text s1)⟩

end Rules

section Programs

variable {cfg : ResolverConfig} (env : Nat → Moment) {α : Type} {k : Linkable α}

/-- A down policy that names an authorizer does not extend the cache. -/
def DownPolicy.Named (d : DownPolicy) : Prop := d = .allow ∨ d = .deny

theorem DownPolicy.Named.extends {d : DownPolicy} (h : d.Named) : d.extends = false := by
  rcases h with rfl | rfl <;> rfl

theorem DownPolicy.Named.waits {d : DownPolicy} (h : d.Named) : (d != .asyncCache) = true := by
  rcases h with rfl | rfl <;> rfl

/-! ## Identities -/

theorem wp_fetchAndCacheIdentityFromToken (hcfg : cfg.aclDownPolicy.Named) (token : String)
    (cached : Option (Cached ACLToken)) (s : Resolver) :
    wp (fetchAndCacheIdentityFromToken cfg env token cached) (fun res s' =>
      s'.authorizers = s.authorizers ∧ (AllAnswered s s' ∨
        ∃ text, res = .error (.plain text) ∧ isErrNotFound text = false)) s := by
  unfold fetchAndCacheIdentityFromToken
  rw [wp_tick]
  cases hreply : (env s.moment).tokenRead token with
  | ok reply => cases reply <;> exact ⟨rfl, .inl (.of_eq rfl)⟩
  | error text =>
    by_cases hgone : isErrNotFound text = true
    · simp only [hgone, if_true]
      exact ⟨rfl, .inl ⟨[text], rfl, by simp [OutOfReach, hgone]⟩⟩
    · simp only [hgone, hcfg.extends]
      cases cached <;> exact ⟨rfl, .inr ⟨text, rfl, by simpa using hgone⟩⟩

theorem resolveIdentityFromToken_reports (hcfg : cfg.aclDownPolicy.Named) (token : String) :
    Reports (resolveIdentityFromToken cfg env token) := by
  refine (Silent.reports (Silent.tick env)).bind fun m => ?_
  cases m.resolveIdentityFromToken token with
  | some found =>
    cases found with
    | ok identity => exact Silent.reports (.pure _)
    | error text => exact Silent.reports (.fail _)
  | none =>
    refine (Silent.reports (.read _)).bind fun entry => ?_
    by_cases hfresh : entry.any (m.now - ·.cacheTime ≤ cfg.aclTokenTTL) = true
    · rw [if_pos hfresh]
      exact Silent.reports (.pure _)
    · rw [if_neg hfresh]
      intro s
      rw [wp_bind, wp_attempt]
      refine wp_mono (wp_fetchAndCacheIdentityFromToken env hcfg token entry s) ?_
      rintro res s1 ⟨hsame, hquiet⟩
      have hwait : waitForResult cfg entry = true := by
        unfold waitForResult
        rw [hcfg.waits, Bool.or_true]
      rw [andThen_ok, if_pos hwait]
      cases res with
      | ok identity =>
        rcases hquiet with hquiet | ⟨text, hres, -⟩
        · exact ⟨hsame, .inl hquiet⟩
        · cases hres
      | error e =>
        by_cases hgone : isErrNotFound e.text = true
        · simp only [hgone, if_true]
          rcases hquiet with hquiet | ⟨text, hres, htext⟩
          · exact ⟨hsame, .inl hquiet⟩
          · obtain rfl := Except.error.inj hres
            cases hgone.symm.trans htext
        · simp only [hgone]
          exact ⟨hsame, .inr ⟨e.text, rfl⟩⟩

/-! ## Policies and roles -/

theorem Linkable.lookUp_silent (hk : k.Lawful) (ids : List String) :
    Silent (k.lookUp env ids {}) := by
  intro s
  rcases Linkable.wp_lookUp env hk s ids with ⟨c, -, -, hs'⟩ | ⟨text, n, id, -, hs', -⟩
  · rw [hs']
    exact ⟨rfl, rfl⟩
  · rw [hs']
    exact ⟨rfl, rfl⟩

/-- A link whose cache stands apart from the authorizers and whose requests are noted. -/
structure Linkable.Noted {α : Type} (k : Linkable α) : Prop where
  lawful : k.Lawful
  put : ∀ m id a, Silent (k.put m id a)
  request : ∀ m secret ids s, Fallible.wp (k.request m secret ids) (fun res s' =>
    ∃ reply, res = .ok reply ∧ s'.authorizers = s.authorizers ∧
      match reply with
      | .ok _ => s'.failures = s.failures
      | .error text => s'.failures = text :: s.failures) s

theorem linkedPolicies_noted (cfg : ResolverConfig) : (linkedPolicies cfg).Noted where
  lawful := ⟨fun _ _ => rfl, fun _ _ => rfl⟩
  put _ _ _ _ := ⟨rfl, rfl⟩
  request m secret ids s := by
    unfold linkedPolicies
    dsimp only
    cases m.policyResolve secret ids with
    | ok answer => exact ⟨.ok answer, rfl, rfl, rfl⟩
    | error text => exact ⟨.error text, rfl, rfl, rfl⟩

theorem linkedRoles_noted (cfg : ResolverConfig) : (linkedRoles cfg).Noted where
  lawful := ⟨fun _ _ => rfl, fun _ _ => rfl⟩
  put _ _ _ _ := ⟨rfl, rfl⟩
  request m secret ids s := by
    unfold linkedRoles
    dsimp only
    cases m.roleResolve secret ids with
    | error text => exact ⟨.error text, rfl, rfl, rfl⟩
    | ok answer =>
      rw [wp_noteReply_ok]
      refine wp_then (wp_holdRoles answer s) ?_
      rintro roles s' ⟨heap, rfl, -⟩
      exact ⟨.ok roles, rfl, rfl, rfl⟩

theorem Linkable.Noted.putAnswers (h : k.Noted) (m : Moment) (answer : String → Option α)
    (ids : List String) : Silent (k.putAnswers m answer ids) := by
  induction ids with
  | nil => exact Moves.pure ()
  | cons id ids ih => exact (h.put m id (answer id)).bind fun _ => ih

variable {ids : List String} {s : Resolver} {token : String} {f : String → ACLPolicy}

theorem Linkable.Noted.fromCache (h : k.Noted) (hcfg : cfg.aclDownPolicy.Named) (m : Moment)
    (text : String) (hids : ids ≠ []) (cached : String → Option (Cached α)) (s : Resolver) :
    wp (k.fromCache cfg m text ids cached) (fun res s' =>
      s'.authorizers = s.authorizers ∧ res = .error (.remote text)) s := by
  unfold Linkable.fromCache
  simp only [hcfg.extends, Bool.false_eq_true, if_false, Option.isSome_none]
  have hnone : ids.all (fun _ => false) = false := by
    cases ids with
    | nil => exact absurd rfl hids
    | cons id ids => rfl
  simp only [hnone, Bool.false_eq_true, if_false]
  have hputs : wp (k.putAnswers m (fun _ => none) ids)
      (fun res s' => res = .ok () ∧ s'.authorizers = s.authorizers) s :=
    Linkable.wp_putAnswers rfl fun id _ s' hs' => (h.put m id none s').1.trans hs'
  refine wp_seq hputs ?_ ?_
  · rintro _ s' ⟨-, hsame⟩
    exact ⟨hsame, rfl⟩
  · rintro e s' ⟨he, -⟩
    cases he

theorem Linkable.Noted.fetchAndCache (h : k.Noted) (hcfg : cfg.aclDownPolicy.Named)
    (identity : ACLToken) (hids : ids ≠ []) (cached : String → Option (Cached α)) :
    Reports (k.fetchAndCache cfg env identity ids cached) := by
  intro s
  unfold Linkable.fetchAndCache
  rw [wp_tick]
  refine wp_then (h.request (env s.moment) identity.secretID ids _) ?_
  rintro reply s1 ⟨hsame, hfailures⟩
  cases reply with
  | ok answer =>
    have hrest := ((h.putAnswers (env s.moment) (k.find answer) ids).bind fun _ =>
      Moves.pure (k.found (env s.moment).walk answer)) s1
    exact ⟨hrest.1.trans hsame, .inl (.of_eq (hrest.2.trans hfailures))⟩
  | error text =>
    unfold maybeHandleIdentityErrorDuringFetch
    by_cases hgone : isErrNotFound text = true
    · simp only [hgone, if_true]
      exact ⟨hsame, .inl ⟨[text], hfailures, by simp [OutOfReach, hgone]⟩⟩
    by_cases hdenied : isErrPermissionDenied text = true
    · simp only [hgone, hdenied, if_true]
      exact ⟨hsame, .inl ⟨[text], hfailures, by simp [OutOfReach, hdenied]⟩⟩
    · simp only [hgone, hdenied]
      obtain ⟨hsame2, hremote⟩ := h.fromCache hcfg (env s.moment) text hids cached s1
      exact ⟨hsame2.trans hsame, .inr ⟨text, hremote⟩⟩

theorem Linkable.Noted.collect (h : k.Noted) (hcfg : cfg.aclDownPolicy.Named) (identity : ACLToken)
    (ids : List String) : Reports (k.collect cfg env identity ids) := by
  refine (Silent.reports (Linkable.lookUp_silent env h.lawful ids)).bind fun c => ?_
  by_cases hdone : (c.missing.isEmpty && c.expired.isEmpty) = true
  · rw [if_pos hdone]
    exact Silent.reports (.pure _)
  · rw [if_neg hdone]
    have hids : c.missing ++ c.expired.map (fun e => k.id e.2.2) ≠ [] := by
      intro hnil
      obtain ⟨hmissing, hexpired⟩ := append_eq_nil_iff.mp hnil
      rw [map_eq_nil_iff] at hexpired
      simp [hmissing, hexpired] at hdone
    unfold Linkable.fetchRest
    simp only [hcfg.waits, Bool.or_true, if_true]
    refine (h.fetchAndCache env hcfg identity hids _).attempt (fun r => ?_) fun text s => ?_
    · cases r with
      | ok found => exact Silent.reports (.pure _)
      | error e => exact Silent.reports (.fail e)
    · exact ⟨text, rfl⟩

/-! ## Tokens -/

variable [Blake2b]

theorem resolvePoliciesForIdentity_reports (hcfg : cfg.aclDownPolicy.Named) (identity : ACLToken) :
    Reports (resolvePoliciesForIdentity cfg env identity) := by
  unfold resolvePoliciesForIdentity
  dsimp only
  split
  · exact Silent.reports (.pure _)
  · refine ((linkedRoles_noted cfg).collect env hcfg identity _).bind fun roles => ?_
    have hmerge : Silent (mergeIdentities env identity roles) := fun _ => ⟨rfl, rfl⟩
    refine (Silent.reports hmerge).bind fun identities => ?_
    refine ((linkedPolicies_noted cfg).collect env hcfg identity _).bind fun policies => ?_
    exact Silent.reports (.pure _)

theorem resolveWithRetries_reports (hcfg : cfg.aclDownPolicy.Named) (token : String) (n : Nat)
    (lastErr : ResolveError) : Reports (resolveWithRetries cfg env token n lastErr) := by
  induction n generalizing lastErr with
  | zero => exact Silent.reports (.fail lastErr)
  | succ n ih =>
    refine (resolveIdentityFromToken_reports env hcfg token).bind fun found => ?_
    cases found with
    | none => exact Silent.reports (.fail _)
    | some identity =>
      refine (Silent.reports (Silent.tick env)).bind fun m => ?_
      by_cases hexpired : identity.isExpired m.now = true
      · simp only [hexpired, if_true]
        exact Silent.reports (.fail _)
      · simp only [hexpired]
        refine (resolvePoliciesForIdentity_reports env hcfg identity).attempt (fun r => ?_)
          fun text s => ⟨text, rfl⟩
        rcases r with (text | text | ⟨text, secret⟩) | policies
        · exact Silent.reports (.fail _)
        · exact Silent.reports (.fail _)
        · by_cases hgone : (isErrNotFound text && secret == identity.secretID) = true
          · simp only [hgone, if_true]
            exact Silent.reports (.fail _)
          · simp only [hgone]
            exact ih _
        · exact Silent.reports (.pure _)

theorem wp_legacyAuthorizer (m : Moment) (parent : Authorizer)
    (policy : Option (Policy ServicePolicy)) (s : Resolver) :
    wp (legacyAuthorizer m parent policy) (fun res s' => ∃ a, res = .ok a ∧
      s'.failures = s.failures) s := by
  cases policy <;> exact ⟨_, rfl, rfl⟩

/-- What a legacy resolution gives: never nil, and nothing under the down policy `deny` when a
request is not answered. -/
def Guards (cfg : ResolverConfig) (s : Resolver) (res : Except ResolveError (Option Authorizer))
    (s' : Resolver) : Prop :=
  res ≠ .ok none ∧ (cfg.aclDownPolicy = .deny →
    AllAnswered s s' ∨ res = .ok (some denyAll) ∨ ∃ e, res = .error e)

omit [Blake2b] in
theorem cachedAuthorizer_guards (entry : Option CachedAuthorizer) {s1 : Resolver}
    (hquiet : AllAnswered s s1) : wp (cachedAuthorizer entry) (Guards cfg s) s1 := by
  unfold cachedAuthorizer
  cases entry.bind (·.authorizer) with
  | none => exact ⟨nofun, fun _ => .inl hquiet⟩
  | some authorizer => exact ⟨nofun, fun _ => .inl hquiet⟩

theorem fetchAndCacheTokenLegacy_guards (hcfg : cfg.aclDownPolicy.Named) (token : String)
    (cached : Option CachedAuthorizer) (s : Resolver) :
    wp (fetchAndCacheTokenLegacy cfg env token cached) (Guards cfg s) s := by
  unfold fetchAndCacheTokenLegacy
  rw [wp_tick]
  cases (env s.moment).getPolicy token with
  | ok reply =>
    cases hparent : rootAuthorizer reply.parent with
    | none =>
      simp only [hparent]
      exact ⟨nofun, fun _ => .inr (.inr ⟨_, rfl⟩)⟩
    | some parent =>
      simp only [hparent]
      rw [wp_noteReply_ok]
      refine wp_then (wp_legacyAuthorizer (env s.moment) parent reply.policy
        { s with moment := s.moment + 1 }) ?_
      intro authorizer s1 hsame
      exact ⟨nofun, fun _ => .inl (.of_eq hsame)⟩
  | error text =>
    by_cases hgone : isErrNotFound text = true
    · simp only [hgone, if_true]
      exact ⟨nofun, fun _ => .inr (.inr ⟨_, rfl⟩)⟩
    · simp only [hgone, hcfg.extends]
      rcases hcfg with hdown | hdown <;> rw [hdown]
      · exact ⟨nofun, fun hdeny => nomatch hdown.symm.trans hdeny⟩
      · cases cached <;> exact ⟨nofun, fun _ => .inr (.inl rfl)⟩

/-- No nil authorizer is cached for a list of policies. -/
def NilFree (authorizers : String → Option CachedAuthorizer) : Prop :=
  ∀ policies e, authorizers (hashKey policies) = some e → e.authorizer ≠ none

variable [External] [Hcl]

theorem wp_compileWithCache (policies : List ACLPolicy) (hnil : NilFree s.authorizers) :
    wp (compileWithCache cfg env policies)
      (fun res s' => res ≠ .ok none ∧ s'.failures = s.failures) s := by
  unfold compileWithCache
  rw [wp_tick, wp_bind, wp_read, andThen_ok]
  cases hentry : s.authorizers (hashKey policies) with
  | some entry => exact ⟨fun hres => hnil policies entry hentry (Except.ok.inj hres), rfl⟩
  | none =>
    rw [wp_bind, wp_read, andThen_ok]
    dsimp only [id]
    rcases compile (env s.moment).compiling cfg.aclDefaultPolicy.authorizer policies
      { parsedPolicies := s.parsedPolicies, heap := s.rules } with ⟨text | authorizer, cache⟩
    · exact ⟨nofun, rfl⟩
    · exact ⟨nofun, rfl⟩

theorem resolveTokenLegacy_guards (hcfg : cfg.aclDownPolicy.Named) (token : String)
    (hnil : NilFree s.authorizers) : wp (resolveTokenLegacy cfg env token) (Guards cfg s) s := by
  unfold resolveTokenLegacy
  rw [wp_tick]
  cases (env s.moment).resolveIdentityFromToken token with
  | some found =>
    cases found with
    | ok identity =>
      refine wp_seq (resolvePoliciesForIdentity_reports env hcfg identity _) ?_ ?_
      · rintro policies s1 ⟨hsame, hquiet | ⟨text, htext⟩⟩
        · refine wp_mono (wp_compileWithCache env policies (hsame ▸ hnil)) ?_
          rintro res s2 ⟨hres, hfailures⟩
          exact ⟨hres, fun _ => .inl (hquiet.trans (.of_eq hfailures))⟩
        · cases htext
      · rintro e s1 -
        exact ⟨nofun, fun _ => .inr (.inr ⟨e, rfl⟩)⟩
    | error text => exact ⟨nofun, fun _ => .inr (.inr ⟨_, rfl⟩)⟩
  | none =>
    rw [wp_bind, wp_read, andThen_ok]
    split
    · exact cachedAuthorizer_guards _ (.of_eq rfl)
    · rw [wp_bind, wp_attempt]
      refine wp_mono (fetchAndCacheTokenLegacy_guards env hcfg token _ _) ?_
      intro res s1 hguards
      have hwait : waitForResult cfg (s.authorizers token) = true := by
        unfold waitForResult
        rw [hcfg.waits, Bool.or_true]
      rw [andThen_ok, if_pos hwait]
      cases res with
      | ok authorizer => exact hguards
      | error e => exact hguards

/-! ## What a caller is granted -/

/-- Whatever the first authorizer allows, the second one allows too. -/
structure Authorizer.NoMoreThan (a b : Authorizer) : Prop where
  aclRead : a.aclRead → b.aclRead
  aclWrite : a.aclWrite → b.aclWrite
  agentRead : ∀ n, a.agentRead n → b.agentRead n
  agentWrite : ∀ n, a.agentWrite n → b.agentWrite n
  eventRead : ∀ n, a.eventRead n → b.eventRead n
  eventWrite : ∀ n, a.eventWrite n → b.eventWrite n
  intentionDefaultAllow : a.intentionDefaultAllow → b.intentionDefaultAllow
  intentionRead : ∀ n, a.intentionRead n → b.intentionRead n
  intentionWrite : ∀ n, a.intentionWrite n → b.intentionWrite n
  keyList : ∀ n, a.keyList n → b.keyList n
  keyRead : ∀ n, a.keyRead n → b.keyRead n
  keyWrite : ∀ n, a.keyWrite n → b.keyWrite n
  keyWritePrefix : ∀ n, a.keyWritePrefix n → b.keyWritePrefix n
  keyringRead : a.keyringRead → b.keyringRead
  keyringWrite : a.keyringWrite → b.keyringWrite
  nodeRead : ∀ n, a.nodeRead n → b.nodeRead n
  nodeWrite : ∀ n, a.nodeWrite n → b.nodeWrite n
  operatorRead : a.operatorRead → b.operatorRead
  operatorWrite : a.operatorWrite → b.operatorWrite
  preparedQueryRead : ∀ n, a.preparedQueryRead n → b.preparedQueryRead n
  preparedQueryWrite : ∀ n, a.preparedQueryWrite n → b.preparedQueryWrite n
  serviceRead : ∀ n, a.serviceRead n → b.serviceRead n
  serviceWrite : ∀ n, a.serviceWrite n → b.serviceWrite n
  sessionRead : ∀ n, a.sessionRead n → b.sessionRead n
  sessionWrite : ∀ n, a.sessionWrite n → b.sessionWrite n
  snapshot : a.snapshot → b.snapshot

omit [Blake2b] [External] [Hcl] in
theorem denyAll_noMoreThan (b : Authorizer) : denyAll.NoMoreThan b := by
  constructor <;> intros <;> contradiction

structure Guarded (cfg : ResolverConfig) (env : Nat → Moment) (token : String) (s : Resolver) :
    Prop where
  notNil : (resolveToken cfg env token s).1 ≠ .ok none
  bounded : cfg.aclDownPolicy ≠ .allow → ¬ AllAnswered s (resolveToken cfg env token s).2 →
    ∀ a, (resolveToken cfg env token s).1 = .ok (some a) →
      a.NoMoreThan cfg.aclDefaultPolicy.authorizer ∨
        ∃ e b, s.authorizers (if token = "" then anonymousToken else token) = some e ∧
          e.authorizer = some b ∧ a.NoMoreThan b

variable (cfg) in
theorem Guarded.of_guards (hcfg : cfg.aclDownPolicy.Named)
    (h : wp (resolveToken cfg env token) (Guards cfg s) s) : Guarded cfg env token s := by
  refine ⟨h.1, fun hdown hloud a ha => ?_⟩
  rcases h.2 (hcfg.resolve_left hdown) with hquiet | hdeny | ⟨e, he⟩
  · exact absurd hquiet hloud
  · obtain rfl := Option.some.inj (Except.ok.inj (hdeny.symm.trans ha))
    exact .inl (denyAll_noMoreThan _)
  · cases he.symm.trans ha

omit [Blake2b] [External] [Hcl] in
theorem wp_disableACLsWhenUpstreamDisabled (e : ResolveError) (s : Resolver) :
    wp (disableACLsWhenUpstreamDisabled cfg env e) (fun res s' => ∃ u, res = .ok u ∧
      s'.failures = s.failures) s := by
  unfold disableACLsWhenUpstreamDisabled
  rw [wp_tick]
  split <;> exact ⟨(), rfl, rfl⟩

variable (cfg) in
theorem resolveToken_guards (hcfg : cfg.aclDownPolicy.Named) (token : String)
    (hnil : NilFree s.authorizers) (henabled : s.aclsEnabled cfg (env s.moment) = true) :
    wp (resolveToken cfg env token) (Guards cfg s) s := by
  unfold resolveToken
  rw [wp_tick, wp_bind, wp_read, andThen_ok]
  have henabled' :
      Resolver.aclsEnabled cfg { s with moment := s.moment + 1 } (env s.moment) = true := henabled
  simp only [henabled', Bool.not_true, Bool.false_eq_true, if_false]
  split
  · exact ⟨nofun, fun _ => .inl (.of_eq rfl)⟩
  split
  · rw [wp_bind, wp_attempt]
    refine wp_mono (resolveTokenLegacy_guards env hcfg _ hnil) ?_
    intro res s₁ hguards
    rw [andThen_ok]
    cases res with
    | ok authorizer => exact hguards
    | error e =>
      refine wp_then (wp_disableACLsWhenUpstreamDisabled env e s₁) ?_
      intro _ s₂ hsame
      exact ⟨nofun, fun _ => .inr (.inr ⟨e, rfl⟩)⟩
  · rw [wp_bind, wp_attempt]
    refine wp_mono (resolveWithRetries_reports env hcfg _ _ _ _) ?_
    rintro res s₁ ⟨hsame, hreport⟩
    rw [andThen_ok]
    cases res with
    | ok found =>
      rcases hreport with hquiet | ⟨text, htext⟩
      · refine wp_mono (wp_compileWithCache env found.2 (hsame ▸ hnil)) ?_
        rintro res s₂ ⟨hres, hfailures⟩
        exact ⟨hres, fun _ => .inl (hquiet.trans (.of_eq hfailures))⟩
      · cases htext
    | error e =>
      refine wp_then (wp_disableACLsWhenUpstreamDisabled env e s₁) ?_
      intro _ s₂ hfailures
      split
      · rcases hcfg with hdown | hdown <;> rw [hdown]
        · exact ⟨nofun, fun hdeny => nomatch hdown.symm.trans hdeny⟩
        · exact ⟨nofun, fun _ => .inr (.inl rfl)⟩
      · exact ⟨nofun, fun _ => .inr (.inr ⟨e, rfl⟩)⟩

/-! ## Nil authorizers -/

/-- Nothing is known about a token, and the datacenter does not answer. -/
structure Unknown (env : Nat → Moment) (token text : String) (s : Resolver) : Prop where
  elsewhere : ∀ n, (env n).resolveIdentityFromToken token = none
  fails : ∀ n, (env n).tokenRead token = .error text
  reached : isErrNotFound text = false
  uncached : s.identities token = none

omit [Blake2b] [External] [Hcl] in
theorem Unknown.wp_identity {text : String} (h : Unknown env token text s) :
    wp (resolveIdentityFromToken cfg env token)
      (fun res _ => res = .error (.remote text)) s := by
  have hfetch : wp (fetchAndCacheIdentityFromToken cfg env token none)
      (fun res _ => res = .error (.plain text)) { s with moment := s.moment + 1 } := by
    unfold fetchAndCacheIdentityFromToken
    rw [wp_tick]
    simp only [h.fails, h.reached, Bool.false_eq_true, if_false]
    rfl
  unfold resolveIdentityFromToken
  rw [wp_tick]
  simp only [h.elsewhere]
  rw [wp_bind, wp_read, andThen_ok]
  simp only [h.uncached, Option.any_none, Bool.false_eq_true, if_false]
  rw [wp_bind, wp_attempt]
  refine wp_mono hfetch ?_
  rintro _ s1 rfl
  rw [andThen_ok]
  have hgone : isErrNotFound (ResolveError.plain text).text = false := h.reached
  simp only [waitForResult, Option.isNone_none, Bool.true_or, if_true, hgone, Bool.false_eq_true,
    if_false]
  rfl

variable (cfg) in
theorem Unknown.wp_resolveToken {text : String} (hlegacy : cfg.useLegacyACLs = false)
    (henabled : s.aclsEnabled cfg (env s.moment) = true) (hroot : rootAuthorizer token = none)
    (hname : token ≠ "") (h : Unknown env token text { s with moment := s.moment + 1 }) :
    wp (resolveToken cfg env token)
      (fun res _ => res = .ok cfg.aclDownPolicy.authorizer) s := by
  have hretries : wp (resolveTokenToIdentityAndPolicies cfg env token)
      (fun res _ => res = .error (.remote text)) { s with moment := s.moment + 1 } := by
    refine wp_seq h.wp_identity ?_ ?_
    · rintro found s₁ hfound
      cases hfound
    · rintro e s₁ he
      rw [Except.error.inj he]
  have henabled' :
      Resolver.aclsEnabled cfg { s with moment := s.moment + 1 } (env s.moment) = true := henabled
  unfold resolveToken
  rw [wp_tick, wp_bind, wp_read, andThen_ok]
  simp only [henabled', Bool.not_true, Bool.false_eq_true, if_false, hroot, Option.isSome_none,
    hname, hlegacy]
  rw [wp_bind, wp_attempt]
  refine wp_mono hretries ?_
  rintro _ s₁ rfl
  rw [andThen_ok]
  refine wp_then (wp_disableACLsWhenUpstreamDisabled env (.remote text) s₁) ?_
  intro _ s₂ _
  rfl

omit [Blake2b] [External] [Hcl] in
theorem wp_lookUp_local
    (hlookup : ∀ n, ∀ id ∈ ids, (env n).resolvePolicyFromID id = some (.ok (f id)))
    (acc : Linkable.Collected ACLPolicy) (s : Resolver) :
    wp ((linkedPolicies cfg).lookUp env ids acc) (fun res s' =>
      ∃ c, res = .ok c ∧ c = { acc with values := acc.values ++ ids.map f } ∧
        s'.authorizers = s.authorizers) s := by
  induction ids generalizing acc s with
  | nil => exact ⟨acc, rfl, by simp, rfl⟩
  | cons id ids ih =>
    have hid : (linkedPolicies cfg).lookup (env s.moment) id = some (.ok (f id)) :=
      hlookup s.moment id mem_cons_self
    have hrest := ih (fun n i hi => hlookup n i (mem_cons_of_mem _ hi))
      { acc with values := acc.values ++ [f id] } { s with moment := s.moment + 1 }
    unfold Linkable.lookUp
    rw [wp_tick]
    simp only [hid]
    simpa using hrest

omit [Blake2b] [External] [Hcl] in
theorem dedupeStringSlice_of_increasing {l : List String} (h : l.Pairwise (· < ·)) :
    dedupeStringSlice l = l := by
  have hdrop : ∀ {l : List String}, l.Pairwise (· < ·) → dropRepeats l = l := by
    intro l hl
    induction l using dropRepeats.induct with
    | case1 a l ih => exact absurd ((pairwise_cons.mp hl).1 a mem_cons_self) (lt_irrefl a)
    | case2 a b l hne ih =>
      rw [dropRepeats, if_neg hne, ih (pairwise_cons.mp hl).2]
    | case3 l hl' => rw [dropRepeats.eq_2 l hl']
  unfold dedupeStringSlice
  split
  · rfl
  · rw [(h.imp le_of_lt).insertionSort_eq, hdrop h]

/-- A token that links to policies by their IDs. -/
def linkingTo (ids : List String) : ACLToken where
  accessorID := ""
  secretID := ""
  policies := ids.map fun id => { id := id }

omit [External] [Hcl] in
theorem wp_policiesOfLinks (hids : ids.Pairwise (· < ·)) (hscope : ∀ id, (f id).datacenters = [])
    (hlookup : ∀ n, ∀ id ∈ ids, (env n).resolvePolicyFromID id = some (.ok (f id))) (s : Resolver) :
    wp (resolvePoliciesForIdentity cfg env (linkingTo ids)) (fun res s' =>
      res = .ok (ids.map f) ∧ s'.authorizers = s.authorizers) s := by
  have hlinks : (linkingTo ids).policies.map (·.id) = ids := by
    simp [linkingTo, Function.comp_def]
  unfold resolvePoliciesForIdentity
  rw [hlinks]
  cases ids with
  | nil => exact ⟨rfl, rfl⟩
  | cons id ids =>
    have hroles : wp (collectRolesForIdentity cfg env (linkingTo (id :: ids)) [])
        (fun res s' => ∃ roles, res = .ok roles ∧ roles = [] ∧ s' = s) s := ⟨[], rfl, rfl, rfl⟩
    simp only [isEmpty_cons, Bool.false_and, Bool.false_eq_true, if_false]
    refine wp_then hroles ?_
    rintro _ s0 ⟨rfl, hs0⟩
    rw [hs0]
    have hmerge : wp (mergeIdentities env (linkingTo (id :: ids)) [])
        (fun res s' => ∃ out, res = .ok out ∧ out = [] ∧ s'.authorizers = s.authorizers) s :=
      ⟨[], rfl, rfl, rfl⟩
    refine wp_then hmerge ?_
    rintro _ s1 ⟨rfl, hsame⟩
    rw [flatMap_nil, append_nil, dedupeStringSlice_of_increasing hids]
    have hpolicies : wp (collectPoliciesForIdentity cfg env (linkingTo (id :: ids))
        (id :: ids)) (fun res s' => ∃ policies, res = .ok policies ∧
          policies = (id :: ids).map f ∧ s'.authorizers = s.authorizers) s1 := by
      refine wp_then (wp_lookUp_local env hlookup {} s1) ?_
      rintro _ s2 ⟨rfl, hsame2⟩
      exact ⟨_, rfl, rfl, hsame2.trans hsame⟩
    refine wp_then hpolicies ?_
    rintro _ s2 ⟨rfl, hsame2⟩
    refine ⟨?_, hsame2⟩
    rw [map_nil, append_nil]
    have hfilter : filterPoliciesByScope cfg ((id :: ids).map f) = (id :: ids).map f := by
      unfold filterPoliciesByScope
      simp [flatMap_map, hscope, ← map_eq_flatMap]
    show Except.ok (filterPoliciesByScope cfg ((id :: ids).map f)) = _
    rw [hfilter]

variable (cfg) in
theorem wp_resolveToken_cached_nil (hids : ids.Pairwise (· < ·))
    (hscope : ∀ id, (f id).datacenters = [])
    (hlookup : ∀ n, ∀ id ∈ ids, (env n).resolvePolicyFromID id = some (.ok (f id)))
    (hroot : rootAuthorizer token = none) (hname : token ≠ "")
    (hidentity : ∀ n, (env n).resolveIdentityFromToken token = some (.ok (linkingTo ids)))
    (hlegacy : cfg.useLegacyACLs = false) (henabled : s.aclsEnabled cfg (env s.moment) = true)
    {e : CachedAuthorizer} (hentry : s.authorizers (hashKey (ids.map f)) = some e)
    (hnil : e.authorizer = none) :
    wp (resolveToken cfg env token) (fun res _ => res = .ok none) s := by
  have hretries : wp (resolveTokenToIdentityAndPolicies cfg env token)
      (fun res s' => res = .ok (linkingTo ids, ids.map f) ∧ s'.authorizers = s.authorizers)
      { s with moment := s.moment + 1 } := by
    have hfound : wp (resolveIdentityFromToken cfg env token)
        (fun res s' => ∃ found, res = .ok found ∧ found = some (linkingTo ids) ∧
          s'.authorizers = s.authorizers) { s with moment := s.moment + 1 } := by
      unfold resolveIdentityFromToken
      rw [wp_tick]
      simp only [hidentity]
      exact ⟨_, rfl, rfl, rfl⟩
    refine wp_then hfound ?_
    rintro _ s₁ ⟨rfl, hsame⟩
    dsimp only
    rw [wp_tick]
    have hfresh : (linkingTo ids).isExpired (env s₁.moment).now = false := by
      simp [ACLToken.isExpired, linkingTo]
    simp only [hfresh, Bool.false_eq_true, if_false]
    rw [wp_bind, wp_attempt]
    refine wp_mono (wp_policiesOfLinks env hids hscope hlookup _) ?_
    rintro _ s₂ ⟨rfl, hsame₂⟩
    exact ⟨rfl, hsame₂.trans hsame⟩
  have henabled' :
      Resolver.aclsEnabled cfg { s with moment := s.moment + 1 } (env s.moment) = true := henabled
  unfold resolveToken
  rw [wp_tick, wp_bind, wp_read, andThen_ok]
  simp only [henabled', Bool.not_true, Bool.false_eq_true, if_false, hroot, Option.isSome_none,
    hname, hlegacy]
  rw [wp_bind, wp_attempt]
  refine wp_mono hretries ?_
  rintro _ s₁ ⟨rfl, hsame⟩
  rw [andThen_ok]
  dsimp only
  unfold compileWithCache
  rw [wp_tick, wp_bind, wp_read, andThen_ok]
  simp only [hsame, hentry]
  exact congrArg Except.ok hnil

/-- The resolver with these cached authorizers and nothing else. -/
def bareResolver (authorizers : String → Option CachedAuthorizer) : Resolver where
  authorizers := authorizers
  rules := emptyHeap
  heap := { cells := fun _ => { serviceName := "" } }

/-- The datacenter cannot be reached. -/
def outage : Moment where
  now := 0
  getPolicy _ := .error "connection refused"
  tokenRead _ := .error "connection refused"
  policyResolve _ _ := .error "connection refused"
  roleResolve _ _ := .error "connection refused"
  sort := insertionSlices
  walk := ⟨fun _ l => l, fun _ => .refl⟩
  compiling := { order := insertionOrder }

omit [Blake2b] [External] [Hcl] in
theorem exists_increasing (n : Nat) : ∃ l : List String, l.length = n ∧ l.Pairwise (· < ·) := by
  obtain ⟨set, hset⟩ := Infinite.exists_subset_card_eq String n
  exact ⟨set.sort, by rw [Finset.length_sort, hset], (Finset.sortedLT_sort set).pairwise⟩

omit [External] [Hcl] in
theorem exists_links (policies : List ACLPolicy) : ∃ (ids : List String) (f : String → ACLPolicy),
    ids.Pairwise (· < ·) ∧ (∀ id, (f id).datacenters = []) ∧
      hashKey (ids.map f) = hashKey policies := by
  obtain ⟨ids, hlength, hids⟩ := exists_increasing policies.length
  refine ⟨ids, fun id => { policies.getD (ids.idxOf id) { id := "", name := "" } with
    datacenters := [] }, hids, fun _ => rfl, ?_⟩
  have hmap : ids.map (fun id => policies.getD (ids.idxOf id) { id := "", name := "" }) =
      policies := by
    refine ext_getElem (by simp [hlength]) fun i hi hi' => ?_
    have hi : i < ids.length := by simpa using hi
    have hnodup : ids.Nodup := hids.imp fun h => ne_of_lt h
    simp [hnodup.idxOf_getElem, hi']
  rw [← congrArg hashKey hmap]
  unfold hashKey
  simp [flatMap_map]

/-- The callers are guarded in every resolution, with any other cache contents and any answers,
in both modes, exactly when the down policy names an authorizer and no nil authorizer is cached
for a list of policies. -/
theorem resolved_tokens_are_guarded_iff (cfg : ResolverConfig)
    (authorizers : String → Option CachedAuthorizer) :
    (∀ legacy env token s, s.authorizers = authorizers →
      s.aclsEnabled { cfg with useLegacyACLs := legacy } (env s.moment) = true →
        Guarded { cfg with useLegacyACLs := legacy } env token s) ↔
      (cfg.aclsEnabled = true → cfg.aclDownPolicy.Named ∧ NilFree authorizers) := by
  constructor
  · intro h hacls
    have henabled (m : Moment) (hm : m.now = 0) : (bareResolver authorizers).aclsEnabled
        { cfg with useLegacyACLs := false } m = true := by
      simp [Resolver.aclsEnabled, hacls, hm, bareResolver, zeroTime]
    constructor
    · -- a token that is not cached while the datacenter is out of reach
      have hguarded := h false (fun _ => outage) "web" (bareResolver authorizers) rfl
        (henabled outage rfl)
      have hresult : (resolveToken { cfg with useLegacyACLs := false } (fun _ => outage) "web"
          (bareResolver authorizers)).1 = .ok cfg.aclDownPolicy.authorizer :=
        Unknown.wp_resolveToken { cfg with useLegacyACLs := false } (fun _ => outage) rfl
          (henabled outage rfl) (by decide) (by decide)
          ⟨fun _ => rfl, fun _ => rfl, by decide +kernel, rfl⟩
      have hnotNil := hguarded.notNil
      rw [hresult] at hnotNil
      cases hdown : cfg.aclDownPolicy with
      | allow => exact .inl rfl
      | deny => exact .inr rfl
      | asyncCache => simp [hdown, DownPolicy.authorizer] at hnotNil
      | extendCache => simp [hdown, DownPolicy.authorizer] at hnotNil
    · intro policies e hentry hnil
      obtain ⟨ids, f, hids, hscope, hhash⟩ := exists_links policies
      let env : Nat → Moment := fun _ => { outage with
        resolveIdentityFromToken := fun _ => some (.ok (linkingTo ids))
        resolvePolicyFromID := fun id => some (.ok (f id)) }
      have hguarded := h false env "web" (bareResolver authorizers) rfl (henabled (env 0) rfl)
      refine hguarded.notNil ?_
      exact wp_resolveToken_cached_nil { cfg with useLegacyACLs := false } env hids hscope
        (fun _ _ _ => rfl) (by decide) (by decide) (fun _ => rfl) rfl (henabled (env 0) rfl)
        (hhash ▸ hentry) hnil
  · intro h legacy env token s hauthorizers henabled
    have hacls : cfg.aclsEnabled = true := by
      exact (Bool.and_eq_true_iff.mp henabled).1
    obtain ⟨hdown, hnil⟩ := h hacls
    exact Guarded.of_guards { cfg with useLegacyACLs := legacy } env hdown
      (resolveToken_guards { cfg with useLegacyACLs := legacy } env hdown token
        (hauthorizers ▸ hnil) henabled)

end Programs

section Example

attribute [local instance] ascii keepBytes webRule

/-- A client with the default down policy, empty caches and no connection to the servers lets
every request with any token pass. -/
theorem an_unknown_token_gets_a_nil_authorizer :
    (resolveToken { datacenter := "dc1", aclDefaultPolicy := .deny } (fun _ => outage) "unknown"
      (bareResolver fun _ => none)).1 = .ok none :=
  Unknown.wp_resolveToken { datacenter := "dc1", aclDefaultPolicy := .deny } (fun _ => outage) rfl
    rfl (by decide) (by decide) ⟨fun _ => rfl, fun _ => rfl, by decide +kernel, rfl⟩

end Example

end OpenGyoza
