-- Whether a token's policies and roles are honoured. The ACL datacenter has a
-- history of policies and roles, and the resolver sees a part of it through
-- its own store and through the answers to its requests.
import OpenGyoza.LinkFreshness

namespace OpenGyoza

open Memdb Fallible List

/-! ## Tokens that have been read -/

/-- The local store or the ACL datacenter had this token before the moment `n`. -/
def TokenSeen (env : Nat → Moment) (n : Nat) (identity : ACLToken) : Prop :=
  ∃ m < n, ∃ token, (env m).resolveIdentityFromToken token = some (.ok identity) ∨
    (env m).tokenRead token = .ok (some identity)

variable {env : Nat → Moment}

theorem TokenSeen.mono {n n' : Nat} {identity : ACLToken} (h : TokenSeen env n identity)
    (hn : n ≤ n') : TokenSeen env n' identity := by
  obtain ⟨m, hm, hread⟩ := h
  exact ⟨m, hm.trans_le hn, hread⟩

/-- The tokens in the cache have been read. -/
def IdentitiesRead (env : Nat → Moment) (s : Resolver) : Prop :=
  ∀ token e identity, s.identities token = some e → e.value = some identity →
    TokenSeen env s.moment identity

variable {s s' : Resolver}

theorem IdentitiesRead.mono (h : IdentitiesRead env s) (hmoment : s.moment ≤ s'.moment)
    (hsame : ∀ token e identity, s'.identities token = some e →
      e.value = some identity → ∃ e', s.identities token = some e' ∧ e'.value = some identity) :
    IdentitiesRead env s' := by
  intro token e identity he hvalue
  obtain ⟨e', he', hvalue'⟩ := hsame token e identity he hvalue
  exact (h token e' identity he' hvalue').mono hmoment

/-- The caches of policies and roles are left alone, and the cached tokens have still been
read. -/
structure Around (env : Nat → Moment) (s s' : Resolver) : Prop extends Aside s s' where
  read : IdentitiesRead env s → IdentitiesRead env s'

instance (env : Nat → Moment) : Std.Refl (Around env) :=
  ⟨fun s => { toAside := refl_of Aside s, read := id }⟩

instance (env : Nat → Moment) : IsTrans Resolver (Around env) :=
  ⟨fun _ _ _ h h' =>
    { toAside := trans_of Aside h.toAside h'.toAside, read := h'.read ∘ h.read }⟩

theorem Around.of_identities (h : Aside s s') (hsame : s'.identities = s.identities) :
    Around env s s' where
  toAside := h
  read hs := hs.mono h.moment fun _ e _ he hvalue => ⟨e, hsame ▸ he, hvalue⟩

section Around

variable {cfg : ResolverConfig} {env : Nat → Moment}

theorem tick_around : Moves (Around env) (tick env) := fun s =>
  .of_identities ⟨rfl, rfl, Nat.le_succ s.moment, suffix_rfl⟩ rfl

theorem noteReply_around {α : Type} (reply : Except String α) :
    Moves (Around env) (noteReply reply) := by
  intro s
  cases reply with
  | ok a => exact refl_of (Around env) s
  | error text => exact .of_identities ⟨rfl, rfl, le_rfl, suffix_cons text s.failures⟩ rfl

theorem putIdentity_around {m : Moment} {token : String} {identity : Option ACLToken}
    (h : ∀ a, identity = some a → TokenSeen env s.moment a) :
    Around env s (putIdentity m token identity s).2 where
  toAside := putIdentity_aside m token identity s
  read hs := by
    intro t e a he ha
    rcases keep_update he with ⟨rfl, rfl⟩ | he
    · exact h a ha
    · exact hs t e a he ha

theorem putAuthorizerWithTTL_around (m : Moment) (token : String) (authorizer : Option Authorizer)
    (ttl : Int) : Moves (Around env) (putAuthorizerWithTTL m token authorizer ttl) :=
  fun _ => .of_identities ⟨rfl, rfl, le_rfl, suffix_rfl⟩ rfl

/-- The answer of a look-up of a token has been read, from now on. -/
def FoundRead (env : Nat → Moment) (s : Resolver)
    (res : Except ResolveError (Option ACLToken)) (s' : Resolver) : Prop :=
  Around env s s' ∧ ∀ identity, res = .ok (some identity) → TokenSeen env s'.moment identity

theorem FoundRead.put {s₁ : Resolver} (h : Around env s s₁) {v : Option ACLToken}
    (hv : ∀ a, v = some a → TokenSeen env s₁.moment a) (m : Moment) (token : String)
    {res : Except ResolveError (Option ACLToken)}
    (hres : ∀ identity, res = .ok (some identity) → v = some identity) :
    FoundRead env s res (putIdentity m token v s₁).2 :=
  ⟨trans_of (Around env) h (putIdentity_around hv), fun _ hok => hv _ (hres _ hok)⟩

theorem fetchAndCacheIdentityFromToken_read (token : String) (cached : Option (Cached ACLToken))
    (s : Resolver)
    (hcached : ∀ e a, cached = some e → e.value = some a → TokenSeen env s.moment a) :
    wp (fetchAndCacheIdentityFromToken cfg env token cached) (FoundRead env s) s := by
  unfold fetchAndCacheIdentityFromToken
  rw [wp_tick]
  have htick : Around env s (tick env s).2 := tick_around s
  cases hreply : (env s.moment).tokenRead token with
  | ok reply =>
    cases reply with
    | none => exact FoundRead.put htick (by simp) _ _ nofun
    | some identity =>
      refine FoundRead.put htick ?_ _ _ fun a ha => Except.ok.inj ha
      intro a ha
      cases ha
      exact ⟨s.moment, Nat.lt_succ_self _, token, .inr hreply⟩
  | error text =>
    have hnote := trans_of (Around env) htick
      (noteReply_around (.error text : Except String (Option ACLToken)) (tick env s).2)
    have hnone : ∀ e, FoundRead env s (.error e) _ := fun e =>
      FoundRead.put (v := none) hnote (by simp) (env s.moment) token (by simp)
    by_cases hgone : isErrNotFound text = true
    · simp only [hgone, if_true]
      exact hnone _
    · simp only [hgone]
      cases cached with
      | none => exact hnone _
      | some entry =>
        cases hextends : cfg.aclDownPolicy.extends with
        | false => exact hnone _
        | true =>
          refine FoundRead.put hnote (fun a ha => ?_) _ _ fun identity hres => Except.ok.inj hres
          exact (hcached entry a rfl ha).mono (Nat.le_succ _)

theorem resolveIdentityFromToken_read (token : String) (s : Resolver) (hs : IdentitiesRead env s) :
    wp (resolveIdentityFromToken cfg env token) (FoundRead env s) s := by
  unfold resolveIdentityFromToken
  rw [wp_tick]
  have htick : Around env s (tick env s).2 := tick_around s
  cases hfound : (env s.moment).resolveIdentityFromToken token with
  | some found =>
    cases found with
    | ok identity =>
      refine ⟨htick, fun a ha => ?_⟩
      cases ha
      exact ⟨s.moment, Nat.lt_succ_self _, token, .inl hfound⟩
    | error text => exact ⟨htick, nofun⟩
  | none =>
    rw [wp_bind, wp_read, andThen_ok]
    have hentry : ∀ e a, s.identities token = some e → e.value = some a →
        TokenSeen env (s.moment + 1) a := fun e a he ha =>
      (hs token e a he ha).mono (Nat.le_succ _)
    have hcached : ∀ a, (s.identities token).bind (·.value) = some a →
        TokenSeen env (s.moment + 1) a := by
      intro a ha
      obtain ⟨e, he, hvalue⟩ := Option.bind_eq_some_iff.mp ha
      exact hentry e a he hvalue
    split
    · exact ⟨htick, fun a ha => hcached a (Except.ok.inj ha)⟩
    · rw [wp_bind, wp_attempt]
      refine wp_mono (fetchAndCacheIdentityFromToken_read token _ _ hentry) ?_
      rintro res s' ⟨haround, hread⟩
      have haround' := trans_of (Around env) htick haround
      rw [andThen_ok]
      split
      · cases res with
        | ok identity => exact ⟨haround', hread⟩
        | error e =>
          dsimp only
          split <;> exact ⟨haround', nofun⟩
      · exact ⟨haround', fun a ha => (hcached a (Except.ok.inj ha)).mono haround.moment⟩

theorem disableACLsWhenUpstreamDisabled_around (e : ResolveError) :
    Moves (Around env) (disableACLsWhenUpstreamDisabled cfg env e) :=
  tick_around.bind fun _ =>
    .ite (fun _ => .of_identities ⟨rfl, rfl, le_rfl, suffix_rfl⟩ rfl) (.pure _)

theorem cachedAuthorizer_around (entry : Option CachedAuthorizer) :
    Moves (Around env) (cachedAuthorizer entry) := by
  unfold cachedAuthorizer
  cases entry.bind (·.authorizer) with
  | none => exact .fail _
  | some authorizer => exact .pure _

variable [Blake2b]

theorem fetchAndCacheTokenLegacy_around (token : String) (cached : Option CachedAuthorizer) :
    Moves (Around env) (fetchAndCacheTokenLegacy cfg env token cached) := by
  refine tick_around.bind fun m => (noteReply_around _).bind fun _ => ?_
  have hput : ∀ authorizer ttl,
      Moves (Around env) (putAuthorizerWithTTL m token authorizer ttl) :=
    putAuthorizerWithTTL_around m token
  cases m.getPolicy token with
  | ok reply =>
    dsimp only
    cases rootAuthorizer reply.parent with
    | none => exact (hput _ _).bind fun _ => .fail _
    | some parent =>
      have hlegacy : Moves (Around env) (legacyAuthorizer m parent reply.policy) := by
        intro s
        cases reply.policy <;> exact .of_identities ⟨rfl, rfl, le_rfl, suffix_rfl⟩ rfl
      exact hlegacy.bind fun _ => (hput _ _).bind fun _ => .pure _
  | error text =>
    exact .ite ((hput _ _).bind fun _ => .fail _) ((hput _ _).bind fun _ => .pure _)

variable [External] [Hcl]

theorem compileWithCache_around (policies : List ACLPolicy) :
    Moves (Around env) (compileWithCache cfg env policies) := by
  refine tick_around.bind fun m => (Moves.read _).bind fun entry => ?_
  cases entry with
  | some entry => exact .pure _
  | none =>
    refine (Moves.read _).bind fun s => ?_
    rcases compile m.compiling cfg.aclDefaultPolicy.authorizer policies
      { parsedPolicies := s.parsedPolicies, heap := s.rules } with ⟨text | authorizer, cache⟩
    · exact Moves.bind
        (fun _ => .of_identities ⟨rfl, rfl, le_rfl, suffix_rfl⟩ rfl) fun _ => .fail _
    · exact Moves.bind
        (fun _ => .of_identities ⟨rfl, rfl, le_rfl, suffix_rfl⟩ rfl) fun _ =>
          (putAuthorizerWithTTL_around m _ _ _).bind fun _ => .pure _

end Around

/-! ## The history of the ACL datacenter -/

/-- A token links to a policy, itself or by a role as it was before the moment `n`. -/
def PolicyLinked (dc : Nat → StoredLinks) (env : Nat → Moment) (n : Nat) (id : String) : Prop :=
  ∃ identity, TokenSeen env n identity ∧ (id ∈ identity.policies.map (·.id) ∨
    ∃ roleID ∈ identity.roles.map (·.id), ∃ m < n, ∃ role, (dc m).roles roleID = some role ∧
      id ∈ role.policies.map (·.id))

def RoleLinked (env : Nat → Moment) (n : Nat) (id : String) : Prop :=
  ∃ identity, TokenSeen env n identity ∧ id ∈ identity.roles.map (·.id)

def watchPolicies (dc : Nat → StoredLinks) (env : Nat → Moment) : Linkable.Watch ACLPolicy where
  fits n id p := (dc n).policies id = some p
  present n id := ((dc n).policies id).isSome
  linked := PolicyLinked dc env
  outcome n secret ids := ((env n).policyResolve secret ids).map fun _ => ()

def watchRoles (dc : Nat → StoredLinks) (env : Nat → Moment) : Linkable.Watch HeldRole where
  fits n id r := ∃ role, (dc n).roles id = some role ∧ r.id = id ∧ r.policies = role.policies
  present n id := ((dc n).roles id).isSome
  linked := RoleLinked env
  outcome n secret ids := ((env n).roleResolve secret ids).map fun _ => ()

structure Truthful (dc : Nat → StoredLinks) (env : Nat → Moment) : Prop where
  clock : ∀ {n m}, n ≤ m → (env n).now ≤ (env m).now
  kept : ∀ n key, (env n).drops key = false
  policyID : ∀ {n id p}, (dc n).policies id = some p → p.id = id
  policyFound : ∀ {n id p}, (env n).resolvePolicyFromID id = some (.ok p) →
    (dc n).policies id = some p
  policyGone : ∀ {n id text}, (env n).resolvePolicyFromID id = some (.error text) →
    isErrNotFound text = true → (dc n).policies id = none
  policyAnswers : ∀ {n secret ids l}, (env n).policyResolve secret ids = .ok l →
    ∀ p, p ∈ l ↔ ∃ id ∈ ids, (dc n).policies id = some p
  roleID : ∀ {n id role}, (dc n).roles id = some role → role.id = id
  roleFound : ∀ {n id r}, (env n).resolveRoleFromID id = some (.ok r) →
    ∃ role, (dc n).roles id = some role ∧ r.id = id ∧ r.policies = role.policies
  roleGone : ∀ {n id text}, (env n).resolveRoleFromID id = some (.error text) →
    isErrNotFound text = true → (dc n).roles id = none
  roleAnswers : ∀ {n secret ids l}, (env n).roleResolve secret ids = .ok l →
    ∀ role, role ∈ l ↔ ∃ id ∈ ids, (dc n).roles id = some role

section Watched

variable {dc : Nat → StoredLinks} {env : Nat → Moment} (cfg : ResolverConfig)

theorem Truthful.policies_watched (h : Truthful dc env) :
    (linkedPolicies cfg).Watched env (watchPolicies dc env) where
  lawful := ⟨fun _ _ => rfl, fun _ _ => rfl⟩
  fits_congr hn hn' hm := by
    cases hn.symm.trans hn'
    exact hm
  fits_id := h.policyID
  linked_mono := by
    rintro n m id hnm ⟨identity, hread, hlinks⟩
    refine ⟨identity, hread.mono hnm, hlinks.imp_right ?_⟩
    rintro ⟨roleID, hrole, i, hi, hrest⟩
    exact ⟨roleID, hrole, i, hi.trans_le hnm, hrest⟩
  found := h.policyFound
  gone hlookup htext := by
    simp [watchPolicies, h.policyGone hlookup htext]
  kept := h.kept
  cache_aside haside := haside.policies
  moment_set _ _ := rfl
  failures_set _ _ := rfl
  request n secret ids s := by
    refine ⟨(env n).policyResolve secret ids, ?_⟩
    simp only [linkedPolicies, watchPolicies]
    cases hreply : (env n).policyResolve secret ids with
    | error text => exact ⟨rfl, ⟨rfl, rfl, le_rfl, suffix_cons _ _⟩, rfl, rfl, rfl⟩
    | ok l =>
      refine ⟨rfl, refl_of Aside s, rfl, rfl, rfl, fun p hp => ?_, fun id hid hsome => ?_⟩
      · exact (h.policyAnswers hreply p).mp hp
      · obtain ⟨p, hp⟩ := Option.isSome_iff_exists.mp hsome
        exact ⟨p, (h.policyAnswers hreply p).mpr ⟨id, hid, hp⟩, hp⟩

theorem Truthful.roles_watched (h : Truthful dc env) :
    (linkedRoles cfg).Watched env (watchRoles dc env) where
  lawful := ⟨fun _ _ => rfl, fun _ _ => rfl⟩
  fits_congr := by
    rintro n m id r r' ⟨role, hrole, -, hpolicies⟩ ⟨role', hrole', hid', hpolicies'⟩
      ⟨roleM, hroleM, -, hpoliciesM⟩
    cases hrole.symm.trans hrole'
    exact ⟨roleM, hroleM, hid', hpolicies'.trans (hpolicies.symm.trans hpoliciesM)⟩
  fits_id := by
    rintro n id r ⟨-, -, hid, -⟩
    exact hid
  linked_mono := by
    rintro n m id hnm ⟨identity, hread, hlinks⟩
    exact ⟨identity, hread.mono hnm, hlinks⟩
  found := h.roleFound
  gone hlookup htext := by
    simp [watchRoles, h.roleGone hlookup htext]
  kept := h.kept
  cache_aside haside := haside.roles
  moment_set _ _ := rfl
  failures_set _ _ := rfl
  request n secret ids s := by
    simp only [linkedRoles, watchRoles]
    cases hreply : (env n).roleResolve secret ids with
    | error text =>
      exact ⟨.error text, rfl, ⟨rfl, rfl, le_rfl, suffix_cons _ _⟩, rfl, rfl, rfl⟩
    | ok l =>
      rw [wp_noteReply_ok]
      refine wp_then (wp_holdRoles l s) ?_
      rintro roles s' ⟨heap, rfl, -, hall⟩
      refine ⟨.ok roles, rfl, ⟨rfl, rfl, le_rfl, suffix_rfl⟩, rfl, rfl, rfl, fun r hr => ?_,
        fun id hid hsome => ?_⟩
      · obtain ⟨role, hmem, hmirrors⟩ := exists_of_forall₂_left hall hr
        obtain ⟨id, hid, hrole⟩ := (h.roleAnswers hreply role).mp hmem
        exact ⟨id, hid, role, hrole, hmirrors.id.trans (h.roleID hrole), hmirrors.policies⟩
      · obtain ⟨role, hrole⟩ := Option.isSome_iff_exists.mp hsome
        have hmem := (h.roleAnswers hreply role).mpr ⟨id, hid, hrole⟩
        obtain ⟨r, hr, hmirrors⟩ := exists_of_forall₂_right hall hmem
        exact ⟨r, hr, role, hrole, hmirrors.id.trans (h.roleID hrole), hmirrors.policies⟩

end Watched

/-! ## One resolution -/

/-- A part of the resolver is left alone. -/
structure Spares (env : Nat → Moment) {β : Type} (part : Resolver → β) (s s' : Resolver) :
    Prop where
  same : part s' = part s
  moment : s.moment ≤ s'.moment
  failures : s.failures <:+ s'.failures
  read : IdentitiesRead env s → IdentitiesRead env s'

section Spares

variable {env : Nat → Moment} {β : Type} {part : Resolver → β}

instance : Std.Refl (Spares env part) := ⟨fun _ => ⟨rfl, le_rfl, List.suffix_rfl, id⟩⟩

instance : IsTrans Resolver (Spares env part) :=
  ⟨fun _ _ _ h h' => ⟨h'.same.trans h.same, h.moment.trans h'.moment,
    h.failures.trans h'.failures, h'.read ∘ h.read⟩⟩

theorem Spares.of_around (h : Around env s s') (hsame : part s' = part s) : Spares env part s s' :=
  ⟨hsame, h.moment, h.failures, h.read⟩

theorem Spares.of_identities (hsame : part s' = part s) (hmoment : s.moment ≤ s'.moment)
    (hfailures : s'.failures = s.failures) (hidentities : s'.identities = s.identities) :
    Spares env part s s' :=
  ⟨hsame, hmoment, hfailures ▸ suffix_rfl, fun hs =>
    hs.mono hmoment fun _ e _ he hvalue => ⟨e, hidentities ▸ he, hvalue⟩⟩

theorem Spares.remove {secret : String}
    (hsame : part { s with identities := Function.update s.identities secret none } = part s) :
    Spares env part s { s with identities := Function.update s.identities secret none } := by
  refine ⟨hsame, le_rfl, suffix_rfl, fun hs => hs.mono le_rfl fun token e a he hvalue => ?_⟩
  by_cases htoken : token = secret
  · subst htoken
    simp at he
  · exact ⟨e, by simpa [Function.update_of_ne htoken] using he, hvalue⟩

variable (env) (cfg : ResolverConfig)

theorem roles_framed : (linkedRoles cfg).Framed (Spares env (·.policies)) where
  moment _ _ hn := .of_identities rfl hn rfl rfl
  put _ _ _ _ := .of_identities rfl le_rfl rfl rfl
  request m secret ids s := by
    simp only [linkedRoles]
    cases m.roleResolve secret ids with
    | error text => exact .of_around (noteReply_around (.error text : Except String Unit) s) rfl
    | ok l =>
      have hhold := wp_then (wp_holdRoles l s)
        (Q := fun _ s' => Spares env (·.policies) s s')
        (k := fun roles => pure (Except.ok roles : Except String _)) ?_
      · exact hhold
      · rintro roles s' ⟨heap, rfl, -, -⟩
        exact .of_identities rfl le_rfl rfl rfl
  forget m secret s := .of_around (putIdentity_around (by simp)) rfl
  remove _ _ := .remove rfl

theorem policies_framed : (linkedPolicies cfg).Framed (Spares env (·.roles)) where
  moment _ _ hn := .of_identities rfl hn rfl rfl
  put _ _ _ _ := .of_identities rfl le_rfl rfl rfl
  request m secret ids s := by
    simp only [linkedPolicies]
    cases m.policyResolve secret ids with
    | error text => exact .of_around (noteReply_around (.error text : Except String Unit) s) rfl
    | ok l => exact refl_of (Spares env _) s
  forget m secret s := .of_around (putIdentity_around (by simp)) rfl
  remove _ _ := .remove rfl

end Spares

section Resolution

variable (cfg : ResolverConfig) (dc : Nat → StoredLinks) (env : Nat → Moment)

/-- What is cached has been there. -/
structure AllSourced (s : Resolver) : Prop where
  policies : (linkedPolicies cfg).Sourced (watchPolicies dc env) s
  roles : (linkedRoles cfg).Sourced (watchRoles dc env) s
  read : IdentitiesRead env s

/-- A part of a resolution that began in the state `s₀` and ends before the moment `N`. -/
structure Proceeds (s₀ : Resolver) (N : Nat) (s s' : Resolver) : Prop where
  policies : (linkedPolicies cfg).Follows cfg env (watchPolicies dc env) s₀ N s s'
  roles : (linkedRoles cfg).Follows cfg env (watchRoles dc env) s₀ N s s'
  failures : s.failures <:+ s'.failures
  read : IdentitiesRead env s'

variable {cfg dc env} {s₀ s s' s₁ : Resolver} {N : Nat}

theorem Proceeds.sourced (h : Proceeds cfg dc env s₀ N s s') : AllSourced cfg dc env s' :=
  ⟨h.policies.sourced, h.roles.sourced, h.read⟩

theorem Proceeds.trans (h : Proceeds cfg dc env s₀ N s s₁) (h' : Proceeds cfg dc env s₀ N s₁ s') :
    Proceeds cfg dc env s₀ N s s' :=
  ⟨h.policies.trans h'.policies, h.roles.trans h'.roles, h.failures.trans h'.failures, h'.read⟩

theorem Truthful.proceeds (h : Truthful dc env) (hs : AllSourced cfg dc env s)
    (haround : Around env s s') : Proceeds cfg dc env s₀ N s s' :=
  ⟨(h.policies_watched cfg).of_aside hs.policies haround.toAside,
    (h.roles_watched cfg).of_aside hs.roles haround.toAside, haround.failures,
    haround.read hs.read⟩

variable {identity : ACLToken}

variable (s₀ N) in
theorem Truthful.collectRoles (h : Truthful dc env) (hs : AllSourced cfg dc env s)
    (hread : TokenSeen env s.moment identity) :
    wp (collectRolesForIdentity cfg env identity (identity.roles.map (·.id)))
      (fun res s' => Proceeds cfg dc env s₀ N s s' ∧ s'.policies = s.policies ∧
        Linkable.Refused s res s' ∧ ∀ l, res = .ok l → (linkedRoles cfg).Collects cfg env
          (watchRoles dc env) s (identity.roles.map (·.id)) l s') s := by
  have hspares := (roles_framed env cfg).collect cfg env (h.roles_watched cfg).lawful identity
    (identity.roles.map (·.id)) s
  obtain ⟨hfollows, hrefused, hcollects⟩ := (h.roles_watched cfg).collect cfg s₀ N hs.roles
    identity fun i (hi : i ∈ identity.roles.map (·.id)) => ⟨identity, hread, hi⟩
  exact ⟨⟨.of_cache hs.policies hspares.same hspares.moment, hfollows, hspares.failures,
    hspares.read hs.read⟩, hspares.same, hrefused, hcollects⟩

variable (s₀ N) in
theorem Truthful.collectPolicies (h : Truthful dc env) (hs : AllSourced cfg dc env s)
    (identity : ACLToken) {ids : List String} (hids : ∀ i ∈ ids, PolicyLinked dc env s.moment i) :
    wp (collectPoliciesForIdentity cfg env identity ids)
      (fun res s' => Proceeds cfg dc env s₀ N s s' ∧
        Linkable.Refused s res s' ∧ ∀ l, res = .ok l → (linkedPolicies cfg).Collects cfg env
          (watchPolicies dc env) s ids l s') s := by
  have hspares := (policies_framed env cfg).collect cfg env (h.policies_watched cfg).lawful
    identity ids s
  obtain ⟨hfollows, hrefused, hcollects⟩ :=
    (h.policies_watched cfg).collect cfg s₀ N hs.policies identity hids
  exact ⟨⟨hfollows, .of_cache hs.roles hspares.same hspares.moment, hspares.failures,
    hspares.read hs.read⟩, hrefused, hcollects⟩

/-- A token links to a policy, itself or by a role that is known to stand. -/
def LinksTo (stands : String → ACLRole → Prop) (identity : ACLToken) (id : String) : Prop :=
  id ∈ identity.policies.map (·.id) ∨ ∃ roleID ∈ identity.roles.map (·.id), ∃ role,
    stands roleID role ∧ id ∈ role.policies.map (·.id)

variable (cfg dc env) in
/-- Between the states `s` and `s'`, and in the time before in which cached policies are good, a
policy was there. -/
def PolicyStands (s : Resolver) (t : Time) (s' : Resolver) (id : String) (p : ACLPolicy) : Prop :=
  ∀ n < s'.moment, (linkedPolicies cfg).Recent env s t n → (dc n).policies id = some p

variable (cfg dc env) in
def RoleStands (s : Resolver) (t : Time) (s' : Resolver) (id : String) (role : ACLRole) : Prop :=
  ∀ n < s'.moment, (linkedRoles cfg).Recent env s t n → (dc n).roles id = some role

variable (cfg dc env) in
def Honours (s : Resolver) (identity : ACLToken) (l : List ACLPolicy) (s' : Resolver) : Prop :=
  cfg.aclDownPolicy ≠ .asyncCache → s'.failures = s.failures →
    ∀ t, (∀ n, s.moment ≤ n → t ≤ (env n).now) → ∀ id p,
      (linkedPolicies cfg).Remembered env (watchPolicies dc env) s id →
      PolicyStands cfg dc env s t s' id p →
      LinksTo (fun roleID role =>
        (linkedRoles cfg).Remembered env (watchRoles dc env) s roleID ∧
          RoleStands cfg dc env s t s' roleID role) identity id →
      cfg.datacenter ∈ scopeOf p.datacenters → p ∈ l

theorem eq_of_suffix_of_suffix {l l1 l2 : List String} (h : l <:+ l1) (h' : l1 <:+ l2)
    (heq : l2 = l) : l1 = l := by
  subst heq
  exact h'.eq_of_length (le_antisymm h'.length_le h.length_le)

theorem policyLinked_of_collects (hread : TokenSeen env s.moment identity) {roles : List HeldRole}
    (hroles : (linkedRoles cfg).Collects cfg env (watchRoles dc env) s
      (identity.roles.map (·.id)) roles s₁) (hmoment : s.moment ≤ s₁.moment) {id : String}
    (hid : id ∈ dedupeStringSlice (identity.policies.map (·.id) ++
      roles.flatMap fun role => role.policies.map (·.id))) : PolicyLinked dc env s₁.moment id := by
  rw [mem_dedupeStringSlice] at hid
  refine ⟨identity, hread.mono hmoment, (mem_append.mp hid).imp_right fun hid => ?_⟩
  obtain ⟨r, hr, hid⟩ := mem_flatMap.mp hid
  obtain ⟨roleID, hroleID, n, hn, role, hrole, -, hpolicies⟩ := hroles.sound r hr
  exact ⟨roleID, hroleID, n, hn, role, hrole, hpolicies ▸ hid⟩

theorem mem_asked_of_linksTo {roles : List HeldRole}
    (hroles : (linkedRoles cfg).Collects cfg env (watchRoles dc env) s
      (identity.roles.map (·.id)) roles s₁) (hdown : cfg.aclDownPolicy ≠ .asyncCache)
    (hfailures : s₁.failures = s.failures) {t : Time} (ht : ∀ n, s.moment ≤ n → t ≤ (env n).now)
    (hmoment : s₁.moment ≤ s'.moment) {id : String} (hlinks : LinksTo (fun roleID role =>
      (linkedRoles cfg).Remembered env (watchRoles dc env) s roleID ∧
        RoleStands cfg dc env s t s' roleID role) identity id) :
    id ∈ dedupeStringSlice (identity.policies.map (·.id) ++
      roles.flatMap fun role => role.policies.map (·.id)) := by
  rw [mem_dedupeStringSlice]
  refine mem_append.mpr (hlinks.imp_right ?_)
  rintro ⟨roleID, hroleID, role, ⟨hremembered, hstands⟩, hid⟩
  obtain ⟨r, hr, n, hn, hrecent, role', hrole', -, hpolicies⟩ :=
    hroles.fresh hdown hfailures t ht roleID hroleID hremembered fun n hn hrecent => by
      simp [watchRoles, hstands n (hn.trans_le hmoment) hrecent]
  cases hrole'.symm.trans (hstands n (hn.trans_le hmoment) hrecent)
  exact mem_flatMap.mpr ⟨r, hr, hpolicies ▸ hid⟩

variable [Blake2b]

variable (s₀ N) in
theorem Truthful.resolvePolicies (h : Truthful dc env) (hs : AllSourced cfg dc env s)
    (hread : TokenSeen env s.moment identity) :
    wp (resolvePoliciesForIdentity cfg env identity) (fun res s' =>
      Proceeds cfg dc env s₀ N s s' ∧ Linkable.Refused s res s' ∧
        ∀ l, res = .ok l → Honours cfg dc env s identity l s') s := by
  unfold resolvePoliciesForIdentity
  dsimp only
  by_cases hlegacy : ((identity.policies.map (·.id)).isEmpty &&
      identity.serviceIdentities.isEmpty && (identity.roles.map (·.id)).isEmpty) = true
  · rw [if_pos hlegacy, wp_pure]
    simp only [Bool.and_eq_true, List.isEmpty_iff] at hlegacy
    refine ⟨h.proceeds hs (refl_of (Around env) s), .ok _ _ _, ?_⟩
    rintro l - - - t - id p - - hlinks -
    rcases hlinks with hid | ⟨roleID, hroleID, -⟩
    · rw [hlegacy.1.1] at hid
      cases hid
    · rw [hlegacy.2] at hroleID
      cases hroleID
  rw [if_neg hlegacy]
  refine wp_seq (h.collectRoles s₀ N hs hread) ?_ ?_
  · rintro roles s₁ ⟨hproceeds₁, hsame₁, -, hroles⟩
    have hroles := hroles roles rfl
    refine wp_seq (P := fun res s₂ => (∃ x, res = .ok x) ∧ Around env s₁ s₂)
      ⟨⟨_, rfl⟩, .of_identities ⟨rfl, rfl, Nat.le_succ s₁.moment, suffix_rfl⟩ rfl⟩ ?_ ?_
    · rintro serviceIdentities s₂ ⟨-, haround⟩
      have hproceeds₂ := hproceeds₁.trans (h.proceeds hproceeds₁.sourced haround)
      have hmoment₂ := hproceeds₂.policies.moment
      refine wp_seq (h.collectPolicies s₀ N hproceeds₂.sourced identity fun i hi => ?_)
        ?_ ?_
      · exact (h.policies_watched cfg).linked_mono haround.moment
          (policyLinked_of_collects hread hroles hproceeds₁.policies.moment hi)
      · rintro policies s' ⟨hproceeds', -, hpolicies⟩
        rw [wp_pure]
        refine ⟨hproceeds₂.trans hproceeds', .ok _ _ _, ?_⟩
        rintro _ hl hdown hfailures t ht id p hremembered hstands hlinks hscope
        cases hl
        have hfailures₂ := eq_of_suffix_of_suffix hproceeds₂.failures hproceeds'.failures hfailures
        have hfailures₁ := eq_of_suffix_of_suffix hproceeds₁.failures haround.failures hfailures₂
        have hasked := mem_asked_of_linksTo hroles hdown hfailures₁ ht
          (haround.moment.trans hproceeds'.policies.moment) hlinks
        obtain ⟨p', hp', n, hn, hrecent, hfits⟩ :=
          (hpolicies policies rfl).fresh hdown (hfailures.trans hfailures₂.symm) t
            (fun n hn => ht n (hmoment₂.trans hn)) id hasked
            (hremembered.of_cache (haround.policies.trans hsame₁) hmoment₂) fun n hn hrecent => by
              simp [watchPolicies, hstands n hn (hrecent.of_le hmoment₂)]
        cases hfits.symm.trans (hstands n hn (hrecent.of_le hmoment₂))
        exact (mem_filterPoliciesByScope cfg).mpr ⟨mem_append_left _ hp', hscope⟩
      · rintro e s' ⟨hproceeds', hrefused, -⟩
        refine ⟨hproceeds₂.trans hproceeds', fun text secret he => ?_, nofun⟩
        cases he
        exact hproceeds₂.failures.length_le.trans_lt (hrefused text secret rfl)
    · rintro e s₂ ⟨⟨x, hx⟩, -⟩
      cases hx
  · rintro e s₁ ⟨hproceeds₁, -, hrefused, -⟩
    refine ⟨hproceeds₁, fun text secret he => ?_, nofun⟩
    cases he
    exact hrefused text secret rfl

omit [Blake2b] in
theorem Honours.of_around {l : List ACLPolicy} (h : Honours cfg dc env s₁ identity l s')
    (haround : Around env s s₁) (hfailures' : s₁.failures <:+ s'.failures) :
    Honours cfg dc env s identity l s' := by
  intro hdown hfailures t ht id p hremembered hstands hlinks hscope
  have hfailures1 := eq_of_suffix_of_suffix haround.failures hfailures' hfailures
  have hmoment := haround.moment
  refine h hdown (hfailures.trans hfailures1.symm) t (fun n hn => ht n (hmoment.trans hn)) id p
    (hremembered.of_cache haround.policies hmoment)
    (fun n hn hrecent => hstands n hn (hrecent.of_le hmoment)) (hlinks.imp_right ?_) hscope
  rintro ⟨roleID, hroleID, role, ⟨hrole, hroleStands⟩, hid⟩
  exact ⟨roleID, hroleID, role, ⟨hrole.of_cache haround.roles hmoment,
    fun n hn hrecent => hroleStands n hn (hrecent.of_le hmoment)⟩, hid⟩

variable (s₀ N) in
theorem Truthful.resolveWithRetries (h : Truthful dc env) (token : String) (n : Nat)
    (lastErr : ResolveError) (hs : AllSourced cfg dc env s) :
    wp (resolveWithRetries cfg env token n lastErr) (fun res s' =>
      Proceeds cfg dc env s₀ N s s' ∧ ∀ identity l, res = .ok (identity, l) →
        Honours cfg dc env s identity l s') s := by
  induction n generalizing lastErr s with
  | zero => exact ⟨h.proceeds hs (refl_of (Around env) s), nofun⟩
  | succ n ih =>
    unfold OpenGyoza.resolveWithRetries
    refine wp_seq (resolveIdentityFromToken_read token s hs.read) ?_ ?_
    · rintro found s₁ ⟨haround, hread⟩
      have hproceeds₁ : Proceeds cfg dc env s₀ N s s₁ := h.proceeds hs haround
      cases found with
      | none => exact ⟨hproceeds₁, nofun⟩
      | some identity =>
        dsimp only
        rw [wp_tick]
        have htick : Around env s₁ (tick env s₁).2 := tick_around s₁
        have hproceeds₂ := hproceeds₁.trans (h.proceeds hproceeds₁.sourced htick)
        by_cases hexpired : identity.isExpired (env s₁.moment).now = true
        · rw [if_pos hexpired]
          exact ⟨hproceeds₂, nofun⟩
        rw [if_neg hexpired, wp_bind, wp_attempt]
        have hmoment₂ := hproceeds₂.policies.moment
        refine wp_mono (h.resolvePolicies s₀ N hproceeds₂.sourced
          ((hread identity rfl).mono htick.moment)) ?_
        rintro res s' ⟨hproceeds', hrefused, hhonours⟩
        have hproceeds := hproceeds₂.trans hproceeds'
        rw [andThen_ok]
        cases res with
        | ok policies =>
          refine ⟨hproceeds, fun _ l hl => ?_⟩
          cases hl
          exact (hhonours policies rfl).of_around (trans_of (Around env) haround htick)
            hproceeds'.failures
        | error e =>
          cases e with
          | token text secret =>
            dsimp only
            split
            · exact ⟨hproceeds, nofun⟩
            · refine wp_mono (ih (.token text secret) hproceeds.sourced) ?_
              rintro res s'' ⟨hproceeds'', -⟩
              refine ⟨hproceeds.trans hproceeds'', fun _ _ _ _ hfailures => ?_⟩
              have hgrown := hproceeds₂.failures.length_le.trans_lt (hrefused text secret rfl)
              have hlater := hproceeds''.failures.length_le
              rw [hfailures] at hlater
              omega
          | plain text => exact ⟨hproceeds, nofun⟩
          | remote text => exact ⟨hproceeds, nofun⟩
    · rintro e s₁ ⟨haround, -⟩
      exact ⟨h.proceeds hs haround, nofun⟩

/-! ## Runs -/

variable [External] [Hcl]

omit [Blake2b] [External] [Hcl] in
theorem Truthful.wp_around (h : Truthful dc env) {α : Type} {m : Resolve α}
    (hm : Moves (Around env) m) (hs : Proceeds cfg dc env s₀ N s s₁) :
    wp m (fun _ s' => Proceeds cfg dc env s₀ N s s') s₁ :=
  hs.trans (h.proceeds hs.sourced (hm s₁))

variable (s₀ N) in
theorem Truthful.resolveTokenLegacy (h : Truthful dc env) (token : String)
    (hs : AllSourced cfg dc env s) :
    wp (resolveTokenLegacy cfg env token)
      (fun _ s' => Proceeds cfg dc env s₀ N s s') s := by
  unfold OpenGyoza.resolveTokenLegacy
  rw [wp_tick]
  have htick : Around env s (tick env s).2 := tick_around s
  have hproceeds₁ : Proceeds cfg dc env s₀ N s (tick env s).2 := h.proceeds hs htick
  cases hfound : (env s.moment).resolveIdentityFromToken token with
  | some found =>
    cases found with
    | ok identity =>
      have hread : TokenSeen env (tick env s).2.moment identity :=
        ⟨s.moment, Nat.lt_succ_self _, token, .inl hfound⟩
      refine wp_seq (h.resolvePolicies s₀ N hproceeds₁.sourced hread) ?_ ?_
      · rintro policies s₂ ⟨hproceeds₂, -⟩
        exact h.wp_around (compileWithCache_around policies) (hproceeds₁.trans hproceeds₂)
      · rintro e s₂ ⟨hproceeds₂, -⟩
        exact hproceeds₁.trans hproceeds₂
    | error text => exact hproceeds₁
  | none =>
    refine h.wp_around ((Moves.read _).bind fun entry => ?_) hproceeds₁
    refine .ite (cachedAuthorizer_around entry) ?_
    refine (fetchAndCacheTokenLegacy_around token entry).attempt.bind fun result => ?_
    refine .ite ?_ (cachedAuthorizer_around entry)
    cases result with
    | ok authorizer => exact .pure _
    | error e => exact .fail _

variable (s₀ N) in
theorem Truthful.resolveToken (h : Truthful dc env) (token : String)
    (hs : AllSourced cfg dc env s) :
    wp (resolveToken cfg env token) (fun _ s' => Proceeds cfg dc env s₀ N s s') s := by
  unfold OpenGyoza.resolveToken
  rw [wp_tick]
  have htick : Around env s (tick env s).2 := tick_around s
  have hproceeds₁ : Proceeds cfg dc env s₀ N s (tick env s).2 := h.proceeds hs htick
  rw [wp_bind, wp_read, andThen_ok]
  split
  · exact hproceeds₁
  split
  · exact hproceeds₁
  dsimp only
  generalize (if token = "" then anonymousToken else token) = token
  split
  · rw [wp_bind, wp_attempt]
    refine wp_mono (h.resolveTokenLegacy s₀ N _ hproceeds₁.sourced) ?_
    rintro res s₂ hproceeds₂
    rw [andThen_ok]
    cases res with
    | ok authorizer => exact hproceeds₁.trans hproceeds₂
    | error e =>
      exact h.wp_around ((disableACLsWhenUpstreamDisabled_around e).bind fun _ => .fail _)
        (hproceeds₁.trans hproceeds₂)
  · rw [wp_bind, wp_attempt]
    refine wp_mono (h.resolveWithRetries s₀ N _ _ _ hproceeds₁.sourced) ?_
    rintro res s₂ ⟨hproceeds₂, -⟩
    rw [andThen_ok]
    cases res with
    | ok resolved =>
      exact h.wp_around (compileWithCache_around resolved.2) (hproceeds₁.trans hproceeds₂)
    | error e =>
      exact h.wp_around ((disableACLsWhenUpstreamDisabled_around e).bind fun _ =>
        .ite (.pure _) (.fail _)) (hproceeds₁.trans hproceeds₂)

variable (cfg env) in
/-- The resolver after a run of resolutions. -/
def afterTokens : List String → Resolver → Resolver
  | [], s => s
  | token :: tokens, s => afterTokens tokens (OpenGyoza.resolveToken cfg env token s).2

variable (cfg env) in
/-- Each resolution of a run meets a condition on the state before it and on the moment at which
it ends. -/
def EachResolution (condition : Resolver → Nat → Prop) : List String → Resolver → Prop
  | [], _ => True
  | token :: tokens, s =>
    condition s (OpenGyoza.resolveToken cfg env token s).2.moment ∧
      EachResolution condition tokens (OpenGyoza.resolveToken cfg env token s).2

theorem Truthful.afterTokens (h : Truthful dc env) (tokens : List String)
    (hs : AllSourced cfg dc env s) :
    AllSourced cfg dc env (afterTokens cfg env tokens s) ∧
      (∀ id, (linkedPolicies cfg).Remembered env (watchPolicies dc env) s id →
        EachResolution cfg env (fun s N =>
          (linkedPolicies cfg).Reliable cfg (watchPolicies dc env) s N id) tokens s →
        (linkedPolicies cfg).Remembered env (watchPolicies dc env)
          (afterTokens cfg env tokens s) id) ∧
      ∀ id, (linkedRoles cfg).Remembered env (watchRoles dc env) s id →
        EachResolution cfg env (fun s N =>
          (linkedRoles cfg).Reliable cfg (watchRoles dc env) s N id) tokens s →
        (linkedRoles cfg).Remembered env (watchRoles dc env)
          (afterTokens cfg env tokens s) id := by
  induction tokens generalizing s with
  | nil => exact ⟨hs, fun _ hid _ => hid, fun _ hid _ => hid⟩
  | cons token tokens ih =>
    have hproceeds := h.resolveToken s (OpenGyoza.resolveToken cfg env token s).2.moment token hs
    obtain ⟨hsourced, hpolicies, hroles⟩ := ih hproceeds.sourced
    refine ⟨hsourced, fun id hid heach => ?_, fun id hid heach => ?_⟩
    · have hsince := hproceeds.policies.since le_rfl id heach.1 (.refl s id)
      exact hpolicies id (hsince.remembered hid) heach.2
    · have hsince := hproceeds.roles.since le_rfl id heach.1 (.refl s id)
      exact hroles id (hsince.remembered hid) heach.2

variable (cfg env) in
/-- The token and the policies from which a resolution builds the authorizer. -/
def authorizerPolicies (token : String) : Resolve (ACLToken × List ACLPolicy) := do
  let _ ← tick env
  let token := if token = "" then anonymousToken else token
  if cfg.useLegacyACLs then
    let m ← tick env
    match m.resolveIdentityFromToken token with
    | some (.ok identity) =>
      let policies ← resolvePoliciesForIdentity cfg env identity
      return (identity, policies)
    | _ => Fallible.fail errNotFound
  else resolveTokenToIdentityAndPolicies cfg env token

omit [Blake2b] [External] [Hcl] in
theorem disable_then_fail {α : Type} (e : ResolveError) (s : Resolver) :
    ((disableACLsWhenUpstreamDisabled cfg env e >>= fun _ => fail e : Resolve α) s).1 =
      .error e := by
  unfold disableACLsWhenUpstreamDisabled
  by_cases hupstream : (cfg.autoDisable && isErrDisabled e.text) = true
  · simp only [hupstream, if_true]
    rfl
  · simp only [hupstream]
    rfl

theorem resolveToken_of_policies {token : String} {identity : ACLToken} {l : List ACLPolicy}
    (h : authorizerPolicies cfg env token s = (.ok (identity, l), s'))
    (henabled : s.aclsEnabled cfg (env s.moment) = true) (hroot : rootAuthorizer token = none) :
    (OpenGyoza.resolveToken cfg env token s).1 = (compileWithCache cfg env l s').1 := by
  have hon : (!(tick env s).2.aclsEnabled cfg (env s.moment)) = false := congrArg (! ·) henabled
  unfold OpenGyoza.resolveToken
  change ((if (!(tick env s).2.aclsEnabled cfg (env s.moment)) = true then _ else _ :
    Resolve (Option Authorizer)) (tick env s).2).1 = _
  rw [hon, hroot]
  simp only [Bool.false_eq_true, Option.isSome_none, if_false]
  unfold OpenGyoza.authorizerPolicies at h
  change ((if cfg.useLegacyACLs = true then _ else _ :
    Resolve (ACLToken × List ACLPolicy)) (tick env s).2) = _ at h
  generalize (if token = "" then anonymousToken else token) = token at h ⊢
  generalize (tick env s).2 = s₁ at h ⊢
  have htick : tick env s₁ = (.ok (env s₁.moment), (tick env s₁).2) := rfl
  by_cases hlegacy : cfg.useLegacyACLs = true
  · rw [if_pos hlegacy] at h ⊢
    rw [bind_of_ok htick] at h
    have hrun : resolveTokenLegacy cfg env token s₁ = compileWithCache cfg env l s' := by
      unfold resolveTokenLegacy
      rw [bind_of_ok htick]
      revert h
      cases (env s₁.moment).resolveIdentityFromToken token with
      | none => exact fun h => by cases h
      | some found =>
        cases found with
        | error text => exact fun h => by cases h
        | ok found =>
          dsimp only
          rcases hpolicies : resolvePoliciesForIdentity cfg env found (tick env s₁).2 with
            ⟨e | policies, s₂⟩
          · rw [bind_of_error hpolicies]
            exact fun h => by cases h
          · rw [bind_of_ok hpolicies, bind_of_ok hpolicies]
            intro h
            cases h
            rfl
    have hattempt : attempt (resolveTokenLegacy cfg env token) s₁ =
        (.ok (compileWithCache cfg env l s').1, (compileWithCache cfg env l s').2) := by
      rw [attempt, hrun]
    rw [bind_of_ok hattempt]
    cases (compileWithCache cfg env l s').1 with
    | ok authorizer => rfl
    | error e => exact disable_then_fail e _
  · rw [if_neg hlegacy] at h ⊢
    have hattempt : attempt (resolveTokenToIdentityAndPolicies cfg env token) s₁ =
        (.ok (.ok (identity, l)), s') := by
      rw [attempt, h]
    rw [bind_of_ok hattempt]

omit [External] [Hcl] in
theorem Truthful.authorizerPolicies (h : Truthful dc env) (token : String)
    (hs : AllSourced cfg dc env s) :
    wp (authorizerPolicies cfg env token) (fun res s' =>
      ∀ identity l, res = .ok (identity, l) → Honours cfg dc env s identity l s') s := by
  unfold OpenGyoza.authorizerPolicies
  rw [wp_tick]
  dsimp only
  generalize (if token = "" then anonymousToken else token) = token
  have htick : Around env s (tick env s).2 := tick_around s
  have hproceeds : Proceeds cfg dc env s 0 s (tick env s).2 := h.proceeds hs htick
  split
  · rw [wp_tick]
    have htick' : Around env (tick env s).2 (tick env (tick env s).2).2 := tick_around _
    have hproceeds' := hproceeds.trans (h.proceeds hproceeds.sourced htick')
    cases hfound : (env (s.moment + 1)).resolveIdentityFromToken token with
    | none => exact nofun
    | some found =>
      cases found with
      | error text => exact nofun
      | ok identity =>
        have hread : TokenSeen env (s.moment + 1 + 1) identity :=
          ⟨s.moment + 1, Nat.lt_succ_self _, token, .inl hfound⟩
        refine wp_seq (h.resolvePolicies s 0 hproceeds'.sourced hread) ?_ ?_
        · rintro policies s' ⟨hlast, -, hhonours⟩ _ l hl
          cases hl
          exact (hhonours policies rfl).of_around (trans_of (Around env) htick htick')
            hlast.failures
        · rintro e s' - _ l hl
          cases hl
  · refine wp_mono (h.resolveWithRetries s 0 token _ _ hproceeds.sourced) ?_
    rintro res s' ⟨hlast, hhonours⟩ identity l hl
    exact (hhonours identity l hl).of_around htick hlast.failures

/-- A resolver that has not been used. -/
structure Resolver.Unused (s : Resolver) : Prop where
  identities : ∀ key, s.identities key = none
  policies : ∀ key, s.policies key = none
  roles : ∀ key, s.roles key = none

omit [Blake2b] [External] [Hcl] in
theorem Resolver.Unused.sourced (hs : s.Unused) : AllSourced cfg dc env s where
  policies id _ _ he := by cases (hs.policies id).symm.trans he
  roles id _ _ he := by cases (hs.roles id).symm.trans he
  read token _ _ he := by cases (hs.identities token).symm.trans he

/-- After any run of resolutions, a resolution without a failing request honours a policy that
has been there for as long as a cached policy is good, if no request about it in the run has left
behind that it does not exist, and likewise for the role by which the token links to it. -/
theorem standing_policies_are_honoured (h : Truthful dc env)
    (hdown : cfg.aclDownPolicy ≠ .asyncCache) (hs : s.Unused) (tokens : List String)
    (token : String) {identity : ACLToken} {l : List ACLPolicy}
    (hresolved : authorizerPolicies cfg env token (afterTokens cfg env tokens s) =
      (.ok (identity, l), s'))
    (hfailures : s'.failures = (afterTokens cfg env tokens s).failures) {id : String}
    {p : ACLPolicy}
    (hreliable : EachResolution cfg env (fun s N =>
      (linkedPolicies cfg).Reliable cfg (watchPolicies dc env) s N id) tokens s)
    (hstands : PolicyStands cfg dc env (afterTokens cfg env tokens s)
      (env (afterTokens cfg env tokens s).moment).now s' id p)
    (hlinks : LinksTo (fun roleID role =>
      EachResolution cfg env (fun s N =>
        (linkedRoles cfg).Reliable cfg (watchRoles dc env) s N roleID) tokens s ∧
      RoleStands cfg dc env (afterTokens cfg env tokens s)
        (env (afterTokens cfg env tokens s).moment).now s' roleID role) identity id)
    (hscope : cfg.datacenter ∈ scopeOf p.datacenters) : p ∈ l := by
  obtain ⟨hafter, hpolicies, hroles⟩ := h.afterTokens tokens hs.sourced
  have hhonours := h.authorizerPolicies token hafter
  unfold wp at hhonours
  rw [hresolved] at hhonours
  refine hhonours identity l rfl hdown hfailures _ (fun n hn => h.clock hn) id p
    (hpolicies id (fun e he => by cases (hs.policies id).symm.trans he) hreliable) hstands
    (hlinks.imp_right ?_) hscope
  rintro ⟨roleID, hroleID, role, ⟨hrole, hroleStands⟩, hid⟩
  exact ⟨roleID, hroleID, role,
    ⟨hroles roleID (fun e he => by cases (hs.roles roleID).symm.trans he) hrole, hroleStands⟩, hid⟩

end Resolution

section Example

attribute [local instance] ascii keepBytes webRule

/-- One policy, which is always there. -/
def onePolicy : StoredLinks where
  roles _ := none
  policies id := if id = "p" then some { id := "p", name := "one" } else none

def client (up n : Nat) : Moment where
  now := if n < up then 0 else 86400000000000
  getPolicy _ := .error "ACL not found"
  tokenRead _ := .ok (some (linkingTo ["p"]))
  policyResolve _ ids :=
    if n < up then .error "connection refused" else .ok (ids.filterMap onePolicy.policies)
  roleResolve _ ids := .ok (ids.filterMap onePolicy.roles)
  sort := insertionSlices
  walk := ⟨fun _ l => l, fun _ => .refl⟩
  compiling := { order := insertionOrder }

theorem client_truthful (up : Nat) : Truthful (fun _ => onePolicy) (client up) where
  clock {n m} hnm := by
    unfold client
    split <;> split <;> first | decide | omega
  kept _ _ := rfl
  policyID {n id p} hp := by
    unfold onePolicy at hp
    dsimp only at hp
    split at hp <;> cases hp
    exact Eq.symm ‹_›
  policyFound hp := by cases hp
  policyGone hp := by cases hp
  policyAnswers {n secret ids l} hl p := by
    unfold client at hl
    split at hl <;> cases hl
    exact mem_filterMap
  roleID hrole := by cases hrole
  roleFound hr := by cases hr
  roleGone hr := by cases hr
  roleAnswers {n secret ids l} hl role := by
    cases hl
    exact mem_filterMap

def denying : ResolverConfig := { datacenter := "dc1", aclDownPolicy := .deny }

/-- A request for the policy failed a day ago. The policy has always been there, and no request
fails today, but it is still taken not to exist. -/
theorem a_failed_fetch_is_not_forgotten :
    Truthful (fun _ => onePolicy) (client 8) ∧ (bareResolver fun _ => none).Unused ∧
      onePolicy.policies "p" = some { id := "p", name := "one" } ∧
      let s := afterTokens denying (client 8) ["web"] (bareResolver fun _ => none)
      let r := authorizerPolicies denying (client 8) "web" s
      s.moment = 8 ∧ r.1 = .ok (linkingTo ["p"], []) ∧ r.2.failures = s.failures ∧
        denying.aclPolicyTTL < (client 8 s.moment).now - (client 8 7).now :=
  ⟨client_truthful 8, ⟨fun _ => rfl, fun _ => rfl, fun _ => rfl⟩, rfl, by decide +kernel⟩

/-- Without the failure the policy is honoured. -/
theorem an_answered_policy_is_honoured :
    (authorizerPolicies denying (client 0) "web"
        (afterTokens denying (client 0) ["web"] (bareResolver fun _ => none))).1 =
      .ok (linkingTo ["p"], [{ id := "p", name := "one" }]) ∧
    ({ id := "p", name := "one" } : ACLPolicy) ∈ [({ id := "p", name := "one" } : ACLPolicy)] := by
  have hresolved : (authorizerPolicies denying (client 0) "web"
      (afterTokens denying (client 0) ["web"] (bareResolver fun _ => none))).1 =
        .ok (linkingTo ["p"], [{ id := "p", name := "one" }]) := by decide +kernel
  have heta : ∀ {r : Except ResolveError (ACLToken × List ACLPolicy) × Resolver} {a},
      r.1 = .ok a → r = (.ok a, r.2) := fun ha => Prod.ext ha rfl
  refine ⟨hresolved, standing_policies_are_honoured (client_truthful 0) (by decide)
    ⟨fun _ => rfl, fun _ => rfl, fun _ => rfl⟩ ["web"] "web" (heta hresolved)
    (by decide +kernel) ⟨fun n _ _ _ secret ids _ => ?_, trivial⟩ (fun n _ _ => ?_)
    (show LinksTo _ (linkingTo ["p"]) "p" from .inl (by decide +kernel)) (.inl rfl)⟩
  · exact rfl
  · exact rfl

end Example

end OpenGyoza
