-- How long the resolver remembers linked policies and roles. An entry of a
-- cache that says what was there is looked at again when it gets too old. An
-- entry that says that nothing was there is never looked at again, and both a
-- failed request and an early answer leave such entries behind.
import OpenGyoza.ResolverSafety

namespace OpenGyoza

open Memdb Fallible List

/-! ## Everything but the two caches -/

/-- The caches of policies and roles are left alone. The clock goes on, and failures are added to
the record. -/
structure Aside (s s' : Resolver) : Prop where
  policies : s'.policies = s.policies
  roles : s'.roles = s.roles
  moment : s.moment ≤ s'.moment
  failures : s.failures <:+ s'.failures

instance : Std.Refl Aside := ⟨fun _ => ⟨rfl, rfl, le_rfl, List.suffix_rfl⟩⟩

instance : IsTrans Resolver Aside :=
  ⟨fun _ _ _ h h' => ⟨h'.policies.trans h.policies, h'.roles.trans h.roles,
    h.moment.trans h'.moment, h.failures.trans h'.failures⟩⟩

theorem putIdentity_aside (m : Moment) (token : String) (identity : Option ACLToken) :
    Moves Aside (putIdentity m token identity) :=
  fun _ => ⟨rfl, rfl, le_rfl, suffix_rfl⟩

/-! ## Watching one kind of links -/

namespace Linkable

/-- What the ACL datacenter has at a moment, what the tokens read so far link to, and how it
answers a request. -/
structure Watch (α : Type) where
  fits : Nat → String → α → Prop
  present : Nat → String → Prop
  linked : Nat → String → Prop
  outcome : Nat → String → List String → Except String Unit

variable {α : Type} (k : Linkable α) (cfg : ResolverConfig) (env : Nat → Moment) (w : Watch α)
  {cached : String → Option (Cached α)}

/-- The resolver's own store and the answers of the ACL datacenter say what is there, and nothing
falls out of the cache. -/
structure Watched : Prop where
  lawful : k.Lawful
  fits_congr : ∀ {n m id a a'}, w.fits n id a → w.fits n id a' → w.fits m id a → w.fits m id a'
  fits_id : ∀ {n id a}, w.fits n id a → k.id a = id
  linked_mono : ∀ {n m id}, n ≤ m → w.linked n id → w.linked m id
  found : ∀ {n id a}, k.lookup (env n) id = some (.ok a) → w.fits n id a
  gone : ∀ {n id text}, k.lookup (env n) id = some (.error text) → isErrNotFound text = true →
    ¬ w.present n id
  kept : ∀ n key, (env n).drops key = false
  cache_aside : ∀ {s s'}, Aside s s' → k.cache s' = k.cache s
  moment_set : ∀ c s, (k.setCache c s).moment = s.moment
  failures_set : ∀ c s, (k.setCache c s).failures = s.failures
  request : ∀ n secret ids s, Fallible.wp (k.request (env n) secret ids) (fun res s' =>
    ∃ reply, res = .ok reply ∧ Aside s s' ∧ s'.moment = s.moment ∧
      match reply with
      | .ok l => s'.failures = s.failures ∧ w.outcome n secret ids = .ok () ∧
        (∀ a ∈ l, ∃ id ∈ ids, w.fits n id a) ∧
        ∀ id ∈ ids, w.present n id → ∃ a ∈ l, w.fits n id a
      | .error text => s'.failures = text :: s.failures ∧
        w.outcome n secret ids = .error text) s

/-- What is cached has been there. -/
def Sourced (s : Resolver) : Prop :=
  ∀ id e a, k.cache s id = some e → e.value = some a → ∃ n < s.moment, w.fits n id a

structure Since (s₀ s : Resolver) (id : String) : Prop where
  moment : s₀.moment ≤ s.moment
  grows : (k.cache s₀ id).isSome → (k.cache s id).isSome
  entries : ∀ e, k.cache s id = some e → k.cache s₀ id = some e ∨
    ∃ a n, e.value = some a ∧ s₀.moment ≤ n ∧ n < s.moment ∧ (env n).now = e.cacheTime ∧
      w.fits n id a

def Reliable (s₀ : Resolver) (N : Nat) (id : String) : Prop :=
  ∀ n, s₀.moment ≤ n → n < N → w.linked n id → ∀ secret ids, id ∈ ids →
    match w.outcome n secret ids with
    | .ok _ => w.present n id
    | .error text => isErrNotFound text = true ∨ isErrPermissionDenied text = true ∨
      cfg.aclDownPolicy.extends = true ∧ ∃ e a, k.cache s₀ id = some e ∧ e.value = some a ∧
        ∀ i, s₀.moment ≤ i → i ≤ n → w.fits i id a

/-- One part of a resolution that began in the state `s₀`. -/
structure Follows (s₀ : Resolver) (N : Nat) (s s' : Resolver) : Prop where
  moment : s.moment ≤ s'.moment
  sourced : k.Sourced w s'
  since : s'.moment ≤ N → ∀ id, k.Reliable cfg w s₀ N id → k.Since env w s₀ s id →
    k.Since env w s₀ s' id

variable {k cfg env w} {s₀ s s' s₁ : Resolver} {N n : Nat} {id : String}

theorem Follows.trans (h : k.Follows cfg env w s₀ N s s₁) (h' : k.Follows cfg env w s₀ N s₁ s') :
    k.Follows cfg env w s₀ N s s' := by
  refine ⟨h.moment.trans h'.moment, h'.sourced, fun hN id hid hsince => ?_⟩
  exact h'.since hN id hid (h.since (h'.moment.trans hN) id hid hsince)

theorem Since.of_cache (h : k.Since env w s₀ s id) (hcache : k.cache s' = k.cache s)
    (hmoment : s.moment ≤ s'.moment) : k.Since env w s₀ s' id := by
  refine ⟨h.moment.trans hmoment, ?_, fun e he => ?_⟩
  · rw [hcache]
    exact h.grows
  · rw [hcache] at he
    rcases h.entries e he with hold | ⟨a, n, ha, hn, hlt, hrest⟩
    · exact .inl hold
    · exact .inr ⟨a, n, ha, hn, hlt.trans_le hmoment, hrest⟩

theorem Follows.of_cache (hs : k.Sourced w s) (hcache : k.cache s' = k.cache s)
    (hmoment : s.moment ≤ s'.moment) : k.Follows cfg env w s₀ N s s' := by
  refine ⟨hmoment, fun id e a he ha => ?_, fun _ id _ hsince => hsince.of_cache hcache hmoment⟩
  rw [hcache] at he
  obtain ⟨n, hn, hfits⟩ := hs id e a he ha
  exact ⟨n, hn.trans_le hmoment, hfits⟩

theorem Watched.of_aside (h : k.Watched env w) (hs : k.Sourced w s) (haside : Aside s s') :
    k.Follows cfg env w s₀ N s s' :=
  .of_cache hs (h.cache_aside haside) haside.moment

theorem Watched.cache_put (h : k.Watched env w) (n : Nat) (id : String) (x : Cached α)
    (s : Resolver) : k.cache (k.setCache (cachePut (env n).drops id x (k.cache s)) s) =
      Function.update (k.cache s) id (some x) := by
  rw [h.lawful.cache_set]
  unfold cachePut keep
  funext key
  simp [h.kept n key]

theorem Watched.since_put (h : k.Watched env w) {i : String} {v : Option α}
    (hsince : k.Since env w s₀ s id) (hfrom : s₀.moment ≤ n) (hn : n < s.moment)
    (hv : i = id → ∃ a, v = some a ∧ w.fits n id a) :
    k.Since env w s₀
      (k.setCache (cachePut (env n).drops i ⟨v, (env n).now⟩ (k.cache s)) s) id := by
  refine ⟨?_, fun hsome => ?_, fun e he => ?_⟩
  · rw [h.moment_set]
    exact hsince.moment
  · rw [h.cache_put]
    by_cases hi : id = i
    · subst hi
      simp
    · rw [Function.update_of_ne hi]
      exact hsince.grows hsome
  · rw [h.cache_put] at he
    rw [h.moment_set]
    by_cases hi : id = i
    · subst hi
      rw [Function.update_self] at he
      cases he
      obtain ⟨a, ha, hfits⟩ := hv rfl
      exact .inr ⟨a, n, ha, hfrom, hn, rfl, hfits⟩
    · rw [Function.update_of_ne hi] at he
      exact hsince.entries e he

theorem Watched.sourced_put (h : k.Watched env w) {i : String} {v : Option α}
    (hs : k.Sourced w s) (hv : ∀ a, v = some a → ∃ m < s.moment, w.fits m i a) :
    k.Sourced w (k.setCache (cachePut (env n).drops i ⟨v, (env n).now⟩ (k.cache s)) s) := by
  intro j e a he ha
  rw [h.cache_put] at he
  rw [h.moment_set]
  by_cases hj : j = i
  · subst hj
    rw [Function.update_self] at he
    cases he
    exact hv a ha
  · rw [Function.update_of_ne hj] at he
    exact hs j e a he ha

/-- Entries are put at the moment `n`, where those under IDs with `C` say what is there. -/
def Puts (k : Linkable α) (env : Nat → Moment) (w : Watch α) (n : Nat) (C : String → Prop)
    (s s' : Resolver) : Prop :=
  k.Sourced w s' ∧ s'.moment = s.moment ∧ s'.failures = s.failures ∧
    ∀ s₀ id, k.Since env w s₀ s id → s₀.moment ≤ n → C id → k.Since env w s₀ s' id

variable {ids : List String} {c : Collected α}

theorem Watched.putAnswers (h : k.Watched env w) {answer : String → Option α} (hs : k.Sourced w s)
    (hn : n < s.moment) (hanswer : ∀ i ∈ ids, ∀ a, answer i = some a → ∃ m < s.moment, w.fits m i a)
    :
    wp (k.putAnswers (env n) answer ids) (fun res s' => res = .ok () ∧
      k.Puts env w n (fun id => id ∈ ids → ∃ a, answer id = some a ∧ w.fits n id a) s s') s := by
  refine wp_putAnswers (I := k.Puts env w n _ s) ⟨hs, rfl, rfl, fun _ _ hsince _ _ => hsince⟩ ?_
  rintro i hi s' ⟨hs', hmoment, hfailures, hsince'⟩
  refine ⟨h.sourced_put hs' ?_, ?_, ?_, fun s₀ id hsince hfrom hid => ?_⟩
  · rw [hmoment]
    exact hanswer i hi
  · rw [h.moment_set, hmoment]
  · rw [h.failures_set, hfailures]
  · refine h.since_put (hsince' s₀ id hsince hfrom hid) hfrom (hmoment ▸ hn) ?_
    rintro rfl
    exact hid hi

/-- What was read and how the failures of requests are kept, apart from the caches. -/
structure Fetched (w : Watch α) (s : Resolver) (ids : List String) (l : List α) (s' : Resolver) :
    Prop where
  sound : ∀ a ∈ l, ∃ i ∈ ids, ∃ m < s'.moment, w.fits m i a
  complete : s'.failures = s.failures → ∀ i ∈ ids, w.present s.moment i →
    ∃ a ∈ l, w.fits s.moment i a

theorem Watched.putReply (h : k.Watched env w) {l : List α} (hs : k.Sourced w s) (hn : n < s.moment)
    (hsound : ∀ a ∈ l, ∃ id ∈ ids, w.fits n id a)
    (hcomplete : ∀ id ∈ ids, w.present n id → ∃ a ∈ l, w.fits n id a) :
    wp (k.putAnswers (env n) (k.find l) ids) (fun res s' => res = .ok () ∧
      k.Puts env w n (fun id => id ∈ ids → w.present n id) s s') s := by
  have hfind : ∀ i a, k.find l i = some a → w.fits n i a := by
    intro i a ha
    obtain ⟨hmem, hid⟩ := find_eq_some ha
    obtain ⟨j, -, hfits⟩ := hsound a hmem
    obtain rfl : j = i := (h.fits_id hfits).symm.trans hid
    exact hfits
  refine wp_mono (h.putAnswers hs hn fun i _ a ha => ⟨n, hn, hfind i a ha⟩) ?_
  rintro res s' ⟨rfl, hs', hmoment, hfailures, hsince'⟩
  refine ⟨rfl, hs', hmoment, hfailures, fun s₀ id hsince hfrom hid => ?_⟩
  refine hsince' s₀ id hsince hfrom fun hmem => ?_
  obtain ⟨a, ha, hfits⟩ := hcomplete id hmem (hid hmem)
  obtain ⟨b, hb⟩ := find_of_mem (k := k) ha
  rw [h.fits_id hfits] at hb
  exact ⟨b, hb, hfind id b hb⟩

theorem Since.extended (hsince : k.Since env w s₀ s id) (h : k.Watched env w)
    {e e' : Cached α} {a a' : α} (hold : k.cache s₀ id = some e) (ha : e.value = some a)
    (hfits : ∀ i, s₀.moment ≤ i → i ≤ s.moment → w.fits i id a)
    (hnew : k.cache s id = some e') (ha' : e'.value = some a') : w.fits s.moment id a' := by
  rcases hsince.entries e' hnew with hsame | ⟨b, n, hb, hfrom, hn, -, hb'⟩
  · cases hold.symm.trans hsame
    cases ha.symm.trans ha'
    exact hfits _ hsince.moment le_rfl
  · cases hb.symm.trans ha'
    exact h.fits_congr (hfits n hfrom hn.le) hb' (hfits _ hsince.moment le_rfl)

theorem Watched.fromCache (h : k.Watched env w) (hs : k.Sourced w s) (hn : n < s.moment)
    (text : String) (ids : List String)
    (hcached : ∀ i e, cached i = some e → k.cache s i = some e) :
    wp (k.fromCache cfg (env n) text ids cached) (fun res s' =>
      k.Puts env w n (fun id => id ∈ ids → cfg.aclDownPolicy.extends = true ∧
        ∃ e a, cached id = some e ∧ e.value = some a ∧ w.fits n id a) s s' ∧
      ∀ l, res = .ok l → ∀ a ∈ l, ∃ i ∈ ids, ∃ m < s'.moment, w.fits m i a) s := by
  unfold Linkable.fromCache
  have hentry : ∀ i a, ((if cfg.aclDownPolicy.extends = true then cached i else none).bind
      (·.value)) = some a → ∃ m < s.moment, w.fits m i a := by
    intro i a ha
    split at ha
    · obtain ⟨e, he, hvalue⟩ := Option.bind_eq_some_iff.mp ha
      exact hs i e a (hcached i e he) hvalue
    · cases ha
  refine wp_seq (h.putAnswers hs hn fun i _ => hentry i) ?_ ?_
  · rintro _ s' ⟨-, hs', hmoment, hfailures, hsince'⟩
    have hputs : k.Puts env w n (fun id => id ∈ ids → cfg.aclDownPolicy.extends = true ∧
        ∃ e a, cached id = some e ∧ e.value = some a ∧ w.fits n id a) s s' := by
      refine ⟨hs', hmoment, hfailures, fun s₀ id hsince hfrom hid => ?_⟩
      refine hsince' s₀ id hsince hfrom fun hmem => ?_
      obtain ⟨hextends, e, a, he, ha, hfits⟩ := hid hmem
      exact ⟨a, by simp [hextends, he, ha], hfits⟩
    by_cases hall : (ids.all fun i =>
        (if cfg.aclDownPolicy.extends = true then cached i else none).isSome) = true
    · rw [if_pos hall, wp_pure]
      refine ⟨hputs, ?_⟩
      rintro l hl a ha
      cases hl
      obtain ⟨i, hi, hvalue⟩ := mem_filterMap.mp ha
      rw [((env n).walk.perm 0 _).mem_iff, mem_dedup] at hi
      rw [hmoment]
      exact ⟨i, hi, hentry i a hvalue⟩
    · rw [if_neg hall]
      exact ⟨hputs, fun l hl => (by cases hl)⟩
  · rintro e s' ⟨he, -⟩
    cases he

/-- What is asked for and has an entry in the cache is passed on together with it. -/
structure Handed (k : Linkable α) (s : Resolver) (ids : List String)
    (cached : String → Option (Cached α)) : Prop where
  entry : ∀ i e, cached i = some e → k.cache s i = some e
  value : ∀ i e, cached i = some e → ∃ a, e.value = some a
  missing : ∀ i ∈ ids, cached i = none → k.cache s i = none

/-- A token is only refused by the answer to a request. -/
def Refused {β : Type} (s : Resolver) (res : Except ResolveError β) (s' : Resolver) : Prop :=
  ∀ text secret, res = .error (.token text secret) → s.failures.length < s'.failures.length

theorem Refused.ok {β : Type} (s : Resolver) (b : β) (s' : Resolver) : Refused s (.ok b) s' := by
  intro text secret h
  cases h

variable (s₀ N) in
theorem Watched.fetchAndCache (h : k.Watched env w) (hs : k.Sourced w s) (identity : ACLToken)
    (hlinked : ∀ i ∈ ids, w.linked s.moment i) (hcached : k.Handed s ids cached) :
    wp (k.fetchAndCache cfg env identity ids cached) (fun res s' =>
      k.Follows cfg env w s₀ N s s' ∧ s.moment < s'.moment ∧ Refused s res s' ∧
        ∀ l, res = .ok l → Fetched w s ids l s') s := by
  unfold Linkable.fetchAndCache
  rw [wp_tick]
  refine wp_then (h.request s.moment identity.secretID ids _) ?_
  rintro reply s₁ ⟨haside, hmoment₁, hreply⟩
  have hcache₁ : k.cache s₁ = k.cache s :=
    (h.cache_aside haside).trans (h.lawful.cache_moment _ s)
  dsimp only at hmoment₁
  have hn : s.moment < s₁.moment := by omega
  have hstart : k.Follows cfg env w s₀ N s s₁ := .of_cache hs hcache₁ hn.le
  cases reply with
  | ok l =>
    obtain ⟨hfailures, houtcome, hsound, hcomplete⟩ := hreply
    refine wp_seq (h.putReply hstart.sourced hn hsound hcomplete) ?_ ?_
    · rintro _ s' ⟨-, hs', hmoment, -, hsince'⟩
      rw [wp_pure]
      refine ⟨⟨by omega, hs', fun hN id hid hsince => ?_⟩, by omega, .ok _ _ _, ?_⟩
      · refine hsince' s₀ id (hsince.of_cache hcache₁ hn.le) hsince.moment fun hmem => ?_
        have hreliable := hid s.moment hsince.moment (by omega) (hlinked id hmem)
          identity.secretID ids hmem
        rw [houtcome] at hreliable
        exact hreliable
      · rintro _ hl
        cases hl
        refine ⟨fun a ha => ?_, fun _ i hi hpresent => ?_⟩
        · obtain ⟨i, hi⟩ := mem_found.mp ha
          obtain ⟨hmem, -⟩ := find_eq_some hi
          obtain ⟨j, hj, hfits⟩ := hsound a hmem
          exact ⟨j, hj, s.moment, by omega, hfits⟩
        · obtain ⟨a, ha, hfits⟩ := hcomplete i hi hpresent
          obtain ⟨b, hb⟩ := find_of_mem (k := k) ha
          obtain ⟨hmem, hid⟩ := find_eq_some hb
          obtain ⟨j, -, hfits'⟩ := hsound b hmem
          rw [h.fits_id hfits] at hid
          obtain rfl : j = i := (h.fits_id hfits').symm.trans hid
          exact ⟨b, mem_found.mpr ⟨_, hb⟩, hfits'⟩
    · rintro e s' ⟨he, -⟩
      cases he
  | error text =>
    obtain ⟨hfailures, houtcome⟩ := hreply
    have hgrown : s.failures.length < s₁.failures.length := by simp [hfailures]
    dsimp only
    unfold maybeHandleIdentityErrorDuringFetch
    by_cases hgone : isErrNotFound text = true
    · simp only [hgone, if_true]
      have hput := putIdentity_aside (env s.moment) identity.secretID none s₁
      exact ⟨hstart.trans (h.of_aside hstart.sourced hput), hn.trans_le hput.moment,
        fun _ _ _ => hgrown, nofun⟩
    by_cases hdenied : isErrPermissionDenied text = true
    · simp only [hgone, hdenied, if_true]
      refine ⟨hstart.trans (h.of_aside hstart.sourced ⟨rfl, rfl, le_rfl, suffix_rfl⟩), hn,
        fun _ _ _ => hgrown, nofun⟩
    · simp only [hgone, hdenied]
      refine wp_mono (h.fromCache hstart.sourced hn text ids fun i e he => ?_) ?_
      · rw [hcache₁]
        exact hcached.entry i e he
      rintro res s' ⟨⟨hs', hmoment, hfailures', hsince'⟩, hsound⟩
      refine ⟨⟨by omega, hs', fun hN id hid hsince => ?_⟩, by omega,
        fun _ _ _ => hfailures' ▸ hgrown, fun l hl => ⟨hsound l hl, ?_⟩⟩
      · refine hsince' s₀ id (hsince.of_cache hcache₁ hn.le) hsince.moment fun hmem => ?_
        have hreliable := hid s.moment hsince.moment (by omega) (hlinked id hmem)
          identity.secretID ids hmem
        rw [houtcome] at hreliable
        obtain ⟨hextends, e, a, he, ha, hfits⟩ :=
          (hreliable.resolve_left hgone).resolve_left hdenied
        -- the entry is still there, so it has been handed on
        obtain ⟨e', he'⟩ := Option.isSome_iff_exists.mp (hsince.grows (by simp [he]))
        cases hhanded : cached id with
        | none => cases he'.symm.trans (hcached.missing id hmem hhanded)
        | some e'' =>
          obtain ⟨a'', ha''⟩ := hcached.value id e'' hhanded
          exact ⟨hextends, e'', a'', rfl, ha'',
            hsince.extended h he ha hfits (hcached.entry id e'' hhanded) ha''⟩
      · intro hsame
        cases cons_ne_self _ _ (hfailures.symm.trans (hfailures'.symm.trans hsame))

/-! ## What a look-up says about the cache -/

theorem sight_spec {m : Moment} {x : Sighting α} (h : k.sight m s id = .ok x) :
    match x with
    | .value a => k.lookup m id = some (.ok a) ∨
      ∃ e, k.cache s id = some e ∧ e.value = some a ∧ m.now - e.cacheTime < k.ttl
    | .missing => k.cache s id = none
    | .gone => (∃ text, k.lookup m id = some (.error text) ∧ isErrNotFound text = true) ∨
      ∃ e, k.cache s id = some e ∧ e.value = none
    | .expired e a => k.cache s id = some e ∧ e.value = some a := by
  unfold sight at h
  split at h
  next a hlookup =>
    cases h
    exact .inl hlookup
  next text hlookup =>
    split at h <;> cases h
    exact .inl ⟨text, hlookup, ‹_›⟩
  next hlookup =>
    split at h
    next hcache =>
      cases h
      exact hcache
    next entry hcache =>
      split at h
      next hvalue =>
        cases h
        exact .inr ⟨entry, hcache, hvalue⟩
      next a hvalue =>
        split at h <;> cases h
        · exact ⟨hcache, hvalue⟩
        · exact .inr ⟨entry, hcache, hvalue, not_le.mp ‹_›⟩

/-- What a pass hands on to the ACL datacenter. -/
structure HandsOn (k : Linkable α) (s : Resolver) (ids : List String) (c : Collected α) :
    Prop where
  missing : ∀ id ∈ c.missing, id ∈ ids ∧ k.cache s id = none
  expired : ∀ x ∈ c.expired, x.1 ∈ ids ∧ k.cache s x.1 = some x.2.1 ∧ x.2.1.value = some x.2.2 ∧
    k.id x.2.2 = x.1

theorem Watched.handsOn (h : k.Watched env w) (hs : k.Sourced w s) (hc : k.Looked env s ids c) :
    k.HandsOn s ids c := by
  refine ⟨fun id hid => ?_, fun x hx => ?_⟩
  · obtain ⟨hmem, n, -, hsight⟩ := hc.missing id hid
    exact ⟨hmem, sight_spec hsight⟩
  · obtain ⟨hmem, n, -, hsight⟩ := hc.expired x hx
    obtain ⟨hcache, hvalue⟩ := sight_spec hsight
    obtain ⟨m, -, hfits⟩ := hs x.1 x.2.1 x.2.2 hcache hvalue
    exact ⟨hmem, hcache, hvalue, h.fits_id hfits⟩

theorem HandsOn.asked (h : k.HandsOn s ids c) {i : String}
    (hi : i ∈ c.missing ++ c.expired.map fun e => k.id e.2.2) : i ∈ ids := by
  rcases mem_append.mp hi with hi | hi
  · exact (h.missing i hi).1
  · obtain ⟨x, hx, rfl⟩ := mem_map.mp hi
    rw [(h.expired x hx).2.2.2]
    exact (h.expired x hx).1

theorem HandsOn.handed (h : k.HandsOn s ids c) :
    k.Handed s (c.missing ++ c.expired.map fun e => k.id e.2.2)
      (fun id => (c.expired.reverse.find? fun e => e.1 == id).map (·.2.1)) := by
  have hcached : ∀ i e, (c.expired.reverse.find? fun e => e.1 == i).map (·.2.1) = some e →
      k.cache s i = some e ∧ ∃ a, e.value = some a := by
    intro i e he
    obtain ⟨x, hx, rfl⟩ := Option.map_eq_some_iff.mp he
    have hid : x.1 = i := by simpa using find?_some hx
    have hexpired := h.expired x (mem_reverse.mp (mem_of_find?_eq_some hx))
    rw [hid] at hexpired
    exact ⟨hexpired.2.1, x.2.2, hexpired.2.2.1⟩
  refine ⟨fun i e he => (hcached i e he).1, fun i e he => (hcached i e he).2, fun i hi hnone => ?_⟩
  rcases mem_append.mp hi with hi | hi
  · exact (h.missing i hi).2
  · obtain ⟨x, hx, rfl⟩ := mem_map.mp hi
    have hfound := find?_eq_none.mp (Option.map_eq_none_iff.mp hnone) x
      (mem_reverse.mpr hx)
    simp [(h.expired x hx).2.2.2] at hfound

/-! ## Collecting -/

/-- The entry under an ID says what was there when it was cached. -/
def Remembered (k : Linkable α) (env : Nat → Moment) (w : Watch α) (s : Resolver)
    (id : String) : Prop :=
  ∀ e, k.cache s id = some e →
    ∃ a n, e.value = some a ∧ n < s.moment ∧ (env n).now = e.cacheTime ∧ w.fits n id a

def Recent (k : Linkable α) (env : Nat → Moment) (s : Resolver) (t : Time) (n : Nat) : Prop :=
  t - k.ttl < (env n).now ∨ s.moment ≤ n

theorem Remembered.of_cache (h : k.Remembered env w s id) (hcache : k.cache s' = k.cache s)
    (hmoment : s.moment ≤ s'.moment) : k.Remembered env w s' id := by
  intro e he
  rw [hcache] at he
  obtain ⟨a, n, ha, hn, hrest⟩ := h e he
  exact ⟨a, n, ha, hn.trans_le hmoment, hrest⟩

theorem Recent.of_le {t : Time} (h : k.Recent env s' t n) (hmoment : s.moment ≤ s'.moment) :
    k.Recent env s t n :=
  h.imp_right hmoment.trans

theorem Since.remembered (h : k.Since env w s₀ s id) (hs : k.Remembered env w s₀ id) :
    k.Remembered env w s id := by
  intro e he
  rcases h.entries e he with hold | ⟨a, n, ha, -, hn, hrest⟩
  · obtain ⟨a, n, ha, hn, hrest⟩ := hs e hold
    exact ⟨a, n, ha, hn.trans_le h.moment, hrest⟩
  · exact ⟨a, n, ha, hn, hrest⟩

theorem Since.refl (s : Resolver) (id : String) : k.Since env w s s id :=
  ⟨le_rfl, fun h => h, fun _ he => .inl he⟩

/-- What has been collected for the IDs `ids` between the states `s` and `s'`. -/
structure Collects (k : Linkable α) (cfg : ResolverConfig) (env : Nat → Moment) (w : Watch α)
    (s : Resolver) (ids : List String) (l : List α) (s' : Resolver) : Prop where
  sound : ∀ a ∈ l, ∃ i ∈ ids, ∃ m < s'.moment, w.fits m i a
  fresh : cfg.aclDownPolicy ≠ .asyncCache → s'.failures = s.failures →
    ∀ t, (∀ n, s.moment ≤ n → t ≤ (env n).now) → ∀ id ∈ ids, k.Remembered env w s id →
      (∀ n < s'.moment, k.Recent env s t n → w.present n id) →
      ∃ a ∈ l, ∃ n < s'.moment, k.Recent env s t n ∧ w.fits n id a

theorem Watched.values_sound (h : k.Watched env w) (hs : k.Sourced w s) (hc : k.Looked env s ids c)
    :
    ∀ a ∈ c.values, ∃ i ∈ ids, ∃ m < s.moment + ids.length, w.fits m i a := by
  intro a ha
  obtain ⟨i, hi, n, hn, hsight⟩ := hc.values a ha
  rcases sight_spec hsight with hlookup | ⟨e, he, hvalue, -⟩
  · exact ⟨i, hi, n, hn.2, h.found hlookup⟩
  · obtain ⟨m, hm, hfits⟩ := hs i e a he hvalue
    exact ⟨i, hi, m, by omega, hfits⟩

theorem Watched.looked_fresh (h : k.Watched env w) (hc : k.Looked env s ids c) {t : Time}
    (ht : ∀ n, s.moment ≤ n → t ≤ (env n).now) (hid : id ∈ ids)
    (hremembered : k.Remembered env w s id)
    (hpresent : ∀ n < s.moment + ids.length, k.Recent env s t n → w.present n id) :
    (∃ a ∈ c.values, ∃ n < s.moment + ids.length, k.Recent env s t n ∧ w.fits n id a) ∨
      id ∈ c.missing ∨ ∃ x ∈ c.expired, x.1 = id := by
  obtain ⟨n, hn, hcase⟩ := hc.all id hid
  rcases hcase with ⟨a, ha, hsight⟩ | hmissing | hgone | ⟨e, a, hx, -⟩
  · refine .inl ⟨a, ha, ?_⟩
    rcases sight_spec hsight with hlookup | ⟨e, he, hvalue, hyoung⟩
    · exact ⟨n, hn.2, .inr hn.1, h.found hlookup⟩
    · obtain ⟨a', m, ha', hm, hnow, hfits⟩ := hremembered e he
      cases hvalue.symm.trans ha'
      have htime := ht n hn.1
      refine ⟨m, by omega, .inl ?_, hfits⟩
      rw [hnow]
      exact Int.lt_of_le_of_lt (Int.sub_le_sub_right htime k.ttl)
        (Int.sub_left_lt_of_lt_add (Int.lt_add_of_sub_right_lt hyoung))
  · exact .inr (.inl hmissing)
  · rcases sight_spec hgone with ⟨text, hlookup, htext⟩ | ⟨e, he, hvalue⟩
    · exact absurd (hpresent n hn.2 (.inr hn.1)) (h.gone hlookup htext)
    · obtain ⟨a, -, ha, -⟩ := hremembered e he
      cases hvalue.symm.trans ha
  · exact .inr (.inr ⟨_, hx, rfl⟩)

variable (s₀ N) in
theorem Watched.fetchRest (h : k.Watched env w) (hs : k.Sourced w s) (identity : ACLToken)
    (hlinked : ∀ i ∈ ids, w.linked s.moment i) (hc : k.Looked env s ids c) :
    wp (k.fetchRest cfg env identity c) (fun res s' =>
      k.Follows cfg env w s₀ N s s' ∧ Refused s res s' ∧
        ∀ l, res = .ok l → k.Collects cfg env w s ids l s')
      { s with moment := s.moment + ids.length } := by
  have hcache₁ := h.lawful.cache_moment (s.moment + ids.length) s
  have hstart : k.Follows cfg env w s₀ N s { s with moment := s.moment + ids.length } :=
    .of_cache hs hcache₁ (Nat.le_add_right _ _)
  have hhands := h.handsOn hs hc
  have hhanded := hhands.handed
  have hhanded₁ : k.Handed { s with moment := s.moment + ids.length } _ _ :=
    ⟨hcache₁ ▸ hhanded.entry, hhanded.value, hcache₁ ▸ hhanded.missing⟩
  have hvalues := h.values_sound hs hc
  unfold Linkable.fetchRest
  dsimp only
  rw [wp_bind, wp_attempt]
  refine wp_mono (h.fetchAndCache s₀ N hstart.sourced identity
    (fun i hi => h.linked_mono (Nat.le_add_right _ _) (hlinked i (hhands.asked hi))) hhanded₁) ?_
  rintro result s' ⟨hfollows, hmoment, hrefused, hfetched⟩
  rw [andThen_ok]
  dsimp only at hmoment
  have hvalues' : ∀ a ∈ c.values, ∃ i ∈ ids, ∃ m < s'.moment, w.fits m i a := by
    intro a ha
    obtain ⟨i, hi, m, hm, hfits⟩ := hvalues a ha
    exact ⟨i, hi, m, by omega, hfits⟩
  by_cases hwait : (!c.missing.isEmpty || cfg.aclDownPolicy != .asyncCache) = true
  · rw [if_pos hwait]
    cases result with
    | error e => exact ⟨hstart.trans hfollows, hrefused, nofun⟩
    | ok found =>
      dsimp only
      rw [wp_pure]
      refine ⟨hstart.trans hfollows, .ok _ _ _, ?_⟩
      rintro _ hl
      cases hl
      obtain ⟨hsound, hcomplete⟩ := hfetched found rfl
      refine ⟨fun a ha => ?_, fun _ hfailures t ht id hid hremembered hpresent => ?_⟩
      · rcases mem_append.mp ha with ha | ha
        · exact hvalues' a ha
        · obtain ⟨i, hi, hrest⟩ := hsound a ha
          exact ⟨i, hhands.asked hi, hrest⟩
      · have hasked : id ∈ c.missing ++ c.expired.map (fun e => k.id e.2.2) →
            ∃ a ∈ c.values ++ found, ∃ n < s'.moment, k.Recent env s t n ∧ w.fits n id a := by
          intro hmem
          have hrecent : k.Recent env s t (s.moment + ids.length) := .inr (Nat.le_add_right _ _)
          obtain ⟨a, ha, hfits⟩ := hcomplete hfailures id hmem (hpresent _ hmoment hrecent)
          exact ⟨a, mem_append_right _ ha, _, hmoment, hrecent, hfits⟩
        rcases h.looked_fresh hc ht hid hremembered
          (fun n hn => hpresent n (by omega)) with ⟨a, ha, n, hn, hrest⟩ | hmissing | ⟨x, hx, rfl⟩
        · exact ⟨a, mem_append_left _ ha, n, by omega, hrest⟩
        · exact hasked (mem_append_left _ hmissing)
        · refine hasked (mem_append_right _ (mem_map.mpr ⟨x, hx, ?_⟩))
          exact (hhands.expired x hx).2.2.2
  · rw [if_neg hwait, wp_pure]
    refine ⟨hstart.trans hfollows, .ok _ _ _, ?_⟩
    rintro _ hl
    cases hl
    refine ⟨fun a ha => ?_, fun hdown => ?_⟩
    · rcases mem_append.mp ha with ha | ha
      · exact hvalues' a ha
      · obtain ⟨x, hx, rfl⟩ := mem_map.mp ha
        obtain ⟨hmem, hcache, hvalue, -⟩ := hhands.expired x hx
        obtain ⟨m, hm, hfits⟩ := hs _ _ _ hcache hvalue
        exact ⟨x.1, hmem, m, by omega, hfits⟩
    · simp [hdown] at hwait

variable (cfg s₀ N) in
theorem Watched.collect (h : k.Watched env w) (hs : k.Sourced w s) (identity : ACLToken)
    (hlinked : ∀ i ∈ ids, w.linked s.moment i) :
    wp (k.collect cfg env identity ids) (fun res s' =>
      k.Follows cfg env w s₀ N s s' ∧ Refused s res s' ∧
        ∀ l, res = .ok l → k.Collects cfg env w s ids l s') s := by
  unfold Linkable.collect
  refine wp_seq (wp_lookUp env h.lawful s ids) ?_ ?_
  · rintro c s₁ (⟨c', hc', hlooked, rfl⟩ | ⟨text, n, id, hc', -⟩)
    · cases hc'
      by_cases hdone : (c.missing.isEmpty && c.expired.isEmpty) = true
      · rw [if_pos hdone, wp_pure]
        simp only [Bool.and_eq_true, List.isEmpty_iff] at hdone
        refine ⟨.of_cache hs (h.lawful.cache_moment _ s) (Nat.le_add_right _ _),
          .ok _ _ _, ?_⟩
        rintro _ hl
        cases hl
        refine ⟨h.values_sound hs hlooked, fun _ _ t ht id hid hremembered hpresent => ?_⟩
        rcases h.looked_fresh hlooked ht hid hremembered hpresent with
          hvalue | hmissing | ⟨x, hx, -⟩
        · exact hvalue
        · rw [hdone.1] at hmissing
          cases hmissing
        · rw [hdone.2] at hx
          cases hx
      · rw [if_neg hdone]
        exact h.fetchRest s₀ N hs identity hlinked hlooked
    · cases hc'
  · rintro e s₁ (⟨c', hc', -⟩ | ⟨text, n, id, he, rfl, hn, -⟩)
    · cases hc'
    · cases he
      exact ⟨.of_cache hs (h.lawful.cache_moment _ s) hn, fun _ _ he => (by cases he),
        nofun⟩

/-! ## What collecting leaves alone -/

/-- A relation between states that every part of collecting respects. -/
structure Framed (k : Linkable α) (R : Resolver → Resolver → Prop) : Prop where
  moment : ∀ s n, s.moment ≤ n → R s { s with moment := n }
  put : ∀ m id a, Fallible.Moves R (k.put m id a)
  request : ∀ m secret ids, Fallible.Moves R (k.request m secret ids)
  forget : ∀ m secret, Fallible.Moves R (putIdentity m secret none)
  remove : ∀ s secret, R s { s with identities := Function.update s.identities secret none }

section Framed

variable {R : Resolver → Resolver → Prop} [Std.Refl R] [IsTrans Resolver R]

theorem Framed.putAnswers (h : k.Framed R) (m : Moment) (answer : String → Option α)
    (ids : List String) : Moves R (k.putAnswers m answer ids) := by
  induction ids with
  | nil => exact .pure _
  | cons id ids ih => exact (h.put m id (answer id)).bind fun _ => ih

theorem Framed.fetchAndCache (h : k.Framed R) (identity : ACLToken) (ids : List String)
    (cached : String → Option (Cached α)) :
    Moves R (k.fetchAndCache cfg env identity ids cached) := by
  have htick : Moves R (tick env) := fun s => h.moment s _ (Nat.le_succ s.moment)
  refine htick.bind fun m => (h.request m identity.secretID ids).bind fun reply => ?_
  cases reply with
  | ok answer => exact (h.putAnswers m _ ids).bind fun _ => .pure _
  | error text =>
    refine Moves.bind ?_ fun _ => (h.putAnswers m _ ids).bind fun _ =>
      .ite (.pure _) (.fail _)
    refine .ite ((h.forget m _).bind fun _ => .fail _) (.ite ?_ (.pure _))
    exact Moves.bind (fun s => h.remove s identity.secretID) fun _ => .fail _

omit [Std.Refl R] [IsTrans Resolver R] in
theorem Framed.lookUp (h : k.Framed R) (hk : k.Lawful) (ids : List String) :
    Moves R (k.lookUp env ids {}) := by
  intro s
  rcases wp_lookUp env hk s ids with ⟨c, -, -, hs'⟩ | ⟨text, n, id, -, hs', hn, -⟩
  · rw [hs']
    exact h.moment s _ (Nat.le_add_right _ _)
  · rw [hs']
    exact h.moment s n hn

variable (cfg env) in
theorem Framed.collect (h : k.Framed R) (hk : k.Lawful) (identity : ACLToken)
    (ids : List String) : Moves R (k.collect cfg env identity ids) := by
  refine (h.lookUp hk ids).bind fun c => .ite (.pure _) ?_
  refine (h.fetchAndCache identity _ _).attempt.bind fun result => .ite ?_ (.pure _)
  cases result with
  | ok found => exact .pure _
  | error e => exact .fail _

end Framed

end Linkable

end OpenGyoza
