-- How the resolver looks up linked policies and roles. The look-ups of one
-- pass are described ID by ID. From that follows what is collected when the
-- store, the caches and the ACL datacenter all speak of the same policies
-- and roles.
import OpenGyoza.AclResolver

namespace OpenGyoza

open Memdb Fallible List

variable {s : Resolver}

theorem wp_tick {β : Type} {env : Nat → Moment} {f : Moment → Resolve β}
    {Q : Except ResolveError β → Resolver → Prop} :
    wp (tick env >>= f) Q s ↔
      wp (f (env s.moment)) Q { s with moment := s.moment + 1 } := Iff.rfl

theorem wp_noteReply_ok {α β : Type} {a : α} {f : Unit → Resolve β}
    {Q : Except ResolveError β → Resolver → Prop} :
    wp (noteReply (.ok a) >>= f) Q s ↔ wp (f ()) Q s := Iff.rfl

namespace Linkable

variable {α : Type} (k : Linkable α) {ids : List String} {c : Collected α}

/-! ## One pass -/

/-- What a look-up of one ID finds: a value, nothing at all, that nothing exists, or an entry of
the cache that is too old. -/
inductive Sighting (α : Type) where
  | value (a : α)
  | missing
  | gone
  | expired (entry : Cached α) (a : α)

def sight (m : Moment) (s : Resolver) (id : String) : Except String (Sighting α) :=
  match k.lookup m id with
  | some (.ok a) => .ok (.value a)
  | some (.error text) => if isErrNotFound text then .ok .gone else .error text
  | none =>
    match k.cache s id with
    | none => .ok .missing
    | some entry =>
      match entry.value with
      | none => .ok .gone
      | some a =>
        if m.now - entry.cacheTime ≥ k.ttl then .ok (.expired entry a) else .ok (.value a)

def Collected.add (c : Collected α) (id : String) : Sighting α → Collected α
  | .value a => { c with values := c.values ++ [a] }
  | .missing => { c with missing := c.missing ++ [id] }
  | .gone => c
  | .expired entry a => { c with expired := c.expired ++ [(id, entry, a)] }

/-- The cache can be set, and it does not depend on how often the world was looked at. -/
structure Lawful : Prop where
  cache_set : ∀ c s, k.cache (k.setCache c s) = c
  cache_moment : ∀ n s, k.cache { s with moment := n } = k.cache s

theorem lookUp_cons (env : Nat → Moment) (hk : k.Lawful) (id : String) (ids : List String)
    (acc : Collected α) (s : Resolver) :
    k.lookUp env (id :: ids) acc s =
      match k.sight (env s.moment) s id with
      | .error text => (.error (.plain text), { s with moment := s.moment + 1 })
      | .ok x => k.lookUp env ids (acc.add id x) { s with moment := s.moment + 1 } := by
  refine (bind_of_ok rfl).trans ?_
  unfold sight
  cases k.lookup (env s.moment) id with
  | some found =>
    cases found with
    | ok a => rfl
    | error text =>
      by_cases h : isErrNotFound text = true <;> simp [h, Collected.add, Fallible.fail]
  | none =>
    have hcache : k.cache { s with moment := s.moment + 1 } id = k.cache s id := by
      rw [hk.cache_moment]
    refine (bind_of_ok rfl).trans ?_
    dsimp only
    rw [hcache]
    cases k.cache s id with
    | none => rfl
    | some entry =>
      rcases entry with ⟨value, cacheTime⟩
      cases value with
      | none => rfl
      | some a =>
        by_cases h : (env s.moment).now - cacheTime ≥ k.ttl <;> simp [h, Collected.add]

/-- The moments at which a pass over the IDs `ids` looks at the world. -/
def During (s : Resolver) (ids : List String) (n : Nat) : Prop :=
  s.moment ≤ n ∧ n < s.moment + ids.length

/-- What is collected in a pass over the IDs `ids` that begins in the state `s`. -/
structure Looked (env : Nat → Moment) (s : Resolver) (ids : List String) (c : Collected α) :
    Prop where
  values : ∀ a ∈ c.values, ∃ id ∈ ids, ∃ n, During s ids n ∧
    k.sight (env n) s id = .ok (.value a)
  missing : ∀ id ∈ c.missing, id ∈ ids ∧ ∃ n, During s ids n ∧ k.sight (env n) s id = .ok .missing
  expired : ∀ x ∈ c.expired, x.1 ∈ ids ∧ ∃ n, During s ids n ∧
    k.sight (env n) s x.1 = .ok (.expired x.2.1 x.2.2)
  all : ∀ id ∈ ids, ∃ n, During s ids n ∧
    ((∃ a ∈ c.values, k.sight (env n) s id = .ok (.value a)) ∨ id ∈ c.missing ∨
      k.sight (env n) s id = .ok .gone ∨
      ∃ entry a, (id, entry, a) ∈ c.expired ∧ k.sight (env n) s id = .ok (.expired entry a))

variable {k}

theorem During.append {n : Nat} (h : During s ids n) (id : String) : During s (ids ++ [id]) n := by
  unfold During at h ⊢
  rw [length_append]
  omega

theorem Collected.add_grows (c : Collected α) (id : String) (x : Sighting α) :
    (∀ a ∈ c.values, a ∈ (c.add id x).values) ∧ (∀ i ∈ c.missing, i ∈ (c.add id x).missing) ∧
      ∀ e ∈ c.expired, e ∈ (c.add id x).expired := by
  cases x <;> simp +contextual [Collected.add]

theorem Looked.add {env : Nat → Moment} (h : k.Looked env s ids c) {id : String} {x : Sighting α}
    (hx : k.sight (env (s.moment + ids.length)) s id = .ok x) :
    k.Looked env s (ids ++ [id]) (c.add id x) := by
  have hlast : During s (ids ++ [id]) (s.moment + ids.length) := by simp [During]
  have hid : id ∈ ids ++ [id] := by simp
  obtain ⟨hvalues, hmissing, hexpired⟩ := c.add_grows id x
  refine ⟨fun a ha => ?_, fun i hi => ?_, fun e he => ?_, fun i hi => ?_⟩
  · have hcases : a ∈ c.values ∨ x = .value a := by
      cases x <;> simp [Collected.add] at ha ⊢
      all_goals first | exact ha | exact ha.imp_right Eq.symm
    rcases hcases with ha | rfl
    · obtain ⟨i, hi, n, hn, hsight⟩ := h.values a ha
      exact ⟨i, mem_append_left _ hi, n, hn.append id, hsight⟩
    · exact ⟨id, hid, _, hlast, hx⟩
  · have hcases : i ∈ c.missing ∨ x = .missing ∧ i = id := by
      cases x <;> simp [Collected.add] at hi ⊢
      all_goals exact hi
    rcases hcases with hi | ⟨rfl, rfl⟩
    · obtain ⟨hi, n, hn, hsight⟩ := h.missing i hi
      exact ⟨mem_append_left _ hi, n, hn.append id, hsight⟩
    · exact ⟨hid, _, hlast, hx⟩
  · have hcases : e ∈ c.expired ∨ x = .expired e.2.1 e.2.2 ∧ e.1 = id := by
      cases x <;> simp [Collected.add] at he ⊢
      all_goals first | exact he | skip
      rcases he with he | rfl
      · exact .inl he
      · exact .inr ⟨⟨rfl, rfl⟩, rfl⟩
    rcases hcases with he | ⟨rfl, rfl⟩
    · obtain ⟨hi, n, hn, hsight⟩ := h.expired e he
      exact ⟨mem_append_left _ hi, n, hn.append id, hsight⟩
    · exact ⟨hid, _, hlast, hx⟩
  · rcases mem_append.mp hi with hi | hi
    · obtain ⟨n, hn, hcase⟩ := h.all i hi
      refine ⟨n, hn.append id, ?_⟩
      rcases hcase with ⟨a, ha, hsight⟩ | hmiss | hgone | ⟨entry, a, he, hsight⟩
      · exact .inl ⟨a, hvalues a ha, hsight⟩
      · exact .inr (.inl (hmissing i hmiss))
      · exact .inr (.inr (.inl hgone))
      · exact .inr (.inr (.inr ⟨entry, a, hexpired _ he, hsight⟩))
    · obtain rfl := mem_singleton.mp hi
      refine ⟨_, hlast, ?_⟩
      cases x with
      | value a => exact .inl ⟨a, by simp [Collected.add], hx⟩
      | missing => exact .inr (.inl (by simp [Collected.add]))
      | gone => exact .inr (.inr (.inl hx))
      | expired entry a => exact .inr (.inr (.inr ⟨entry, a, by simp [Collected.add], hx⟩))

theorem Looked.start (env : Nat → Moment) (s : Resolver) : k.Looked env s [] {} :=
  ⟨by simp, by simp, by simp, by simp⟩

theorem wp_lookUp_from (env : Nat → Moment) (hk : k.Lawful) {done : List String} {acc : Collected α}
    (h : k.Looked env s done acc) (ids : List String) :
    wp (k.lookUp env ids acc) (fun res s' =>
      (∃ c, res = .ok c ∧ k.Looked env s (done ++ ids) c ∧
        s' = { s with moment := s.moment + (done ++ ids).length }) ∨
      ∃ text n id, res = .error (.plain text) ∧ s' = { s with moment := n } ∧ s.moment ≤ n ∧
        k.sight (env (n - 1)) s id = .error text) { s with moment := s.moment + done.length } := by
  induction ids generalizing done acc with
  | nil =>
    refine .inl ⟨acc, rfl, ?_⟩
    rw [append_nil]
    exact ⟨h, rfl⟩
  | cons id ids ih =>
    have hsight : k.sight (env (s.moment + done.length))
        { s with moment := s.moment + done.length } id =
          k.sight (env (s.moment + done.length)) s id := by
      unfold sight
      rw [hk.cache_moment]
    unfold wp
    rw [k.lookUp_cons env hk]
    rw [hsight]
    cases hx : k.sight (env (s.moment + done.length)) s id with
    | error text =>
      refine .inr ⟨text, s.moment + done.length + 1, id, rfl, rfl, by omega, ?_⟩
      rw [Nat.add_sub_cancel]
      exact hx
    | ok x =>
      have hrest := ih (h.add hx)
      have hnext : s.moment + (done ++ [id]).length = s.moment + done.length + 1 := by
        simp only [length_append, length_singleton]
        omega
      rw [append_assoc, singleton_append, hnext] at hrest
      exact hrest

theorem wp_lookUp (env : Nat → Moment) (hk : k.Lawful) (s : Resolver) (ids : List String) :
    wp (k.lookUp env ids {}) (fun res s' =>
      (∃ c, res = .ok c ∧ k.Looked env s ids c ∧ s' = { s with moment := s.moment + ids.length }) ∨
      ∃ text n id, res = .error (.plain text) ∧ s' = { s with moment := n } ∧ s.moment ≤ n ∧
        k.sight (env (n - 1)) s id = .error text) s :=
  wp_lookUp_from env hk (.start env s) ids

/-! ## Answers -/

theorem wp_putAnswers {I : Resolver → Prop} {m : Moment} {answer : String → Option α} (hs : I s)
    (step : ∀ id ∈ ids, ∀ s, I s →
      I (k.setCache (cachePut m.drops id ⟨answer id, m.now⟩ (k.cache s)) s)) :
    wp (k.putAnswers m answer ids) (fun res s' => res = .ok () ∧ I s') s := by
  induction ids generalizing s with
  | nil => exact ⟨rfl, hs⟩
  | cons id ids ih =>
    refine ih (step id mem_cons_self s hs) fun i hi => ?_
    exact step i (mem_cons_of_mem _ hi)

theorem find_eq_some {l : List α} {id : String} {a : α} (h : k.find l id = some a) :
    a ∈ l ∧ k.id a = id := by
  have hpred := find?_some h
  exact ⟨mem_reverse.mp (mem_of_find?_eq_some h), by simpa using hpred⟩

theorem find_of_mem {l : List α} {a : α} (h : a ∈ l) : ∃ b, k.find l (k.id a) = some b := by
  rw [← Option.isSome_iff_exists, find, find?_isSome]
  exact ⟨a, mem_reverse.mpr h, by simp⟩

theorem mem_found {walk : Walks String} {l : List α} {a : α} :
    a ∈ k.found walk l ↔ ∃ id, k.find l id = some a := by
  unfold found
  rw [mem_filterMap]
  constructor
  · rintro ⟨id, -, hfind⟩
    exact ⟨id, hfind⟩
  · rintro ⟨id, hfind⟩
    obtain ⟨hmem, hid⟩ := find_eq_some hfind
    refine ⟨id, ?_, hfind⟩
    rw [(walk.perm 0 _).mem_iff, mem_dedup]
    exact mem_map.mpr ⟨a, hmem, hid⟩

/-! ## One world -/

structure Served (k : Linkable α) (env : Nat → Moment) (I : Resolver → Prop)
    (Later : Resolver → Resolver → Prop) (fits : Resolver → String → α → Prop)
    (present own : String → Prop) : Prop where
  lawful : k.Lawful
  later_trans : ∀ {s s₁ s₂}, Later s s₁ → Later s₁ s₂ → Later s s₂
  fits_later : ∀ {s s₁ id a}, Later s s₁ → fits s id a → fits s₁ id a
  moment : ∀ {s} n, I s → I { s with moment := n } ∧ Later s { s with moment := n }
  sight : ∀ {s} n id, I s → ∃ x, k.sight (env n) s id = .ok x ∧
    match x with
    | .value a => fits s id a
    | .gone => ¬ present id
    | .missing => own id
    | .expired _ a => fits s id a ∧ k.id a = id ∧ own id
  put : ∀ {s} m id v, I s → own id → (∀ a, v = some a → fits s id a ∧ k.id a = id) →
    (v = none → ¬ present id) →
    I (k.setCache (cachePut (Moment.drops m) id ⟨v, m.now⟩ (k.cache s)) s) ∧
      Later s (k.setCache (cachePut m.drops id ⟨v, m.now⟩ (k.cache s)) s)
  request : ∀ {s} n secret ids, I s → (∀ id ∈ ids, own id) →
    Fallible.wp (k.request (env n) secret ids) (fun res s' => ∃ reply, res = .ok reply ∧
      ∃ l, reply = .ok l ∧ I s' ∧ Later s s' ∧ (∀ a ∈ l, ∃ id ∈ ids, fits s' id a ∧ k.id a = id) ∧
      ∀ id ∈ ids, present id → ∃ a ∈ l, k.id a = id) s

section Served

variable {cfg : ResolverConfig} {env : Nat → Moment} {I : Resolver → Prop}
  {Later : Resolver → Resolver → Prop} {fits : Resolver → String → α → Prop}
  {present own : String → Prop}

/-- What a list of values has to be when it stands for the IDs `ids`. -/
structure Stands (fits : Resolver → String → α → Prop) (present : String → Prop) (s : Resolver)
    (ids : List String) (l : List α) : Prop where
  sound : ∀ a ∈ l, ∃ id ∈ ids, fits s id a
  complete : ∀ id ∈ ids, present id → ∃ a ∈ l, fits s id a

variable {s : Resolver} {ids : List String}

theorem Served.fetchAndCache (h : k.Served env I Later fits present own) (hs : I s)
    (identity : ACLToken) (hids : ∀ id ∈ ids, own id) (cached : String → Option (Cached α)) :
    wp (k.fetchAndCache cfg env identity ids cached) (fun res s' =>
      ∃ l, res = .ok l ∧ I s' ∧ Later s s' ∧ Stands fits present s' ids l) s := by
  obtain ⟨hs1, hlater1⟩ := h.moment (s.moment + 1) hs
  unfold Linkable.fetchAndCache
  rw [wp_tick]
  refine wp_then (h.request s.moment identity.secretID ids hs1 hids) ?_
  rintro _ s2 ⟨l, rfl, hs2, hlater2, hsound, hcomplete⟩
  -- what is cached for an ID is what the answer has under it
  have hfind : ∀ id a, k.find l id = some a → id ∈ ids ∧ fits s2 id a ∧ k.id a = id := by
    intro id a ha
    obtain ⟨hmem, hid⟩ := find_eq_some ha
    obtain ⟨id', hid', hfits, hown⟩ := hsound a hmem
    obtain rfl : id' = id := hown.symm.trans hid
    exact ⟨hid', hfits, hid⟩
  have hmiss : ∀ id ∈ ids, k.find l id = none → ¬ present id := by
    intro id hid hnone hpresent
    obtain ⟨a, ha, hown⟩ := hcomplete id hid hpresent
    obtain ⟨b, hb⟩ := find_of_mem (k := k) ha
    rw [hown, hnone] at hb
    cases hb
  have hputs : wp (k.putAnswers (env s.moment) (k.find l) ids)
      (fun res s' => res = .ok () ∧ I s' ∧ Later s2 s') s2 := by
    have hrefl := (h.moment s2.moment hs2).2
    refine wp_putAnswers (I := fun s' => I s' ∧ Later s2 s') ⟨hs2, hrefl⟩ fun id hid s' hs' => ?_
    have hput := h.put (env s.moment) id (k.find l id) hs'.1 (hids id hid)
      (fun a ha => ⟨h.fits_later hs'.2 (hfind id a ha).2.1, (hfind id a ha).2.2⟩)
      (hmiss id hid)
    exact ⟨hput.1, h.later_trans hs'.2 hput.2⟩
  refine wp_seq hputs ?_ (by rintro e s' ⟨he, -⟩; cases he)
  rintro _ s3 ⟨-, hs3, hlater3⟩
  refine ⟨_, rfl, hs3, h.later_trans hlater1 (h.later_trans hlater2 hlater3), ?_, ?_⟩
  · intro a ha
    obtain ⟨id, hid⟩ := mem_found.mp ha
    obtain ⟨hmem, hfits, -⟩ := hfind id a hid
    exact ⟨id, hmem, h.fits_later hlater3 hfits⟩
  · intro id hid hpresent
    cases hfound : k.find l id with
    | none => exact absurd hpresent (hmiss id hid hfound)
    | some a =>
      exact ⟨a, mem_found.mpr ⟨id, hfound⟩, h.fits_later hlater3 (hfind id a hfound).2.1⟩

/-- What a pass over the IDs leaves to the datacenter, and what it takes from the store and the
cache. -/
structure Pending (k : Linkable α) (fits : Resolver → String → α → Prop)
    (present own : String → Prop) (s : Resolver) (ids : List String) (c : Collected α) : Prop where
  values : ∀ a ∈ c.values, ∃ id ∈ ids, fits s id a
  missing : ∀ id ∈ c.missing, id ∈ ids ∧ own id
  expired : ∀ x ∈ c.expired, x.1 ∈ ids ∧ own x.1 ∧ fits s x.1 x.2.2 ∧ k.id x.2.2 = x.1
  all : ∀ id ∈ ids, present id →
    (∃ a ∈ c.values, fits s id a) ∨ id ∈ c.missing ∨ ∃ x ∈ c.expired, x.1 = id

theorem Served.pending (h : k.Served env I Later fits present own) (hs : I s)
    (hc : k.Looked env s ids c) : Pending k fits present own s ids c := by
  refine ⟨fun a ha => ?_, fun id hid => ?_, fun x hx => ?_, fun id hid hpresent => ?_⟩
  · obtain ⟨id, hid, n, -, hsight⟩ := hc.values a ha
    obtain ⟨x, hx, hfits⟩ := h.sight n id hs
    obtain rfl := Except.ok.inj (hx.symm.trans hsight)
    exact ⟨id, hid, hfits⟩
  · obtain ⟨hid, n, -, hsight⟩ := hc.missing id hid
    obtain ⟨x, hx, hown⟩ := h.sight n id hs
    obtain rfl := Except.ok.inj (hx.symm.trans hsight)
    exact ⟨hid, hown⟩
  · obtain ⟨hid, n, -, hsight⟩ := hc.expired x hx
    obtain ⟨y, hy, hfits⟩ := h.sight n x.1 hs
    obtain rfl := Except.ok.inj (hy.symm.trans hsight)
    exact ⟨hid, hfits.2.2, hfits.1, hfits.2.1⟩
  · obtain ⟨n, -, hcase⟩ := hc.all id hid
    obtain ⟨x, hx, hfits⟩ := h.sight n id hs
    rcases hcase with ⟨a, ha, hsight⟩ | hmiss | hgone | ⟨entry, a, he, -⟩
    · obtain rfl := Except.ok.inj (hx.symm.trans hsight)
      exact .inl ⟨a, ha, hfits⟩
    · exact .inr (.inl hmiss)
    · obtain rfl := Except.ok.inj (hx.symm.trans hgone)
      exact absurd hpresent hfits
    · exact .inr (.inr ⟨_, he, rfl⟩)

theorem Served.fetchRest (h : k.Served env I Later fits present own) (hs : I s)
    (identity : ACLToken) (hc : Pending k fits present own s ids c) :
    wp (k.fetchRest cfg env identity c) (fun res s' =>
      ∃ l, res = .ok l ∧ I s' ∧ Later s s' ∧ Stands fits present s' ids l) s := by
  have hown : ∀ id ∈ c.missing ++ c.expired.map fun e => k.id e.2.2, own id := by
    intro id hid
    rcases mem_append.mp hid with hid | hid
    · exact (hc.missing id hid).2
    · obtain ⟨x, hx, rfl⟩ := mem_map.mp hid
      rw [(hc.expired x hx).2.2.2]
      exact (hc.expired x hx).2.1
  unfold Linkable.fetchRest
  rw [wp_bind, wp_attempt]
  refine wp_mono (h.fetchAndCache hs identity hown _) ?_
  rintro _ s1 ⟨l, rfl, hs1, hlater, hl⟩
  have hvalues : ∀ a ∈ c.values, ∃ id ∈ ids, fits s1 id a := by
    intro a ha
    obtain ⟨id, hid, hfits⟩ := hc.values a ha
    exact ⟨id, hid, h.fits_later hlater hfits⟩
  have hexpired : ∀ x ∈ c.expired, fits s1 x.1 x.2.2 := fun x hx =>
    h.fits_later hlater (hc.expired x hx).2.2.1
  by_cases hwait : (!c.missing.isEmpty || cfg.aclDownPolicy != .asyncCache) = true
  · simp only [Fallible.andThen, hwait, if_true]
    refine ⟨_, rfl, hs1, hlater, fun a ha => ?_, fun id hid hpresent => ?_⟩
    · rcases mem_append.mp ha with ha | ha
      · exact hvalues a ha
      · obtain ⟨id, hid, hfits⟩ := hl.sound a ha
        refine ⟨id, ?_, hfits⟩
        rcases mem_append.mp hid with hid | hid
        · exact (hc.missing id hid).1
        · obtain ⟨x, hx, rfl⟩ := mem_map.mp hid
          rw [(hc.expired x hx).2.2.2]
          exact (hc.expired x hx).1
    · have hasked : id ∈ c.missing ++ c.expired.map (fun e => k.id e.2.2) →
          ∃ a ∈ c.values ++ l, fits s1 id a := by
        intro hmem
        obtain ⟨a, ha, hfits⟩ := hl.complete id hmem hpresent
        exact ⟨a, mem_append_right _ ha, hfits⟩
      rcases hc.all id hid hpresent with ⟨a, ha, hfits⟩ | hmiss | ⟨x, hx, rfl⟩
      · exact ⟨a, mem_append_left _ ha, h.fits_later hlater hfits⟩
      · exact hasked (mem_append_left _ hmiss)
      · refine hasked (mem_append_right _ (mem_map.mpr ⟨x, hx, ?_⟩))
        exact (hc.expired x hx).2.2.2
  · simp only [Fallible.andThen, hwait]
    have hnone : c.missing = [] := by
      simp only [Bool.or_eq_true, not_or, Bool.not_eq_true', Bool.not_eq_false] at hwait
      simpa using hwait.1
    refine ⟨_, rfl, hs1, hlater, fun a ha => ?_, fun id hid hpresent => ?_⟩
    · rcases mem_append.mp ha with ha | ha
      · exact hvalues a ha
      · obtain ⟨x, hx, rfl⟩ := mem_map.mp ha
        exact ⟨x.1, (hc.expired x hx).1, hexpired x hx⟩
    · rcases hc.all id hid hpresent with ⟨a, ha, hfits⟩ | hmiss | ⟨x, hx, rfl⟩
      · exact ⟨a, mem_append_left _ ha, h.fits_later hlater hfits⟩
      · rw [hnone] at hmiss
        cases hmiss
      · exact ⟨x.2.2, mem_append_right _ (mem_map_of_mem hx), hexpired x hx⟩

theorem Served.collect (h : k.Served env I Later fits present own) (hs : I s) (identity : ACLToken)
    (ids : List String) :
    wp (k.collect cfg env identity ids) (fun res s' =>
      ∃ l, res = .ok l ∧ I s' ∧ Later s s' ∧ Stands fits present s' ids l) s := by
  refine wp_seq (wp_lookUp env h.lawful s ids) ?_ ?_
  · rintro c s1 (⟨c', hc', hlooked, rfl⟩ | ⟨text, n, id, hc', -⟩)
    · obtain rfl := Except.ok.inj hc'
      obtain ⟨hs1, hlater1⟩ := h.moment (s.moment + ids.length) hs
      have hpending := h.pending hs hlooked
      have hpending1 : Pending k fits present own { s with moment := s.moment + ids.length }
          ids c := by
        refine ⟨fun a ha => ?_, hpending.missing, fun x hx => ?_, fun id hid hpresent => ?_⟩
        · obtain ⟨id, hid, hfits⟩ := hpending.values a ha
          exact ⟨id, hid, h.fits_later hlater1 hfits⟩
        · obtain ⟨hid, hown, hfits, heq⟩ := hpending.expired x hx
          exact ⟨hid, hown, h.fits_later hlater1 hfits, heq⟩
        · rcases hpending.all id hid hpresent with ⟨a, ha, hfits⟩ | hrest
          · exact .inl ⟨a, ha, h.fits_later hlater1 hfits⟩
          · exact .inr hrest
      by_cases hdone : (c.missing.isEmpty && c.expired.isEmpty) = true
      · rw [if_pos hdone]
        simp only [Bool.and_eq_true, List.isEmpty_iff] at hdone
        refine ⟨c.values, rfl, hs1, hlater1, hpending1.values, fun id hid hpresent => ?_⟩
        rcases hpending1.all id hid hpresent with hvalue | hmiss | ⟨x, hx, -⟩
        · exact hvalue
        · rw [hdone.1] at hmiss
          cases hmiss
        · rw [hdone.2] at hx
          cases hx
      · rw [if_neg hdone]
        refine wp_mono (h.fetchRest hs1 identity hpending1) ?_
        rintro res s' ⟨l, rfl, hs', hlater', hl⟩
        exact ⟨l, rfl, hs', h.later_trans hlater1 hlater', hl⟩
    · cases hc'
  · rintro e s1 (⟨c', hc', -⟩ | ⟨text, n, id, he, -, -, hsight⟩)
    · cases hc'
    · obtain ⟨x, hx, -⟩ := h.sight (n - 1) id hs
      cases hx.symm.trans hsight

end Served

end Linkable

end OpenGyoza
