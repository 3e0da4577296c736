-- Calls that collect the policies or the roles of a token at the same time. The
-- requests to the ACL datacenter are grouped by the secret of the token alone,
-- so a call may be given the answer to a request for other IDs than its own.
import OpenGyoza.ResolverSafety

namespace OpenGyoza

open Fallible List

namespace Linkable

variable {α : Type}

/-! ## Calls side by side -/

/-- A request of a group, which goes on until it has a result. -/
structure Flight (α : Type) where
  identity : ACLToken
  ids : List String
  cached : String → Option (Cached α)
  result : Option (Except ResolveError (List α)) := none

/-- A call looks up its IDs, may wait for a request, and returns. It is noted which request the
result comes from. -/
inductive Phase (α : Type) where
  | looking
  | waiting (flight : Nat)
  | done (fetch : Option (Flight α)) (result : Except ResolveError (List α))

/-- A call with what it has seen of its IDs so far. -/
structure Call (α : Type) where
  identity : ACLToken
  ids : List String
  seen : List (String × Sighting α) := []
  phase : Phase α := .looking

structure Calls (α : Type) where
  resolver : Resolver
  calls : List (Call α) := []
  flights : List (Flight α) := []

variable (k : Linkable α)

/-- What is cached under an ID has that ID. -/
def Owned (s : Resolver) : Prop :=
  ∀ id e a, k.cache s id = some e → e.value = some a → k.id a = id

/-- What may happen next. Whatever else the agent does may change the resolver. -/
inductive Act where
  | start (identity : ACLToken) (ids : List String)
  | look (i : Nat)
  | depart (i : Nat)
  | fly (f : Nat)
  | land (i : Nat)
  | other (s : { s : Resolver // k.Owned s })

def Call.collected (c : Call α) : Collected α := c.seen.foldl (fun acc p => acc.add p.1 p.2) {}

/-- The ID that a call looks up next. -/
def Call.next (c : Call α) : Option String := c.ids[c.seen.length]?

def fetchIDs (acc : Collected α) : List String := acc.missing ++ acc.expired.map fun e => k.id e.2.2

def Collected.cached (acc : Collected α) : String → Option (Cached α) := fun id =>
  (acc.expired.reverse.find? fun e => e.1 == id).map (·.2.1)

/-- The request that a call begins. -/
def Call.request (c : Call α) : Flight α where
  identity := c.identity
  ids := k.fetchIDs c.collected
  cached := c.collected.cached

/-- The request of the group that goes on for a secret. -/
def Calls.inFlight (g : Calls α) (secret : String) : Option Nat :=
  g.flights.findIdx? fun fl => fl.result.isNone && fl.identity.secretID == secret

/-- Takes part in the request for the secret of a call, or begins one. -/
def Calls.join (g : Calls α) (c : Call α) : Calls α × Nat :=
  match g.inFlight c.identity.secretID with
  | some f => (g, f)
  | none => ({ g with flights := g.flights ++ [c.request k] }, g.flights.length)

def Calls.setPhase (g : Calls α) (i : Nat) (c : Call α) (phase : Phase α) : Calls α :=
  { g with calls := g.calls.set i { c with phase } }

section Steps

variable (cfg : ResolverConfig) (env : Nat → Moment)

def Calls.look (g : Calls α) (i : Nat) (c : Call α) (id : String) : Calls α :=
  let g := { g with resolver := { g.resolver with moment := g.resolver.moment + 1 } }
  match k.sight (env (g.resolver.moment - 1)) g.resolver id with
  | .ok x => { g with calls := g.calls.set i { c with seen := c.seen ++ [(id, x)] } }
  | .error text => g.setPhase i c (.done none (.error (.plain text)))

def Calls.depart (g : Calls α) (i : Nat) (c : Call α) : Calls α :=
  let acc := c.collected
  if acc.missing.isEmpty && acc.expired.isEmpty then g.setPhase i c (.done none (.ok acc.values))
  else
    let (g, f) := g.join k c
    if !acc.missing.isEmpty || cfg.aclDownPolicy != .asyncCache then g.setPhase i c (.waiting f)
    else g.setPhase i c (.done none (.ok (acc.values ++ acc.expired.map (·.2.2))))

def Calls.fly (g : Calls α) (f : Nat) (fl : Flight α) : Calls α :=
  let run := k.fetchAndCache cfg env fl.identity fl.ids fl.cached g.resolver
  { g with resolver := run.2, flights := g.flights.set f { fl with result := some run.1 } }

def Calls.land (g : Calls α) (i : Nat) (c : Call α) (f : Nat) : Calls α :=
  match g.flights[f]?.bind fun fl => fl.result.map (fl, ·) with
  | some (fl, result) =>
    g.setPhase i c (.done (some fl) (result.map (c.collected.values ++ ·)))
  | none => g

/-- Goes on with a call. -/
def Calls.onCall (g : Calls α) (i : Nat) (f : Call α → Calls α) : Calls α :=
  match g.calls[i]? with
  | some c => f c
  | none => g

/-- One step. What cannot be done changes nothing. -/
def step (g : Calls α) : Act k → Calls α
  | .start identity ids => { g with calls := g.calls ++ [{ identity, ids }] }
  | .look i => g.onCall i fun c =>
    match c.phase, c.next with
    | .looking, some id => g.look k env i c id
    | _, _ => g
  | .depart i => g.onCall i fun c =>
    match c.phase, c.next with
    | .looking, none => g.depart k cfg i c
    | _, _ => g
  | .fly f =>
    match g.flights[f]? with
    | some fl => if fl.result.isNone then g.fly k cfg env f fl else g
    | none => g
  | .land i => g.onCall i fun c =>
    match c.phase with
    | .waiting f => g.land i c f
    | _ => g
  | .other s => { g with resolver := s.1 }

def run (g : Calls α) (acts : List (Act k)) : Calls α := acts.foldl (k.step cfg env) g

/-! ## What a call is to return -/

/-- The ID was not found when it was looked up, or only in an entry that is too old. -/
def Call.Lacks (c : Call α) (id : String) : Prop :=
  (id, .missing) ∈ c.seen ∨ ∃ e a, (id, .expired e a) ∈ c.seen

structure Call.Faithful (c : Call α) (fetch : Option (Flight α)) (l : List α) : Prop where
  looked : c.seen.map (·.1) = c.ids
  members : ∀ a, a ∈ l ↔ (∃ id, (id, .value a) ∈ c.seen) ∨
    ∃ fl ∈ fetch, ∃ found, fl.result = some (.ok found) ∧ a ∈ found ∧ c.Lacks (k.id a)
  asked : ∀ id, c.Lacks id → ∃ fl ∈ fetch, id ∈ fl.ids

def Meets (g : Calls α) : Act k → Prop
  | .depart i => ∀ c, g.calls[i]? = some c → c.phase = .looking → c.next = none →
      k.fetchIDs c.collected ≠ [] →
      (cfg.aclDownPolicy = .asyncCache → c.collected.missing ≠ []) ∧
      ∀ fl ∈ g.flights, fl.result = none → fl.identity.secretID = c.identity.secretID →
        ∀ id, id ∈ fl.ids ↔ id ∈ k.fetchIDs c.collected
  | _ => True

/-- Each step of a run meets the condition in the state before it. -/
def MeetsAll : Calls α → List (Act k) → Prop
  | _, [] => True
  | g, act :: acts => k.Meets cfg g act ∧ MeetsAll (k.step cfg env g act) acts

end Steps

section Laws

variable {k} {cfg : ResolverConfig} {env : Nat → Moment} {flights : List (Flight α)}

theorem Call.mem_collected (c : Call α) :
    (∀ a, a ∈ c.collected.values ↔ ∃ id, (id, .value a) ∈ c.seen) ∧
    (∀ id, id ∈ c.collected.missing ↔ (id, .missing) ∈ c.seen) ∧
    ∀ id e a, (id, e, a) ∈ c.collected.expired ↔ (id, .expired e a) ∈ c.seen := by
  unfold Call.collected
  induction c.seen using List.reverseRecOn with
  | nil => simp
  | append_singleton l p ih =>
    obtain ⟨id, x⟩ := p
    obtain ⟨hvalues, hmissing, hexpired⟩ := ih
    rw [foldl_append]
    generalize List.foldl _ _ l = acc at hvalues hmissing hexpired ⊢
    cases x <;> simp [Collected.add, hvalues, hmissing, hexpired, exists_or]

/-- Requests never fail on their own, keep the cache as it is, and are answered with what was
asked for. -/
structure Asks (k : Linkable α) (env : Nat → Moment) : Prop where
  lawful : k.Lawful
  identities : ∀ c s, k.cache { s with identities := c } = k.cache s
  request : ∀ n secret ids s, Fallible.wp (k.request (env n) secret ids) (fun res s' =>
    ∃ reply, res = .ok reply ∧ k.cache s' = k.cache s ∧
      ∀ l, reply = .ok l → ∀ a ∈ l, k.id a ∈ ids) s

variable {s : Resolver} {id : String} {c : Call α} {g : Calls α} {i : Nat}

theorem Owned.congr {s' : Resolver} (h : k.Owned s) (hcache : k.cache s' = k.cache s) :
    k.Owned s' := fun id e a he ha => h id e a (hcache ▸ he) ha

theorem Owned.put (hk : k.Lawful) (h : k.Owned s) (m : Moment) {v : Option α}
    (hv : ∀ a, v = some a → k.id a = id) :
    k.Owned (k.setCache (cachePut m.drops id ⟨v, m.now⟩ (k.cache s)) s) := by
  intro id' e a he ha
  rw [hk.cache_set, cachePut, keep] at he
  split at he
  · cases he
  · by_cases hid : id' = id
    · subst hid
      rw [Function.update_self] at he
      cases he
      exact hv a ha
    · rw [Function.update_of_ne hid] at he
      exact h id' e a he ha

theorem Asks.fetchAndCache (hk : k.Asks env) (h : k.Owned s) (identity : ACLToken)
    (ids : List String) {cached : String → Option (Cached α)}
    (hcached : ∀ id e a, cached id = some e → e.value = some a → k.id a = id) :
    wp (k.fetchAndCache cfg env identity ids cached) (fun res s' =>
      k.Owned s' ∧ ∀ l, res = .ok l → ∀ a ∈ l, k.id a ∈ ids) s := by
  have hs1 : k.Owned { s with moment := s.moment + 1 } := h.congr (hk.lawful.cache_moment _ _)
  unfold Linkable.fetchAndCache
  rw [wp_tick]
  refine wp_then (hk.request s.moment identity.secretID ids _) ?_
  rintro reply s2 ⟨hcache, hasked⟩
  have hs2 : k.Owned s2 := hs1.congr hcache
  cases reply with
  | ok answer =>
    refine wp_seq (wp_putAnswers hs2 fun id _ s' hs' =>
      hs'.put hk.lawful _ fun a ha => (find_eq_some ha).2) ?_ nofun
    rintro _ s3 ⟨-, hs3⟩
    refine ⟨hs3, fun l hl a ha => ?_⟩
    cases hl
    obtain ⟨id, hid⟩ := mem_found.mp ha
    exact hasked answer rfl a (find_eq_some hid).1
  | error text =>
    have hhandle : wp (maybeHandleIdentityErrorDuringFetch (env s.moment) identity text)
        (fun _ s' => k.Owned s') s2 := by
      unfold maybeHandleIdentityErrorDuringFetch
      split
      · exact hs2.congr (hk.identities _ _)
      · split
        · exact hs2.congr (hk.identities _ _)
        · exact hs2
    refine wp_seq hhandle ?_ fun e s' hs' => ⟨hs', nofun⟩
    rintro _ s3 hs3
    unfold Linkable.fromCache
    extract_lets entry
    have hentry : ∀ id a, (entry id).bind (·.value) = some a → k.id a = id := by
      intro id a ha
      obtain ⟨e, he, hvalue⟩ := Option.bind_eq_some_iff.mp ha
      simp only [entry] at he
      split at he
      · exact hcached id e a he hvalue
      · cases he
    refine wp_seq (wp_putAnswers hs3 fun id _ s' hs' =>
      hs'.put hk.lawful _ (hentry id)) ?_ nofun
    rintro _ s4 ⟨-, hs4⟩
    split
    · refine ⟨hs4, fun l hl a ha => ?_⟩
      cases hl
      obtain ⟨id, hid, hvalue⟩ := mem_filterMap.mp ha
      rw [((env s.moment).walk.perm 0 _).mem_iff, mem_dedup] at hid
      rw [hentry id a hvalue]
      exact hid
    · exact ⟨hs4, nofun⟩

/-! ## The invariant -/

/-- Entries that were seen are too old, and have the ID that they were seen under. -/
def Call.Own (k : Linkable α) (c : Call α) : Prop :=
  ∀ id e a, (id, .expired e a) ∈ c.seen → e.value = some a ∧ k.id a = id

def Call.PhaseGood (k : Linkable α) (flights : List (Flight α)) (c : Call α) : Prop :=
  match c.phase with
  | .looking => True
  | .waiting f => c.next = none ∧
      ∃ fl, flights[f]? = some fl ∧ ∀ id, id ∈ fl.ids ↔ id ∈ k.fetchIDs c.collected
  | .done fetch result => ∀ l, result = .ok l → c.Faithful k fetch l

structure Call.Good (k : Linkable α) (flights : List (Flight α)) (c : Call α) : Prop where
  looked : c.seen.map (·.1) = c.ids.take c.seen.length
  own : c.Own k
  phase : c.PhaseGood k flights

structure Flight.Good (k : Linkable α) (fl : Flight α) : Prop where
  cached : ∀ id e a, fl.cached id = some e → e.value = some a → k.id a = id
  found : ∀ l, fl.result = some (.ok l) → ∀ a ∈ l, k.id a ∈ fl.ids

structure Calls.Good (k : Linkable α) (g : Calls α) : Prop where
  owned : k.Owned g.resolver
  calls : ∀ c ∈ g.calls, c.Good k g.flights
  flights : ∀ fl ∈ g.flights, fl.Good k

/-- Requests go on for the IDs that they ask for. -/
def Goes (flights flights' : List (Flight α)) : Prop :=
  ∀ (f : Nat) fl, flights[f]? = some fl → ∃ fl', flights'[f]? = some fl' ∧ fl'.ids = fl.ids

theorem Call.Good.goes {flights' : List (Flight α)} (h : c.Good k flights)
    (hgoes : Goes flights flights') : c.Good k flights' := by
  refine ⟨h.looked, h.own, ?_⟩
  have hphase := h.phase
  unfold Call.PhaseGood at hphase ⊢
  split at hphase
  · trivial
  · obtain ⟨hnext, fl, hfl, hids⟩ := hphase
    obtain ⟨fl', hfl', heq⟩ := hgoes _ fl hfl
    exact ⟨hnext, fl', hfl', fun id => by rw [heq, hids]⟩
  · exact hphase

theorem Calls.Good.setCall (h : g.Good k) (hc : c.Good k g.flights) (i : Nat) :
    ({ g with calls := g.calls.set i c } : Calls α).Good k := by
  refine ⟨h.owned, fun c' hc' => ?_, h.flights⟩
  rcases mem_or_eq_of_mem_set hc' with hold | rfl
  · exact h.calls c' hold
  · exact hc

theorem Calls.Good.setPhase (h : g.Good k) (hc : c.Good k g.flights) (i : Nat) {phase : Phase α}
    (hphase : ({ c with phase } : Call α).PhaseGood k g.flights) : (g.setPhase i c phase).Good k :=
  h.setCall (c := { c with phase }) ⟨hc.looked, hc.own, hphase⟩ i

theorem Call.Good.all_looked (h : c.Good k flights) (hnext : c.next = none) :
    c.seen.map (·.1) = c.ids := by
  rw [h.looked, take_of_length_le (getElem?_eq_none_iff.mp hnext)]

theorem Call.Own.mem_fetchIDs (h : c.Own k) : id ∈ k.fetchIDs c.collected ↔ c.Lacks id := by
  obtain ⟨-, hmissing, hexpired⟩ := c.mem_collected
  unfold fetchIDs Call.Lacks
  rw [mem_append, hmissing, mem_map]
  refine or_congr_right ⟨?_, ?_⟩
  · rintro ⟨⟨id', e, a⟩, he, rfl⟩
    have hseen := (hexpired _ _ _).mp he
    exact ⟨e, a, by rw [(h _ _ _ hseen).2]; exact hseen⟩
  · rintro ⟨e, a, hseen⟩
    exact ⟨(id, e, a), (hexpired _ _ _).mpr hseen, (h _ _ _ hseen).2⟩

theorem Call.Own.cached (h : c.Own k) (id : String) (e : Cached α) (a : α)
    (he : c.collected.cached id = some e) (ha : e.value = some a) : k.id a = id := by
  obtain ⟨⟨id', e', a'⟩, hfind, rfl⟩ := Option.map_eq_some_iff.mp he
  have hid := find?_some hfind
  have hmem := mem_reverse.mp (mem_of_find?_eq_some hfind)
  obtain ⟨hvalue, hown⟩ := h _ _ _ ((c.mem_collected.2.2 _ _ _).mp hmem)
  obtain rfl := Option.some.inj (hvalue.symm.trans ha)
  rw [hown]
  simpa using hid

theorem expired_of_sight {m : Moment} (h : k.Owned s) {e : Cached α} {a : α}
    (hx : k.sight m s id = .ok (.expired e a)) : e.value = some a ∧ k.id a = id := by
  unfold sight at hx
  split at hx
  · cases hx
  · split at hx <;> cases hx
  · split at hx
    · cases hx
    · rename_i entry hentry
      split at hx
      · cases hx
      · rename_i b hb
        split at hx
        · cases hx
          exact ⟨hb, h _ _ _ hentry hb⟩
        · cases hx

theorem Calls.Good.look (hk : k.Lawful) (h : g.Good k) (hc : c ∈ g.calls)
    (hphase : c.phase = .looking) (hnext : c.next = some id) : (g.look k env i c id).Good k := by
  have hgood := h.calls c hc
  have hs : k.Owned { g.resolver with moment := g.resolver.moment + 1 } :=
    h.owned.congr (hk.cache_moment _ _)
  have hg : Calls.Good k { g with resolver := _ } := ⟨hs, h.calls, h.flights⟩
  unfold Calls.look
  dsimp only
  split
  · rename_i x hx
    refine hg.setCall ⟨?_, fun id' e a hseen => ?_, by simp [Call.PhaseGood, hphase]⟩ i
    · have hget : c.ids[c.seen.length]? = some id := hnext
      simp [hgood.looked, take_add_one, hget]
    · rcases mem_append.mp hseen with hold | hnew
      · exact hgood.own _ _ _ hold
      · obtain ⟨rfl, rfl⟩ := Prod.mk.inj (mem_singleton.mp hnew)
        exact expired_of_sight hs hx
  · exact hg.setPhase hgood i (by simp [Call.PhaseGood])

theorem Calls.Good.append (h : g.Good k) {fl : Flight α} (hfl : fl.Good k) :
    ({ g with flights := g.flights ++ [fl] } : Calls α).Good k := by
  refine ⟨h.owned, fun c hc => (h.calls c hc).goes fun f fl' hfl' => ⟨fl', ?_, rfl⟩, ?_⟩
  · exact getElem?_append_left (List.getElem?_eq_some_iff.mp hfl').1 ▸ hfl'
  · intro fl' hfl'
    rcases mem_append.mp hfl' with hold | hnew
    · exact h.flights fl' hold
    · exact mem_singleton.mp hnew ▸ hfl

theorem Calls.Good.join (h : g.Good k) (hown : c.Own k)
    (hmeets : ∀ fl ∈ g.flights, fl.result = none → fl.identity.secretID = c.identity.secretID →
      ∀ id, id ∈ fl.ids ↔ id ∈ k.fetchIDs c.collected) :
    (g.join k c).1.Good k ∧ (g.join k c).1.calls = g.calls ∧
      ∃ fl, (g.join k c).1.flights[(g.join k c).2]? = some fl ∧
        ∀ id, id ∈ fl.ids ↔ id ∈ k.fetchIDs c.collected := by
  unfold Calls.join
  split
  · rename_i f hf
    obtain ⟨hlt, hpred, -⟩ := findIdx?_eq_some_iff_getElem.mp hf
    rw [Bool.and_eq_true, Option.isNone_iff_eq_none, beq_iff_eq] at hpred
    exact ⟨h, rfl, g.flights[f], getElem?_eq_getElem hlt,
      hmeets _ (getElem_mem hlt) hpred.1 hpred.2⟩
  · exact ⟨h.append ⟨hown.cached, nofun⟩, rfl, c.request k, getElem?_concat_length ..,
      fun _ => Iff.rfl⟩

theorem Calls.Good.depart (h : g.Good k) (hget : g.calls[i]? = some c) (hphase : c.phase = .looking)
    (hnext : c.next = none) (hmeets : k.Meets cfg g (.depart i)) : (g.depart k cfg i c).Good k := by
  have hgood := h.calls c (mem_of_getElem? hget)
  have hvalues := c.mem_collected.1
  unfold Calls.depart
  dsimp only
  split
  · rename_i hnone
    rw [Bool.and_eq_true, List.isEmpty_iff, List.isEmpty_iff] at hnone
    have hlacks : ∀ id, ¬ c.Lacks id := by
      intro id
      rw [← hgood.own.mem_fetchIDs]
      simp [fetchIDs, hnone.1, hnone.2]
    refine h.setPhase hgood i fun l hl => ?_
    cases hl
    refine ⟨hgood.all_looked hnext, fun a => ?_, fun id hid => absurd hid (hlacks id)⟩
    rw [hvalues]
    simp
  · rename_i hsome
    have hne : k.fetchIDs c.collected ≠ [] := by
      intro hnil
      obtain ⟨hmissing, hexpired⟩ := append_eq_nil_iff.mp hnil
      exact hsome (by simp [hmissing, map_eq_nil_iff.mp hexpired])
    obtain ⟨hwait, hflights⟩ := hmeets c hget hphase hnext hne
    have hwaits : (!c.collected.missing.isEmpty || cfg.aclDownPolicy != .asyncCache) = true := by
      rw [Bool.or_eq_true, bne_iff_ne, Bool.not_eq_true', ← Bool.not_eq_true, List.isEmpty_iff]
      by_contra hcon
      obtain ⟨hmissing, hasync⟩ := not_or.mp hcon
      exact hwait (not_not.mp hasync) (not_not.mp hmissing)
    obtain ⟨hjoined, hcalls, fl, hfl, hids⟩ := h.join hgood.own hflights
    rw [if_pos hwaits]
    have hc := hjoined.calls c (hcalls ▸ mem_of_getElem? hget)
    exact hjoined.setPhase hc i ⟨hnext, fl, hfl, hids⟩

theorem Calls.Good.fly (hk : k.Asks env) (h : g.Good k) {f : Nat} {fl : Flight α}
    (hget : g.flights[f]? = some fl) : (g.fly k cfg env f fl).Good k := by
  have hfl := h.flights fl (mem_of_getElem? hget)
  have hrun : wp (k.fetchAndCache cfg env fl.identity fl.ids fl.cached) _ g.resolver :=
    hk.fetchAndCache h.owned fl.identity fl.ids hfl.cached
  refine ⟨hrun.1, fun c hc => (h.calls c hc).goes fun j fl' hj => ?_, fun fl' hfl' => ?_⟩
  · have hlt := (List.getElem?_eq_some_iff.mp hget).1
    by_cases hjf : f = j
    · subst hjf
      obtain rfl := Option.some.inj (hget.symm.trans hj)
      exact ⟨_, getElem?_set_self hlt, rfl⟩
    · exact ⟨fl', by rw [← hj]; exact getElem?_set_ne hjf, rfl⟩
  · rcases mem_or_eq_of_mem_set hfl' with hold | rfl
    · exact h.flights fl' hold
    · exact ⟨hfl.cached, fun l hl => hrun.2 l (Option.some.inj hl)⟩

theorem Calls.Good.land (h : g.Good k) {f : Nat} (hc : c ∈ g.calls)
    (hphase : c.phase = .waiting f) : (g.land i c f).Good k := by
  have hgood := h.calls c hc
  unfold Calls.land
  split
  case h_2 => exact h
  rename_i fl result hget
  obtain ⟨fl', hget, hmap⟩ := Option.bind_eq_some_iff.mp hget
  obtain ⟨_, hresult, hpair⟩ := Option.map_eq_some_iff.mp hmap
  cases hpair
  have hfl := h.flights fl (mem_of_getElem? hget)
  have hwaits := hgood.phase
  simp only [Call.PhaseGood, hphase, hget, Option.some.injEq, exists_eq_left'] at hwaits
  obtain ⟨hnext, hids⟩ := hwaits
  refine h.setPhase hgood i fun l hl => ?_
  cases result with
  | error e => cases hl
  | ok found =>
    cases hl
    have hlacks : ∀ id, c.Lacks id ↔ id ∈ fl.ids := fun id => by
      rw [hids, hgood.own.mem_fetchIDs]
    refine ⟨hgood.all_looked hnext, fun a => ?_, fun id hid => ⟨fl, rfl, (hlacks id).mp hid⟩⟩
    rw [mem_append, c.mem_collected.1]
    refine or_congr_right ⟨fun ha => ⟨fl, rfl, found, hresult, ha, ?_⟩, ?_⟩
    · exact (hlacks _).mpr (hfl.found found hresult a ha)
    · rintro ⟨fl', hfl', found', hfound', ha, -⟩
      cases hfl'
      rw [hresult] at hfound'
      cases hfound'
      exact ha

theorem Calls.Good.onCall (h : g.Good k) {f : Call α → Calls α}
    (hf : ∀ c, g.calls[i]? = some c → (f c).Good k) : (g.onCall i f).Good k := by
  unfold Calls.onCall
  split
  · exact hf _ ‹_›
  · exact h

theorem Calls.Good.step (hk : k.Asks env) (h : g.Good k) {act : Act k}
    (hmeets : k.Meets cfg g act) : (k.step cfg env g act).Good k := by
  cases act with
  | start identity ids =>
    refine ⟨h.owned, fun c hc => ?_, h.flights⟩
    rcases mem_append.mp hc with hold | hnew
    · exact h.calls c hold
    · rw [mem_singleton.mp hnew]
      exact ⟨rfl, nofun, trivial⟩
  | look i =>
    refine h.onCall fun c hget => ?_
    split
    · exact h.look hk.lawful (mem_of_getElem? hget) ‹_› ‹_›
    · exact h
  | depart i =>
    refine h.onCall fun c hget => ?_
    split
    · exact h.depart hget ‹_› ‹_› hmeets
    · exact h
  | fly f =>
    simp only [Linkable.step]
    split
    · split
      · exact h.fly hk ‹_›
      · exact h
    · exact h
  | land i =>
    refine h.onCall fun c hget => ?_
    split
    · exact h.land (mem_of_getElem? hget) ‹_›
    · exact h
  | other s => exact ⟨s.2, h.calls, h.flights⟩

theorem Calls.Good.run (hk : k.Asks env) (h : g.Good k) {acts : List (Act k)}
    (hmeets : k.MeetsAll cfg env g acts) : (k.run cfg env g acts).Good k := by
  induction acts generalizing g with
  | nil => exact h
  | cons act acts ih => exact ih (h.step hk hmeets.1) hmeets.2

def RunsFaithful (k : Linkable α) (cfg : ResolverConfig) (env : Nat → Moment) : Prop :=
  ∀ s acts, k.Owned s → k.MeetsAll cfg env { resolver := s } acts →
    ∀ c ∈ (k.run cfg env { resolver := s } acts).calls, ∀ fetch l,
      c.phase = .done fetch (.ok l) → c.Faithful k fetch l

theorem Asks.runsFaithful (hk : k.Asks env) : k.RunsFaithful cfg env := by
  intro s acts hs hmeets c hc fetch l hdone
  have hgood : Calls.Good k { resolver := s } := ⟨hs, by simp, by simp⟩
  have hphase := ((hgood.run hk hmeets).calls c hc).phase
  simp only [Call.PhaseGood, hdone] at hphase
  exact hphase l rfl

end Laws

end Linkable

/-! ## Policies and roles -/

/-- The ACL datacenter answers with policies and roles that were asked for. -/
structure AnswersAsked (env : Nat → Moment) : Prop where
  policies : ∀ n secret ids l, (env n).policyResolve secret ids = .ok l → ∀ p ∈ l, p.id ∈ ids
  roles : ∀ n secret ids l, (env n).roleResolve secret ids = .ok l → ∀ r ∈ l, r.id ∈ ids

theorem linkedPolicies_asks {cfg : ResolverConfig} {env : Nat → Moment} (h : AnswersAsked env) :
    (linkedPolicies cfg).Asks env where
  lawful := ⟨fun _ _ => rfl, fun _ _ => rfl⟩
  identities _ _ := rfl
  request n secret ids s := by
    have hanswer := h.policies n secret ids
    unfold linkedPolicies
    dsimp only
    cases hreply : (env n).policyResolve secret ids with
    | ok answer => exact ⟨.ok answer, rfl, rfl, fun l hl => hanswer l (hreply.trans hl)⟩
    | error text => exact ⟨.error text, rfl, rfl, nofun⟩

theorem linkedRoles_asks {cfg : ResolverConfig} {env : Nat → Moment} (h : AnswersAsked env) :
    (linkedRoles cfg).Asks env where
  lawful := ⟨fun _ _ => rfl, fun _ _ => rfl⟩
  identities _ _ := rfl
  request n secret ids s := by
    have hanswer := h.roles n secret ids
    unfold linkedRoles
    dsimp only
    cases hreply : (env n).roleResolve secret ids with
    | error text => exact ⟨.error text, rfl, rfl, nofun⟩
    | ok answer =>
      rw [wp_noteReply_ok]
      refine wp_then (wp_holdRoles answer s) ?_
      rintro roles s' ⟨heap, rfl, -, hall⟩
      refine ⟨.ok roles, rfl, rfl, fun l hl a ha => ?_⟩
      cases hl
      obtain ⟨role, hrole, hmirrors⟩ := Memdb.exists_of_forall₂_left hall ha
      exact hmirrors.id ▸ hanswer answer hreply role hrole

/-- Calls that run at the same time return their own policies and roles, in every run in which a
call only takes part in a request for just the IDs that it lacks. -/
theorem merged_calls_are_faithful {cfg : ResolverConfig} {env : Nat → Moment}
    (h : AnswersAsked env) :
    (linkedPolicies cfg).RunsFaithful cfg env ∧ (linkedRoles cfg).RunsFaithful cfg env :=
  ⟨(linkedPolicies_asks h).runsFaithful, (linkedRoles_asks h).runsFaithful⟩

section Example

/-- A datacenter with a policy under each ID. -/
def plentiful (_ : Nat) : Moment where
  now := 0
  getPolicy _ := .error "ACL not found"
  tokenRead _ := .ok none
  policyResolve _ ids := .ok (ids.map fun id => { id := id, name := id })
  roleResolve _ _ := .ok []
  sort := insertionSlices
  walk := ⟨fun _ l => l, fun _ => .refl⟩
  compiling := { order := insertionOrder }

def oneSecret : ACLToken := { accessorID := "a", secretID := "s" }

def extending : ResolverConfig := { datacenter := "dc1" }

/-- Two calls look up one ID each, and the second one departs while the request of the first one
goes on. -/
def twoCalls (id id' : String) : List (linkedPolicies extending).Act :=
  [.start oneSecret [id], .start oneSecret [id'], .look 0, .look 1, .depart 0, .depart 1, .fly 0,
    .land 0, .land 1]

def afterCalls (id id' : String) : Linkable.Calls ACLPolicy :=
  (linkedPolicies extending).run extending plentiful { resolver := bareResolver fun _ => none }
    (twoCalls id id')

theorem plentiful_answers : AnswersAsked plentiful where
  policies _ _ ids l hl p hp := by
    cases hl
    obtain ⟨id, hid, rfl⟩ := mem_map.mp hp
    exact hid
  roles _ _ _ l hl r hr := by
    cases hl
    cases hr

/-- The second call asks for `q` and returns `p`. -/
theorem a_merged_call_returns_another_policy :
    AnswersAsked plentiful ∧ ∃ c ∈ (afterCalls "p" "q").calls, c.ids = ["q"] ∧
      ∃ fetch, c.phase = .done fetch (.ok [{ id := "p", name := "p" }]) ∧
        ¬ c.Faithful (linkedPolicies extending) fetch [{ id := "p", name := "p" }] := by
  refine ⟨plentiful_answers, _, mem_of_getElem? (i := 1) rfl, rfl, _, rfl, fun h => ?_⟩
  obtain ⟨fl, hfl, hasked⟩ := h.asked "q" (.inl (mem_singleton.mpr rfl))
  cases hfl
  exact absurd (mem_singleton.mp hasked) (by decide)

/-- Calls for the same ID share a request and its answer. -/
theorem merged_calls_share_a_policy :
    AnswersAsked plentiful ∧ ∃ c ∈ (afterCalls "p" "p").calls, c.ids = ["p"] ∧
      ∃ fetch, c.phase = .done fetch (.ok [{ id := "p", name := "p" }]) ∧
        c.Faithful (linkedPolicies extending) fetch [{ id := "p", name := "p" }] := by
  have hmeets : (linkedPolicies extending).MeetsAll extending plentiful
      { resolver := bareResolver fun _ => none } (twoCalls "p" "p") := by
    refine ⟨trivial, trivial, trivial, trivial, ?_, ?_, trivial, trivial, trivial, trivial⟩
    · rintro c hc - - -
      exact ⟨nofun, by rintro fl ⟨⟩⟩
    · rintro c hc - - -
      cases hc
      refine ⟨nofun, fun fl hfl _ _ id => ?_⟩
      rw [mem_singleton.mp hfl]
      rfl
  refine ⟨plentiful_answers, _, mem_of_getElem? (i := 1) rfl, rfl, _, rfl, ?_⟩
  exact (merged_calls_are_faithful plentiful_answers).1 _ _ (by rintro _ _ _ ⟨⟩) hmeets _
    (mem_of_getElem? (i := 1) rfl) _ _ rfl

end Example

end OpenGyoza
