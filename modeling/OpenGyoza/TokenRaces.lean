-- Requests for tokens that overlap. A request that has passed its checks is
-- in flight until it is applied, and other requests are checked and applied
-- in between. No two tokens get the same accessor as long as no two requests
-- for it are in flight.
import OpenGyoza.TokenRequests
import OpenGyoza.TokenRounds

namespace OpenGyoza

open Memdb Txn Table List

section Races

variable [External] [Blake2b] {srv : TokenServer} {out : ACLToken} {s : State}
  {b : ACLTokenBatchSetRequest}

/-! ## The system -/

/-- A store, and the requests that have passed their checks and are not applied yet. -/
structure TokenSystem where
  store : State
  inFlight : List ACLTokenBatchSetRequest

def ACLTokenBatchSetRequest.txn (b : ACLTokenBatchSetRequest) (idx : Nat) : StoreTxn Unit :=
  aclTokenBatchSet idx false b.allowMissingLinks b.prohibitUnprivileged [b.token]

inductive TokenAction where
  | check (srv : TokenServer) (req : ACLTokenSetRequest) (fromLogin : Bool)
  | apply (idx place : Nat)
  | lose (place : Nat)
  | delete (idx : Nat) (tokenIDs : List String)
  | other (change : State → State)
      (noNew : ∀ s, ∀ t ∈ (change s).aclTokens.values, t ∈ s.aclTokens.values)

def TokenSystem.step (sys : TokenSystem) : TokenAction → TokenSystem
  | .check srv req fromLogin =>
    match (tokenSetInternal srv req fromLogin sys.store).1 with
    | .ok b => { sys with inFlight := b :: sys.inFlight }
    | .error _ => sys
  | .apply idx place =>
    match sys.inFlight[place]? with
    | some b => { store := Txn.commit (b.txn idx) (fun _ => true) sys.store
                  inFlight := sys.inFlight.eraseIdx place }
    | none => sys
  | .lose place => { sys with inFlight := sys.inFlight.eraseIdx place }
  | .delete idx tokenIDs =>
    { sys with store := Txn.commit (aclTokenBatchDelete idx tokenIDs) (fun _ => true) sys.store }
  | .other change _ => { sys with store := change sys.store }

def TokenSystem.run (sys : TokenSystem) (actions : List TokenAction) : TokenSystem :=
  actions.foldl TokenSystem.step sys

/-- When a request passes its checks, every request in flight for its accessor has its
secret. -/
def TokenAction.Alone (sys : TokenSystem) : TokenAction → Prop
  | .check srv req fromLogin => ∀ b, (tokenSetInternal srv req fromLogin sys.store).1 = .ok b →
      ∀ c ∈ sys.inFlight, uuidKey c.token.accessorID = uuidKey b.token.accessorID →
        c.token.secretID = b.token.secretID
  | _ => True

/-- Every action of a run meets the condition in the state in which it happens. -/
def TokenSystem.Undisturbed (sys : TokenSystem) : List TokenAction → Prop
  | [] => True
  | a :: actions => a.Alone sys ∧ (sys.step a).Undisturbed actions

/-! ## The checks -/

variable {t : ACLToken} {sys : TokenSystem}

section Checks

omit [Blake2b]

variable {s s' : State} {id : String} {accessorMatch : Option ACLToken}

theorem readToken_eq_ok {row out : Option ACLToken} (h : readToken row s = (.ok out, s')) :
    s' = s ∧ (row = none ∧ out = none ∨ ∃ t r, row = some t ∧ out = some r ∧ TokenRead t r) := by
  cases row with
  | none =>
    obtain ⟨rfl, rfl⟩ := pure_eq_ok.mp h
    exact ⟨rfl, .inl ⟨rfl, rfl⟩⟩
  | some t =>
    obtain ⟨r, hfixup, rfl⟩ := return_eq_ok.mp h
    exact ⟨(fixupTokenLinks_reads t).state_eq hfixup,
      .inr ⟨t, r, rfl, rfl, fixupTokenLinks_read hfixup⟩⟩

theorem readToken_reads (row : Option ACLToken) : Reads (readToken row) := by
  cases row with
  | none => exact .pure _
  | some t => exact (fixupTokenLinks_reads t).bind fun _ => .pure _

theorem lookupID_reads {context : String} {lookup : String → StoreTxn (Option ACLToken)}
    (h : ∀ id, Reads (lookup id)) : Reads (lookupID context id lookup) :=
  .ite (.pure _) (Does.wrap (h id))

/-- No token has the accessor. -/
def AccessorFree (s : State) (accessor : String) : Prop :=
  ∃ key, uuidKey accessor = .ok key ∧ ∀ t ∈ s.aclTokens.values, uuidKey t.accessorID ≠ .ok key

theorem aclTokenGetByAccessor_cases {accessor : String} {out : Option ACLToken}
    (h : aclTokenGetByAccessor accessor s = (.ok out, s')) :
    s' = s ∧ (out = none ∧ AccessorFree s accessor ∨
      ∃ key, uuidKey accessor = .ok key ∧ ∃ t ∈ s.aclTokens.values, ∃ r, out = some r ∧
        TokenRead t r ∧ uuidKey t.accessorID = .ok key) := by
  obtain ⟨row, s1, hrow, hread⟩ := bind_eq_ok.mp (wrap_eq_ok.mp h)
  obtain ⟨rfl, key, hkey, ⟨rfl, hnone⟩ | ⟨t, ht, rfl, hacc⟩⟩ := tokenWithAccessor_cases hrow
  · obtain ⟨rfl, ⟨-, rfl⟩ | ⟨t, r, hsome, -⟩⟩ := readToken_eq_ok hread
    · exact ⟨rfl, .inl ⟨rfl, key, hkey, hnone⟩⟩
    · cases hsome
  · obtain ⟨rfl, ⟨hnone, -⟩ | ⟨u, r, hsome, rfl, hr⟩⟩ := readToken_eq_ok hread
    · cases hnone
    · cases hsome
      exact ⟨rfl, .inr ⟨key, hkey, t, ht, r, rfl, hr, hacc⟩⟩

theorem checkTokenUUID_free {free : Bool} (h : checkTokenUUID id s = (.ok free, s')) :
    s' = s ∧ (free = true → AccessorFree s id) := by
  obtain ⟨found, s1, hget, h⟩ := bind_eq_ok.mp h
  obtain ⟨rfl, ⟨rfl, hfree⟩ | ⟨key, hkey, t, ht, r, rfl, -⟩⟩ := aclTokenGetByAccessor_cases hget
  · obtain ⟨bySecret, s2, hsecret, h⟩ := bind_eq_ok.mp h
    obtain ⟨row, s3, hrow, hread⟩ := bind_eq_ok.mp (wrap_eq_ok.mp hsecret)
    obtain ⟨-, rfl⟩ := read_eq_ok.mp hrow
    obtain ⟨rfl, -⟩ := readToken_eq_ok hread
    cases bySecret <;> exact ⟨(pure_eq_ok.mp h).2.symm, fun _ => hfree⟩
  · obtain ⟨rfl, rfl⟩ := pure_eq_ok.mp h
    exact ⟨rfl, nofun⟩

theorem generateUUID_free {ids : List String} (h : generateUUID ids s = (.ok id, s')) :
    AccessorFree s id := by
  induction ids generalizing s with
  | nil => cases congrArg Prod.fst h
  | cons x ids ih =>
    obtain ⟨free, s1, hcheck, h⟩ := bind_eq_ok.mp h
    obtain ⟨rfl, hfree⟩ := checkTokenUUID_free hcheck
    cases free with
    | false => exact ih h
    | true =>
      obtain ⟨rfl, -⟩ := pure_eq_ok.mp h
      exact hfree rfl

theorem freeID_taken {field : String} {taken : Option ACLToken}
    {other : String → StoreTxn (Option ACLToken)}
    (h : freeID field id taken other s = (.ok (), s')) : taken = none := by
  unfold freeID at h
  generalize parseUUID id = parsed at h
  cases parsed with
  | error text => cases congrArg Prod.fst h
  | ok bytes =>
    obtain ⟨htaken, -⟩ := ite_fail_eq_ok.mp h
    simpa using htaken

theorem createToken_free {fromLogin : Bool} {secretMatch : Option ACLToken}
    (hmatch : accessorMatch = none → t.accessorID ≠ "" → AccessorFree s t.accessorID)
    (h : createToken srv fromLogin t accessorMatch secretMatch s = (.ok out, s')) :
    AccessorFree s out.accessorID := by
  obtain ⟨accessorID, s1, haccessor, h⟩ := bind_eq_ok.mp h
  obtain ⟨secretID, s2, -, h⟩ := bind_eq_ok.mp h
  obtain ⟨_, s3, -, h⟩ := bind_eq_ok.mp h
  obtain ⟨settled, s4, hsettle, h⟩ := bind_eq_ok.mp h
  obtain ⟨_, -, rfl⟩ := return_eq_ok.mp h
  have hsame : settled.accessorID = accessorID := by
    unfold settleExpiration at hsettle
    split at hsettle
    · rw [← (pure_eq_ok.mp hsettle).1]
    · obtain ⟨-, hsettle⟩ := ite_fail_eq_ok.mp hsettle
      obtain ⟨-, hsettle⟩ := ite_fail_eq_ok.mp hsettle
      rw [← (pure_eq_ok.mp hsettle).1]
  rw [hsame]
  unfold settleID at haccessor
  by_cases hempty : t.accessorID = ""
  · rw [if_pos hempty] at haccessor
    exact generateUUID_free haccessor
  · rw [if_neg hempty] at haccessor
    obtain ⟨_, hfree, rfl⟩ := return_eq_ok.mp haccessor
    exact hmatch (freeID_taken hfree) hempty

theorem updateToken_ids (h : updateToken srv t accessorMatch s = (.ok out, s')) :
    out.accessorID = t.accessorID ∧
      ∃ found, accessorMatch = some found ∧ out.secretID = found.secretID := by
  unfold updateToken at h
  generalize parseUUID t.accessorID = parsed at h
  cases parsed with
  | error text => cases congrArg Prod.fst h
  | ok bytes =>
    obtain ⟨-, h⟩ := ite_fail_eq_ok.mp h
    cases accessorMatch with
    | none => cases congrArg Prod.fst h
    | some found =>
      obtain ⟨-, h⟩ := ite_fail_eq_ok.mp h
      obtain ⟨-, h⟩ := ite_fail_eq_ok.mp h
      obtain ⟨-, h⟩ := ite_fail_eq_ok.mp h
      obtain ⟨-, h⟩ := ite_fail_eq_ok.mp h
      obtain ⟨expirationTime, -, rfl⟩ := return_eq_ok.mp h
      exact ⟨rfl, found, rfl, rfl⟩

end Checks

theorem settleGrants_ids {s' : State} (h : settleGrants srv t s = (.ok out, s')) :
    out.accessorID = t.accessorID ∧ out.secretID = t.secretID := by
  obtain ⟨policies, s1, -, h⟩ := bind_eq_ok.mp h
  obtain ⟨roles, s2, -, h⟩ := bind_eq_ok.mp h
  obtain ⟨_, s3, -, h⟩ := bind_eq_ok.mp h
  obtain ⟨-, h⟩ := ite_fail_eq_ok.mp h
  obtain ⟨-, h⟩ := ite_fail_eq_ok.mp h
  obtain ⟨rfl, -⟩ := pure_eq_ok.mp h
  exact ⟨rfl, rfl⟩

/-- Only a token with the secret of `t` has the accessor of `t`. -/
structure Fits (s : State) (t : ACLToken) : Prop where
  valid : ∃ key, uuidKey t.accessorID = .ok key
  only : ∀ u ∈ s.aclTokens.values, uuidKey u.accessorID = uuidKey t.accessorID →
    u.secretID = t.secretID

omit [Blake2b] in
theorem AccessorFree.fits (h : AccessorFree s t.accessorID) : Fits s t := by
  obtain ⟨key, hkey, hfree⟩ := h
  refine ⟨⟨key, hkey⟩, fun u hu heq => ?_⟩
  rw [hkey] at heq
  exact absurd heq (hfree u hu)

theorem tokenSetInternal_fits {req : ACLTokenSetRequest} {fromLogin : Bool} (hs : AccessorsUnique s)
    (h : (tokenSetInternal srv req fromLogin s).1 = .ok b) : Fits s b.token := by
  have hrun : tokenSetInternal srv req fromLogin s = (.ok b, _) := Prod.ext h rfl
  obtain ⟨-, hrun⟩ := ite_fail_eq_ok.mp hrun
  obtain ⟨-, hrun⟩ := ite_fail_eq_ok.mp hrun
  obtain ⟨accessorMatch, s1, haccessor, hrun⟩ := bind_eq_ok.mp hrun
  obtain ⟨secretMatch, s2, hsecret, hrun⟩ := bind_eq_ok.mp hrun
  obtain ⟨t, s3, ht, hrun⟩ := bind_eq_ok.mp hrun
  obtain ⟨out, hsettle, rfl⟩ := return_eq_ok.mp hrun
  obtain ⟨hacc, hsec⟩ := settleGrants_ids hsettle
  obtain rfl := (lookupID_reads fun _ => Does.wrap (((Does.wrap (.ofExcept _)).bind fun _ =>
    .read _).bind readToken_reads)).state_eq haccessor
  obtain rfl := (lookupID_reads fun _ => Does.wrap ((Does.read _).bind
    readToken_reads)).state_eq hsecret
  have hmatch : req.token.accessorID ≠ "" →
      aclTokenGetByAccessor req.token.accessorID s2 = (.ok accessorMatch, s2) := by
    intro hne
    unfold lookupID at haccessor
    rw [if_neg hne] at haccessor
    exact wrap_eq_ok.mp haccessor
  have hfits : Fits s2 t := by
    unfold createOrUpdate at ht
    split at ht
    · refine (createToken_free (fun hnone hne => ?_) ht).fits
      obtain ⟨-, ⟨-, hfree⟩ | ⟨_, _, _, _, _, hsome, _⟩⟩ := aclTokenGetByAccessor_cases (hmatch hne)
      · exact hfree
      · cases hnone.symm.trans hsome
    · rename_i hcreate
      have hne : req.token.accessorID ≠ "" := fun hempty => hcreate (.inl hempty)
      obtain ⟨hsame, found, hfound, hsecret⟩ := updateToken_ids ht
      obtain ⟨-, ⟨hnone, -⟩ | ⟨key, hkey, row, hrow, r, hsome, hread, hacc⟩⟩ :=
        aclTokenGetByAccessor_cases (hmatch hne)
      · cases hnone.symm.trans hfound
      · obtain rfl : found = r := Option.some.inj (hfound.symm.trans hsome)
        refine ⟨⟨key, by rw [hsame, hkey]⟩, fun u hu heq => ?_⟩
        have hrowne : row.accessorID ≠ "" := by
          intro hempty
          rw [hempty, uuidKey_empty] at hacc
          cases hacc
        rw [hsame, hkey, ← hacc] at heq
        rw [hsecret, ← hs row hrow u hu hrowne heq.symm]
        exact hread.alike.secretID.symm
  exact ⟨by rw [hacc]; exact hfits.valid, fun u hu heq => by
    rw [hsec]
    exact hfits.only u hu (by rw [heq, hacc])⟩

/-! ## The steps -/

/-- What holds between the actions of an undisturbed run. -/
structure Orderly (sys : TokenSystem) : Prop where
  accessors : ∀ t ∈ sys.store.aclTokens.values, t.accessorID ≠ ""
  unique : AccessorsUnique sys.store
  fits : ∀ b ∈ sys.inFlight, Fits sys.store b.token
  alike : ∀ b ∈ sys.inFlight, ∀ c ∈ sys.inFlight,
    uuidKey b.token.accessorID = uuidKey c.token.accessorID → b.token.secretID = c.token.secretID

section Steps

omit [Blake2b]

theorem Orderly.fewer {sys' : TokenSystem} (h : Orderly sys)
    (hrows : ∀ t ∈ sys'.store.aclTokens.values, t ∈ sys.store.aclTokens.values)
    (hflight : ∀ b ∈ sys'.inFlight, b ∈ sys.inFlight) : Orderly sys' where
  accessors t ht := h.accessors t (hrows t ht)
  unique t ht u hu := h.unique t (hrows t ht) u (hrows u hu)
  fits b hb := ⟨(h.fits b (hflight b hb)).valid,
    fun u hu => (h.fits b (hflight b hb)).only u (hrows u hu)⟩
  alike b hb c hc := h.alike b (hflight b hb) c (hflight c hc)

theorem rows_of_written {x r : ACLToken} {s' : State} (h : TokensWritten [x] s s')
    (hr : r ∈ s'.aclTokens.values) :
    r.Alike x ∧ x.accessorID ≠ "" ∨ r ∈ s.aclTokens.values ∧ r.secretID ≠ x.secretID := by
  have hfirst := first_secret hr
  rcases h r.secretID with ⟨y, hy, -, hacc, ⟨row, hrow, halike⟩, -⟩ | ⟨hnot, hkept⟩
  · obtain rfl := mem_singleton.mp hy
    obtain rfl : r = row := Option.some.inj (hfirst.symm.trans hrow)
    exact .inl ⟨halike, hacc⟩
  · rw [hkept] at hfirst
    exact .inr ⟨mem_values_of_first hfirst, fun heq => hnot x (by simp) heq.symm⟩

theorem Orderly.written (h : Orderly sys) (hb : b ∈ sys.inFlight) {s' : State}
    (hwritten : TokensWritten [b.token] sys.store s') : Orderly { sys with store := s' } where
  accessors t ht := by
    rcases rows_of_written hwritten ht with ⟨halike, hacc⟩ | ⟨hold, -⟩
    · rwa [halike.accessorID]
    · exact h.accessors t hold
  unique t ht u hu hne heq := by
    rcases rows_of_written hwritten ht with ⟨ht', -⟩ | ⟨ht', hts⟩ <;>
      rcases rows_of_written hwritten hu with ⟨hu', -⟩ | ⟨hu', hus⟩
    · have hsecret : t.secretID = u.secretID := ht'.secretID.trans hu'.secretID.symm
      have hfirst := first_secret ht
      rw [hsecret, first_secret hu] at hfirst
      exact (Option.some.inj hfirst).symm
    · exact absurd ((h.fits b hb).only u hu' (by rw [← heq, ht'.accessorID])) hus
    · exact absurd ((h.fits b hb).only t ht' (by rw [heq, hu'.accessorID])) hts
    · exact h.unique t ht' u hu' hne heq
  fits c hc := by
    refine ⟨(h.fits c hc).valid, fun u hu heq => ?_⟩
    rcases rows_of_written hwritten hu with ⟨hu', -⟩ | ⟨hu', -⟩
    · rw [hu'.accessorID] at heq
      exact hu'.secretID.trans (h.alike b hb c hc heq)
    · exact (h.fits c hc).only u hu' heq
  alike := h.alike

end Steps

theorem Orderly.step (h : Orderly sys) {a : TokenAction} (ha : a.Alone sys) :
    Orderly (sys.step a) := by
  cases a with
  | check srv req fromLogin =>
    cases hcheck : (tokenSetInternal srv req fromLogin sys.store).1 with
    | error e =>
      have hstep : sys.step (.check srv req fromLogin) = sys := by
        simp [TokenSystem.step, hcheck]
      rwa [hstep]
    | ok b =>
      have hstep : sys.step (.check srv req fromLogin) =
          { sys with inFlight := b :: sys.inFlight } := by
        simp [TokenSystem.step, hcheck]
      rw [hstep]
      refine ⟨h.accessors, h.unique, ?_, ?_⟩
      · rintro c (_ | ⟨_, hc⟩)
        · exact tokenSetInternal_fits h.unique hcheck
        · exact h.fits c hc
      · rintro c (_ | ⟨_, hc⟩) d (_ | ⟨_, hd⟩) heq
        · rfl
        · exact (ha b hcheck d hd heq.symm).symm
        · exact ha b hcheck c hc heq
        · exact h.alike c hc d hd heq
  | apply idx place =>
    cases hplace : sys.inFlight[place]? with
    | none =>
      have hstep : sys.step (.apply idx place) = sys := by
        simp [TokenSystem.step, hplace]
      rwa [hstep]
    | some b =>
      have hstep : sys.step (.apply idx place) =
          { store := Txn.commit (b.txn idx) (fun _ => true) sys.store
            inFlight := sys.inFlight.eraseIdx place } := by
        simp [TokenSystem.step, hplace]
      rw [hstep]
      have hfewer : ∀ c ∈ sys.inFlight.eraseIdx place, c ∈ sys.inFlight :=
        fun c hc => mem_of_mem_eraseIdx hc
      rcases commit_cases (b.txn idx) (fun _ => true) sys.store with hsame | ⟨_, s', hrun, hnew⟩
      · rw [hsame]
        exact h.fewer (fun _ ht => ht) hfewer
      · rw [hnew]
        have hwritten := aclTokenBatchSet_writes idx [b.token] sys.store s' hrun
        exact (h.written (mem_of_getElem? hplace) hwritten).fewer (fun _ ht => ht) hfewer
  | lose place => exact h.fewer (fun _ ht => ht) fun b hb => mem_of_mem_eraseIdx hb
  | delete idx tokenIDs =>
    refine h.fewer (fun t ht => ?_) fun _ hb => hb
    rcases commit_cases (aclTokenBatchDelete idx tokenIDs) (fun _ => true) sys.store with
      hsame | ⟨_, s', hrun, hnew⟩
    · exact hsame ▸ ht
    · have hdeleted := aclTokenBatchDelete_deletes idx tokenIDs sys.store s' hrun
      exact ((hdeleted h.unique t).mp (hnew ▸ ht)).1
  | other change noNew => exact h.fewer (noNew sys.store) fun _ hb => hb

theorem Orderly.run (h : Orderly sys) {actions : List TokenAction}
    (hactions : sys.Undisturbed actions) : Orderly (sys.run actions) := by
  induction actions generalizing sys with
  | nil => exact h
  | cons a actions ih => exact ih (h.step hactions.1) hactions.2

omit [Blake2b] in
theorem tokenWithAccessor_found (hs : AccessorsUnique s) (ht : t ∈ s.aclTokens.values)
    (hne : t.accessorID ≠ "") : tokenWithAccessor t.accessorID s = (.ok (some t), s) := by
  obtain ⟨key, hkey⟩ := (aclTokenKey_eq_ok (key_of_first (first_secret ht))).2 hne
  rw [tokenWithAccessor_eq hkey]
  cases hfind : s.aclTokens.values.find? fun t => t.accessorID != "" &&
      decide (uuidKey t.accessorID = .ok key) with
  | none =>
    have hnot := find?_eq_none.mp hfind t ht
    simp [hne, hkey] at hnot
  | some u =>
    have hpred := find?_some hfind
    simp only [Bool.and_eq_true, decide_eq_true_eq] at hpred
    rw [hs t ht u (mem_of_find?_eq_some hfind) hne (hkey.trans hpred.2.symm)]

/-- In a run in which no request passes its checks while another one with the same accessor and
another secret is in flight, no two tokens have the same accessor, and each token is found by
it. -/
theorem accessors_stay_unique (store : State) (actions : List TokenAction)
    (haccessors : ∀ t ∈ store.aclTokens.values, t.accessorID ≠ "") (hunique : AccessorsUnique store)
    (hactions : (⟨store, []⟩ : TokenSystem).Undisturbed actions) :
    let s := ((⟨store, []⟩ : TokenSystem).run actions).store
    (∀ t ∈ s.aclTokens.values, ∀ u ∈ s.aclTokens.values, t.accessorID = u.accessorID → t = u) ∧
      ∀ t ∈ s.aclTokens.values, tokenWithAccessor t.accessorID s = (.ok (some t), s) := by
  have hstart : Orderly ⟨store, []⟩ := ⟨haccessors, hunique, by simp, by simp⟩
  have h := hstart.run hactions
  refine ⟨fun t ht u hu heq => ?_, fun t ht => ?_⟩
  · exact h.unique t ht u hu (h.accessors t ht) (by rw [heq])
  · exact tokenWithAccessor_found h.unique ht (h.accessors t ht)

end Races

section Example

attribute [local instance] ascii keepBytes

def anyServer : TokenServer where
  aclTokenMinExpirationTTL := 0
  aclTokenMaxExpirationTTL := 86400000000000
  now := 1

def sharedAccessor : String := "a0000000-0000-0000-0000-00000000000a"

/-- A request to create a token with chosen IDs. -/
def createWith (secret : String) : TokenAction :=
  .check anyServer
    { token := { accessorID := sharedAccessor, secretID := secret }, create := true } false

def secretOne : String := "b0000000-0000-0000-0000-000000000001"

def secretTwo : String := "b0000000-0000-0000-0000-000000000002"

/-- Both requests pass the checks before one of them is applied. -/
theorem two_tokens_share_an_accessor :
    ((⟨.empty, []⟩ : TokenSystem).run [createWith secretOne, createWith secretTwo,
      .apply 1 1, .apply 2 0]).store.aclTokens.values.map (fun t => (t.accessorID, t.secretID)) =
        [(sharedAccessor, secretOne), (sharedAccessor, secretTwo)] := by
  decide +kernel

/-- One request after the other: the second one does not pass the checks. -/
theorem the_second_request_is_refused :
    let s := ((⟨.empty, []⟩ : TokenSystem).run [createWith secretOne, .apply 1 0,
      createWith secretTwo, .apply 2 0]).store
    (∀ t ∈ s.aclTokens.values, ∀ u ∈ s.aclTokens.values, t.accessorID = u.accessorID → t = u) ∧
      ∀ t ∈ s.aclTokens.values, tokenWithAccessor t.accessorID s = (.ok (some t), s) := by
  refine accessors_stay_unique .empty _ (by simp [State.empty]) (fun t ht => ?_) ?_
  · simp [State.empty] at ht
  · refine ⟨fun b _ c hc => ?_, trivial, fun b hb => ?_, trivial, trivial⟩
    · cases hc
    · exfalso
      have hrefused : (tokenSetInternal anyServer
          { token := { accessorID := sharedAccessor, secretID := secretTwo }, create := true } false
          (((⟨.empty, []⟩ : TokenSystem).step (createWith secretOne)).step
            (.apply 1 0)).store).1.isOk = false := by decide +kernel
      rw [hb] at hrefused
      cases hrefused

end Example

end OpenGyoza
