-- Tokens in a round of the replication. They are looked up by their
-- accessor for a deletion and by their secret for a write, so a token that
-- got another secret is stored beside its old row.
import OpenGyoza.PolicyRounds

namespace OpenGyoza

open Memdb Replication Txn Table List ACLKind

section Laws

variable [External] {s s' primary : State} {original : Option ACLToken}
  {allowMissing prohibitUnprivileged : Bool} {row : ACLToken} {now : Time}

/-! ## Reads leave the store alone -/

def Reads {α : Type} (m : StoreTxn α) : Prop := Txn.Does (fun _ _ : State => False) m

theorem Reads.state_eq {α : Type} {m : StoreTxn α} (h : Reads m) {r : Except Fault α}
    (hrun : m s = (r, s')) : s' = s := by
  have hsteps := h s
  rw [hrun] at hsteps
  exact (Relation.reflTransGen_iff_eq fun _ hfalse => hfalse).mp hsteps

theorem getPolicyWithTxn_reads (id : String) : Reads (getPolicyWithTxn id) :=
  (Does.wrap (.ofExcept _)).bind fun _ => .read _

theorem LinkKind.fixup_reads {kind : LinkKind} (h : ∀ id, Reads (kind.name id))
    (links : List ACLLink) : Reads (kind.fixup links) := by
  induction links with
  | nil => exact .pure _
  | cons link links ih => exact .ite (.fail _) ((h _).bind fun _ => ih.bind fun _ => .pure _)

theorem LinkKind.resolve_reads {kind : LinkKind} (h : ∀ id, Reads (kind.name id))
    (allowMissing : Bool) (links : List ACLLink) : Reads (kind.resolve allowMissing links) := by
  induction links with
  | nil => exact .pure _
  | cons link links ih =>
    refine .ite (.fail _) ((h _).bind fun name => ?_)
    cases name with
    | none => exact .ite (ih.bind fun _ => .pure _) (.fail _)
    | some name => exact ih.bind fun _ => .pure _

theorem getRoleWithTxn_reads (id : String) : Reads (getRoleWithTxn id) := by
  have hname : ∀ id, Reads (rolePolicyLinks.name id) := fun id =>
    (getPolicyWithTxn_reads id).bind fun _ => .pure _
  refine Does.bind ((Does.wrap (.ofExcept _)).bind fun _ => .read _) fun role => ?_
  cases role with
  | none => exact .pure _
  | some role => exact ((LinkKind.fixup_reads hname _).bind fun _ => .pure _).bind fun _ => .pure _

theorem tokenPolicyLinks_reads (id : String) : Reads (tokenPolicyLinks.name id) :=
  (getPolicyWithTxn_reads id).bind fun _ => .pure _

theorem tokenRoleLinks_reads (id : String) : Reads (tokenRoleLinks.name id) :=
  (getRoleWithTxn_reads id).bind fun _ => .pure _

theorem fixupTokenLinks_reads (t : ACLToken) : Reads (fixupTokenLinks t) :=
  (LinkKind.fixup_reads tokenPolicyLinks_reads _).bind fun _ =>
    (LinkKind.fixup_reads tokenRoleLinks_reads _).bind fun _ => .pure _

theorem authMethodExists_reads (name : String) : Reads (authMethodExists name) := by
  refine .ite ((Does.read _).bind fun found => ?_) (.pure _)
  cases found with
  | none => exact .fail _
  | some _ => exact .pure _

theorem identitiesNamed_reads (text : String) (identities : List ACLServiceIdentity) :
    Reads (identitiesNamed text identities) :=
  Does.forEach fun _ _ => .ite (.fail _) (.pure _)

theorem fixupAll_reads {α : Type} {fixup : α → StoreTxn α} (h : ∀ a, Reads (fixup a))
    (l : List α) : Reads (fixupAll fixup l) := by
  induction l with
  | nil => exact .pure _
  | cons a l ih => exact (h a).bind fun _ => ih.bind fun _ => .pure _

/-! ## Rows of tokens -/

/-- What is compared of a token, and what it is found by. -/
structure ACLToken.Alike (t u : ACLToken) : Prop where
  accessorID : t.accessorID = u.accessorID
  secretID : t.secretID = u.secretID
  hash : t.hash = u.hash
  isLocal : t.isLocal = u.isLocal

/-- The table has an index on the accessor in which every accessor stands once. -/
def AccessorsUnique (s : State) : Prop :=
  ∀ t ∈ s.aclTokens.values, ∀ u ∈ s.aclTokens.values, t.accessorID ≠ "" →
    uuidKey t.accessorID = uuidKey u.accessorID → t = u

variable {t x : ACLToken} {l : List ACLToken} {redacts : Bool}

theorem aclTokenKey_eq_ok {k : String} (h : aclTokenKey t = .ok k) :
    t.secretID = k ∧ (t.accessorID ≠ "" → ∃ u, uuidKey t.accessorID = .ok u) := by
  unfold aclTokenKey at h
  split at h
  · cases h
  obtain ⟨_, hacc, h⟩ := except_bind_ok.mp h
  obtain ⟨_, -, h⟩ := except_bind_ok.mp h
  refine ⟨Except.ok.inj h, fun hne => ?_⟩
  unfold optionalUUID at hacc
  cases hu : uuidKey t.accessorID with
  | error text => simp [hne, hu] at hacc
  | ok u => exact ⟨u, rfl⟩

theorem first_secret (h : t ∈ s.aclTokens.values) : s.aclTokens.first t.secretID = some t := by
  obtain ⟨k, hk⟩ := mem_values.mp h
  rwa [(aclTokenKey_eq_ok (key_of_first hk)).1]

/-! ## Deletions -/

theorem tokenWithAccessor_eq {accessor : String} {key : List Byte}
    (h : uuidKey accessor = .ok key) :
    tokenWithAccessor accessor s = (.ok (s.aclTokens.values.find? fun t => t.accessorID != "" &&
      decide (uuidKey t.accessorID = .ok key)), s) := by
  apply eq_of_wp
  simp [tokenWithAccessor, uuidArg_of_uuidKey h, Txn.ofExcept]

theorem uuidKey_empty : uuidKey "" = .error "UUID must be 36 characters" := rfl

theorem tokenWithAccessor_cases {accessor : String} {row : Option ACLToken}
    (h : tokenWithAccessor accessor s = (.ok row, s')) :
    s' = s ∧ ∃ key, uuidKey accessor = .ok key ∧
      ((row = none ∧ ∀ t ∈ s.aclTokens.values, uuidKey t.accessorID ≠ .ok key) ∨
        ∃ t ∈ s.aclTokens.values, row = some t ∧ uuidKey t.accessorID = .ok key) := by
  obtain ⟨key, s1, hkey, hread⟩ := bind_eq_ok.mp h
  obtain ⟨hvalid, rfl⟩ := uuidKey_of_lookup hkey
  obtain ⟨rfl, rfl⟩ := pure_eq_ok.mp hread
  refine ⟨rfl, key, hvalid, ?_⟩
  cases hfind : s1.aclTokens.values.find? fun t => t.accessorID != "" &&
      decide (uuidKey t.accessorID = .ok key) with
  | none =>
    refine .inl ⟨hfind, fun t ht heq => ?_⟩
    have hne : t.accessorID ≠ "" := by
      intro hempty
      rw [hempty, uuidKey_empty] at heq
      simp at heq
    simpa [hne, heq] using find?_eq_none.mp hfind t ht
  | some t =>
    have hpred := find?_some hfind
    simp only [Bool.and_eq_true, decide_eq_true_eq] at hpred
    exact .inr ⟨t, mem_of_find?_eq_some hfind, hfind, hpred.2⟩

/-- The tokens with the accessors `ids` are gone, and nothing else is. -/
def TokensDeleted (ids : List String) (s s' : State) : Prop :=
  AccessorsUnique s → ∀ t, t ∈ s'.aclTokens.values ↔
    t ∈ s.aclTokens.values ∧ ∀ id ∈ ids, uuidKey t.accessorID ≠ uuidKey id

theorem tokensDeleted_composes : Composes TokensDeleted where
  nil s _ t := by simp
  append {xs ys s s1 s'} hx hy hs t := by
    have hs1 : AccessorsUnique s1 := fun t ht u hu =>
      hs t ((hx hs t).mp ht).1 u ((hx hs u).mp hu).1
    rw [hy hs1 t, hx hs t, forall_mem_append, and_assoc]

theorem aclTokenDeleteTxn_deletes {idx : Nat} {id : String}
    (h : aclTokenDeleteTxn idx id s = (.ok (), s')) : TokensDeleted [id] s s' := by
  intro hs t
  obtain ⟨row, s1, hrow, h⟩ := bind_eq_ok.mp h
  obtain ⟨rfl, key, hkey, ⟨rfl, hnone⟩ | ⟨u, hu, rfl, hacc⟩⟩ := tokenWithAccessor_cases hrow
  · obtain rfl : s1 = s' := (Prod.ext_iff.mp h).2
    simpa [hkey] using hnone t
  · by_cases hanonymous : u.accessorID = aclTokenAnonymousID
    · simp [hanonymous, Txn.fail] at h
    · simp only [hanonymous, if_false] at h
      obtain ⟨s2, index, hdelete, rfl⟩ := withIndex_eq_ok h
      have hfirst := first_secret hu
      have hwp : Txn.wrap ("failed deleting acl token: " ++ ·) (Txn.delete Tables.aclTokens u) s1 =
          (.ok (), { s1 with aclTokens := s1.aclTokens.erase u.secretID }) := by
        apply eq_of_wp
        rw [wp_wrap, wp_delete Tables.aclTokens (key_of_first hfirst) hfirst]
        simp
      obtain ⟨-, rfl⟩ := Prod.ext_iff.mp (hwp.symm.trans hdelete)
      have hne : u.accessorID ≠ "" := by
        intro hempty
        rw [hempty, uuidKey_empty] at hacc
        simp at hacc
      simp only [mem_values_erase, mem_singleton, forall_eq, hkey]
      refine and_congr_right fun ht => not_congr ⟨fun hsecret => ?_, fun heq => ?_⟩
      · have hfirst' := first_of_mem ht hsecret
        rw [hfirst] at hfirst'
        exact Option.some.inj hfirst' ▸ hacc
      · exact hs u hu t ht hne (hacc.trans heq.symm) ▸ key_of_first hfirst

theorem aclTokenBatchDelete_deletes (idx : Nat) (ids : List String) (s s' : State)
    (h : aclTokenBatchDelete idx ids s = (.ok (), s')) : TokensDeleted ids s s' :=
  tokensDeleted_composes.forEach (fun _ _ _ => aclTokenDeleteTxn_deletes) h

/-! ## Writes -/

/-- The tokens of a list are stored under their secrets. A row that a token replaces had its
accessor, or none. -/
def TokensWritten (tokens : List ACLToken) (s s' : State) : Prop :=
  ∀ secret,
    (∃ x ∈ tokens, x.secretID = secret ∧ x.accessorID ≠ "" ∧
      (∃ row, s'.aclTokens.first secret = some row ∧ row.Alike x) ∧
      ∀ old, s.aclTokens.first secret = some old → old.accessorID ≠ "" →
        old.accessorID = x.accessorID) ∨
    (∀ x ∈ tokens, x.secretID ≠ secret) ∧ s'.aclTokens.first secret = s.aclTokens.first secret

theorem tokensWritten_composes : Composes TokensWritten where
  nil s secret := .inr ⟨by simp, rfl⟩
  append {xs ys s s1 s'} hx hy secret := by
    rcases hy secret with ⟨y, hmem, hsecret, hacc, hrow, hold⟩ | ⟨hnot, hkept⟩
    · refine .inl ⟨y, mem_append_right _ hmem, hsecret, hacc, hrow, fun old hfirst hne => ?_⟩
      rcases hx secret with ⟨x, -, -, hxacc, ⟨row, hrow1, halike⟩, hxold⟩ | ⟨-, hkept1⟩
      · have hrowacc : row.accessorID = y.accessorID :=
          hold row hrow1 (halike.accessorID ▸ hxacc)
        rw [hxold old hfirst hne, ← halike.accessorID, hrowacc]
      · exact hold old (hkept1 ▸ hfirst) hne
    · rcases hx secret with ⟨x, hmem, hsecret, hacc, ⟨row, hrow, halike⟩, hold⟩ | ⟨hnot1, hkept1⟩
      · exact .inl ⟨x, mem_append_left _ hmem, hsecret, hacc, ⟨row, hkept ▸ hrow, halike⟩, hold⟩
      · exact .inr ⟨forall_mem_append.mpr ⟨hnot1, hnot⟩, hkept.trans hkept1⟩

theorem idsImmutable_eq_ok (h : idsImmutable x original s = (.ok (), s')) :
    s' = s ∧ ∀ old, original = some old → old.accessorID ≠ "" → old.accessorID = x.accessorID := by
  cases original with
  | none => exact ⟨(Prod.ext_iff.mp h).2.symm, by simp⟩
  | some old =>
    unfold idsImmutable at h
    by_cases hacc : old.accessorID ≠ "" ∧ x.accessorID ≠ old.accessorID
    · simp [hacc, Txn.fail] at h
    by_cases hsecret : x.secretID = old.secretID
    · simp only [hacc, hsecret, if_false, ne_eq, not_true_eq_false] at h
      refine ⟨(Prod.ext_iff.mp h).2.symm, fun o ho hne => ?_⟩
      obtain rfl := Option.some.inj ho
      by_contra hother
      exact hacc ⟨hne, fun heq => hother heq.symm⟩
    · simp [hacc, hsecret, Txn.fail] at h

theorem authMethodExists_eq_ok {name : String} (h : authMethodExists name s = (.ok (), s'))
    (hname : name ≠ "") : ∃ m, s.aclAuthMethods.first (toLower name) = some m := by
  unfold authMethodExists at h
  rw [if_pos hname] at h
  replace h := read_then h
  cases hfound : s.aclAuthMethods.first (toLower name) with
  | some m => exact ⟨m, rfl⟩
  | none =>
    rw [hfound] at h
    cases congrArg Prod.fst h

theorem storeToken_eq_ok {idx : Nat}
    (h : storeToken idx allowMissing prohibitUnprivileged x original s = (.ok (), s')) :
    ∃ row : ACLToken, row.Alike x ∧ row.authMethod = x.authMethod ∧
      aclTokenKey row = .ok x.secretID ∧ s' = { s with aclTokens := s.aclTokens.upsert row } ∧
      (x.authMethod ≠ "" → ∃ m, s.aclAuthMethods.first (toLower x.authMethod) = some m) ∧
      ∀ old, original = some old → old.accessorID ≠ "" → old.accessorID = x.accessorID := by
  obtain ⟨⟨policies, _⟩, s1, hpolicies, hrest⟩ := bind_eq_ok.mp h
  obtain ⟨⟨roles, _⟩, s2, hroles, hrest⟩ := bind_eq_ok.mp hrest
  obtain ⟨_, s3, hmethod, hrest⟩ := bind_eq_ok.mp hrest
  obtain ⟨_, s4, hidentities, hrest⟩ := bind_eq_ok.mp hrest
  replace hrest := (ite_fail_eq_ok.mp hrest).2
  obtain ⟨_, s5, himmutable, hinsert⟩ := bind_eq_ok.mp hrest
  obtain ⟨hs5, hsame⟩ := idsImmutable_eq_ok himmutable
  have hs2 : s2 = s := by
    rw [(LinkKind.resolve_reads tokenRoleLinks_reads _ _).state_eq hroles,
      (LinkKind.resolve_reads tokenPolicyLinks_reads _ _).state_eq hpolicies]
  have hs : s5 = s := by
    rw [hs5, (identitiesNamed_reads _ _).state_eq hidentities,
      (authMethodExists_reads _).state_eq hmethod, hs2]
  subst hs
  obtain ⟨k, hkey, rfl⟩ := insert_eq_ok.mp (wrap_eq_ok.mp hinsert)
  obtain rfl : x.secretID = k := (aclTokenKey_eq_ok hkey).1
  refine ⟨_, ?_, ?_, hkey, rfl, fun hne => authMethodExists_eq_ok (hs2 ▸ hmethod) hne, hsame⟩
  · exact ⟨rfl, rfl, rfl, rfl⟩
  · rfl

theorem aclTokenSetTxn_writes {idx : Nat}
    (h : aclTokenSetTxn idx false allowMissing prohibitUnprivileged false x s = (.ok (), s')) :
    TokensWritten [x] s s' := by
  unfold aclTokenSetTxn at h
  by_cases hsecret : x.secretID = ""
  · simp [hsecret, Txn.fail] at h
  by_cases hacc : x.accessorID = ""
  · simp [hsecret, hacc, Txn.fail] at h
  rw [if_neg hsecret, if_neg (by simpa using hacc)] at h
  replace h : storeToken idx allowMissing prohibitUnprivileged x (s.aclTokens.first x.secretID) s =
    (.ok (), s') := h
  obtain ⟨row, halike, -, hkey, rfl, -, himmutable⟩ := storeToken_eq_ok h
  intro secret
  by_cases heq : x.secretID = secret
  · subst heq
    exact .inl ⟨x, mem_cons_self, rfl, hacc, ⟨row, first_upsert_self hkey, halike⟩,
      himmutable⟩
  · refine .inr ⟨by simpa using heq, first_upsert_ne hkey fun h => heq h.symm⟩

theorem aclTokenBatchSet_writes (idx : Nat) (tokens : List ACLToken) (s s' : State)
    (h : aclTokenBatchSet idx false allowMissing prohibitUnprivileged tokens s = (.ok (), s')) :
    TokensWritten tokens s s' := by
  obtain ⟨s1, index, hset, rfl⟩ := withIndex_eq_ok h
  have hall : TokensWritten tokens s s1 := by
    refine tokensWritten_composes.forEach ?_ hset
    exact fun _ _ _ => aclTokenSetTxn_writes
  exact hall

/-! ## What is fetched -/

/-- A row and the token that is read from it. -/
def TokenRead (row t : ACLToken) : Prop :=
  ∃ policies roles, t = { row with policies := policies, roles := roles }

theorem fixupTokenLinks_read (h : fixupTokenLinks row s = (.ok t, s')) : TokenRead row t := by
  obtain ⟨policies, s1, -, h⟩ := bind_eq_ok.mp h
  obtain ⟨roles, s2, -, h⟩ := bind_eq_ok.mp h
  exact ⟨policies, roles, (Except.ok.inj (Prod.ext_iff.mp h).1).symm⟩

theorem fixupTokens_read {rows : List ACLToken}
    (h : fixupAll fixupTokenLinks rows s = (.ok l, s')) : List.Forall₂ TokenRead rows l := by
  refine fixupAll_eq_ok ?_ h
  exact fun _ _ _ _ => fixupTokenLinks_read

omit [External] in
theorem TokenRead.alike (h : TokenRead row t) : t.Alike row := by
  obtain ⟨_, _, rfl⟩ := h
  exact ⟨rfl, rfl, rfl, rfl⟩

theorem aclTokenBatchGet_read {ids : List String} (hs : AccessorsUnique s)
    (h : (aclTokenBatchGet ids s).1 = .ok l)
    (hids : ∀ id ∈ ids, ∃ row ∈ s.aclTokens.values, row.accessorID = id ∧ id ≠ "") :
    List.Forall₂ (fun id t => t.accessorID = id ∧ ∃ row ∈ s.aclTokens.values, TokenRead row t)
      ids l := by
  induction ids generalizing l with
  | nil =>
    obtain rfl := Except.ok.inj h
    exact .nil
  | cons id ids ih =>
    have hrun : aclTokenBatchGet (id :: ids) s = (.ok l, _) := Prod.ext h rfl
    obtain ⟨row, s1, hrow, hrest⟩ := bind_eq_ok.mp hrun
    obtain ⟨token, s2, htoken, hrest⟩ := bind_eq_ok.mp hrest
    obtain ⟨rest, s3, hget, hrest⟩ := bind_eq_ok.mp hrest
    obtain rfl := Except.ok.inj (Prod.ext_iff.mp hrest).1
    obtain ⟨v, hv, hacc, hne⟩ := hids id mem_cons_self
    obtain ⟨hs1, key, hkey, hfound⟩ := tokenWithAccessor_cases (wrap_eq_ok.mp hrow)
    have hs2 := (fixupAll_reads fixupTokenLinks_reads _).state_eq (wrap_eq_ok.mp htoken)
    rw [hs2, hs1] at hget
    have hrow : row = some v := by
      rcases hfound with ⟨-, hnone⟩ | ⟨u, hu, rfl, hkeyu⟩
      · exact absurd (hacc ▸ hkey) (hnone v hv)
      · rw [hs v hv u hu (hacc ▸ hne) (by rw [hacc, hkey, hkeyu])]
    subst hrow
    have hread := fixupTokens_read (wrap_eq_ok.mp htoken)
    obtain ⟨t, ts, hvt, hts, rfl⟩ := forall₂_cons_left_iff.mp hread
    obtain rfl := forall₂_nil_left_iff.mp hts
    refine .cons ⟨hvt.alike.accessorID.trans hacc, v, hv, hvt⟩ (ih ?_ ?_)
    · rw [hget]
      rfl
    · exact fun i hi => hids i (mem_cons_of_mem _ hi)

/-! ## The round -/

/-- The tokens that are replicated. -/
def State.globalTokens (s : State) : List ACLToken := s.aclTokens.get (!·.isLocal)

/-- The tokens that the primary lists. -/
def State.listedTokens (s : State) (now : Time) : List ACLToken :=
  s.globalTokens.filter (!·.isExpired now)

/-- The two sides agree on the tokens that did not change after `last`. -/
def TokensAgree (s primary : State) (now : Time) (last : Nat) : Prop :=
  ∀ y ∈ s.globalTokens, ∀ x ∈ primary.listedTokens now, x.accessorID ≠ "" →
    y.accessorID = x.accessorID → x.modifyIndex ≤ last → y.hash = x.hash

/-- Whenever a token has to be written, the local token with its accessor has its secret. -/
def TokensFit (s primary : State) (now : Time) : Prop :=
  ∀ x ∈ primary.listedTokens now, x.accessorID ≠ "" →
    (∀ y ∈ s.globalTokens, y.accessorID = x.accessorID → y.hash ≠ x.hash) →
    ∀ y ∈ s.globalTokens, y.accessorID = x.accessorID → y.secretID = x.secretID

theorem mem_globalTokens : t ∈ s.globalTokens ↔ t ∈ s.aclTokens.values ∧ t.isLocal = false := by
  unfold State.globalTokens
  rw [mem_get, Bool.not_eq_true']

theorem listedTokens_sublist (s : State) (now : Time) :
    (s.listedTokens now).Sublist s.aclTokens.values :=
  filter_sublist.trans filter_sublist

/-- What a round for tokens that reports success has done. -/
structure TokensReplicated (s primary s' : State) (now : Time) (deletes : List String)
    (updated : List ACLToken) : Prop where
  mem_deletes : ∀ id, id ∈ deletes ↔ id ≠ "" ∧ (∃ y ∈ s.globalTokens, y.accessorID = id) ∧
    ∀ x ∈ primary.listedTokens now, x.accessorID ≠ id
  /-- Everything that is written comes from a row that is listed and has no counterpart. -/
  source : ∀ t ∈ updated, ∃ x ∈ primary.listedTokens now, t.Alike x ∧ x.accessorID ≠ "" ∧
    ∀ y ∈ s.globalTokens, y.accessorID = x.accessorID → y.hash ≠ x.hash
  complete : ∀ x ∈ primary.listedTokens now, x.accessorID ≠ "" →
    (∀ y ∈ s.globalTokens, y.accessorID = x.accessorID → y.hash ≠ x.hash) →
    ∃ t ∈ updated, t.Alike x
  run : ∃ s₁, TokensDeleted deletes s s₁ ∧ TokensWritten updated s₁ s'

theorem tokens_idsUnique (hs : AccessorsUnique s) (hl : l.Sublist s.aclTokens.values) :
    IDsUnique (l.map (aclTokenReplicator now redacts).toMeta) := by
  refine pairwise_map.mpr (((values_pairwise _).sublist hl).imp_of_mem ?_)
  intro t u ht hu hne hid
  by_contra hempty
  have hid : t.accessorID = u.accessorID := hid
  exact hne (by rw [hs t (hl.subset ht) u (hl.subset hu) hempty (by rw [hid])])

theorem aclTokenListGlobal_read (h : aclTokenListGlobal s = (.ok l, s')) :
    List.Forall₂ TokenRead s.globalTokens l :=
  fixupTokens_read h

theorem fetchRemote_tokens (h : ((aclTokenReplicator now redacts).fetchRemote s).1 = .ok l) :
    List.Forall₂ TokenRead (s.listedTokens now) l := by
  have hrun : (aclTokenReplicator now redacts).fetchRemote s = (.ok l, _) := Prod.ext h rfl
  obtain ⟨tokens, s1, htokens, hrest⟩ := bind_eq_ok.mp hrun
  obtain rfl := Except.ok.inj (Prod.ext_iff.mp hrest).1
  refine rel_filter ?_ (aclTokenListGlobal_read htokens)
  rintro row t ⟨_, _, rfl⟩
  rfl

theorem fetchPending_tokens {remotes updated : List ACLToken} {ids : List String}
    (hs : AccessorsUnique s)
    (h : (fetchPending (aclTokenReplicator now redacts) remotes ids s).1 = .ok updated)
    (hids : ∀ id ∈ ids, ∃ row ∈ s.aclTokens.values, row.accessorID = id ∧ id ≠ "") :
    List.Forall₂ (fun id t => t.accessorID = id ∧ ∃ row ∈ s.aclTokens.values, TokenRead row t)
      ids updated := by
  unfold fetchPending at h
  by_cases hempty : ids.isEmpty
  · obtain rfl := isEmpty_iff.mp hempty
    obtain rfl : [] = updated := Except.ok.inj h
    exact .nil
  · rw [if_neg hempty] at h
    have hrun := wrap_eq_ok.mp (Prod.ext h rfl)
    cases redacts with
    | true => cases congrArg Prod.fst hrun
    | false => exact aclTokenBatchGet_read hs (congrArg Prod.fst hrun) hids

theorem roundDiff_tokens (redacts : Bool) {last last' : Nat} {locals remotes : List ACLToken}
    (hs : AccessorsUnique s) (hr : AccessorsUnique primary)
    (hagree : TokensAgree s primary now last) (hlast : last' ≤ last)
    (hlm : locals.map (aclTokenReplicator now redacts).toMeta =
      s.globalTokens.map (aclTokenReplicator now redacts).toMeta)
    (hrm : remotes.map (aclTokenReplicator now redacts).toMeta =
      (primary.listedTokens now).map (aclTokenReplicator now redacts).toMeta) :
    (∀ id, id ∈ (roundDiff (aclTokenReplicator now redacts) last' locals remotes).deletes ↔
      id ≠ "" ∧ (∃ y ∈ s.globalTokens, y.accessorID = id) ∧
        ∀ x ∈ primary.listedTokens now, x.accessorID ≠ id) ∧
    ∀ id, id ∈ (roundDiff (aclTokenReplicator now redacts) last' locals remotes).updates ↔
      ∃ x ∈ primary.listedTokens now, x.accessorID = id ∧ x.accessorID ≠ "" ∧
        ∀ y ∈ s.globalTokens, y.accessorID = x.accessorID → y.hash ≠ x.hash := by
  have hlu := idsUnique_sortState (hlm ▸ tokens_idsUnique hs filter_sublist)
  have hru := idsUnique_sortState (hrm ▸ tokens_idsUnique hr (listedTokens_sublist primary now))
  have hsl := sortState_sorted (aclTokenReplicator now redacts) locals
  have hsr := sortState_sorted (aclTokenReplicator now redacts) remotes
  have hmeml : ∀ {a}, a ∈ (sortState _ locals).map (aclTokenReplicator now redacts).toMeta ↔
      ∃ y ∈ s.globalTokens, (aclTokenReplicator now redacts).toMeta y = a := fun {a} => by
    rw [mem_sortState_map, hlm, mem_map]
  have hmemr : ∀ {a}, a ∈ (sortState _ remotes).map (aclTokenReplicator now redacts).toMeta ↔
      ∃ x ∈ primary.listedTokens now, (aclTokenReplicator now redacts).toMeta x = a := fun {a} => by
    rw [mem_sortState_map, hrm, mem_map]
  obtain ⟨p, hids, hp⟩ := diffACLType_updates last' hsl hlu hsr hru (by
    intro l hl r hr heq hne hmod
    obtain ⟨y, hy, rfl⟩ := hmeml.mp hl
    obtain ⟨x, hx, rfl⟩ := hmemr.mp hr
    exact hagree y hy x hx hne heq (hmod.trans hlast))
  unfold roundDiff
  refine ⟨fun id => ?_, fun id => ?_⟩
  · rw [mem_diffACLType_deletes hsl hlu hsr hru]
    simp only [hmeml, hmemr, exists_exists_and_eq_and, forall_exists_index, and_imp,
      forall_apply_eq_imp_iff₂]
    rfl
  · rw [hids, mem_map]
    constructor
    · rintro ⟨r, hr, rfl⟩
      obtain ⟨hr, hpr⟩ := mem_filter.mp hr
      obtain ⟨hne, hmissing⟩ := (hp r hr).mp hpr
      obtain ⟨x, hx, rfl⟩ := hmemr.mp hr
      exact ⟨x, hx, rfl, hne, fun y hy => hmissing _ (hmeml.mpr ⟨y, hy, rfl⟩)⟩
    · rintro ⟨x, hx, rfl, hne, hmissing⟩
      have hr := hmemr.mpr ⟨x, hx, rfl⟩
      refine ⟨_, mem_filter.mpr ⟨hr, (hp _ hr).mpr ⟨hne, fun l hl => ?_⟩⟩, rfl⟩
      obtain ⟨y, hy, rfl⟩ := hmeml.mp hl
      exact hmissing y hy

theorem tokens_replicated {around : Surroundings} {remoteIndex last : Nat} {round : Round}
    (hs : AccessorsUnique s) (hr : AccessorsUnique primary)
    (hagree : TokensAgree s primary now last)
    (h : replicateACLType (aclTokenReplicator now redacts) around primary remoteIndex last s =
      (round, s')) (hexit : round.exit = false) (herr : round.err = none) :
    Accepted round.responses ∧ ∃ deletes updated,
      TokensReplicated s primary s' now deletes updated := by
  obtain ⟨remotes, locals, updated, s1, rs, rs', hremotes, hlocals, hupdated, hdrun, hdacc, hurun,
    huacc, hresponses⟩ := replicateACLType_succeeds h hexit herr
  have hlist := aclTokenListGlobal_read (Prod.ext hlocals rfl)
  have hrl := listedTokens_sublist primary now
  obtain ⟨hdeletes, hupdates⟩ := roundDiff_tokens redacts hs hr hagree
    (show (if remoteIndex < last then 0 else last) ≤ last by split <;> omega)
    (map_eq_of_forall₂ hlist (by rintro _ _ ⟨_, _, rfl⟩; rfl))
    (map_eq_of_forall₂ (fetchRemote_tokens hremotes) (by rintro _ _ ⟨_, _, rfl⟩; rfl))
  have hfetched := fetchPending_tokens hr hupdated (by
    intro id hid
    obtain ⟨x, hx, rfl, hne, -⟩ := (hupdates id).mp hid
    exact ⟨x, hrl.subset hx, rfl, hne⟩)
  have halike : ∀ {x t : ACLToken}, x ∈ primary.listedTokens now → x.accessorID ≠ "" →
      t.accessorID = x.accessorID → (∃ row ∈ primary.aclTokens.values, TokenRead row t) →
      t.Alike x := by
    rintro x t hx hne hacc ⟨row, hrow, hread⟩
    rw [hr x (hrl.subset hx) row hrow hne (by rw [← hacc, hread.alike.accessorID])]
    exact hread.alike
  have hdeleted := tokensDeleted_composes.batches aclTokenBatchDelete_deletes hdrun (hdacc rfl)
  have hwritten := tokensWritten_composes.batches aclTokenBatchSet_writes hurun (huacc rfl)
  rw [flatten_batches] at hdeleted hwritten
  refine ⟨?_, _, updated, hdeletes, fun t ht => ?_, fun x hx hne hmissing => ?_, s1, hdeleted,
    hwritten⟩
  · rw [hresponses]
    exact forall_mem_append.mpr ⟨hdacc rfl, huacc rfl⟩
  · obtain ⟨id, hid, hacc, hrow⟩ := exists_of_forall₂_right hfetched ht
    obtain ⟨x, hx, rfl, hne, hmissing⟩ := (hupdates id).mp hid
    exact ⟨x, hx, halike hx hne hacc hrow, hne, hmissing⟩
  · have hid := (hupdates _).mpr ⟨x, hx, rfl, hne, hmissing⟩
    obtain ⟨t, ht, hacc, hrow⟩ := exists_of_forall₂_left hfetched hid
    exact ⟨t, ht, halike hx hne hacc hrow⟩

namespace TokensReplicated

variable {s primary s' : State} {now : Time} {deletes : List String} {updated : List ACLToken}

theorem kept (h : TokensReplicated s primary s' now deletes updated) (hs : AccessorsUnique s)
    {y : ACLToken} (hx : x ∈ primary.listedTokens now) (hy : y ∈ s.globalTokens)
    (hne : x.accessorID ≠ "") (hacc : y.accessorID = x.accessorID) :
    y ∈ s'.globalTokens ∨
      ∃ t ∈ updated, t.secretID = y.secretID ∧ t.accessorID = y.accessorID := by
  obtain ⟨s1, hdeleted, hwritten⟩ := h.run
  obtain ⟨hrow, hglobal⟩ := mem_globalTokens.mp hy
  have hleft : y ∈ s1.aclTokens.values := by
    refine (hdeleted hs y).mpr ⟨hrow, fun id hid hkey => ?_⟩
    obtain ⟨-, ⟨z, hz, rfl⟩, hgone⟩ := (h.mem_deletes id).mp hid
    have heq := hs y hrow z (mem_globalTokens.mp hz).1 (hacc ▸ hne) hkey
    exact hgone x hx (by rw [← heq, hacc])
  rcases hwritten y.secretID with ⟨t, ht, hsecret, -, -, hold⟩ | ⟨-, hkept⟩
  · exact .inr ⟨t, ht, hsecret, (hold y (first_secret hleft) (hacc ▸ hne)).symm⟩
  · have hfirst := hkept.trans (first_secret hleft)
    exact .inl (mem_globalTokens.mpr ⟨mem_values_of_first hfirst, hglobal⟩)

theorem stored (h : TokensReplicated s primary s' now deletes updated) (ht : t ∈ updated) :
    ∃ row ∈ s'.globalTokens, row.Alike t := by
  obtain ⟨s1, -, hwritten⟩ := h.run
  rcases hwritten t.secretID with ⟨u, hu, hsecret, -, ⟨row, hrow, halike⟩, -⟩ | ⟨hnot, -⟩
  · obtain ⟨x, hx, htx, -⟩ := h.source t ht
    obtain ⟨z, hz, huz, -⟩ := h.source u hu
    have hxrow := first_secret ((listedTokens_sublist primary now).subset hx)
    have hzrow := first_secret ((listedTokens_sublist primary now).subset hz)
    rw [← htx.secretID] at hxrow
    rw [← huz.secretID, hsecret, hxrow] at hzrow
    obtain rfl := Option.some.inj hzrow
    have hlocal : x.isLocal = false := (mem_globalTokens.mp (mem_filter.mp hx).1).2
    refine ⟨row, mem_globalTokens.mpr ⟨mem_values_of_first hrow, ?_⟩, ?_⟩
    · rw [halike.isLocal, huz.isLocal, hlocal]
    · exact ⟨by rw [halike.accessorID, huz.accessorID, htx.accessorID],
        by rw [halike.secretID, huz.secretID, htx.secretID],
        by rw [halike.hash, huz.hash, htx.hash], by rw [halike.isLocal, huz.isLocal, htx.isLocal]⟩
  · exact absurd rfl (hnot t ht)

theorem origin (h : TokensReplicated s primary s' now deletes updated) (hs : AccessorsUnique s)
    (hrow : row ∈ s'.globalTokens) (hne : row.accessorID ≠ "") :
    (∃ t ∈ updated, row.Alike t) ∨
      row ∈ s.globalTokens ∧ (∃ x ∈ primary.listedTokens now, x.accessorID = row.accessorID) ∧
        ∀ t ∈ updated, t.secretID ≠ row.secretID := by
  obtain ⟨s1, hdeleted, hwritten⟩ := h.run
  obtain ⟨hmem, hglobal⟩ := mem_globalTokens.mp hrow
  rcases hwritten row.secretID with ⟨t, ht, -, -, ⟨row', hfirst, halike⟩, -⟩ | ⟨hnot, hkept⟩
  · rw [first_secret hmem] at hfirst
    exact .inl ⟨t, ht, Option.some.inj hfirst ▸ halike⟩
  · obtain ⟨hold, hleft⟩ := (hdeleted hs row).mp
      (mem_values_of_first (hkept ▸ first_secret hmem))
    have hmem' := mem_globalTokens.mpr ⟨hold, hglobal⟩
    refine .inr ⟨hmem', ?_, hnot⟩
    by_contra hnone
    push Not at hnone
    exact hleft _ ((h.mem_deletes _).mpr ⟨hne, ⟨row, hmem', rfl⟩, hnone⟩) rfl

end TokensReplicated

theorem TokensReplicated.same_iff {deletes : List String} {updated : List ACLToken}
    (h : TokensReplicated s primary s' now deletes updated) (hs : AccessorsUnique s)
    (hr : AccessorsUnique primary) :
    SameItems (s'.globalTokens.map (aclTokenReplicator now redacts).toMeta)
        ((primary.listedTokens now).map (aclTokenReplicator now redacts).toMeta) ↔
      TokensFit s primary now := by
  have hunique : ∀ {x z}, x ∈ primary.listedTokens now → z ∈ primary.listedTokens now →
      x.accessorID ≠ "" → x.accessorID = z.accessorID → x = z := fun {x z} hx hz hne heq =>
    hr x ((listedTokens_sublist primary now).subset hx) z
      ((listedTokens_sublist primary now).subset hz) hne (by rw [heq])
  have hsame : SameItems (s'.globalTokens.map (aclTokenReplicator now redacts).toMeta)
      ((primary.listedTokens now).map (aclTokenReplicator now redacts).toMeta) ↔
      ∀ id hash, id ≠ "" → ((∃ y ∈ s'.globalTokens, y.accessorID = id ∧ y.hash = hash) ↔
        ∃ x ∈ primary.listedTokens now, x.accessorID = id ∧ x.hash = hash) := by
    simp only [SameItems, mem_map, exists_exists_and_eq_and]
    rfl
  rw [hsame]
  constructor
  · intro hcopied x hx hne hmissing y hy hacc
    by_contra hother
    rcases h.kept hs hx hy hne hacc with hkept | ⟨t, ht, hsecret, htacc⟩
    · obtain ⟨z, hz, hzacc, hhash⟩ := (hcopied y.accessorID y.hash (hacc ▸ hne)).mp
        ⟨y, hkept, rfl, rfl⟩
      obtain rfl := hunique hx hz hne (by rw [hzacc, hacc])
      exact hmissing y hy hacc hhash.symm
    · obtain ⟨z, hz, halike, -⟩ := h.source t ht
      obtain rfl := hunique hx hz hne (by rw [← halike.accessorID, htacc, hacc])
      exact hother (by rw [← hsecret, halike.secretID])
  · intro hfit id hash hid
    constructor
    · rintro ⟨row, hrow, rfl, rfl⟩
      rcases h.origin hs hrow hid with ⟨t, ht, halike⟩ | ⟨hold, ⟨x, hx, hacc⟩, hnot⟩
      · obtain ⟨x, hx, htx, -⟩ := h.source t ht
        exact ⟨x, hx, by rw [halike.accessorID, htx.accessorID], by rw [halike.hash, htx.hash]⟩
      · -- The row would have been written over if its content were another one.
        refine ⟨x, hx, hacc, ?_⟩
        by_contra hhash
        have hmissing : ∀ y ∈ s.globalTokens, y.accessorID = x.accessorID → y.hash ≠ x.hash := by
          intro y hy hyacc
          obtain rfl := hs row (mem_globalTokens.mp hold).1 y (mem_globalTokens.mp hy).1 hid
            (by rw [← hacc, hyacc])
          exact fun heq => hhash heq.symm
        obtain ⟨t, ht, halike⟩ := h.complete x hx (hacc ▸ hid) hmissing
        exact hnot t ht (by
          rw [halike.secretID, hfit x hx (hacc ▸ hid) hmissing row hold hacc.symm])
    · rintro ⟨x, hx, rfl, rfl⟩
      by_cases hmissing : ∀ y ∈ s.globalTokens, y.accessorID = x.accessorID → y.hash ≠ x.hash
      · obtain ⟨t, ht, htx⟩ := h.complete x hx hid hmissing
        obtain ⟨row, hrow, halike⟩ := h.stored ht
        exact ⟨row, hrow, by rw [halike.accessorID, htx.accessorID], by rw [halike.hash, htx.hash]⟩
      · push Not at hmissing
        obtain ⟨y, hy, hacc, hhash⟩ := hmissing
        rcases h.kept hs hx hy hid hacc with hkept | ⟨t, ht, hsecret, htacc⟩
        · exact ⟨y, hkept, hacc, hhash⟩
        · obtain ⟨z, hz, halike, -, hzmissing⟩ := h.source t ht
          obtain rfl := hunique hx hz hid (by rw [← halike.accessorID, htacc, hacc])
          exact absurd hhash (hzmissing y hy hacc)

/-! ## All kinds -/

namespace ACLKind

/-- The items of the secondary datacenter. -/
def localItems (s : State) : ACLKind → List ItemMeta
  | policies => s.aclPolicies.values.map aclPolicyReplicator.toMeta
  | roles => s.aclRoles.values.map aclRoleReplicator.toMeta
  | tokens now redacts => s.globalTokens.map (aclTokenReplicator now redacts).toMeta

/-- The items that the primary lists. -/
def remoteItems (primary : State) : ACLKind → List ItemMeta
  | policies => primary.aclPolicies.values.map aclPolicyReplicator.toMeta
  | roles => primary.aclRoles.values.map aclRoleReplicator.toMeta
  | tokens now redacts => (primary.listedTokens now).map (aclTokenReplicator now redacts).toMeta

/-- What the store keeps true of the table of a kind. -/
def Invariant (s : State) : ACLKind → Prop
  | policies => PolicyNamesUnique s
  | roles => RoleNamesUnique s ∧ ∀ r ∈ s.aclRoles.values, r.Formed
  | tokens _ _ => AccessorsUnique s

/-- The two sides agree on what did not change after `last`. -/
def Agree (s primary : State) (last : Nat) : ACLKind → Prop
  | policies => PoliciesAgree s primary last
  | roles => RolesAgree s primary last
  | tokens now _ => TokensAgree s primary now last

/-- What has to hold for a round to copy all items. -/
def Fit (s primary : State) : ACLKind → Prop
  | policies => PoliciesFit s primary
  | roles => RolesFit s primary
  | tokens now _ => TokensFit s primary now

end ACLKind

/-- A round that reports success has made the items of the two sides the same, with no batch
refused, exactly when the items fit. -/
theorem a_successful_round_copies_iff (kind : ACLKind) {around : Surroundings}
    {primary s s' : State} {remoteIndex last : Nat} {round : Round} (hs : kind.Invariant s)
    (hr : kind.Invariant primary) (hagree : kind.Agree s primary last)
    (h : kind.replicate around primary remoteIndex last s = (round, s'))
    (hexit : round.exit = false) (herr : round.err = none) :
    (SameItems (kind.localItems s') (kind.remoteItems primary) ∧ Accepted round.responses) ↔
      kind.Fit s primary := by
  cases kind with
  | policies =>
    refine (policies_named.round_iff (policyItems_proper hs) ?_ (fun x hx => key_of_mem hx) hagree
      h hexit herr).trans ?_
    · simpa [policyItem, PolicyNamesUnique] using show PolicyNamesUnique primary from hr
    · simp [RowsFit, Fit, PoliciesFit, keepsBuiltin, policyItem]
  | roles =>
    refine (roles_named.round_iff ?_ ?_ (fun x hx => ⟨key_of_mem hx, hr.2 x hx⟩) hagree h hexit
      herr).trans ?_
    · refine proper_itemsOf idKey_roleItem fun p hp q hq hname _ => hs.1 p hp q hq ?_
      simpa [roleItem] using hname
    · simpa [roleItem, RoleNamesUnique] using hr.1
    · simp [RowsFit, Fit, RolesFit, anyRole, roleItem]
  | tokens now redacts =>
    obtain ⟨hacc, deletes, updated, hdone⟩ := tokens_replicated hs hr hagree h hexit herr
    exact (and_iff_left hacc).trans (hdone.same_iff hs hr)

end Laws

section Example

attribute [local instance] ascii

def policyNamed (id name : String) (hash : Byte) (modifyIndex : Nat) : ACLPolicy where
  id := id
  name := name
  hash := [hash]
  modifyIndex := modifyIndex

def policiesOf (l : List ACLPolicy) : State :=
  { State.empty with aclPolicies := Table.empty.putAll l }

def raftFrom (idx : Nat) : Surroundings := { raft := fun _ i => .ok (idx + i) }

def readerID : String := "a0000000-0000-0000-0000-000000000001"

def writerID : String := "b0000000-0000-0000-0000-000000000002"

/-- Two policies of a secondary datacenter. -/
def policiesBefore : State :=
  policiesOf [policyNamed readerID "reader" 1 5, policyNamed writerID "writer" 2 5]

/-- The primary has exchanged their names. -/
def policiesExchanged : State :=
  policiesOf [policyNamed readerID "writer" 3 7, policyNamed writerID "reader" 4 7]

theorem policiesBefore_invariant : policies.Invariant policiesBefore := by
  show PolicyNamesUnique policiesBefore
  unfold PolicyNamesUnique
  decide

theorem exchange_refused (idx : Nat) :
    ∃ text s', aclPolicyBatchSet idx policiesExchanged.aclPolicies.values policiesBefore =
      (.error (.error text), s') := by
  have hvalues : policiesExchanged.aclPolicies.values =
      [policyNamed readerID "writer" 3 7, policyNamed writerID "reader" 4 7] := by decide
  rcases aclPolicyBatchSet_makesChanges idx policiesExchanged.aclPolicies.values policiesBefore
    (fun p hp => key_of_mem hp) (policyItems_proper policiesBefore_invariant) with
    ⟨hadmits, -⟩ | ⟨-, hrefused⟩
  · rw [hvalues] at hadmits
    obtain ⟨⟨hfree, -⟩, -⟩ := hadmits
    have hrow : policiesBefore.aclPolicies.first (idKey writerID) =
        some (policyNamed writerID "writer" 2 5) := by decide
    have hid : writerID = readerID :=
      hfree _ _ (itemsOf_eq_some.mpr ⟨_, hrow, rfl⟩) rfl (by simp [policyItem])
    exact absurd hid (by decide)
  · exact hrefused

/-- The round reports success at the index of the primary, but its batch was refused and nothing
was copied. The next rounds compare only what changes after that index. -/
theorem a_refused_batch_is_reported_as_success :
    policies.Invariant policiesBefore ∧ policies.Invariant policiesExchanged ∧
      policies.Agree policiesBefore policiesExchanged 5 ∧ ∃ text,
      policies.replicate (raftFrom 20) policiesExchanged 7 5 policiesBefore =
        ({ index := 7, exit := false, err := none, responses := [.error (.error text)] },
          policiesBefore) := by
  refine ⟨policiesBefore_invariant, ?_, ?_, ?_⟩
  · show PolicyNamesUnique policiesExchanged
    unfold PolicyNamesUnique
    decide
  · show PoliciesAgree policiesBefore policiesExchanged 5
    unfold PoliciesAgree
    decide
  · obtain ⟨text, s', hrefused⟩ := exchange_refused 20
    have hround := policies_round_single (raftFrom 20) policiesExchanged
      policiesBefore_invariant rfl
      (show 5 ≤ 7 by decide) (by decide) (fun _ hp => hp) (by decide) rfl
    refine ⟨text, hround.trans ?_⟩
    simp [hrefused, Txn.commit]

/-- The primary gives the name of the first policy to a new one. -/
def policiesHandedOver : State :=
  policiesOf [policyNamed readerID "auditor" 3 7, policyNamed writerID "reader" 4 7]

def policiesReader : State := policiesOf [policyNamed readerID "reader" 1 5]

theorem a_handover_of_a_name_is_copied : ∃ round s',
    policies.replicate (raftFrom 20) policiesHandedOver 7 5 policiesReader = (round, s') ∧
      round.index = 7 ∧ SameItems (policies.localItems s')
        (policies.remoteItems policiesHandedOver) ∧ Accepted round.responses := by
  have hs : PolicyNamesUnique policiesReader := by
    unfold PolicyNamesUnique
    decide
  have hr : PolicyNamesUnique policiesHandedOver := by
    unfold PolicyNamesUnique
    decide
  have hagree : PoliciesAgree policiesReader policiesHandedOver 5 := by
    unfold PoliciesAgree
    decide
  have hfit : PoliciesFit policiesReader policiesHandedOver := by
    unfold PoliciesFit
    decide
  have hround := policies_round_single (raftFrom 20) policiesHandedOver
    hs rfl (show 5 ≤ 7 by decide) (by decide)
    (fun _ hp => hp) (by decide) rfl
  exact ⟨_, _, hround, rfl,
    (a_successful_round_copies_iff .policies hs hr hagree hround rfl rfl).mpr hfit⟩

end Example

end OpenGyoza
