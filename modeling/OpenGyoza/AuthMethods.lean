-- Auth methods, and what refers to them by name: binding rules, and the
-- tokens that come from a login. The name of a method is looked up in lower
-- case. A deleted method takes its rules and tokens with it, but the tokens
-- are found by the exact spelling of its name.
import OpenGyoza.TokenRaces

namespace OpenGyoza

open Memdb Txn Table List

section Methods

variable [External] {prohibitUnprivileged : Bool}

/-! ## Binding rules -/

def indexFinds (arg value : String) : Bool :=
  (arg.toList ++ [Char.ofNat 0]).isPrefixOf (value.toList ++ [Char.ofNat 0])

def aclBindingRuleSetTxn (idx : Nat) (rule : ACLBindingRule) : StoreTxn Unit := do
  if rule.id = "" then fail "Missing ACL Binding Rule ID"
  else if rule.authMethod = "" then fail "Missing ACL Binding Rule Auth Method"
  else
    let key ← wrap ("failed acl binding rule lookup: " ++ ·) (ofExcept (uuidArg rule.id))
    let existing ← read (·.aclBindingRules.first key)
    match ← read (·.aclAuthMethods.first (toLower rule.authMethod)) with
    | none => fail "failed inserting acl binding rule: auth method not found"
    | some _ =>
      wrap ("failed inserting acl binding rule: " ++ ·)
        (insert Tables.aclBindingRules { rule with
          createIndex := (existing.map (·.createIndex)).getD idx
          modifyIndex := idx })

def aclBindingRuleBatchSet (idx : Nat) (rules : List ACLBindingRule) : StoreTxn Unit := do
  forEach rules (aclBindingRuleSetTxn idx)
  wrap ("failed updating index: " ++ ·) (indexUpdateMaxTxn idx "acl-binding-rules")

def aclBindingRuleDeleteTxn (id : String) : StoreTxn Unit := do
  let key ← wrap ("failed acl binding rule lookup: " ++ ·) (ofExcept (uuidArg id))
  match ← read (·.aclBindingRules.first key) with
  | none => return
  | some rule =>
    wrap ("failed deleting acl binding rule: " ++ ·) (delete Tables.aclBindingRules rule)

/-- Goes on after an error. -/
def ignoringErrors (m : StoreTxn Unit) : StoreTxn Unit := do
  let _ ← attempt m
  return

def aclBindingRuleBatchDelete (idx : Nat) (bindingRuleIDs : List String) : StoreTxn Unit := do
  forEach bindingRuleIDs fun id => ignoringErrors (aclBindingRuleDeleteTxn id)
  wrap ("failed updating index: " ++ ·) (indexUpdateMaxTxn idx "acl-binding-rules")

/-- Raises the index of a table when something was deleted from it. -/
def indexUnlessEmpty {α : Type} (idx : Nat) (table : String) (deleted : List α) : StoreTxn Unit :=
  if deleted.isEmpty then return
  else wrap ("failed updating index: " ++ ·) (indexUpdateMaxTxn idx table)

def ruleOfMethod (methodName : String) (r : ACLBindingRule) : Bool :=
  indexFinds (toLower methodName) (toLower r.authMethod)

def aclBindingRuleDeleteAllForAuthMethodTxn (idx : Nat) (methodName : String) : StoreTxn Unit := do
  let rules ← read (·.aclBindingRules.get (ruleOfMethod methodName))
  forEach rules fun rule =>
    wrap ("failed deleting acl binding rule: " ++ ·) (delete Tables.aclBindingRules rule)
  indexUnlessEmpty idx "acl-binding-rules" rules

/-! ## Auth methods -/

/-- The index of the tokens keeps upper and lower case. -/
def tokenOfMethod (methodName : String) (t : ACLToken) : Bool :=
  t.authMethod != "" && indexFinds methodName t.authMethod

def aclTokenDeleteAllForAuthMethodTxn (idx : Nat) (methodName : String) : StoreTxn Unit := do
  let tokens ← read (·.aclTokens.get (tokenOfMethod methodName))
  forEach tokens fun token =>
    wrap ("failed deleting acl token: " ++ ·) (delete Tables.aclTokens token)
  indexUnlessEmpty idx "acl-tokens" tokens

def aclAuthMethodSetTxn (idx : Nat) (method : ACLAuthMethod) : StoreTxn Unit := do
  if method.name = "" then fail "Missing ACL Auth Method Name"
  else if method.type = "" then fail "Missing ACL Auth Method Type"
  else
    let existing ← read (·.aclAuthMethods.first (toLower method.name))
    wrap ("failed inserting acl auth method: " ++ ·)
      (insert Tables.aclAuthMethods { method with
        createIndex := (existing.map (·.createIndex)).getD idx
        modifyIndex := idx })

def aclAuthMethodBatchSet (idx : Nat) (methods : List ACLAuthMethod) : StoreTxn Unit := do
  forEach methods (aclAuthMethodSetTxn idx)
  wrap ("failed updating index: " ++ ·) (indexUpdateMaxTxn idx "acl-auth-methods")

def aclAuthMethodDeleteTxn (idx : Nat) (name : String) : StoreTxn Unit := do
  match ← read (·.aclAuthMethods.first (toLower name)) with
  | none => return
  | some method =>
    aclBindingRuleDeleteAllForAuthMethodTxn idx method.name
    aclTokenDeleteAllForAuthMethodTxn idx method.name
    wrap ("failed deleting acl auth method: " ++ ·) (delete Tables.aclAuthMethods method)

def aclAuthMethodBatchDelete (idx : Nat) (names : List String) : StoreTxn Unit := do
  forEach names fun name => ignoringErrors (aclAuthMethodDeleteTxn idx name)
  wrap ("failed updating index: " ++ ·) (indexUpdateMaxTxn idx "acl-auth-methods")

/-! ## Logins -/

/-- What a login leaves to others: the check of a bearer token by the method, which gives fields,
the selectors over these fields, and the names made of them. A selector with an error does not
match. -/
class Logins where
  validateLogin : ACLAuthMethod → String → Except String (List (String × String))
  selects : ACLAuthMethod → String → List (String × String) → Bool
  interpolateHIL : String → List (String × String) → Except String String

section Login

variable [Logins]

def doesBindingRuleMatch (method : ACLAuthMethod) (fields : List (String × String))
    (rule : ACLBindingRule) : Bool :=
  rule.selector == "" || Logins.selects method rule.selector fields

def validRoleName (name : String) : Bool :=
  1 ≤ name.length && name.length ≤ 256 &&
    name.toList.all fun c => c.isAlphanum || c == '-' || c == '_'

/-- The name that a rule binds to, and whether it is a valid one. -/
def computeBindingRuleBindName (bindType bindName : String) (fields : List (String × String)) :
    Except String (String × Bool) := do
  let bindName ← Logins.interpolateHIL bindName fields
  if bindType = "service" then return (bindName, isValidServiceIdentityName bindName)
  else if bindType = "role" then return (bindName, validRoleName bindName)
  else .error ("unknown binding rule bind type: " ++ bindType)

/-- What the rules that match grant. A role that is not there grants nothing. -/
def bindRules (fields : List (String × String)) :
    List ACLBindingRule → StoreTxn (List ACLServiceIdentity × List ACLLink)
  | [] => return ([], [])
  | rule :: rules => do
    let (bindName, valid) ← wrap
      (("cannot compute " ++ quote rule.bindType ++ " bind name for bind target: ") ++ ·)
      (ofExcept (computeBindingRuleBindName rule.bindType rule.bindName fields))
    if !valid then
      fail ("computed " ++ quote rule.bindType ++ " bind name for bind target is invalid: " ++
        quote bindName)
    else if rule.bindType = "service" then
      let (identities, links) ← bindRules fields rules
      return ({ serviceName := bindName } :: identities, links)
    else
      let role ← roleIDWithName bindName
      let (identities, links) ← bindRules fields rules
      return (identities, role.toList.map ({ id := · }) ++ links)

def evaluateRoleBindings (method : ACLAuthMethod) (fields : List (String × String)) :
    StoreTxn (List ACLServiceIdentity × List ACLLink) := do
  let rules ← read (·.aclBindingRules.get (ruleOfMethod method.name))
  bindRules fields (rules.filter (doesBindingRuleMatch method fields))

/-- A login: the name of the method as the client spells it, and the encoded metadata. -/
structure ACLLogin where
  authMethod : String
  bearerToken : String
  loginMeta : String := ""

/-- The token of a login carries the name of the method as the client spells it. -/
def login [Blake2b] (srv : TokenServer) (auth : ACLLogin) : StoreTxn ACLTokenBatchSetRequest := do
  if !srv.localTokensEnabled then
    fail "Token replication is required for auth methods to function"
  else
    match ← read (·.aclAuthMethods.first (toLower auth.authMethod)) with
    | none => fail "ACL not found"
    | some method =>
      let fields ← ofExcept (Logins.validateLogin method auth.bearerToken)
      let (serviceIdentities, roleLinks) ← evaluateRoleBindings method fields
      if serviceIdentities.isEmpty && roleLinks.isEmpty then fail "Permission denied"
      else
        tokenSetInternal srv { token := {
          accessorID := ""
          secretID := ""
          description := "token created via login" ++
            if auth.loginMeta = "" then "" else ": " ++ auth.loginMeta
          isLocal := true
          authMethod := auth.authMethod
          serviceIdentities := serviceIdentities
          roles := roleLinks } } true

end Login

/-! ## Runs -/

/-- The log entries for tokens, auth methods and binding rules. -/
inductive AclOp where
  | tokenSet (cas allowMissingLinks prohibitUnprivileged : Bool) (tokens : List ACLToken)
  | tokenDelete (tokenIDs : List String)
  | authMethodSet (methods : List ACLAuthMethod)
  | authMethodDelete (names : List String)
  | bindingRuleSet (rules : List ACLBindingRule)
  | bindingRuleDelete (bindingRuleIDs : List String)

def AclOp.txn (idx : Nat) : AclOp → StoreTxn Unit
  | tokenSet cas allowMissing prohibitUnprivileged tokens =>
    aclTokenBatchSet idx cas allowMissing prohibitUnprivileged tokens
  | tokenDelete tokenIDs => aclTokenBatchDelete idx tokenIDs
  | authMethodSet methods => aclAuthMethodBatchSet idx methods
  | authMethodDelete names => aclAuthMethodBatchDelete idx names
  | bindingRuleSet rules => aclBindingRuleBatchSet idx rules
  | bindingRuleDelete bindingRuleIDs => aclBindingRuleBatchDelete idx bindingRuleIDs

def AclOp.apply (s : State) (entry : Nat × AclOp) : State :=
  commit (entry.2.txn entry.1) (fun _ => true) s

def applyAclOps (s : State) (entries : List (Nat × AclOp)) : State := entries.foldl AclOp.apply s

/-! ## What refers to a method -/

/-- The name of a token's method is spelled as the method is stored, and the method of every
binding rule is there. -/
structure Referred (s : State) : Prop where
  tokens : ∀ t ∈ s.aclTokens.values, t.authMethod ≠ "" →
    ∃ m, s.aclAuthMethods.first (toLower t.authMethod) = some m ∧ m.name = t.authMethod
  rules : ∀ r ∈ s.aclBindingRules.values,
    ∃ m, s.aclAuthMethods.first (toLower r.authMethod) = some m

/-- Tokens and rules only become fewer. -/
structure Shrinks (s s' : State) : Prop where
  tokens : ∀ t ∈ s'.aclTokens.values, t ∈ s.aclTokens.values
  rules : ∀ r ∈ s'.aclBindingRules.values, r ∈ s.aclBindingRules.values
  methods : s'.aclAuthMethods = s.aclAuthMethods

theorem Shrinks.refl (s : State) : Shrinks s s := ⟨fun _ h => h, fun _ h => h, rfl⟩

variable {s s' : State} {idx : Nat}

theorem Shrinks.trans {s'' : State} (h : Shrinks s s') (h' : Shrinks s' s'') : Shrinks s s'' :=
  ⟨fun t ht => h.tokens t (h'.tokens t ht), fun r hr => h.rules r (h'.rules r hr),
    h'.methods.trans h.methods⟩

theorem Referred.shrinks (h : Referred s) (hs : Shrinks s s') : Referred s' where
  tokens t ht := hs.methods ▸ h.tokens t (hs.tokens t ht)
  rules r hr := hs.methods ▸ h.rules r (hs.rules r hr)

theorem Referred.of_does {m : StoreTxn Unit} {res : Except Fault Unit} (h : Referred s)
    (hm : Does Shrinks m) (hrun : m s = (res, s')) : Referred s' := by
  have hs := hm.holds .refl (fun _ _ _ => .trans) s
  rw [hrun] at hs
  exact h.shrinks hs

/-! ## Deletions -/

theorem indexUpdateMaxTxn_shrinks (idx : Nat) (table : String) :
    Does Shrinks (indexUpdateMaxTxn idx table) := by
  intro s
  rw [indexUpdateMaxTxn_eq]
  exact .single ⟨fun _ h => h, fun _ h => h, rfl⟩

theorem aclTokenBatchDelete_shrinks (idx : Nat) (ids : List String) :
    Does Shrinks (aclTokenBatchDelete idx ids) := by
  refine .forEach fun id _ => ((Does.wrap (.ofExcept _)).bind fun _ => .read _).bind fun row => ?_
  cases row with
  | none => exact .pure _
  | some t =>
    refine .ite (.fail _) ((Does.wrap (.delete fun _ _ _ => ?_)).bind fun _ =>
      .wrap (indexUpdateMaxTxn_shrinks idx _))
    exact ⟨fun _ h => (mem_values_erase.mp h).1, fun _ h => h, rfl⟩

theorem aclBindingRuleBatchDelete_shrinks (idx : Nat) (ids : List String) :
    Does Shrinks (aclBindingRuleBatchDelete idx ids) := by
  refine (Does.forEach fun id _ => ?_).bind fun _ => .wrap (indexUpdateMaxTxn_shrinks idx _)
  refine (Does.attempt ?_).bind fun _ => .pure _
  refine (Does.wrap (.ofExcept _)).bind fun key => (Does.read _).bind fun row => ?_
  cases row with
  | none => exact .pure _
  | some rule =>
    exact .wrap (.delete fun _ _ _ => ⟨fun _ h => h, fun _ h => (mem_values_erase.mp h).1, rfl⟩)

theorem wp_indexUnlessEmpty {α : Type} (idx : Nat) (table : String) (l : List α) (s : State) :
    wp (indexUnlessEmpty idx table l)
      (fun res s' => res = .ok () ∧ ∃ index, s' = { s with index := index }) s := by
  unfold indexUnlessEmpty
  by_cases h : l.isEmpty = true
  · rw [if_pos h]
    exact ⟨rfl, s.index, rfl⟩
  · rw [if_neg h, wp_wrap, wp_of_eq (indexUpdateMaxTxn_eq _ _ _)]
    exact ⟨rfl, _, rfl⟩

theorem wp_bindingRulesOfMethod (idx : Nat) (name : String) (s : State) :
    wp (aclBindingRuleDeleteAllForAuthMethodTxn idx name)
      (fun res s' => res = .ok () ∧ ∃ index, s' = { s with
        aclBindingRules := s.aclBindingRules.keep (! ruleOfMethod name ·)
        index := index }) s := by
  unfold aclBindingRuleDeleteAllForAuthMethodTxn
  rw [wp_bind, wp_read, andThen_ok, wp_bind]
  refine wp_mono (wp_deleteAll Tables.aclBindingRules (.refl (_ : List ACLBindingRule)) _) ?_
  rintro _ s' ⟨rfl, rfl⟩
  exact wp_indexUnlessEmpty idx _ _ _

theorem wp_tokensOfMethod (idx : Nat) (name : String) (s : State) :
    wp (aclTokenDeleteAllForAuthMethodTxn idx name)
      (fun res s' => res = .ok () ∧ ∃ index, s' = { s with
        aclTokens := s.aclTokens.keep (! tokenOfMethod name ·)
        index := index }) s := by
  unfold aclTokenDeleteAllForAuthMethodTxn
  rw [wp_bind, wp_read, andThen_ok, wp_bind]
  refine wp_mono (wp_deleteAll Tables.aclTokens (.refl (_ : List ACLToken)) _) ?_
  rintro _ s' ⟨rfl, rfl⟩
  exact wp_indexUnlessEmpty idx _ _ _

omit [External] in
theorem indexFinds_self (name : String) : indexFinds name name = true := by
  unfold indexFinds
  exact isPrefixOf_iff_prefix.mpr (prefix_refl _)

/-- No method is stored under a name, however it is spelled. -/
def MethodGone (name : String) (s : State) : Prop :=
  s.aclAuthMethods.first (toLower name) = none

theorem wp_aclAuthMethodDeleteTxn (idx : Nat) (name : String) (h : Referred s) :
    wp (aclAuthMethodDeleteTxn idx name) (fun res s' => res = .ok () ∧ Referred s' ∧
      MethodGone name s' ∧ ∀ other, MethodGone other s → MethodGone other s') s := by
  unfold aclAuthMethodDeleteTxn
  rw [wp_bind, wp_read, andThen_ok]
  cases hmethod : s.aclAuthMethods.first (toLower name) with
  | none => exact ⟨rfl, h, hmethod, fun _ hother => hother⟩
  | some method =>
    have hkey : aclAuthMethodKey method = .ok (toLower name) := key_of_first hmethod
    have hname : toLower method.name = toLower name := by
      unfold aclAuthMethodKey at hkey
      split at hkey
      · cases hkey
      · exact Except.ok.inj hkey
    rw [wp_bind]
    refine wp_mono (wp_bindingRulesOfMethod idx method.name s) ?_
    rintro _ s1 ⟨rfl, index1, rfl⟩
    rw [andThen_ok, wp_bind]
    refine wp_mono (wp_tokensOfMethod idx method.name _) ?_
    rintro _ s2 ⟨rfl, index2, rfl⟩
    rw [andThen_ok, wp_wrap]
    refine Iff.mpr (wp_delete (w := method) Tables.aclAuthMethods hkey ?_) ?_
    · exact hmethod
    refine ⟨rfl, ⟨fun t ht hne => ?_, fun r hr => ?_⟩, first_erase_self _ _,
      fun other hother => ?_⟩
    · obtain ⟨ht, hkept⟩ := mem_values_keep.mp ht
      obtain ⟨m, hm, hspelled⟩ := h.tokens t ht hne
      -- a token of this method is found by its name and not kept
      have hother : toLower t.authMethod ≠ toLower name := by
        intro heq
        rw [heq, hmethod] at hm
        obtain rfl := Option.some.inj hm
        simp [tokenOfMethod, hne, hspelled, indexFinds_self] at hkept
      exact ⟨m, (first_erase_ne _ hother).trans hm, hspelled⟩
    · obtain ⟨hr, hkept⟩ := mem_values_keep.mp hr
      obtain ⟨m, hm⟩ := h.rules r hr
      have hother : toLower r.authMethod ≠ toLower name := by
        intro heq
        simp [ruleOfMethod, hname, heq, indexFinds_self] at hkept
      exact ⟨m, (first_erase_ne _ hother).trans hm⟩
    · by_cases heq : toLower other = toLower name
      · unfold MethodGone
        rw [heq]
        exact first_erase_self _ _
      · exact (first_erase_ne _ heq).trans hother

theorem wp_aclAuthMethodBatchDelete (idx : Nat) (names : List String) (h : Referred s) :
    wp (aclAuthMethodBatchDelete idx names) (fun res s' => res = .ok () ∧
      Referred s' ∧ ∀ name ∈ names, MethodGone name s') s := by
  unfold aclAuthMethodBatchDelete
  rw [wp_bind]
  refine wp_mono (wp_forEach_all (D := MethodGone) h fun name _ s hs => ?_) ?_
  · unfold ignoringErrors
    rw [wp_bind, wp_attempt]
    refine wp_mono (wp_aclAuthMethodDeleteTxn idx name hs) ?_
    rintro _ s' ⟨rfl, hafter⟩
    exact ⟨rfl, hafter⟩
  · rintro _ s1 ⟨rfl, hreferred, hgone⟩
    rw [andThen_ok, wp_wrap, wp_of_eq (indexUpdateMaxTxn_eq _ _ _)]
    exact ⟨rfl, ⟨hreferred.tokens, hreferred.rules⟩, hgone⟩

/-! ## Writes -/

theorem aclBindingRuleSetTxn_referred {rule : ACLBindingRule}
    (hrun : aclBindingRuleSetTxn idx rule s = (.ok (), s')) (h : Referred s) : Referred s' := by
  replace hrun := (ite_fail_eq_ok.mp (ite_fail_eq_ok.mp hrun).2).2
  obtain ⟨key, s1, hkey, hlookup⟩ := bind_eq_ok.mp hrun
  obtain ⟨-, rfl⟩ := uuidKey_of_lookup hkey
  have hrun := read_then hlookup
  replace hrun := read_then hrun
  cases hmethod : s1.aclAuthMethods.first (toLower rule.authMethod) with
  | none =>
    rw [hmethod] at hrun
    cases congrArg Prod.fst hrun
  | some method =>
    rw [hmethod] at hrun
    obtain ⟨k, hk, rfl⟩ := insert_eq_ok.mp (wrap_eq_ok.mp hrun)
    refine ⟨h.tokens, fun r hr => ?_⟩
    rcases mem_values_of_upsert hr with rfl | hr
    · exact ⟨method, hmethod⟩
    · exact h.rules r hr

/-- The name of the method of a token is spelled as it is stored. -/
def ACLToken.Spelled (s : State) (t : ACLToken) : Prop :=
  ∀ m, t.authMethod ≠ "" → s.aclAuthMethods.first (toLower t.authMethod) = some m →
    m.name = t.authMethod

theorem aclTokenSetTxn_referred {cas allowMissing : Bool} {x : ACLToken} (hx : x.Spelled s)
    (hrun : aclTokenSetTxn idx cas allowMissing prohibitUnprivileged false x s = (.ok (), s'))
    (h : Referred s) : Referred s' ∧ s'.aclAuthMethods = s.aclAuthMethods := by
  obtain ⟨-, hrun⟩ := ite_fail_eq_ok.mp hrun
  obtain ⟨-, hrun⟩ := ite_fail_eq_ok.mp hrun
  replace hrun := read_then hrun
  split at hrun
  · obtain ⟨-, rfl⟩ := pure_eq_ok.mp hrun
    exact ⟨h, rfl⟩
  · obtain ⟨-, hrun⟩ := ite_fail_eq_ok.mp hrun
    obtain ⟨row, -, hauth, -, rfl, hexists, -⟩ := storeToken_eq_ok hrun
    refine ⟨⟨fun t ht hne => ?_, h.rules⟩, rfl⟩
    rcases mem_values_of_upsert ht with rfl | ht
    · rw [hauth] at hne ⊢
      obtain ⟨m, hm⟩ := hexists hne
      exact ⟨m, hm, hx m hne hm⟩
    · exact h.tokens t ht hne

/-- A new or changed method is spelled as the stored one, and a batch spells it one way. -/
def MethodsSpelled (s : State) (methods : List ACLAuthMethod) : Prop :=
  (∀ m ∈ methods, ∀ e, s.aclAuthMethods.first (toLower m.name) = some e → e.name = m.name) ∧
    ∀ m ∈ methods, ∀ m' ∈ methods, toLower m.name = toLower m'.name → m.name = m'.name

theorem aclAuthMethodSetTxn_referred {method : ACLAuthMethod}
    (hspelled : ∀ e, s.aclAuthMethods.first (toLower method.name) = some e → e.name = method.name)
    (hrun : aclAuthMethodSetTxn idx method s = (.ok (), s')) (h : Referred s) :
    Referred s' ∧ ∀ k e, s'.aclAuthMethods.first k = some e →
      s.aclAuthMethods.first k = some e ∨ e.name = method.name ∧ k = toLower method.name := by
  obtain ⟨-, hrun⟩ := ite_fail_eq_ok.mp hrun
  obtain ⟨-, hrun⟩ := ite_fail_eq_ok.mp hrun
  replace hrun := read_then hrun
  obtain ⟨k, hk, rfl⟩ := insert_eq_ok.mp (wrap_eq_ok.mp hrun)
  obtain rfl : k = toLower method.name := by
    unfold aclAuthMethodKey at hk
    split at hk
    · cases hk
    · exact (Except.ok.inj hk).symm
  refine ⟨⟨fun t ht hne => ?_, fun r hr => ?_⟩, fun j e he => ?_⟩
  · obtain ⟨m, hm, hname⟩ := h.tokens t ht hne
    by_cases heq : toLower t.authMethod = toLower method.name
    · rw [heq] at hm ⊢
      refine ⟨_, first_upsert_self hk, ?_⟩
      exact (hspelled m hm).symm.trans hname
    · exact ⟨m, (first_upsert_ne hk heq).trans hm, hname⟩
  · obtain ⟨m, hm⟩ := h.rules r hr
    by_cases heq : toLower r.authMethod = toLower method.name
    · rw [heq]
      exact ⟨_, first_upsert_self hk⟩
    · exact ⟨m, (first_upsert_ne hk heq).trans hm⟩
  · by_cases heq : j = toLower method.name
    · subst heq
      have hrow := (first_upsert_self hk).symm.trans he
      obtain rfl := Option.some.inj hrow
      exact .inr ⟨rfl, rfl⟩
    · exact .inl ((first_upsert_ne hk heq).symm.trans he)

theorem aclAuthMethodBatchSet_referred {methods : List ACLAuthMethod}
    (hspelled : MethodsSpelled s methods) (h : Referred s)
    (hrun : aclAuthMethodBatchSet idx methods s = (.ok (), s')) : Referred s' := by
  obtain ⟨s1, index, hloop, rfl⟩ := withIndex_eq_ok hrun
  suffices hs1 : Referred s1 from ⟨hs1.tokens, hs1.rules⟩
  clear hrun
  induction methods generalizing s with
  | nil =>
    obtain ⟨-, rfl⟩ := Prod.ext_iff.mp hloop
    exact h
  | cons m ms ih =>
    obtain ⟨_, s2, hm, hms⟩ := bind_eq_ok.mp hloop
    obtain ⟨hstored, hbatch⟩ := hspelled
    obtain ⟨hs2, hrows⟩ := aclAuthMethodSetTxn_referred (hstored m mem_cons_self) hm h
    refine ih ⟨fun m' hm' e he => ?_, fun m1 h1 m2 h2 => ?_⟩ hs2 hms
    · rcases hrows _ e he with he | ⟨hname, hfold⟩
      · exact hstored m' (mem_cons_of_mem _ hm') e he
      · rw [hname]
        exact hbatch m mem_cons_self m' (mem_cons_of_mem _ hm') hfold.symm
    · exact hbatch m1 (mem_cons_of_mem _ h1) m2 (mem_cons_of_mem _ h2)

theorem aclTokenBatchSet_referred {cas allowMissing : Bool} {tokens : List ACLToken}
    (hspelled : ∀ t ∈ tokens, t.Spelled s) (h : Referred s)
    (hrun : aclTokenBatchSet idx cas allowMissing prohibitUnprivileged tokens s = (.ok (), s')) :
    Referred s' := by
  obtain ⟨s1, index, hloop, rfl⟩ := withIndex_eq_ok hrun
  have hcomposes : Composes fun (xs : List ACLToken) s s' => (∀ t ∈ xs, t.Spelled s) →
      Referred s → Referred s' ∧ s'.aclAuthMethods = s.aclAuthMethods :=
    { nil := fun _ _ h => ⟨h, rfl⟩
      append := fun {xs ys s s1 s'} hxs hys hall hs => by
        obtain ⟨hallx, hally⟩ := forall_mem_append.mp hall
        obtain ⟨hs1, hsame⟩ := hxs hallx hs
        obtain ⟨hs', hsame'⟩ := hys (fun t ht => by
          unfold ACLToken.Spelled
          rw [hsame]
          exact hally t ht) hs1
        exact ⟨hs', hsame'.trans hsame⟩ }
  have hall := hcomposes.forEach (fun t s s' ht hspelled h =>
    aclTokenSetTxn_referred (hspelled t mem_cons_self) ht h) hloop hspelled h
  exact ⟨hall.1.tokens, hall.1.rules⟩

theorem aclBindingRuleBatchSet_referred {rules : List ACLBindingRule} (h : Referred s)
    (hrun : aclBindingRuleBatchSet idx rules s = (.ok (), s')) : Referred s' := by
  obtain ⟨s1, index, hloop, rfl⟩ := withIndex_eq_ok hrun
  have hcomposes : Composes fun (_ : List ACLBindingRule) s s' => Referred s → Referred s' :=
    { nil := fun _ h => h, append := fun hxs hys hs => hys (hxs hs) }
  have hall := hcomposes.forEach (fun _ _ _ hr h => aclBindingRuleSetTxn_referred hr h) hloop h
  exact ⟨hall.tokens, hall.rules⟩

/-! ## Every run -/

/-- The condition on a log entry: the names of methods are spelled as they are stored. -/
def AclOp.Spelled (s : State) : AclOp → Prop
  | .tokenSet _ _ _ tokens => ∀ t ∈ tokens, t.Spelled s
  | .authMethodSet methods => MethodsSpelled s methods
  | _ => True

theorem AclOp.apply_authMethodDelete (idx : Nat) (names : List String) (h : Referred s) :
    Referred (AclOp.apply s (idx, .authMethodDelete names)) ∧
      ∀ name ∈ names, MethodGone name (AclOp.apply s (idx, .authMethodDelete names)) := by
  obtain ⟨hres, hafter⟩ := wp_aclAuthMethodBatchDelete idx names h
  have hcommit : AclOp.apply s (idx, .authMethodDelete names) =
      (aclAuthMethodBatchDelete idx names s).2 := by
    unfold AclOp.apply AclOp.txn commit
    dsimp only
    rw [← Prod.mk.eta (p := aclAuthMethodBatchDelete idx names s), hres]
    rfl
  rw [hcommit]
  exact hafter

theorem AclOp.apply_referred {op : AclOp} (hop : op.Spelled s) (h : Referred s) :
    Referred (AclOp.apply s (idx, op)) := by
  rcases commit_cases (op.txn idx) (fun _ => true) s with hsame | ⟨_, s', hrun, hafter⟩
  · unfold AclOp.apply
    rw [hsame]
    exact h
  have happly : AclOp.apply s (idx, op) = s' := hafter
  cases op with
  | tokenSet cas allowMissing prohibitUnprivileged tokens =>
    exact happly ▸ aclTokenBatchSet_referred hop h hrun
  | tokenDelete ids => exact happly ▸ h.of_does (aclTokenBatchDelete_shrinks idx ids) hrun
  | authMethodSet methods => exact happly ▸ aclAuthMethodBatchSet_referred hop h hrun
  | authMethodDelete names => exact (apply_authMethodDelete idx names h).1
  | bindingRuleSet rules => exact happly ▸ aclBindingRuleBatchSet_referred h hrun
  | bindingRuleDelete ids =>
    exact happly ▸ h.of_does (aclBindingRuleBatchDelete_shrinks idx ids) hrun

/-- Each log entry of a run meets the condition in the state in which it is applied. -/
def SpelledRun : State → List (Nat × AclOp) → Prop
  | _, [] => True
  | s, entry :: entries => entry.2.Spelled s ∧ SpelledRun (AclOp.apply s entry) entries

theorem applyAclOps_referred {entries : List (Nat × AclOp)} (h : Referred s)
    (hentries : SpelledRun s entries) : Referred (applyAclOps s entries) := by
  induction entries generalizing s with
  | nil => exact h
  | cons entry entries ih => exact ih (AclOp.apply_referred hentries.1 h) hentries.2

/-- A run that spells the name of each method in one way. Every token of a login and every
binding rule refers to a method that is stored, and no token of a method outlives it. -/
theorem tokens_and_rules_refer_to_stored_methods (entries : List (Nat × AclOp))
    (hentries : SpelledRun .empty entries) :
    let s := applyAclOps .empty entries
    (∀ t ∈ s.aclTokens.values, t.authMethod ≠ "" → ¬ MethodGone t.authMethod s) ∧
      (∀ r ∈ s.aclBindingRules.values, ¬ MethodGone r.authMethod s) ∧
      ∀ idx names, ∀ name ∈ names,
        ∀ t ∈ (AclOp.apply s (idx, .authMethodDelete names)).aclTokens.values,
          t.authMethod ≠ "" → toLower t.authMethod ≠ toLower name := by
  intro s
  have hempty : Referred .empty := ⟨by simp [State.empty], by simp [State.empty]⟩
  have h : Referred s := applyAclOps_referred hempty hentries
  have hstored : ∀ {s : State} (_ : Referred s), ∀ t ∈ s.aclTokens.values, t.authMethod ≠ "" →
      ¬ MethodGone t.authMethod s := by
    intro s h t ht hne hgone
    obtain ⟨m, hm, -⟩ := h.tokens t ht hne
    cases hm.symm.trans hgone
  refine ⟨hstored h, fun r hr hgone => ?_, fun idx names name hname t ht hne heq => ?_⟩
  · obtain ⟨m, hm⟩ := h.rules r hr
    cases hm.symm.trans hgone
  · obtain ⟨hafter, hgone⟩ := AclOp.apply_authMethodDelete idx names h
    have hnamed := hgone name hname
    unfold MethodGone at hnamed
    rw [← heq] at hnamed
    exact hstored hafter t ht hne hnamed

end Methods

section Example

attribute [local instance] ascii keepBytes

/-- A method that takes every bearer token for the name of a service. -/
@[reducible] def bearerNames : Logins where
  validateLogin _ bearerToken := .ok [("name", bearerToken)]
  selects _ _ _ := true
  interpolateHIL _ fields := .ok ((fields.lookup "name").getD "")

attribute [local instance] bearerNames

def kubernetes : ACLAuthMethod := { name := "k8s", type := "kubernetes" }

def anyService : ACLBindingRule :=
  { id := "c0000000-0000-0000-0000-000000000001", authMethod := "k8s", bindType := "service" }

/-- The method, and the rule that binds its tokens to services. -/
def methodSet : List (Nat × AclOp) :=
  [(1, .authMethodSet [kubernetes]), (2, .bindingRuleSet [anyService])]

/-- The tokens of a login at the method, with its name spelled by the client. -/
def loggedIn (spelled : String) : List ACLToken :=
  match login { anyServer with accessors := [sharedAccessor], secrets := [secretOne] }
    { authMethod := spelled, bearerToken := "web" } (applyAclOps .empty methodSet) with
  | (.ok req, _) => [req.token]
  | (.error _, _) => []

/-- A method, a login and the deletion of the method. -/
def loginRun (spelled : String) : List (Nat × AclOp) :=
  methodSet ++ [(3, .tokenSet false false true (loggedIn spelled)),
    (4, .authMethodDelete ["k8s"])]

/-- The token of a login in capital letters is still there when no method is. -/
theorem a_login_outlives_its_method :
    ((applyAclOps .empty (loginRun "K8S")).aclTokens.values.map (·.authMethod),
      (applyAclOps .empty (loginRun "K8S")).aclAuthMethods.values.map (·.name)) =
        (["K8S"], []) := by
  decide +kernel

theorem a_login_ends_with_its_method :
    SpelledRun .empty (loginRun "k8s") ∧
      ∀ t ∈ (applyAclOps .empty (loginRun "k8s")).aclTokens.values, t.authMethod = "" := by
  have hspelled : SpelledRun .empty (loginRun "k8s") := by
    refine ⟨⟨fun m _ e he => ?_, fun m hm m' hm' _ => ?_⟩, trivial, fun t ht m _ hm => ?_,
      trivial, trivial⟩
    · cases he
    · rw [mem_singleton.mp hm, mem_singleton.mp hm']
    · have hnames : ∀ t ∈ loggedIn "k8s", t.authMethod = "k8s" := by decide +kernel
      rw [hnames t ht] at hm ⊢
      have hstored : (AclOp.apply (AclOp.apply .empty (1, .authMethodSet [kubernetes]))
          (2, .bindingRuleSet [anyService])).aclAuthMethods.first (toLower "k8s") =
            some { kubernetes with createIndex := 1, modifyIndex := 1 } := by
        decide +kernel
      obtain rfl := Option.some.inj (hstored.symm.trans hm)
      rfl
  refine ⟨hspelled, fun t ht => ?_⟩
  have h := (tokens_and_rules_refer_to_stored_methods _ hspelled).1 t ht
  by_contra hne
  have hgone : (applyAclOps .empty (loginRun "k8s")).aclAuthMethods = .empty := by decide +kernel
  exact h hne (by rw [MethodGone, hgone]; rfl)

end Example

end OpenGyoza
