-- The tables of the certificate authority, and the log entries that change
-- them. An entry may run more than one transaction, and one of them is
-- never committed.
import OpenGyoza.Store

namespace OpenGyoza

open Memdb Txn Table List

/-! ## Records -/

/-- A root certificate. `certificate` is the encoded form of what the store keeps as it is. -/
structure CARoot where
  id : String
  active : Bool := false
  certificate : String := ""
  createIndex : Nat := 0
  modifyIndex : Nat := 0
deriving DecidableEq

/-- `config` is the encoded form of the settings of the provider. -/
structure CAConfiguration where
  clusterID : String := ""
  provider : String := ""
  config : String := ""
  createIndex : Nat := 0
  modifyIndex : Nat := 0
deriving DecidableEq

structure CAConsulProviderState where
  id : String
  privateKey : String := ""
  rootCert : String := ""
  intermediateCert : String := ""
  createIndex : Nat := 0
  modifyIndex : Nat := 0
deriving DecidableEq

inductive CAOp where
  | setRoots
  | setConfig
  | setProviderState
  | deleteProviderState
  | setRootsAndConfig
  | incrementProviderSerialNumber
  | other (text : String)
deriving DecidableEq

structure CARequest where
  op : CAOp
  index : Nat := 0
  roots : List CARoot := []
  config : Option CAConfiguration := none
  providerState : Option CAConsulProviderState := none

inductive CALeafOp where
  | incrementIndex
  | other (text : String)
deriving DecidableEq

/-- A log entry for the certificate authority. -/
inductive ConnectEntry where
  | ca (req : CARequest)
  | leaf (op : CALeafOp)

/-- What the state machine answers. The first answer is the nil error. -/
inductive ConnectReply where
  | done
  | error (text : String)
  | flag (act : Bool)
  | number (n : Nat)
deriving DecidableEq

section Model

variable [External] {α : Type} {idx : Nat} {rs : List CARoot} {e : ConnectEntry}
  {reply : α → ConnectReply}

/-! ## The tables -/

def caRootKey (r : CARoot) : Except String String :=
  if r.id = "" then .error missingPrimary else .ok r.id

def caProviderKey (p : CAConsulProviderState) : Except String String :=
  if p.id = "" then .error missingPrimary else .ok p.id

/-- The tables of the certificate authority beside the others. The table of the configuration
has one row at most. -/
structure CAState where
  store : State
  roots : Table caRootKey
  config : Option CAConfiguration
  providers : Table caProviderKey

abbrev CATxn (α : Type) := Txn CAState α

@[simps get set]
def CAState.rootTable : Ref CAState caRootKey where
  get := CAState.roots
  set t s := { s with roots := t }

@[simps get set]
def CAState.providerTable : Ref CAState caProviderKey where
  get := CAState.providers
  set t s := { s with providers := t }

def caBuiltinProviderTableName : String := "connect-ca-builtin"
def caBuiltinProviderSerialNumber : String := "connect-ca-builtin-serial"
def caRootTableName : String := "connect-ca-roots"
def caLeafIndexName : String := "connect-ca-leaf-certs"

def CAState.indexOf (s : CAState) (name : String) : Option Nat := s.store.indexOf (.table name)

def CAState.withIndex (s : CAState) (name : String) (idx : Nat) : CAState :=
  { s with store := s.store.withIndex (.table name) idx }

/-- Every write of an index row. -/
def setCAIndex (name : String) (idx : Nat) : CATxn Unit := modify (·.withIndex name idx)

/-- Runs a transaction of its own. It is committed when it returns a value that `good`
accepts. -/
def transact {α : Type} (good : α → Bool) (m : CATxn α) : CATxn α := fun s =>
  ((m s).1, commit m good s)

/-! ## The store functions -/

/-- The configuration as it is stored. The cluster ID stays when none is given. -/
def CAConfiguration.stamped (config : CAConfiguration) (idx : Nat) :
    Option CAConfiguration → CAConfiguration
  | some existing =>
    { config with
      createIndex := existing.createIndex
      clusterID := if config.clusterID = "" then existing.clusterID else config.clusterID
      modifyIndex := idx }
  | none => { config with createIndex := idx, modifyIndex := idx }

def caSetConfigTxn (idx : Nat) (config : CAConfiguration) : CATxn Unit := do
  let prev ← read CAState.config
  modify fun s => { s with config := some (config.stamped idx prev) }

def caSetConfig (idx : Nat) (config : CAConfiguration) : CATxn Unit :=
  transact (fun _ => true) (caSetConfigTxn idx config)

/-- When a check-and-set of the configuration does not count. -/
def refusesConfig (cidx : Nat) : Option CAConfiguration → Bool
  | some e => e.modifyIndex != cidx
  | none => cidx != 0

def caCheckAndSetConfig (idx cidx : Nat) (config : CAConfiguration) : CATxn Bool :=
  transact id do
    let existing ← read CAState.config
    if refusesConfig cidx existing then return false
    caSetConfigTxn idx config
    return true

/-- A root as it is stored. -/
def CARoot.stamped (r : CARoot) (idx : Nat) (existing : Option CARoot) : CARoot :=
  { r with createIndex := (existing.map (·.createIndex)).getD idx, modifyIndex := idx }

def stampRoots (idx : Nat) : List CARoot → CATxn (List CARoot)
  | [] => return []
  | r :: rs => do
    if r.id = "" then fail "Missing CA Root ID"
    else
      let existing ← read (·.roots.first r.id)
      return r.stamped idx existing :: (← stampRoots idx rs)

def caRootSetCAS (idx cidx : Nat) (rs : List CARoot) : CATxn Bool :=
  transact id do
    if (rs.filter (·.active)).length ≠ 1 then fail "there must be exactly one active CA"
    else
      let midx ← read fun s => maxIndexTxn [caRootTableName] s.store
      if midx ≠ cidx then return false
      let rs ← stampRoots idx rs
      modify fun s => { s with roots := Table.empty }
      forEach rs (insert CAState.rootTable)
      setCAIndex caRootTableName idx
      return true

def CAConsulProviderState.stamped (state : CAConsulProviderState) (idx : Nat)
    (existing : Option CAConsulProviderState) : CAConsulProviderState :=
  { state with createIndex := (existing.map (·.createIndex)).getD idx, modifyIndex := idx }

def caSetProviderState (idx : Nat) (state : CAConsulProviderState) : CATxn Bool :=
  transact id do
    let existing ← read (·.providers.first state.id)
    wrap ("failed updating built-in CA state: " ++ ·)
      (insert CAState.providerTable (state.stamped idx existing))
    setCAIndex caBuiltinProviderTableName idx
    return true

/-- Takes a provider state away. The index of the table is written again as it is. -/
def caDeleteProviderState (id : String) : CATxn Unit :=
  transact (fun _ => true) do
    let idx ← read fun s => maxIndexTxn [caBuiltinProviderTableName] s.store
    match ← read (·.providers.first id) with
    | none => return
    | some providerState =>
      delete CAState.providerTable providerState
      setCAIndex caBuiltinProviderTableName idx

def updateMaxIndex (idx : Nat) (name : String) : CATxn Unit := do
  match ← read (·.indexOf name) with
  | none => setCAIndex name idx
  | some cur => if idx > cur then setCAIndex name idx else return

/-- The transaction is not committed. -/
def caLeafSetIndex (index : Nat) : CATxn Unit :=
  transact (fun _ => false) (updateMaxIndex index caLeafIndexName)

def caIncrementProviderSerialNumber : CATxn Nat :=
  transact (fun _ => true) do
    let existing ← read (·.indexOf caBuiltinProviderSerialNumber)
    let highest ← read fun s => maxIndexTxn [caBuiltinProviderTableName] s.store
    let next := existing.getD highest + 1
    setCAIndex caBuiltinProviderSerialNumber next
    return next

/-! ## The log entries -/

/-- An error is the answer, and so is a value. -/
def answer {α : Type} (reply : α → ConnectReply) (m : CATxn α) : CATxn ConnectReply := do
  match ← attempt m with
  | .ok a => return reply a
  | .error text => return .error text

def nilPointer : String := "runtime error: invalid memory address or nil pointer dereference"

def applyConnectCAOperation (req : CARequest) (index : Nat) : CATxn ConnectReply :=
  match req.op with
  | .setConfig =>
    match req.config with
    | none => crash nilPointer
    | some config =>
      if config.modifyIndex ≠ 0 then
        answer .flag (caCheckAndSetConfig index config.modifyIndex config)
      else answer (fun _ => .done) (caSetConfig index config)
  | .setRoots => answer .flag (caRootSetCAS index req.index req.roots)
  | .setProviderState =>
    match req.providerState with
    | none => crash nilPointer
    | some state => answer .flag (caSetProviderState index state)
  | .deleteProviderState =>
    match req.providerState with
    | none => crash nilPointer
    | some state => answer (fun _ => .flag true) (caDeleteProviderState state.id)
  | .setRootsAndConfig => do
    match ← attempt (caRootSetCAS index req.index req.roots) with
    | .error text => return .error text
    | .ok false => return .flag false
    | .ok true =>
      match req.config with
      | none => crash nilPointer
      | some config =>
        answer .flag (caCheckAndSetConfig (index + 1) config.modifyIndex config)
  | .incrementProviderSerialNumber => answer .number caIncrementProviderSerialNumber
  | .other text => return .error ("Invalid CA operation '" ++ text ++ "'")

def applyConnectCALeafOperation (op : CALeafOp) (index : Nat) : CATxn ConnectReply :=
  match op with
  | .incrementIndex => answer (fun _ => .number index) (caLeafSetIndex index)
  | .other text => return .error ("Invalid CA operation '" ++ text ++ "'")

def ConnectEntry.apply (e : ConnectEntry) (index : Nat) : CATxn ConnectReply :=
  match e with
  | .ca req => applyConnectCAOperation req index
  | .leaf op => applyConnectCALeafOperation op index

/-! ## What the store functions do -/

variable {m : CATxn α} {s : CAState}

theorem transact_of_ok {good : α → Bool} {a : α} {t : CAState} (h : m s = (.ok a, t)) :
    transact good m s = (.ok a, if good a then t else s) := by
  unfold transact commit
  rw [h]

theorem transact_of_error {good : α → Bool} {e : Fault} {t : CAState} (h : m s = (.error e, t)) :
    transact good m s = (.error e, s) := by
  unfold transact commit
  rw [h]

/-- The state with a new configuration. -/
def CAState.withConfig (s : CAState) (idx : Nat) (config : CAConfiguration) : CAState :=
  { s with config := some (config.stamped idx s.config) }

/-- The state with other roots. -/
def CAState.withRoots (s : CAState) (idx : Nat) (rs : List CARoot) : CAState :=
  { s with roots := Table.empty.putAll (rs.map fun r => r.stamped idx (s.roots.first r.id))
           store := s.store.withIndex (.table caRootTableName) idx }

theorem caCheckAndSetConfig_eq (idx cidx : Nat) (config : CAConfiguration) (s : CAState) :
    caCheckAndSetConfig idx cidx config s =
      if refusesConfig cidx s.config then (.ok false, s)
      else (.ok true, s.withConfig idx config) := by
  unfold caCheckAndSetConfig transact Txn.commit
  simp only [bind, Txn.read]
  cases refusesConfig cidx s.config <;> rfl

/-- When new roots are taken: one of them is active, the index of the table is the one given,
and each has an ID. -/
def CARequest.RootsAccepted (req : CARequest) (s : CAState) : Prop :=
  (req.roots.filter (·.active)).length = 1 ∧
    maxIndexTxn [caRootTableName] s.store = req.index ∧ ∀ r ∈ req.roots, r.id ≠ ""

theorem stampRoots_eq (h : ∀ r ∈ rs, r.id ≠ "") :
    stampRoots idx rs s = (.ok (rs.map fun r => r.stamped idx (s.roots.first r.id)), s) := by
  induction rs with
  | nil => rfl
  | cons r rs ih =>
    unfold stampRoots
    rw [if_neg (h r (by simp))]
    have hrest := ih fun q hq => h q (mem_cons_of_mem _ hq)
    simp only [bind, Txn.read, hrest]
    rfl

theorem stampRoots_fails (h : ∃ r ∈ rs, r.id = "") :
    stampRoots idx rs s = (.error (.error "Missing CA Root ID"), s) := by
  induction rs with
  | nil => simp at h
  | cons r rs ih =>
    unfold stampRoots
    by_cases hr : r.id = ""
    · rw [if_pos hr]
      rfl
    · rw [if_neg hr]
      have hrest : ∃ r ∈ rs, r.id = "" := by simpa [hr] using h
      simp [bind, Txn.read, ih hrest]

omit [External] in
theorem caRootKey_stamped {r : CARoot} (h : r.id ≠ "") (idx : Nat) (existing : Option CARoot) :
    caRootKey (r.stamped idx existing) = .ok r.id := by
  unfold caRootKey CARoot.stamped
  rw [if_neg h]

theorem insertRoots_eq (h : ∀ r ∈ rs, caRootKey r = .ok r.id) (s : CAState) :
    forEach rs (insert CAState.rootTable) s =
      (.ok (), { s with roots := s.roots.putAll rs }) := by
  induction rs generalizing s with
  | nil => rfl
  | cons r rs ih =>
    have hinsert : insert CAState.rootTable r s =
        (.ok (), { s with roots := s.roots.upsert r }) := by
      unfold Txn.insert
      rw [h r (by simp)]
      rfl
    unfold forEach
    rw [bind_of_ok hinsert, ih fun q hq => h q (mem_cons_of_mem _ hq)]
    rfl

theorem caRootSetCAS_of_accepted {req : CARequest} (h : req.RootsAccepted s) :
    caRootSetCAS idx req.index req.roots s = (.ok true, s.withRoots idx req.roots) := by
  obtain ⟨hactive, hindex, hids⟩ := h
  have hkeys : ∀ r ∈ req.roots.map fun r => r.stamped idx (s.roots.first r.id),
      caRootKey r = .ok r.id := by
    intro r hr
    obtain ⟨q, hq, rfl⟩ := mem_map.mp hr
    exact caRootKey_stamped (hids q hq) _ _
  unfold caRootSetCAS
  rw [if_neg (by simp [hactive])]
  refine transact_of_ok (eq_of_wp ?_)
  rw [wp_bind, wp_read, andThen_ok, if_neg (by simp [hindex]), wp_bind,
    wp_of_eq (stampRoots_eq hids), andThen_ok, wp_bind, wp_modify, andThen_ok,
    wp_bind, wp_of_eq (insertRoots_eq hkeys _)]
  exact ⟨rfl, rfl⟩

theorem caRootSetCAS_of_refused {req : CARequest} (h : ¬ req.RootsAccepted s) :
    caRootSetCAS idx req.index req.roots s = (.ok false, s) ∨
      ∃ text, caRootSetCAS idx req.index req.roots s = (.error (.error text), s) := by
  unfold caRootSetCAS
  by_cases hactive : (req.roots.filter (·.active)).length = 1
  · rw [if_neg (by simp [hactive])]
    by_cases hindex : maxIndexTxn [caRootTableName] s.store = req.index
    · right
      have hid : ∃ r ∈ req.roots, r.id = "" := by
        by_contra hnone
        exact h ⟨hactive, hindex, fun r hr hempty => hnone ⟨r, hr, hempty⟩⟩
      refine ⟨"Missing CA Root ID", transact_of_error (t := s) (eq_of_wp ?_)⟩
      rw [wp_bind, wp_read, andThen_ok, if_neg (by simp [hindex]), wp_bind,
        wp_of_eq (stampRoots_fails hid)]
      exact ⟨rfl, rfl⟩
    · left
      refine transact_of_ok (t := s) (eq_of_wp ?_)
      rw [wp_bind, wp_read, andThen_ok, if_pos hindex]
      exact ⟨rfl, rfl⟩
  · right
    rw [if_pos hactive]
    exact ⟨_, transact_of_error rfl⟩

/-! ## Replies -/

/-- The roots of an entry are the roots in the table. -/
structure RootsStored (idx : Nat) (roots : List CARoot) (s s' : CAState) : Prop where
  each : ∀ r ∈ roots, s'.roots.first r.id = some (r.stamped idx (s.roots.first r.id))
  only : ∀ r ∈ s'.roots.values, ∃ q ∈ roots, q.id = r.id
  index : s'.indexOf caRootTableName = some idx

/-- Every write that an entry stands for is in the state `s'` after it. -/
def ConnectEntry.Visible (idx : Nat) (reply : ConnectReply) (s s' : CAState) : ConnectEntry → Prop
  | .ca req =>
    match req.op with
    | .setRoots => RootsStored idx req.roots s s'
    | .setConfig => ∃ config, req.config = some config ∧
        s'.config = some (config.stamped idx s.config)
    | .setProviderState => ∃ state, req.providerState = some state ∧
        s'.providers.first state.id = some (state.stamped idx (s.providers.first state.id)) ∧
        s'.indexOf caBuiltinProviderTableName = some idx
    | .deleteProviderState => ∃ state, req.providerState = some state ∧
        s'.providers.first state.id = none
    | .setRootsAndConfig => RootsStored idx req.roots s s' ∧ ∃ config, req.config = some config ∧
        s'.config = some (config.stamped (idx + 1) s.config)
    | .incrementProviderSerialNumber => ∃ n, reply = .number n ∧
        s'.indexOf caBuiltinProviderSerialNumber = some n
    | .other _ => False
  | .leaf .incrementIndex => ∃ m, s'.indexOf caLeafIndexName = some m ∧ idx ≤ m
  | .leaf (.other _) => False

/-- The reply to an entry tells what became of it. After a crash there is no reply. -/
def ConnectEntry.RepliesFaithfully (e : ConnectEntry) (idx : Nat) (s : CAState) : Prop :=
  match e.apply idx s with
  | (.ok (.error _), s') => s' = s
  | (.ok (.flag false), s') => s' = s
  | (.ok reply, s') => e.Visible idx reply s s'
  | (.error _, _) => True

/-- Roots with the same ID are the same but for their indexes. -/
def OneRootPerID (roots : List CARoot) : Prop :=
  ∀ r ∈ roots, ∀ q ∈ roots, r.id = q.id → r.active = q.active ∧ r.certificate = q.certificate

/-- The index of a check-and-set is that of the stored configuration, or 0 if there is none. -/
def CAConfiguration.Accepted (config : CAConfiguration) (s : CAState) : Prop :=
  match s.config with
  | some existing => existing.modifyIndex = config.modifyIndex
  | none => config.modifyIndex = 0

/-- When an entry does what its reply says. -/
def ConnectEntry.Sure (idx : Nat) (s : CAState) : ConnectEntry → Prop
  | .ca req =>
    match req.op, req.config with
    | .setRoots, _ => req.RootsAccepted s → OneRootPerID req.roots
    | .setRootsAndConfig, some config => req.RootsAccepted s →
        (config.Accepted s → OneRootPerID req.roots) ∧
        (¬ config.Accepted s → s.withRoots idx req.roots = s)
    | _, _ => True
  | .leaf .incrementIndex => ∃ m, s.indexOf caLeafIndexName = some m ∧ idx ≤ m
  | .leaf (.other _) => True

theorem indexOf_caWithIndex (s : CAState) (name : String) (idx : Nat) :
    (s.withIndex name idx).indexOf name = some idx := by
  unfold CAState.withIndex CAState.indexOf
  rw [indexOf_withIndex, if_pos rfl]

variable {s' : CAState}

theorem rootsStored_iff {roots : List CARoot} (hids : ∀ r ∈ roots, r.id ≠ "")
    (hroots : s'.roots = (s.withRoots idx roots).roots)
    (hstore : s'.store = (s.withRoots idx roots).store) :
    RootsStored idx roots s s' ↔ OneRootPerID roots := by
  constructor
  · intro h r hr q hq hid
    have hsame := h.each r hr
    rw [hid, h.each q hq] at hsame
    have hrow : q.stamped idx (s.roots.first q.id) = r.stamped idx (s.roots.first q.id) :=
      Option.some.inj hsame
    exact ⟨(congrArg CARoot.active hrow).symm, (congrArg CARoot.certificate hrow).symm⟩
  · intro h
    refine ⟨fun r hr => ?_, fun r hr => ?_, ?_⟩
    · rw [hroots]
      refine first_putAll_of_unique (mem_map.mpr ⟨r, hr, rfl⟩)
        (caRootKey_stamped (hids r hr) _ _) fun w hw hkey => ?_
      obtain ⟨q, hq, rfl⟩ := mem_map.mp hw
      rw [caRootKey_stamped (hids q hq)] at hkey
      have hid : q.id = r.id := Except.ok.inj hkey
      obtain ⟨hactive, hcertificate⟩ := h q hq r hr hid
      simp [CARoot.stamped, hid, hactive, hcertificate]
    · rw [hroots] at hr
      rcases mem_values_of_putAll hr with hr | hr
      · obtain ⟨q, hq, rfl⟩ := mem_map.mp hr
        exact ⟨q, hq, rfl⟩
      · simp at hr
    · unfold CAState.indexOf
      rw [hstore]
      exact indexOf_caWithIndex s caRootTableName idx

theorem refusesConfig_iff {config : CAConfiguration} :
    refusesConfig config.modifyIndex s.config = true ↔ ¬ config.Accepted s := by
  unfold refusesConfig CAConfiguration.Accepted
  cases s.config <;> simp

def CAState.withProvider (s : CAState) (idx : Nat) (state : CAConsulProviderState) : CAState :=
  { s with providers := s.providers.upsert (state.stamped idx (s.providers.first state.id))
           store := s.store.withIndex (.table caBuiltinProviderTableName) idx }

def CAState.withoutProvider (s : CAState) (id : String) : CAState :=
  { s with providers := s.providers.erase id
           store := s.store.withIndex (.table caBuiltinProviderTableName)
             (maxIndexTxn [caBuiltinProviderTableName] s.store) }

theorem caSetProviderState_cases (idx : Nat) (state : CAConsulProviderState) (s : CAState) :
    (∃ text, caSetProviderState idx state s = (.error (.error text), s)) ∨
      caSetProviderState idx state s = (.ok true, s.withProvider idx state) ∧
        (s.withProvider idx state).providers.first state.id =
          some (state.stamped idx (s.providers.first state.id)) := by
  by_cases hid : state.id = ""
  · have hkey : caProviderKey (state.stamped idx (s.providers.first state.id)) =
        .error missingPrimary := by
      exact if_pos hid
    refine .inl ⟨"failed updating built-in CA state: " ++ missingPrimary,
      transact_of_error (t := s) (eq_of_wp ?_)⟩
    rw [wp_bind, wp_read, andThen_ok, wp_bind, wp_wrap,
      wp_insert_error _ hkey]
    exact ⟨rfl, rfl⟩
  · have hkey : caProviderKey (state.stamped idx (s.providers.first state.id)) = .ok state.id := by
      exact if_neg hid
    refine .inr ⟨transact_of_ok (eq_of_wp ?_),
      first_upsert_self hkey⟩
    rw [wp_bind, wp_read, andThen_ok, wp_bind, wp_wrap,
      wp_insert _ hkey]
    exact ⟨rfl, rfl⟩

theorem caDeleteProviderState_cases (id : String) (s : CAState) :
    (caDeleteProviderState id s = (.ok (), s) ∧ s.providers.first id = none) ∨
      caDeleteProviderState id s = (.ok (), s.withoutProvider id) := by
  cases hrow : s.providers.first id with
  | none =>
    refine .inl ⟨transact_of_ok (eq_of_wp ?_), rfl⟩
    rw [wp_bind, wp_read, andThen_ok, wp_bind, wp_read, andThen_ok, hrow]
    exact ⟨rfl, rfl⟩
  | some state =>
    refine .inr (transact_of_ok (eq_of_wp ?_))
    rw [wp_bind, wp_read, andThen_ok, wp_bind, wp_read, andThen_ok, hrow]
    rw [wp_bind, wp_delete CAState.providerTable (key_of_first hrow) hrow]
    exact ⟨rfl, rfl⟩

theorem answer_of_ok {a : α} (h : m s = (.ok a, s')) : answer reply m s = (.ok (reply a), s') := by
  unfold answer
  rw [bind_of_ok (attempt_of_ok h)]
  rfl

theorem answer_of_error {text : String} (h : m s = (.error (.error text), s')) :
    answer reply m s = (.ok (.error text), s') := by
  unfold answer
  rw [bind_of_ok (attempt_of_error h)]
  rfl

theorem faithfully_of_failure {reply : ConnectReply} (h : e.apply idx s = (.ok reply, s'))
    (hreply : reply = .flag false ∨ ∃ text, reply = .error text) :
    e.RepliesFaithfully idx s ↔ s' = s := by
  unfold ConnectEntry.RepliesFaithfully
  rw [h]
  rcases hreply with rfl | ⟨text, rfl⟩ <;> rfl

theorem faithfully_of_success {reply : ConnectReply} (h : e.apply idx s = (.ok reply, s'))
    (hreply : reply = .done ∨ reply = .flag true ∨ ∃ n, reply = .number n) :
    e.RepliesFaithfully idx s ↔ e.Visible idx reply s s' := by
  unfold ConnectEntry.RepliesFaithfully
  rw [h]
  rcases hreply with rfl | rfl | ⟨n, rfl⟩ <;> rfl

theorem faithfully_of_crash {fault : Fault} (h : (e.apply idx s).1 = .error fault) :
    e.RepliesFaithfully idx s := by
  unfold ConnectEntry.RepliesFaithfully
  rcases happly : e.apply idx s with ⟨r, s'⟩
  rw [happly] at h
  obtain rfl := h
  trivial

section Operations

variable {idx index : Nat} {roots : List CARoot} {config : Option CAConfiguration}
  {state : Option CAConsulProviderState} {s : CAState}

theorem apply_setConfig (idx index : Nat) (roots : List CARoot)
    (state : Option CAConsulProviderState) (s : CAState) (config : CAConfiguration) :
    (ConnectEntry.ca ⟨.setConfig, index, roots, some config, state⟩).apply idx s =
      (if config.modifyIndex ≠ 0 then
        answer .flag (caCheckAndSetConfig idx config.modifyIndex config)
      else answer (fun _ => .done) (caSetConfig idx config)) s := rfl

theorem setConfig_faithful :
    (ConnectEntry.ca ⟨.setConfig, index, roots, config, state⟩).RepliesFaithfully idx s := by
  cases config with
  | none => exact faithfully_of_crash rfl
  | some config =>
    have happly := apply_setConfig idx index roots state s config
    by_cases hzero : config.modifyIndex = 0
    · have hset : caSetConfig idx config s = (.ok (), s.withConfig idx config) := rfl
      rw [if_neg (not_not.mpr hzero), answer_of_ok hset] at happly
      exact (faithfully_of_success happly (.inl rfl)).mpr ⟨config, rfl, rfl⟩
    · rw [if_pos hzero] at happly
      have hcas := caCheckAndSetConfig_eq idx config.modifyIndex config s
      by_cases hrefused : refusesConfig config.modifyIndex s.config = true
      · rw [if_pos hrefused] at hcas
        rw [answer_of_ok hcas] at happly
        exact (faithfully_of_failure happly (.inl rfl)).mpr rfl
      · rw [if_neg hrefused] at hcas
        rw [answer_of_ok hcas] at happly
        exact (faithfully_of_success happly (.inr (.inl rfl))).mpr ⟨config, rfl, rfl⟩

theorem setProviderState_faithful :
    (ConnectEntry.ca ⟨.setProviderState, index, roots, config, state⟩).RepliesFaithfully idx s := by
  cases state with
  | none => exact faithfully_of_crash rfl
  | some state =>
    rcases caSetProviderState_cases idx state s with ⟨text, h⟩ | ⟨h, hrow⟩
    · exact Iff.mpr (faithfully_of_failure (answer_of_error h) (.inr ⟨text, rfl⟩)) rfl
    · exact Iff.mpr (faithfully_of_success (answer_of_ok h) (.inr (.inl rfl)))
        ⟨state, rfl, hrow, indexOf_caWithIndex s _ idx⟩

theorem deleteProviderState_faithful :
    (ConnectEntry.ca
      ⟨.deleteProviderState, index, roots, config, state⟩).RepliesFaithfully idx s := by
  cases state with
  | none => exact faithfully_of_crash rfl
  | some state =>
    rcases caDeleteProviderState_cases state.id s with ⟨h, hrow⟩ | h
    · exact Iff.mpr (faithfully_of_success (answer_of_ok h) (.inr (.inl rfl))) ⟨state, rfl, hrow⟩
    · exact Iff.mpr (faithfully_of_success (answer_of_ok h) (.inr (.inl rfl)))
        ⟨state, rfl, first_erase_self _ _⟩

theorem incrementSerial_faithful :
    (ConnectEntry.ca
      ⟨.incrementProviderSerialNumber, index, roots, config, state⟩).RepliesFaithfully idx s := by
  have hset : caIncrementProviderSerialNumber s = (.ok _, s.withIndex _ _) := transact_of_ok rfl
  exact Iff.mpr (faithfully_of_success (answer_of_ok hset) (.inr (.inr ⟨_, rfl⟩)))
    ⟨_, rfl, indexOf_caWithIndex _ _ _⟩

theorem setRoots_faithful_iff :
    (ConnectEntry.ca ⟨.setRoots, index, roots, config, state⟩).RepliesFaithfully idx s ↔
      (CARequest.RootsAccepted ⟨.setRoots, index, roots, config, state⟩ s →
        OneRootPerID roots) := by
  by_cases h : CARequest.RootsAccepted ⟨.setRoots, index, roots, config, state⟩ s
  · have hset : caRootSetCAS idx index roots s = _ := caRootSetCAS_of_accepted h
    rw [forall_prop_of_true h, ← rootsStored_iff h.2.2 rfl rfl]
    exact faithfully_of_success (answer_of_ok hset) (.inr (.inl rfl))
  · refine iff_of_true ?_ fun hacc => absurd hacc h
    rcases caRootSetCAS_of_refused h with hset | ⟨text, hset⟩
    · exact Iff.mpr (faithfully_of_failure (answer_of_ok hset) (.inl rfl)) rfl
    · exact Iff.mpr (faithfully_of_failure (answer_of_error hset) (.inr ⟨text, rfl⟩)) rfl

theorem setRootsAndConfig_of_refused
    (h : ¬ CARequest.RootsAccepted ⟨.setRootsAndConfig, index, roots, config, state⟩ s) :
    (ConnectEntry.ca
      ⟨.setRootsAndConfig, index, roots, config, state⟩).RepliesFaithfully idx s := by
  rcases caRootSetCAS_of_refused h with hset | ⟨text, hset⟩
  · exact Iff.mpr (faithfully_of_failure (bind_of_ok (attempt_of_ok hset)) (.inl rfl)) rfl
  · exact Iff.mpr (faithfully_of_failure (bind_of_ok (attempt_of_error hset))
      (.inr ⟨text, rfl⟩)) rfl

theorem apply_setRootsAndConfig (idx : Nat)
    (h : CARequest.RootsAccepted ⟨.setRootsAndConfig, index, roots, config, state⟩ s) :
    (ConnectEntry.ca ⟨.setRootsAndConfig, index, roots, config, state⟩).apply idx s =
      config.elim (crash nilPointer)
        (fun c => answer .flag (caCheckAndSetConfig (idx + 1) c.modifyIndex c))
        (s.withRoots idx roots) := by
  cases config <;> exact bind_of_ok (attempt_of_ok (caRootSetCAS_of_accepted h))

theorem setRootsAndConfig_of_nil :
    (ConnectEntry.ca ⟨.setRootsAndConfig, index, roots, none, state⟩).RepliesFaithfully idx s := by
  by_cases h : CARequest.RootsAccepted ⟨.setRootsAndConfig, index, roots, none, state⟩ s
  · exact faithfully_of_crash (congrArg Prod.fst (apply_setRootsAndConfig idx h))
  · exact setRootsAndConfig_of_refused h

theorem setRootsAndConfig_faithful_iff {config : CAConfiguration} :
    (ConnectEntry.ca
      ⟨.setRootsAndConfig, index, roots, some config, state⟩).RepliesFaithfully idx s ↔
      (CARequest.RootsAccepted ⟨.setRootsAndConfig, index, roots, some config, state⟩ s →
        (config.Accepted s → OneRootPerID roots) ∧
        (¬ config.Accepted s → s.withRoots idx roots = s)) := by
  by_cases h : CARequest.RootsAccepted ⟨.setRootsAndConfig, index, roots, some config, state⟩ s
  · have happly := apply_setRootsAndConfig idx h
    rw [Option.elim_some] at happly
    have hcas := caCheckAndSetConfig_eq (idx + 1) config.modifyIndex config (s.withRoots idx roots)
    have hconfig : (s.withRoots idx roots).config = s.config := rfl
    rw [hconfig] at hcas
    rw [forall_prop_of_true h]
    by_cases hacc : config.Accepted s
    · rw [if_neg (fun hrefused => refusesConfig_iff.mp hrefused hacc)] at hcas
      rw [answer_of_ok hcas] at happly
      rw [faithfully_of_success happly (.inr (.inl rfl))]
      have hstored : RootsStored idx roots s ((s.withRoots idx roots).withConfig (idx + 1) config) ↔
          OneRootPerID roots := rootsStored_iff h.2.2 rfl rfl
      constructor
      · intro hvisible
        exact ⟨fun _ => hstored.mp hvisible.1, fun hnot => absurd hacc hnot⟩
      · intro hone
        exact ⟨hstored.mpr (hone.1 hacc), config, rfl, rfl⟩
    · rw [if_pos (refusesConfig_iff.mpr hacc)] at hcas
      rw [answer_of_ok hcas] at happly
      rw [faithfully_of_failure happly (.inl rfl)]
      constructor
      · intro hsame
        exact ⟨fun hacc' => absurd hacc' hacc, fun _ => hsame⟩
      · intro hsame
        exact hsame.2 hacc
  · exact iff_of_true (setRootsAndConfig_of_refused h) fun hacc => absurd hacc h

theorem updateMaxIndex_ok (idx : Nat) (name : String) (s : CAState) :
    ∃ t, updateMaxIndex idx name s = (.ok (), t) := by
  unfold updateMaxIndex
  simp only [bind, Txn.read]
  cases s.indexOf name with
  | none => exact ⟨_, rfl⟩
  | some cur =>
    by_cases h : idx > cur
    · simp only [if_pos h]
      exact ⟨_, rfl⟩
    · simp only [if_neg h]
      exact ⟨_, rfl⟩

theorem incrementIndex_faithful_iff :
    (ConnectEntry.leaf .incrementIndex).RepliesFaithfully idx s ↔
      ∃ m, s.indexOf caLeafIndexName = some m ∧ idx ≤ m := by
  have hset : caLeafSetIndex idx s = (.ok (), s) := by
    obtain ⟨t, ht⟩ := updateMaxIndex_ok idx caLeafIndexName s
    exact transact_of_ok ht
  exact faithfully_of_success (answer_of_ok hset) (.inr (.inr ⟨idx, rfl⟩))

end Operations

/-- The reply to an entry is true to what it did exactly if, for entries that set roots, roots
with the same ID are the same and the configuration that comes with them is accepted, and, for
entries that raise the index of the leaf certificates, there is nothing to raise. -/
theorem replies_are_faithful_iff (e : ConnectEntry) (idx : Nat) (s : CAState) :
    e.RepliesFaithfully idx s ↔ e.Sure idx s := by
  cases e with
  | leaf op =>
    cases op with
    | incrementIndex => exact incrementIndex_faithful_iff
    | other text => exact iff_of_true rfl trivial
  | ca req =>
    obtain ⟨op, index, roots, config, state⟩ := req
    cases op with
    | setRoots => exact setRoots_faithful_iff
    | setConfig => exact iff_of_true setConfig_faithful trivial
    | setProviderState => exact iff_of_true setProviderState_faithful trivial
    | deleteProviderState => exact iff_of_true deleteProviderState_faithful trivial
    | setRootsAndConfig =>
      cases config with
      | none => exact iff_of_true setRootsAndConfig_of_nil trivial
      | some config => exact setRootsAndConfig_faithful_iff
    | incrementProviderSerialNumber => exact iff_of_true incrementSerial_faithful trivial
    | other text => exact iff_of_true rfl trivial

end Model

section Example

attribute [local instance] ascii

def newAuthority : CAState where
  store := .empty
  roots := .empty
  config := some { provider := "consul", createIndex := 1, modifyIndex := 1 }
  providers := .empty

/-- Roots together with a configuration whose index is out of date. -/
def staleConfig : ConnectEntry :=
  .ca { op := .setRootsAndConfig
        roots := [{ id := "r1", active := true }]
        config := some { provider := "vault", modifyIndex := 9 } }

/-- The reply is false, and the roots are in the store. The reply is an index, and nothing has
become of it. -/
theorem replies_can_be_wrong :
    ((staleConfig.apply 5 newAuthority).1 = .ok (.flag false) ∧
      newAuthority.roots.first "r1" = none ∧
      (staleConfig.apply 5 newAuthority).2.roots.first "r1" =
        some { id := "r1", active := true, createIndex := 5, modifyIndex := 5 }) ∧
    (((ConnectEntry.leaf .incrementIndex).apply 5 newAuthority).1 = .ok (.number 5) ∧
      ((ConnectEntry.leaf .incrementIndex).apply 5 newAuthority).2.indexOf caLeafIndexName =
        none) := by
  decide +kernel

end Example

end OpenGyoza
