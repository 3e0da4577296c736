-- Versions of the configuration of the certificate authority. The index of a
-- configuration should tell which one it is. An entry that sets roots and
-- configuration together stamps it with the index after its own.
import OpenGyoza.ConnectCA

namespace OpenGyoza

open Memdb Txn List ConnectEntry

section Laws

variable [External] {idx : Nat} {s : CAState} {e : ConnectEntry} {s' : CAState} {n : Nat}

/-! ## Reads -/

def caConfigTxn (s : CAState) : Nat × Option CAConfiguration :=
  ((s.config.map (·.modifyIndex)).getD 0, s.config)

def caRootsTxn (s : CAState) : Nat × List CARoot :=
  (maxIndexTxn [caRootTableName] s.store, s.roots.values)

def caRootsAndConfig (s : CAState) : Nat × List CARoot × Option CAConfiguration :=
  let (confIdx, config) := caConfigTxn s
  let (rootsIdx, roots) := caRootsTxn s
  (if confIdx > rootsIdx then confIdx else rootsIdx, roots, config)

/-- The index of the stored configuration, or 0. -/
def CAState.version (s : CAState) : Nat := (caConfigTxn s).1

/-- The index of the table of roots, or 0. -/
def CAState.rootsIndex (s : CAState) : Nat := (caRootsTxn s).1

theorem caRootsAndConfig_index (s : CAState) :
    (caRootsAndConfig s).1 = max s.version s.rootsIndex := by
  simp only [caRootsAndConfig, CAState.version, CAState.rootsIndex]
  split <;> omega

/-! ## What an entry may change -/

/-- All that an entry may do to the roots and the configuration. -/
inductive CAStep (idx : Nat) (s : CAState) : ConnectEntry → CAState → Prop
  | same {e : ConnectEntry} {s' : CAState} (hconfig : s'.config = s.config)
      (hroots : s'.roots = s.roots) (hindex : s'.rootsIndex = s.rootsIndex) : CAStep idx s e s'
  | roots {req : CARequest} (hop : req.op = .setRoots ∨ req.op = .setRootsAndConfig) :
      CAStep idx s (.ca req) (s.withRoots idx req.roots)
  | config {req : CARequest} {config : CAConfiguration} (hop : req.op = .setConfig)
      (hgiven : req.config = some config) (hacc : config.modifyIndex ≠ 0 → config.Accepted s) :
      CAStep idx s (.ca req) (s.withConfig idx config)
  | both {req : CARequest} {config : CAConfiguration} (hop : req.op = .setRootsAndConfig)
      (hgiven : req.config = some config) (hacc : config.Accepted s) :
      CAStep idx s (.ca req) ((s.withRoots idx req.roots).withConfig (idx + 1) config)

theorem rootsIndex_withRoots (s : CAState) (idx : Nat) (rs : List CARoot) :
    (s.withRoots idx rs).rootsIndex = idx := by
  simp [CAState.rootsIndex, caRootsTxn, maxIndexTxn, maxOf, CAState.withRoots, indexOf_withIndex]

theorem CAStep.of_index {name : String} (hname : caRootTableName ≠ name)
    (hconfig : s'.config = s.config) (hroots : s'.roots = s.roots)
    (hstore : s'.store = s.store.withIndex (.table name) n) : CAStep idx s e s' := by
  refine .same hconfig hroots ?_
  simp [CAState.rootsIndex, caRootsTxn, maxIndexTxn, maxOf, hstore, indexOf_withIndex, hname]

theorem answer_snd {α : Type} (reply : α → ConnectReply) (m : CATxn α) (s : CAState) :
    (answer reply m s).2 = (m s).2 := by
  rcases h : m s with ⟨(text | text) | a, s'⟩ <;>
    simp [answer, bind, Txn.attempt, h, Txn.caught, pure]

section Step

variable {req : CARequest}

theorem setConfig_step (hop : req.op = .setConfig) :
    CAStep idx s (.ca req) ((ca req).apply idx s).2 := by
  obtain ⟨op, index, roots, config, state⟩ := req
  obtain rfl : op = .setConfig := hop
  cases config with
  | none => exact .same rfl rfl rfl
  | some config =>
    rw [apply_setConfig]
    split
    · rw [answer_snd, caCheckAndSetConfig_eq]
      split
      · exact .same rfl rfl rfl
      · rename_i haccepted
        exact .config rfl rfl fun _ => not_not.mp (mt refusesConfig_iff.mpr haccepted)
    · rename_i hzero
      rw [answer_snd]
      exact .config rfl rfl fun h => absurd h hzero

theorem setRoots_step (hop : req.op = .setRoots) :
    CAStep idx s (.ca req) ((ca req).apply idx s).2 := by
  have happly : (ca req).apply idx s =
      answer .flag (caRootSetCAS idx req.index req.roots) s := by
    simp [apply, applyConnectCAOperation, hop]
  rw [happly, answer_snd]
  by_cases haccepted : req.RootsAccepted s
  · rw [caRootSetCAS_of_accepted haccepted]
    exact .roots (.inl hop)
  · rcases caRootSetCAS_of_refused haccepted with hset | ⟨text, hset⟩ <;> rw [hset] <;>
      exact .same rfl rfl rfl

theorem setRootsAndConfig_step (hop : req.op = .setRootsAndConfig) :
    CAStep idx s (.ca req) ((ca req).apply idx s).2 := by
  obtain ⟨op, index, roots, config, state⟩ := req
  obtain rfl : op = .setRootsAndConfig := hop
  by_cases haccepted : CARequest.RootsAccepted ⟨.setRootsAndConfig, index, roots, config, state⟩ s
  · rw [apply_setRootsAndConfig idx haccepted]
    cases config with
    | none => exact .roots (.inr rfl)
    | some config =>
      rw [Option.elim_some, answer_snd, caCheckAndSetConfig_eq]
      split
      · exact .roots (.inr rfl)
      · rename_i hkept
        exact .both rfl rfl (not_not.mp (mt refusesConfig_iff.mpr hkept))
  · have hrefused : ((ca
        ⟨.setRootsAndConfig, index, roots, config, state⟩).apply idx s).2 = s := by
      rcases caRootSetCAS_of_refused haccepted with hset | ⟨text, hset⟩
      · exact congrArg Prod.snd (bind_of_ok (attempt_of_ok hset))
      · exact congrArg Prod.snd (bind_of_ok (attempt_of_error hset))
    rw [hrefused]
    exact .same rfl rfl rfl

theorem setProviderState_step (hop : req.op = .setProviderState) :
    CAStep idx s (.ca req) ((ca req).apply idx s).2 := by
  obtain ⟨op, index, roots, config, state⟩ := req
  obtain rfl : op = .setProviderState := hop
  cases state with
  | none => exact .same rfl rfl rfl
  | some state =>
    change CAStep idx s _ (answer .flag (caSetProviderState idx state) s).2
    rw [answer_snd]
    rcases caSetProviderState_cases idx state s with ⟨text, h⟩ | ⟨h, -⟩ <;> rw [h]
    · exact .same rfl rfl rfl
    · exact .of_index (by decide) rfl rfl rfl

theorem deleteProviderState_step (hop : req.op = .deleteProviderState) :
    CAStep idx s (.ca req) ((ca req).apply idx s).2 := by
  obtain ⟨op, index, roots, config, state⟩ := req
  obtain rfl : op = .deleteProviderState := hop
  cases state with
  | none => exact .same rfl rfl rfl
  | some state =>
    change CAStep idx s _ (answer (fun _ => .flag true) (caDeleteProviderState state.id) s).2
    rw [answer_snd]
    rcases caDeleteProviderState_cases state.id s with ⟨h, -⟩ | h <;> rw [h]
    · exact .same rfl rfl rfl
    · exact .of_index (by decide) rfl rfl rfl

theorem ConnectEntry.step (e : ConnectEntry) (idx : Nat) (s : CAState) :
    CAStep idx s e (e.apply idx s).2 := by
  cases e with
  | leaf op =>
    cases op with
    | incrementIndex =>
      obtain ⟨t, ht⟩ := updateMaxIndex_ok idx caLeafIndexName s
      have hset : caLeafSetIndex idx s = (.ok (), s) := transact_of_ok ht
      change CAStep idx s _ (answer _ (caLeafSetIndex idx) s).2
      rw [answer_snd, hset]
      exact .same rfl rfl rfl
    | other text => exact .same rfl rfl rfl
  | ca req =>
    cases hop : req.op with
    | setRoots => exact setRoots_step hop
    | setConfig => exact setConfig_step hop
    | setProviderState => exact setProviderState_step hop
    | deleteProviderState => exact deleteProviderState_step hop
    | setRootsAndConfig => exact setRootsAndConfig_step hop
    | incrementProviderSerialNumber =>
      have happly : (ca req).apply idx s =
          answer .number caIncrementProviderSerialNumber s := by
        simp [apply, applyConnectCAOperation, hop]
      have hset : caIncrementProviderSerialNumber s = (.ok _, s.withIndex _ _) := transact_of_ok rfl
      rw [happly, answer_snd, hset]
      exact .of_index (by decide) rfl rfl rfl
    | other text =>
      have happly : ((ca req).apply idx s).2 = s := by
        simp only [apply, applyConnectCAOperation, hop]
        rfl
      rw [happly]
      exact .same rfl rfl rfl

end Step

/-! ## One entry -/

def ConnectEntry.expected : ConnectEntry → Option Nat
  | .ca req =>
    match req.op, req.config with
    | .setConfig, some config => if config.modifyIndex = 0 then none else some config.modifyIndex
    | .setRootsAndConfig, some config => some config.modifyIndex
    | _, _ => none
  | .leaf _ => none

/-- The entry sets roots or the configuration. -/
def ConnectEntry.sets : ConnectEntry → Bool
  | .ca req => req.op = .setRoots || req.op = .setConfig || req.op = .setRootsAndConfig
  | .leaf _ => false

/-- The stored configuration does not have the index of the entry already. -/
def ConnectEntry.Timely (e : ConnectEntry) (idx : Nat) (s : CAState) : Prop :=
  e.sets = true → ∀ config, s.config = some config → config.modifyIndex ≠ idx

/-- The indexes in the state up to the entry with index `b`. -/
structure CABound (b : Nat) (s : CAState) : Prop where
  version : s.version ≤ b + 1
  roots : s.rootsIndex ≤ b

theorem version_withConfig (s : CAState) (idx : Nat) (config : CAConfiguration) :
    (s.withConfig idx config).version = idx := by
  unfold CAState.withConfig CAConfiguration.stamped CAState.version caConfigTxn
  cases s.config <;> rfl

theorem version_of_accepted {config : CAConfiguration} (h : config.Accepted s) :
    s.version = config.modifyIndex := by
  unfold CAConfiguration.Accepted at h
  unfold CAState.version caConfigTxn
  cases hconfig : s.config with
  | none => simpa [hconfig, eq_comm] using h
  | some existing => simpa [hconfig] using h

/-- What a step does to the indexes. -/
structure CAAdvance (e : ConnectEntry) (s s' : CAState) : Prop where
  version : s'.config = s.config ∨ s.version < s'.version
  index : s'.config ≠ s.config ∨ s'.roots ≠ s.roots →
    (caRootsAndConfig s).1 < (caRootsAndConfig s').1
  expected : ∀ m, e.expected = some m → s'.config ≠ s.config → s.version = m

theorem CAStep.bound {b : Nat} (h : CAStep idx s e s') (hb : CABound b s) (hidx : b < idx) :
    CABound idx s' := by
  obtain ⟨hversion, hroots⟩ := hb
  cases h with
  | same hconfig _ hindex =>
    have hsame : s'.version = s.version := by simp [CAState.version, caConfigTxn, hconfig]
    exact ⟨by omega, by omega⟩
  | roots =>
    exact ⟨hversion.trans (by omega), (rootsIndex_withRoots s idx _).le⟩
  | config =>
    exact ⟨by rw [version_withConfig]; omega, hroots.trans hidx.le⟩
  | both =>
    exact ⟨(version_withConfig _ _ _).le, (rootsIndex_withRoots s idx _).le⟩

theorem version_lt_of_timely {b : Nat} (hb : CABound b s) (hidx : b < idx)
    (htimely : e.Timely idx s) (hsets : e.sets = true) : s.version < idx := by
  have hle := hb.version
  cases hconfig : s.config with
  | none =>
    have hzero : s.version = 0 := by simp [CAState.version, caConfigTxn, hconfig]
    omega
  | some config =>
    have hne := htimely hsets config hconfig
    have hversion : s.version = config.modifyIndex := by
      simp [CAState.version, caConfigTxn, hconfig]
    omega

theorem CAStep.advance {b : Nat} (h : CAStep idx s e s') (hb : CABound b s) (hidx : b < idx)
    (htimely : e.Timely idx s) : CAAdvance e s s' := by
  have hlt := version_lt_of_timely hb hidx htimely
  have hroots := hb.roots
  cases h with
  | same hconfig hsame =>
    exact ⟨.inl hconfig, fun h => by simp [hconfig, hsame] at h, fun _ _ h => absurd hconfig h⟩
  | roots hop =>
    have hlt := hlt (by rcases hop with hop | hop <;> simp [sets, hop])
    refine ⟨.inl rfl, fun _ => ?_, fun _ _ h => absurd rfl h⟩
    rw [caRootsAndConfig_index, caRootsAndConfig_index, rootsIndex_withRoots]
    omega
  | config hop hgiven hacc =>
    have hlt := hlt (by simp [sets, hop])
    refine ⟨.inr ?_, fun _ => ?_, fun m hm _ => ?_⟩
    · rwa [version_withConfig]
    · rw [caRootsAndConfig_index, caRootsAndConfig_index, version_withConfig]
      omega
    · simp only [expected, hop, hgiven] at hm
      split at hm
      · cases hm
      · rename_i hne
        cases hm
        exact version_of_accepted (hacc hne)
  | both hop hgiven hacc =>
    have hlt := hlt (by simp [sets, hop])
    refine ⟨.inr ?_, fun _ => ?_, fun m hm _ => ?_⟩
    · rw [version_withConfig]
      omega
    · rw [caRootsAndConfig_index, caRootsAndConfig_index, version_withConfig]
      omega
    · simp only [expected, hop, hgiven, Option.some.injEq] at hm
      rw [version_of_accepted hacc, hm]

/-! ## Logs -/

/-- An entry with its raft index. -/
structure ConnectLogEntry where
  index : Nat
  entry : ConnectEntry

def CAState.empty : CAState where
  store := .empty
  roots := .empty
  config := none
  providers := .empty

/-- The state after the first `n` entries of a log. -/
def caStateAt (log : List ConnectLogEntry) (n : Nat) : CAState :=
  (log.take n).foldl (fun s e => (e.entry.apply e.index s).2) .empty

theorem caStateAt_succ {log : List ConnectLogEntry} {e : ConnectLogEntry} (h : log[n]? = some e) :
    caStateAt log (n + 1) = (e.entry.apply e.index (caStateAt log n)).2 := by
  unfold caStateAt
  rw [take_add_one, h, foldl_append]
  rfl

/-- Raft indexes start at 1 and grow. -/
def Increasing (log : List ConnectLogEntry) : Prop :=
  log.Pairwise (·.index < ·.index) ∧ ∀ e ∈ log, 0 < e.index

/-- Each entry of a log finds a configuration that does not have its own index. -/
def AllTimely (log : List ConnectLogEntry) : Prop :=
  ∀ n (e : ConnectLogEntry), log[n]? = some e → e.entry.Timely e.index (caStateAt log n)

section Run

variable {log : List ConnectLogEntry}

theorem caStateAt_bound (hlog : Increasing log) {e : ConnectLogEntry} (he : log[n]? = some e) :
    ∃ b < e.index, CABound b (caStateAt log n) := by
  induction n generalizing e with
  | zero => exact ⟨0, hlog.2 e (mem_of_getElem? he), Nat.zero_le _, Nat.zero_le _⟩
  | succ n ih =>
    obtain ⟨hn, rfl⟩ := List.getElem?_eq_some_iff.mp he
    have hbefore : log[n]? = some log[n] := getElem?_eq_getElem (by omega)
    obtain ⟨b, hb, hbound⟩ := ih hbefore
    refine ⟨log[n].index, pairwise_iff_getElem.mp hlog.1 n (n + 1) _ _ (by omega), ?_⟩
    rw [caStateAt_succ hbefore]
    exact (step _ _ _).bound hbound hb

theorem caStateAt_advance (hlog : Increasing log) (htimely : AllTimely log) {e : ConnectLogEntry}
    (he : log[n]? = some e) : CAAdvance e.entry (caStateAt log n) (caStateAt log (n + 1)) := by
  obtain ⟨b, hb, hbound⟩ := caStateAt_bound hlog he
  rw [caStateAt_succ he]
  exact (step _ _ _).advance hbound hb (htimely n e he)

theorem version_grows (hlog : Increasing log) (htimely : AllTimely log) {m : Nat} (h : n ≤ m) :
    (caStateAt log m).config = (caStateAt log n).config ∨
      (caStateAt log n).version < (caStateAt log m).version := by
  induction m, h using Nat.le_induction with
  | base => exact .inl rfl
  | succ m _ ih =>
    have hstep : (caStateAt log (m + 1)).config = (caStateAt log m).config ∨
        (caStateAt log m).version < (caStateAt log (m + 1)).version := by
      cases hm : log[m]? with
      | some e => exact (caStateAt_advance hlog htimely hm).version
      | none =>
        left
        unfold caStateAt
        rw [take_add_one, hm, Option.toList_none, append_nil]
    have hversion : ∀ s t : CAState, s.config = t.config → s.version = t.version := by
      intro s t hsame
      simp [CAState.version, caConfigTxn, hsame]
    rcases ih with hsame | hless <;> rcases hstep with hsame' | hless'
    · exact .inl (hsame'.trans hsame)
    · exact .inr (hversion _ _ hsame ▸ hless')
    · exact .inr (hversion _ _ hsame' ▸ hless)
    · exact .inr (hless.trans hless')

/-- When each entry finds a configuration that does not have its own index, the index of a
configuration tells which one it is, of all entries that expect one index only one changes the
configuration, and the index of a read grows with each change. -/
theorem config_indexes_tell_versions (hlog : Increasing log) (htimely : AllTimely log) :
    (∀ n m config config', (caStateAt log n).config = some config →
      (caStateAt log m).config = some config' → config.modifyIndex = config'.modifyIndex →
      config = config') ∧
    (∀ i j (e e' : ConnectLogEntry) m, i < j → log[i]? = some e → log[j]? = some e' →
      e.entry.expected = some m → e'.entry.expected = some m →
      (caStateAt log (i + 1)).config ≠ (caStateAt log i).config →
      (caStateAt log (j + 1)).config = (caStateAt log j).config) ∧
    (∀ n < log.length, (caStateAt log (n + 1)).config ≠ (caStateAt log n).config ∨
      (caStateAt log (n + 1)).roots ≠ (caStateAt log n).roots →
      (caRootsAndConfig (caStateAt log n)).1 < (caRootsAndConfig (caStateAt log (n + 1))).1) := by
  refine ⟨fun n m config config' hn hm hindex => ?_, ?_, fun n hn hchange => ?_⟩
  · have hversion : (caStateAt log n).version = (caStateAt log m).version := by
      simp [CAState.version, caConfigTxn, hn, hm, hindex]
    have hsame : (caStateAt log n).config = (caStateAt log m).config := by
      rcases Nat.le_total n m with h | h
      · exact ((version_grows hlog htimely h).resolve_right (by omega)).symm
      · exact (version_grows hlog htimely h).resolve_right (by omega)
    rw [hn, hm] at hsame
    exact Option.some.inj hsame
  · intro i j e e' m hij he he' hexpected hexpected' hchanged
    by_contra hchanged'
    have hfirst := caStateAt_advance hlog htimely he
    have hsecond := caStateAt_advance hlog htimely he'
    have hbefore := hfirst.expected m hexpected hchanged
    have hagain := hsecond.expected m hexpected' hchanged'
    have hgrown := hfirst.version.resolve_left hchanged
    -- The index has grown by the first change and never goes back.
    rcases version_grows hlog htimely (show i + 1 ≤ j from hij) with hsame | hless
    · have : (caStateAt log j).version = (caStateAt log (i + 1)).version := by
        simp [CAState.version, caConfigTxn, hsame]
      omega
    · omega
  · exact (caStateAt_advance hlog htimely (getElem?_eq_getElem hn)).index hchange

end Run

end Laws

section Example

attribute [local instance] ascii

def setConfigEntry (provider : String) (modifyIndex : Nat) : ConnectEntry :=
  .ca { op := .setConfig, config := some { provider := provider, modifyIndex := modifyIndex } }

def neighbours : List ConnectLogEntry :=
  [{ index := 1, entry := setConfigEntry "consul" 0 },
   { index := 5, entry := .ca
      { op := .setRootsAndConfig
        roots := [{ id := "r1", active := true }]
        config := some { provider := "vault", modifyIndex := 1 } } },
   { index := 6, entry := setConfigEntry "consul" 6 },
   { index := 7, entry := setConfigEntry "aws" 6 }]

/-- Two configurations have the index 6, both entries that expect it are accepted, and the index
of a read stays at 6 after the first of them. -/
theorem two_configs_with_one_index :
    (caStateAt neighbours 2).config =
        some { provider := "vault", createIndex := 1, modifyIndex := 6 } ∧
      (caStateAt neighbours 3).config =
        some { provider := "consul", createIndex := 1, modifyIndex := 6 } ∧
      (caStateAt neighbours 4).config =
        some { provider := "aws", createIndex := 1, modifyIndex := 7 } ∧
      (caRootsAndConfig (caStateAt neighbours 2)).1 = 6 ∧
      (caRootsAndConfig (caStateAt neighbours 3)).1 = 6 := by
  decide +kernel

/-- The same entries, but no entry right after the one that sets both. -/
def spacedOut : List ConnectLogEntry :=
  [{ index := 1, entry := setConfigEntry "consul" 0 },
   { index := 5, entry := .ca
      { op := .setRootsAndConfig
        roots := [{ id := "r1", active := true }]
        config := some { provider := "vault", modifyIndex := 1 } } },
   { index := 7, entry := setConfigEntry "consul" 6 },
   { index := 8, entry := setConfigEntry "aws" 6 }]

/-- Of the two entries that expect index 6 only the first is accepted. -/
theorem one_of_two_is_accepted :
    (caStateAt spacedOut 3).config ≠ (caStateAt spacedOut 2).config ∧
      (caStateAt spacedOut 4).config = (caStateAt spacedOut 3).config := by
  have hlog : Increasing spacedOut := by
    refine ⟨?_, ?_⟩ <;> simp [spacedOut]
  have htimely : AllTimely spacedOut := by
    intro n e he _ config hconfig
    have hversion : ∀ n < 4, ∀ e ∈ spacedOut[n]?, (caStateAt spacedOut n).version ≠ e.index := by
      decide +kernel
    have hn : n < 4 := (List.getElem?_eq_some_iff.mp he).1
    simpa [CAState.version, caConfigTxn, hconfig] using hversion n hn e he
  have hchanged : (caStateAt spacedOut 3).config ≠ (caStateAt spacedOut 2).config := by
    decide +kernel
  exact ⟨hchanged, (config_indexes_tell_versions hlog htimely).2.1 2 3 _ _ 6 (by omega) rfl rfl rfl
    rfl hchanged⟩

end Example

end OpenGyoza
