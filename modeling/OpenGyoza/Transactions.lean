-- Whole transactions. A transaction should commit exactly when each of its
-- operations succeeds alone, and it should name the ones that do not.
import OpenGyoza.TxnParts

namespace OpenGyoza

open Memdb Txn List

section Laws

variable [External] {idx : Nat} {s : State} {op : TxnOp}

/-- The store in which the operation at a position runs. -/
def stateBefore (idx : Nat) (ops : List TxnOp) (i : Nat) (s : State) : State :=
  (ops.take i).foldl (fun s op => (txnOp idx op s).2) s

/-- The server crashes in a transaction. -/
def TxnCrashes (idx : Nat) (ops : List TxnOp) (s : State) : Prop :=
  ∃ text, txnRW idx ops s = .error (.panic text)

structure TxnFaithful (idx : Nat) (ops : List TxnOp) (s : State) : Prop where
  commits : (∃ results, txnRW idx ops s = .ok (results, [])) ↔
    ∀ i (op : TxnOp), ops[i]? = some op →
      (op.counterpart idx (stateBefore idx ops i s)).1 = .ok true
  fails : ∀ i (op : TxnOp), ops[i]? = some op →
    (op.counterpart idx (stateBefore idx ops i s)).1 ≠ .ok true →
    ((∃ errors, txnRW idx ops s = .ok ([], errors) ∧ ∃ e ∈ errors, e.opIndex = i) ∨
      TxnCrashes idx ops s) ∧ txnRWState idx ops s = s
  crashes : TxnCrashes idx ops s → ∃ i text, ∃ op : TxnOp, ops[i]? = some op ∧
    (op.counterpart idx (stateBefore idx ops i s)).1 = .error (.panic text)

/-! ## One operation after the other -/

theorem txnOp_agrees (hs : Sound s) (h : ¬ op.LosesError s) :
    Agrees (txnOp idx op) (op.counterpart idx) s := by
  cases op using TxnOp.kindCases with
  | kv x => exact txnKVS_agrees x
  | intention x => exact txnIntention_agrees x
  | node x => exact txnNode_agrees hs h
  | service x => exact txnService_agrees h
  | check x => exact txnCheck_agrees hs h
  | missing => exact .inr (.inl ⟨⟨_, rfl⟩, by simp [TxnOp.counterpart, pure]⟩)

theorem txnOp_loses (hs : Sound s) (h : op.LosesError s) :
    Loses (txnOp idx op) (op.counterpart idx) s := by
  cases op using TxnOp.kindCases with
  | kv | intention | missing => exact absurd h id
  | node x => exact txnNode_loses hs h
  | service x => exact txnService_loses h
  | check x => exact txnCheck_loses hs h

theorem txnOp_sound (hs : Sound s) (hcrash : NoCrash (txnOp idx op) s) :
    Sound (txnOp idx op s).2 := by
  cases hk : (Operation.txn op).keyOp with
  | none => exact CatalogSteps.sound ((Operation.calm_txn hk .any).steps hs hcrash) hs
  | some ko =>
    obtain ⟨kv, hkv, -⟩ := Option.bind_eq_some_iff.mp hk
    rw [txnOp_kv hkv]
    exact txnKVS_sound hs kv

theorem txnOp_cases (hs : Sound s) (idx : Nat) (op : TxnOp) :
    (∃ r, (txnOp idx op s).1 = .ok r) ∨ (∃ text, (txnOp idx op s).1 = .error (.error text)) ∨
      BothCrash (txnOp idx op) (op.counterpart idx) s := by
  by_cases h : op.LosesError s
  · rcases txnOp_loses hs h with ⟨hok, -⟩ | hcrash
    · exact .inl hok
    · exact .inr (.inr hcrash)
  · rcases txnOp_agrees hs h with ⟨hok, -⟩ | ⟨herr, -⟩ | hcrash
    · exact .inl hok
    · exact .inr (.inl herr)
    · exact .inr (.inr hcrash)

/-- The operation at a position fails inside the transaction. -/
def FailsAt (idx : Nat) (ops : List TxnOp) (s : State) (j : Nat) : Prop :=
  ∃ op text, ops[j]? = some op ∧ (txnOp idx op (stateBefore idx ops j s)).1 = .error (.error text)

theorem failsAt_zero {ops : List TxnOp} :
    FailsAt idx (op :: ops) s 0 ↔ ∃ text, (txnOp idx op s).1 = .error (.error text) := by
  simp [FailsAt, stateBefore]

theorem failsAt_succ {ops : List TxnOp} {j : Nat} :
    FailsAt idx (op :: ops) s (j + 1) ↔ FailsAt idx ops (txnOp idx op s).2 j := by
  simp [FailsAt, stateBefore]

/-- The operation at a position crashes, alone and inside the transaction. -/
def CrashesAt (idx : Nat) (ops : List TxnOp) (s : State) (j : Nat) : Prop :=
  ∃ op : TxnOp, ops[j]? = some op ∧
    BothCrash (txnOp idx op) (op.counterpart idx) (stateBefore idx ops j s)

theorem crashesAt_zero {ops : List TxnOp} :
    CrashesAt idx (op :: ops) s 0 ↔ BothCrash (txnOp idx op) (op.counterpart idx) s := by
  simp [CrashesAt, stateBefore]

theorem crashesAt_succ {ops : List TxnOp} {j : Nat} :
    CrashesAt idx (op :: ops) s (j + 1) ↔ CrashesAt idx ops (txnOp idx op s).2 j := by
  simp [CrashesAt, stateBefore]

structure Dispatched (idx i : Nat) (ops : List TxnOp) (s : State) (errors : List TxnError) :
    Prop where
  sound : ∀ j, Sound (stateBefore idx ops j s)
  calm : ∀ j, ¬ CrashesAt idx ops s j
  names : ∀ n, (∃ e ∈ errors, e.opIndex = n) ↔ ∃ j, n = i + j ∧ FailsAt idx ops s j

theorem Dispatched.cons {i : Nat} {ops : List TxnOp} {errors rest : List TxnError} (hs : Sound s)
    (hcrash : NoCrash (txnOp idx op) s) (h : Dispatched idx (i + 1) ops (txnOp idx op s).2 rest)
    (hfirst : ∀ n, (∃ e ∈ errors, e.opIndex = n) ↔
      (n = i ∧ ∃ text, (txnOp idx op s).1 = .error (.error text)) ∨ ∃ e ∈ rest, e.opIndex = n) :
    Dispatched idx i (op :: ops) s errors where
  sound
    | 0 => hs
    | j + 1 => h.sound j
  calm
    | 0 => fun hc => by
      obtain ⟨text, hpanic, -⟩ := crashesAt_zero.mp hc
      exact hcrash text hpanic
    | j + 1 => fun hc => h.calm j (crashesAt_succ.mp hc)
  names n := by
    rw [hfirst n, h.names n]
    constructor
    · rintro (⟨rfl, hfails⟩ | ⟨j, rfl, hfails⟩)
      · exact ⟨0, by omega, failsAt_zero.mpr hfails⟩
      · exact ⟨j + 1, by omega, failsAt_succ.mpr hfails⟩
    · rintro ⟨_ | j, rfl, hfails⟩
      · exact .inl ⟨rfl, failsAt_zero.mp hfails⟩
      · exact .inr ⟨j, by omega, failsAt_succ.mp hfails⟩

theorem txnOp_attempt (hcrash : NoCrash (txnOp idx op) s) :
    ∃ x, Txn.attempt (txnOp idx op) s = (.ok x, (txnOp idx op s).2) ∧
      ∀ text, x = .error text ↔ (txnOp idx op s).1 = .error (.error text) := by
  unfold NoCrash at hcrash
  rcases hop : txnOp idx op s with ⟨(what | text) | ret, s1⟩
  · exact ⟨.error what, attempt_of_error hop, by simp⟩
  · rw [hop] at hcrash
    exact absurd rfl (hcrash text)
  · exact ⟨.ok ret, attempt_of_ok hop, by simp⟩

theorem txnDispatchFrom_cases (hs : Sound s) (idx i : Nat) (ops : List TxnOp) :
    (∃ text j, (txnDispatchFrom idx i ops s).1 = .error (.panic text) ∧ CrashesAt idx ops s j) ∨
      ∃ results errors s', txnDispatchFrom idx i ops s = (.ok (results, errors), s') ∧
        Dispatched idx i ops s errors := by
  induction ops generalizing i s with
  | nil =>
    refine .inr ⟨[], [], s, rfl, fun j => ?_, fun j => by simp [CrashesAt],
      fun n => by simp [FailsAt]⟩
    simpa [stateBefore] using hs
  | cons op ops ih =>
    by_cases hcrash : NoCrash (txnOp idx op) s
    · obtain ⟨x, hx, herr⟩ := txnOp_attempt hcrash
      rcases ih (txnOp_sound hs hcrash) (i + 1) with
        ⟨text, j, hrun, hj⟩ | ⟨results, errors, s', hrest, hd⟩
      · refine .inl ⟨text, j + 1, ?_, crashesAt_succ.mpr hj⟩
        rw [txnDispatchFrom, bind_of_ok hx]
        rcases hrest : txnDispatchFrom idx (i + 1) ops (txnOp idx op s).2 with ⟨r, s'⟩
        rw [hrest] at hrun
        obtain rfl : r = .error (.panic text) := hrun
        rw [bind_of_error hrest]
      · cases x with
        | ok ret =>
          refine .inr ⟨ret ++ results, errors, s', ?_, hd.cons hs hcrash fun n => ?_⟩
          · rw [txnDispatchFrom, bind_of_ok hx, bind_of_ok hrest]
            rfl
          · simp [← herr]
        | error what =>
          refine .inr ⟨results, { opIndex := i, what := what } :: errors, s', ?_,
            hd.cons hs hcrash fun n => ?_⟩
          · rw [txnDispatchFrom, bind_of_ok hx, bind_of_ok hrest]
            rfl
          · simp [← herr, eq_comm]
    · rcases txnOp_cases hs idx op with ⟨r, hr⟩ | ⟨text, hr⟩ | ⟨text, hpanic, hc⟩
      · exact absurd (.of_ok hr) hcrash
      · refine absurd (fun t ht => ?_) hcrash
        rw [hr] at ht
        cases ht
      · refine .inl ⟨text, 0, ?_, crashesAt_zero.mpr ⟨text, hpanic, hc⟩⟩
        rcases hop : txnOp idx op s with ⟨r, s1⟩
        rw [hop] at hpanic
        obtain rfl : r = .error (.panic text) := hpanic
        rw [txnDispatchFrom, bind_of_error (attempt_of_panic hop)]

theorem txnRW_cases (hs : Sound s) (idx : Nat) (ops : List TxnOp) :
    (TxnCrashes idx ops s ∧ txnRWState idx ops s = s ∧ ∃ j, CrashesAt idx ops s j) ∨
      ((∀ j, Sound (stateBefore idx ops j s)) ∧ (∀ j, ¬ CrashesAt idx ops s j)) ∧
        (((∃ results, txnRW idx ops s = .ok (results, [])) ∧ ∀ j, ¬ FailsAt idx ops s j) ∨
          ∃ errors, txnRW idx ops s = .ok ([], errors) ∧ errors ≠ [] ∧ txnRWState idx ops s = s ∧
            ∀ j, (∃ e ∈ errors, e.opIndex = j) ↔ FailsAt idx ops s j) := by
  rcases txnDispatchFrom_cases hs idx 0 ops with
    ⟨text, j, hrun, hj⟩ | ⟨results, errors, s', hrun, hd⟩
  · rcases hfrom : txnDispatchFrom idx 0 ops s with ⟨r, s'⟩
    rw [hfrom] at hrun
    obtain rfl : r = .error (.panic text) := hrun
    have hdispatch : txnDispatch idx ops s = (.error (.panic text), s') := bind_of_error hfrom
    refine .inl ⟨⟨text, ?_⟩, ?_, j, hj⟩
    · rw [txnRW, hdispatch]
    · rw [txnRWState, Txn.commit, hdispatch]
  refine .inr ⟨⟨hd.sound, hd.calm⟩, ?_⟩
  have hdispatch : txnDispatch idx ops s =
      (.ok (if errors.isEmpty then results else [], errors), s') := by
    unfold txnDispatch
    rw [bind_of_ok hrun]
    rfl
  have hnames : ∀ j, (∃ e ∈ errors, e.opIndex = j) ↔ FailsAt idx ops s j := by
    intro j
    rw [hd.names j]
    simp
  cases hempty : errors with
  | nil =>
    subst hempty
    refine .inl ⟨⟨results, ?_⟩, fun j hj => ?_⟩
    · rw [txnRW, hdispatch]
      rfl
    · simpa using (hnames j).mpr hj
  | cons e rest =>
    rw [hempty] at hdispatch hnames
    refine .inr ⟨e :: rest, ?_, by simp, ?_, hnames⟩
    · rw [txnRW, hdispatch]
      rfl
    · rw [txnRWState, Txn.commit, hdispatch]
      rfl

end Laws

section Example

attribute [local instance] ascii

/-- A service for a node that is not registered. -/
def orphanService : TxnOp :=
  { service := some
      { verb := .set, node := "web", service := { id := "redis", service := "redis" } } }

end Example

end OpenGyoza
