-- The catalog misses no row that the code takes for granted, as long as the
-- names of checks and their services are plain. Then no command crashes the
-- server. With a zero byte in a name, a delete may take a service from a check.
import OpenGyoza.Transactions

namespace OpenGyoza

open Memdb Txn Table List

section Laws

variable [External] {idx : Nat} {P : String → String → Prop} {s s' : State}

/-! ## The calls -/

theorem sessionCreateTxn_noCrash (sess : Session) : NoCrash (sessionCreateTxn idx sess) s := by
  refine .ite (.fail _) (.bind (.ofExcept _) fun b s1 => .bind (.read _) fun row s2 => ?_)
  cases row with
  | none => exact .fail _
  | some n =>
    refine .bind (.forEach fun c _ s3 => .bind (.read _) fun row s4 => ?_) fun _ s3 =>
      .bind (.wrap (.insert _ _)) fun _ s4 => .bind (.forEach fun c _ s5 => ?_) fun _ s5 =>
        setIndex_noCrash
    · cases row with
      | none => exact .fail _
      | some check => exact .ite (.fail _) (.pure _)
    · exact .wrap (.insert _ _)

theorem KeyOp.run_noCrash (idx : Nat) (ko : KeyOp) : NoCrash (ko.run idx) s := by
  cases ko with
  | set e => exact .bind (kvsSetTxn_noCrash _ _) fun _ _ => .pure _
  | cas e => exact .bind (kvsSetCASTxn_noCrash _) fun _ _ => .pure _
  | delete k => exact .bind (kvsDeleteTxn_noCrash _) fun _ _ => .pure _
  | deleteCAS cidx k => exact kvsDeleteCASTxn_noCrash _ _
  | deleteTree p =>
    refine .bind (.of_ok (a := ()) ?_) fun _ _ => .pure _
    rw [kvsDeleteTreeTxn_eq]
  | lock e => exact .bind (kvsLockTxn_noCrash _) fun _ _ => .pure _
  | unlock e => exact .bind (kvsUnlockTxn_noCrash _) fun _ _ => .pure _
  | reap n =>
    refine .bind (.of_ok (a := ()) ?_) fun _ _ => .pure _
    rw [reapTombstonesTxn_eq]

theorem StoreCall.run_noCrash (hs : Sound s) (hfirm : Firm P s) (c : StoreCall)
    (hP : (Operation.call c).Names P) : NoCrash (c.run idx) s := by
  cases c with
  | kvsSet e => exact KeyOp.run_noCrash idx (.set e)
  | kvsSetCAS e => exact KeyOp.run_noCrash idx (.cas e)
  | kvsDelete k => exact KeyOp.run_noCrash idx (.delete k)
  | kvsDeleteCAS cidx k => exact KeyOp.run_noCrash idx (.deleteCAS cidx k)
  | kvsDeleteTree p => exact KeyOp.run_noCrash idx (.deleteTree p)
  | kvsLock e => exact KeyOp.run_noCrash idx (.lock e)
  | kvsUnlock e => exact KeyOp.run_noCrash idx (.unlock e)
  | reapTombstones n => exact KeyOp.run_noCrash idx (.reap n)
  | sessionCreate sess => exact .bind (sessionCreateTxn_noCrash sess) fun _ _ => .pure _
  | _ => exact (@Operation.calm _ _ _ _ (.call _) rfl rfl hP).noCrash hs hfirm

/-! ## The services of checks -/

theorem SameRows.firm (h : SameRows s s') (hfirm : Firm P s) : Firm P s' :=
  hfirm.of_rows (fun _ hk => h.services ▸ hk) fun _ hc => h.checks ▸ hc

theorem Operation.firm {op : Operation} (hs : Sound s) (hfirm : Firm P s)
    (hP : op.Names P) (h : op.Succeeds idx s s') : Firm P s' := by
  cases hk : op.keyOp with
  | some ko => exact (KeyOp.change (run_of_keyOp hk h)).sameCatalog.firm hfirm
  | none =>
    cases hn : op.newSession with
    | none => exact CatalogSteps.firm (steps hs hk hn hP h) hfirm
    | some sess =>
      obtain ⟨b, u, -, -, -, -, rfl⟩ := created hn h
      exact hfirm.of_rows (fun _ hk => hk) fun _ hc => hc

theorem txnKVS_noCrash (op : TxnKVOp) : NoCrash (txnKVS idx op) s := by
  cases hk : op.keyOp with
  | none => exact (txnKVS_looks hk).noCrash
  | some ko =>
    have hsame : op.counterpart idx = ko.run idx := by
      obtain ⟨verb, e⟩ := op
      cases verb <;> cases hk <;> rfl
    intro text hcrash
    have hagrees : Agrees (txnKVS idx op) (op.counterpart idx) s := txnKVS_agrees op
    rcases hagrees with ⟨⟨_, hr⟩, -⟩ | ⟨⟨_, hr⟩, -⟩ | ⟨_, -, hr⟩
    · rw [hcrash] at hr
      cases hr
    · rw [hcrash] at hr
      cases hr
    · rw [hsame] at hr
      exact KeyOp.run_noCrash idx ko _ hr

theorem txnOp_firm {op : TxnOp} (hs : Sound s) (hfirm : Firm P s)
    (hP : (Operation.txn op).Names P) : NoCrash (txnOp idx op) s ∧ Firm P (txnOp idx op s).2 := by
  cases hk : (Operation.txn op).keyOp with
  | none =>
    have hcalm : Calm idx _ (txnOp idx op) s := Operation.calm_txn hk hP
    have hcrash := hcalm.noCrash hs hfirm
    exact ⟨hcrash, CatalogSteps.firm (hcalm.steps hs hcrash) hfirm⟩
  | some ko =>
    obtain ⟨kv, hkv, -⟩ := Option.bind_eq_some_iff.mp hk
    rw [txnOp_kv hkv]
    exact ⟨txnKVS_noCrash kv, (txnKVS_rows kv).firm hfirm⟩

theorem not_crashesAt {ops : List TxnOp} (hs : Sound s) (hfirm : Firm P s)
    (hP : ∀ op ∈ ops, (Operation.txn op).Names P) (j : Nat) :
    ¬ CrashesAt idx ops s j := by
  induction ops generalizing s j with
  | nil => simp [CrashesAt]
  | cons op ops ih =>
    obtain ⟨hcrash, hfirm'⟩ : NoCrash (txnOp idx op) s ∧ Firm P (txnOp idx op s).2 :=
      txnOp_firm hs hfirm (hP op mem_cons_self)
    cases j with
    | zero =>
      rw [crashesAt_zero]
      rintro ⟨text, hpanic, -⟩
      exact hcrash text hpanic
    | succ j =>
      rw [crashesAt_succ]
      exact ih (txnOp_sound hs hcrash) hfirm' (fun x hx => hP x (mem_cons_of_mem _ hx)) j

/-! ## Commands and queries -/

/-- The command makes the server crash. -/
def Command.Crashes (idx : Nat) (s : State) : Command → Prop
  | call c => ∃ text, (c.run idx s).1 = .error (.panic text)
  | txnRW ops => TxnCrashes idx ops s

theorem Command.not_crashes (hs : Sound s) (hfirm : Firm PlainNames s) {c : Command}
    (hplain : ∀ op ∈ c.operations, op.Names PlainNames) : ¬ c.Crashes idx s := by
  cases c with
  | call c =>
    rintro ⟨text, h⟩
    exact StoreCall.run_noCrash hs hfirm c (hplain _ (mem_singleton.mpr rfl)) text h
  | txnRW ops =>
    intro hcrash
    rcases txnRW_cases hs idx ops with ⟨-, -, j, hj⟩ | ⟨-, ⟨⟨_, hok⟩, -⟩ | ⟨_, hok, -⟩⟩
    · exact not_crashesAt hs hfirm (fun op hop => hplain _ (mem_map_of_mem hop)) j hj
    · obtain ⟨text, htext⟩ := hcrash
      rw [hok] at htext
      cases htext
    · obtain ⟨text, htext⟩ := hcrash
      rw [hok] at htext
      cases htext

/-- The queries that fill in the nodes of instances. -/
inductive ServiceQuery where
  | serviceNodes (name : String)
  | connectServiceNodes (name : String)
  | serviceTagNodes (name : String) (tags : List String)
  | serviceAddressNodes (address : String)
deriving DecidableEq

def ServiceQuery.run (s : State) : ServiceQuery → Except Fault (Nat × List FilledServiceNode)
  | serviceNodes name => OpenGyoza.serviceNodes name false s
  | connectServiceNodes name => OpenGyoza.serviceNodes name true s
  | serviceTagNodes name tags => OpenGyoza.serviceTagNodes name tags s
  | serviceAddressNodes address => OpenGyoza.serviceAddressNodes address s

theorem parseServiceNodes_ok (hs : Sound s) {services : List ServiceNode}
    (h : ∀ svc ∈ services, svc ∈ s.services.values) :
    ∃ results, parseServiceNodes services s = .ok results := by
  unfold parseServiceNodes
  induction services with
  | nil => exact ⟨[], rfl⟩
  | cons svc services ih =>
    obtain ⟨n, hn⟩ := Option.isSome_iff_exists.mp (hs.serviceNodes svc (h svc (by simp)))
    obtain ⟨results, hrest⟩ := ih fun x hx => h x (by simp [hx])
    refine ⟨svc.filled n :: results, ?_⟩
    rw [mapM_cons, hrest, fillServiceNode, hn]
    rfl

theorem ServiceQuery.run_ok (hs : Sound s) (q : ServiceQuery) : ∃ r, q.run s = .ok r := by
  cases q with
  | serviceNodes name =>
    have hmem : ∀ svc ∈ servicesNamed name s, svc ∈ s.services.values :=
      fun svc hsvc => (mem_seek.mp hsvc).1
    obtain ⟨results, hparse⟩ := parseServiceNodes_ok hs hmem
    simp only [run, OpenGyoza.serviceNodes, Bool.false_eq_true, if_false, hparse]
    exact ⟨_, rfl⟩
  | connectServiceNodes name =>
    have hmem : ∀ svc ∈ connectServices name s, svc ∈ s.services.values :=
      fun svc hsvc => (mem_seek.mp hsvc).1
    obtain ⟨results, hparse⟩ := parseServiceNodes_ok hs hmem
    simp only [run, OpenGyoza.serviceNodes, if_true, hparse]
    exact ⟨_, rfl⟩
  | serviceTagNodes name tags =>
    have hmem : ∀ svc ∈ (servicesNamed name s).filter fun svc => !serviceTagsFilter svc tags,
        svc ∈ s.services.values := fun svc hsvc => (mem_seek.mp (mem_filter.mp hsvc).1).1
    obtain ⟨results, hparse⟩ := parseServiceNodes_ok hs hmem
    simp only [run, OpenGyoza.serviceTagNodes, hparse]
    exact ⟨_, rfl⟩
  | serviceAddressNodes address =>
    have hmem : ∀ svc ∈ s.services.get fun svc => svc.serviceAddress == address ||
        (pairsOf svc.serviceTaggedAddresses).any (·.2.address == address),
        svc ∈ s.services.values := fun svc hsvc => (mem_get.mp hsvc).1
    obtain ⟨results, hparse⟩ := parseServiceNodes_ok hs hmem
    simp only [run, OpenGyoza.serviceAddressNodes, hparse]
    exact ⟨_, rfl⟩

/-- Every instance and every check has its node, and every check of a service has the service,
by the keys of the tables. -/
structure CatalogReferenced (s : State) : Prop where
  serviceNodes : ∀ svc ∈ s.services.values, (nodeRow svc.node s).isSome
  checkNodes : ∀ c ∈ s.checks.values, (nodeRow c.node s).isSome
  checkServices : ∀ c ∈ s.checks.values, c.serviceID ≠ "" →
    (serviceRow c.node c.serviceID s).isSome

theorem plainNames_of_zeroFree {node id : String} (hnode : ZeroFree (toLower node))
    (hid : ZeroFree (toLower id)) : PlainNames node id := by
  intro node' id' h
  -- There are two zero bytes, so neither of the other names has one.
  have hcount := congrArg (count 0) h
  have hfree : ZeroFree (toLower node') := by
    unfold ZeroFree at hnode hid ⊢
    simp only [rowKey, indexField, count_append, count_eq_zero_of_not_mem hnode,
      count_eq_zero_of_not_mem hid, count_singleton_self] at hcount
    exact count_eq_zero.mp (by omega)
  have hprefix : rowKey node' id' <+: rowKey node id := h ▸ prefix_rfl
  simp only [rowKey, indexField, append_assoc, singleton_append] at hprefix
  exact bytesOf_injective ((prefix_of_fields hfree hnode).mp hprefix).1

end Laws

section Example

attribute [local instance] ascii

def zeroByteLog : List LogEntry :=
  [{ index := 1, command := .call (.ensureNode { node := "a" }) },
   { index := 2, command := .call (.ensureService "a" { id := "b\x00c", service := "web" }) },
   { index := 3, command := .call (.ensureCheck
       { node := "a", checkID := "ping", status := "passing", serviceID := "b\x00c" }) },
   { index := 4, command := .call (.deleteService "a\x00b" "c") }]

/-- A node with a service and a check of it. -/
def plainLog : List LogEntry :=
  [{ index := 1, command := .call (.ensureNode { node := "a" }) },
   { index := 2, command := .call (.ensureService "a" { id := "b", service := "web" }) },
   { index := 3, command := .call (.ensureCheck
       { node := "a", checkID := "ping", status := "passing", serviceID := "b" }) }]

end Example

end OpenGyoza
