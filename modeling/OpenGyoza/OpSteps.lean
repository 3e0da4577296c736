-- Every operation that is none on keys, and creates no session, is a chain of
-- catalog steps, unless it crashes. This holds for its failures too, as an
-- error of a write may be lost inside a transaction.
import OpenGyoza.CatalogSpecs
import OpenGyoza.KeyOps

namespace OpenGyoza

open Memdb Txn

variable [External] {idx : Nat} {p : Scope} {s s' : State} {delete : StoreTxn Unit}
  {run : CatalogOp → StoreTxn (List TxnResult)}

def Calm {α : Type} (idx : Nat) (p : Scope) (m : StoreTxn α) (s : State) : Prop :=
  Sound s → wp m (unlessCrash (Firm p.names s) fun _ s' => CatalogSteps idx p s s') s

section Calm

variable {α β : Type} {m : StoreTxn α}

theorem Calm.steps (h : Calm idx p m s) (hs : Sound s) (hcrash : NoCrash m s) :
    CatalogSteps idx p s (m s).2 := of_unlessCrash (h hs) hcrash

theorem Calm.noCrash (h : Calm idx p m s) (hs : Sound s) (hfirm : Firm p.names s) :
    NoCrash m s := by
  intro text hcrash
  have hrun := h hs
  unfold wp at hrun
  rw [hcrash] at hrun
  exact hrun hfirm

theorem Calm.of_noCrash (h : Sound s → CatalogSteps idx p s (m s).2)
    (hcrash : Sound s → NoCrash m s) : Calm idx p m s := by
  intro hs
  unfold wp
  rcases hm : (m s).1 with (text | text) | a
  · exact h hs
  · exact absurd hm (hcrash hs text)
  · exact h hs

theorem Calm.pure (a : α) : Calm idx p (Pure.pure a : StoreTxn α) s := fun _ => .refl

theorem Calm.fail (text : String) : Calm idx p (fail text : StoreTxn α) s := fun _ => .refl

theorem Calm.looks (h : m.Looks) : Calm idx p m s := by
  refine .of_noCrash (fun _ => ?_) fun _ => h.noCrash
  rw [h.state s]

theorem Calm.wrap {context : String → String} (h : Calm idx p m s) :
    Calm idx p (wrap context m) s :=
  fun hs => wp_wrap_unlessCrash (h hs) (fun _ _ h => h) fun _ _ h => h

theorem Calm.attempt (h : Calm idx p m s) : Calm idx p (attempt m) s := by
  intro hs
  have hrun := h hs
  unfold wp at hrun ⊢
  rcases hm : m s with ⟨(e | e) | a, s'⟩ <;> rw [hm] at hrun
  · rw [attempt_of_error hm]
    exact hrun
  · rw [attempt_of_panic hm]
    exact hrun
  · rw [attempt_of_ok hm]
    exact hrun

theorem Calm.bind {k : α → StoreTxn β} (hm : Calm idx p m s) (hk : ∀ a s', Calm idx p (k a) s') :
    Calm idx p (m >>= k) s := by
  intro hs
  refine wp_bind_unlessCrash (hm hs) (fun a s' hsteps => ?_) fun _ _ h => h
  exact wp_unlessCrash_mono (hk a s' (CatalogSteps.sound hsteps hs)) (CatalogSteps.firm hsteps)
    fun _ _ => .trans hsteps

theorem Calm.bind_read {f : State → α} {k : α → StoreTxn β} (h : Calm idx p (k (f s)) s) :
    Calm idx p (Txn.read f >>= k) s := h

theorem Calm.ite {c : Prop} [Decidable c] {n : StoreTxn α} (hm : Calm idx p m s)
    (hn : Calm idx p n s) : Calm idx p (if c then m else n) s := by
  split
  · exact hm
  · exact hn

theorem Calm.forEach {l : List β} {f : β → StoreTxn Unit} (h : ∀ b ∈ l, ∀ s, Calm idx p (f b) s) :
    Calm idx p (forEach l f) s := by
  induction l generalizing s with
  | nil => exact .pure ()
  | cons b l ih =>
    exact .bind (h b (by simp) s) fun _ _ => ih fun c hc => h c (by simp [hc])

end Calm

theorem noCrash_of_outcome {m : StoreTxn Unit} {p : Prop}
    (h : (m s).1 = .ok () ∧ p ∨ ∃ text, (m s).1 = .error (.error text) ∧ ¬ p) : NoCrash m s := by
  intro text hcrash
  rcases h with ⟨hok, -⟩ | ⟨t, herr, -⟩
  · rw [hok] at hcrash
    cases hcrash
  · rw [herr] at hcrash
    cases hcrash

theorem setIndex_noCrash {name : IndexName} : NoCrash (setIndex name idx) s :=
  .wrap (.insert _ _)

/-! ## The catalog -/

theorem deleteCheckTxn_calm {node checkID : String} (hdown : p.Downs node checkID) :
    Calm idx p (deleteCheckTxn idx node checkID) s :=
  fun h => wp_unlessCrash_mono (deleteCheckTxn_spec h hdown) id fun _ _ ⟨_, _, h⟩ => h.1

theorem deleteServiceTxn_calm {node serviceID : String}
    (hdown : ∀ c ∈ checksOfService node serviceID s, p.Downs node c.checkID) :
    Calm idx p (deleteServiceTxn idx node serviceID) s :=
  fun h => wp_unlessCrash_mono (deleteServiceTxn_spec h hdown) id fun _ _ ⟨_, _, h⟩ => h.1

theorem deleteNodeTxn_calm {node : String} (hleaves : p.leaves node) :
    Calm idx p (deleteNodeTxn idx node) s :=
  fun h => wp_unlessCrash_mono (deleteNodeTxn_spec h hleaves) id fun _ _ ⟨_, _, h⟩ => h.1

theorem deleteCAS_calm (cidx : Nat) (modifyIndex : State → Option Nat) (h : Calm idx p delete s) :
    Calm idx p (deleteCAS cidx modifyIndex delete) s := by
  refine .bind_read ?_
  cases modifyIndex s with
  | none => exact .pure _
  | some m => exact .ite (.pure _) (.bind h fun _ _ => .pure _)

theorem ensureNodeTxn_calm {node : Node} (h : ∀ n, node.renamed s = some n → p.leaves n.node) :
    Calm idx p (ensureNodeTxn idx node) s :=
  fun hs => wp_unlessCrash_mono (ensureNodeTxn_spec hs h) id fun _ _ h => h.1.1

theorem ensureServiceTxn_calm (node : String) (svc : NodeService) :
    Calm idx p (ensureServiceTxn idx node svc) s :=
  .of_noCrash (fun _ => (ensureServiceTxn_spec node svc s).steps)
    fun _ => noCrash_of_outcome (ensureServiceTxn_spec (p := p) node svc s).result

/-- A check may be stored: the names of the check and its service are allowed, and it may turn
critical. -/
structure HealthCheck.Allowed (p : Scope) (hc : HealthCheck) : Prop where
  names : hc.serviceID ≠ "" → p.names hc.node hc.serviceID
  critical : hc.TurnsCritical → p.downs hc.node hc.checkID

theorem ensureCheckTxn_calm {hc : HealthCheck} (h : hc.Allowed p) :
    Calm idx p (ensureCheckTxn idx hc) s :=
  .of_noCrash (fun hs => (ensureCheckTxn_spec hs hc h.names h.critical).1.1)
    fun hs => noCrash_of_outcome (ensureCheckTxn_spec hs hc h.names h.critical).1.2

theorem ensureRegistrationTxn_calm {req : RegisterRequest}
    (hleaves : ∀ n, req.toNode.renamed s = some n → p.leaves n.node)
    (hchecks : ∀ hc ∈ req.check.toList ++ req.checks, hc.Allowed p) :
    Calm idx p (ensureRegistrationTxn idx req) s := by
  refine .bind (.bind_read ?_) fun _ _ => .bind (.forEach fun svc _ _ => ?_) fun _ _ =>
    .forEach fun hc hmem _ => ?_
  · exact .ite (.wrap (ensureNodeTxn_calm hleaves)) (.pure _)
  · exact .bind_read (.ite (.wrap (ensureServiceTxn_calm _ _)) (.pure _))
  · exact .ite (.fail _) (.wrap (ensureCheckTxn_calm (hchecks hc hmem)))

theorem deleteSessionTxn_calm {id : String} (hends : ∀ u, uuidKey id = .ok u → p.ends u) :
    Calm idx p (deleteSessionTxn idx id) s := by
  intro h
  cases hu : uuidKey id with
  | ok u =>
    refine wp_mono (deleteSessionTxn_cases h.toSessionRefs hu) ?_
    rintro _ s' ⟨rfl, hend, -⟩
    exact .single (.sessions (hend.mono fun v hv => .inl (hv ▸ hends u hu)))
  | error text =>
    have harg : uuidArg id = .error ("index error: " ++ text) := by simp [uuidArg, hu]
    have hrun : deleteSessionTxn idx id s =
        (.error (.error ("failed session lookup: " ++ ("index error: " ++ text))), s) := by
      apply eq_of_wp
      simp [deleteSessionTxn, harg, Txn.ofExcept]
    rw [wp_of_eq hrun]
    exact .refl

/-! ## Queries, intentions and coordinates -/

theorem querySessionExists_spec (session : String) (s : State) :
    wp (querySessionExists session) (fun r s' => s' = s ∧
      (r = .ok () → session ≠ "" → s.HasSession session)) s := by
  unfold querySessionExists
  by_cases hempty : session = ""
  · simp [hempty]
  · simp only [hempty, ne_eq, not_false_eq_true, if_true, wp_bind, wp_wrap, uuidArg]
    cases hu : uuidKey session with
    | error text => simp [Txn.ofExcept]
    | ok u =>
      simp only [Txn.ofExcept, wp_pure, annotate_ok, andThen_ok, wp_bind,
        wp_read]
      cases hrow : s.sessions.first u with
      | none => simp
      | some sess => exact ⟨rfl, fun _ _ => ⟨u, sess, hu, hrow⟩⟩

theorem writeQuery_calm (query : PreparedQuery) :
    Calm idx p (do
      querySessionExists query.session
      templateCompiles query
      wrap ("failed inserting prepared query: " ++ ·) (insert Tables.preparedQueries query)
      setIndex (.table "prepared-queries") idx) s := by
  refine .of_noCrash (fun _ => ?_) fun _ => .bind (querySessionExists_looks _).noCrash
    fun _ _ => .bind (templateCompiles_looks _).noCrash fun _ _ =>
      .bind (.wrap (.insert _ _)) fun _ _ => setIndex_noCrash
  change wp _ (fun _ s' => CatalogSteps idx p s s') s
  rw [wp_bind]
  refine wp_mono (querySessionExists_spec query.session s) ?_
  rintro (e | _) s1 ⟨rfl, hsess⟩
  · exact .refl
  have hwrite (hcompiles : query.Compiles) : wp (do
      wrap ("failed inserting prepared query: " ++ ·) (insert Tables.preparedQueries query)
      setIndex (.table "prepared-queries") idx) (fun _ s' => CatalogSteps idx p s1 s') s1 := by
    rw [wp_bind, wp_wrap]
    refine wp_insert_of Tables.preparedQueries (fun k hk => ?_) fun text => .refl
    exact .single (.putQuery hk (hsess rfl) hcompiles)
  rw [andThen_ok, wp_bind]
  unfold templateCompiles
  by_cases htemplate : query.isTemplate = true
  · rw [if_pos htemplate]
    cases hcompile : External.compile query with
    | some text => exact .refl
    | none => exact hwrite fun _ => hcompile
  · rw [if_neg htemplate]
    exact hwrite fun h => absurd h htemplate

theorem preparedQuerySetTxn_calm (query : PreparedQuery) :
    Calm idx p (preparedQuerySetTxn idx query) s := by
  refine .ite (.fail _) (.bind (.looks (preparedQueryLookup_looks _)) fun existing _ => ?_)
  refine .bind (.looks (.read _)) fun taken _ => ?_
  cases taken with
  | some text => exact .fail _
  | none => exact .bind (.looks (nameIsNoID_looks _)) fun _ _ => writeQuery_calm _

theorem preparedQueryDeleteTxn_calm (id : String) : Calm idx p (preparedQueryDeleteTxn idx id) s := by
  refine .bind (.looks (preparedQueryLookup_looks _)) fun q s => ?_
  cases q with
  | none => exact .pure _
  | some q =>
    refine .of_noCrash (fun _ => ?_)
      fun _ => .bind (.wrap (.delete _ _)) fun _ _ => setIndex_noCrash
    change wp _ (fun _ s' => CatalogSteps idx p s s') s
    rw [wp_bind, wp_wrap]
    exact wp_delete_of Tables.preparedQueries (fun k hk => .single (.removeQuery k)) fun _ => .refl

theorem intentionSetTxn_calm (ixn : Intention) : Calm idx p (intentionSetTxn idx ixn) s := by
  refine .ite (.fail _) (.bind (.looks (intentionLookup_looks _)) fun existing _ =>
    .bind (.looks (.read _)) fun dup _ => ?_)
  have hwrite (x : Intention) (s : State) : Calm idx p
      (insert Tables.intentions x >>= fun _ => setIndex (.table "connect-intentions") idx) s := by
    refine .of_noCrash (fun _ => ?_) fun _ => .bind (.insert _ _) fun _ _ => setIndex_noCrash
    change wp _ (fun _ s' => CatalogSteps idx p s s') s
    rw [wp_bind]
    exact wp_insert_of Tables.intentions (fun k hk => .single (.intentions _)) fun text => .refl
  cases dup with
  | none => exact hwrite _ _
  | some dup => exact .ite (.bind (.fail _) fun _ _ => hwrite _ _) (hwrite _ _)

theorem intentionDeleteTxn_calm (id : String) : Calm idx p (intentionDeleteTxn idx id) s := by
  refine .bind (.looks (intentionLookup_looks _)) fun x s => ?_
  cases x with
  | none => exact .pure _
  | some x =>
    refine .of_noCrash (fun _ => ?_)
      fun _ => .bind (.wrap (.delete _ _)) fun _ _ => setIndex_noCrash
    change wp _ (fun _ s' => CatalogSteps idx p s s') s
    rw [wp_bind, wp_wrap]
    exact wp_delete_of Tables.intentions (fun k hk => .single (.intentions _)) fun text => .refl

theorem coordinateBatchUpdateTxn_spec (updates : List Coordinate) (s : State) :
    wp (coordinateBatchUpdateTxn idx updates) (fun r s' => r = .ok () ∧
      CatalogSteps idx p s s') s := by
  unfold coordinateBatchUpdateTxn
  rw [wp_bind]
  refine wp_mono (wp_forEach_all (I := fun t => t = { s with coordinates := t.coordinates })
    (D := fun _ _ => True) rfl fun update _ s1 hs1 => ?_) ?_
  · by_cases hvalid : External.coordIsValid update.coord = true
    · simp only [hvalid, if_true, wp_bind, wp_read, andThen_ok]
      cases hrow : s1.nodes.first (toLower update.node) with
      | none => exact ⟨rfl, hs1, trivial, fun _ _ => trivial⟩
      | some n =>
        rw [wp_wrap, wp_insert Tables.coordinates (if_neg (name_of_nodeRow hrow))]
        refine ⟨rfl, ?_, trivial, fun _ _ => trivial⟩
        rw [hs1]
        rfl
    · simp only [hvalid, Bool.false_eq_true, if_false]
      exact ⟨rfl, hs1, trivial, fun _ _ => trivial⟩
  · rintro _ s1 ⟨rfl, hs1, -⟩
    rw [andThen_ok, wp_setIndex, hs1]
    exact ⟨rfl, .single (.coordinates _)⟩

/-! ## Transactions -/

theorem txnGetNode_looks (node : Node) : (txnGetNode node).Looks :=
  .ite (getNodeIDTxn_looks _) (.read _)

/-- A check-and-set is refused, or it makes the write. -/
def casOf (refuses : State → Bool) (ensure : StoreTxn Unit) : StoreTxn Bool := do
  if ← read refuses then return false
  else
    ensure
    return true

structure CatalogVerbs (run : CatalogOp → StoreTxn (List TxnResult))
    (ensure delete : StoreTxn Unit) : Prop where
  get : (run .get).Looks
  unknown : ∀ text, (run (.unknown text)).Looks
  writes : ∃ back : StoreTxn (List TxnResult), back.Looks ∧
    (run .set = (do ensure; back) ∨ run .set = (do let _ ← attempt ensure; back)) ∧
    ∃ refuses text, run .cas = do
      match ← attempt (casOf refuses ensure) with
      | .ok false => fail text
      | _ => back
  deletes : run .delete = do
    delete
    return []
  deletesCAS : ∃ cidx held text, run .deleteCAS = do
    if ← deleteCAS cidx held delete then return []
    else fail text

theorem CatalogVerbs.calm {ensure : StoreTxn Unit} (h : CatalogVerbs run ensure delete)
    {verb : CatalogOp} (hensure : verb = .set ∨ verb = .cas → Calm idx p ensure s)
    (hdelete : verb = .delete ∨ verb = .deleteCAS → Calm idx p delete s) :
    Calm idx p (run verb) s := by
  obtain ⟨back, hback, hset, refuses, stale, hcas⟩ := h.writes
  cases verb with
  | get => exact .looks h.get
  | unknown text => exact .looks (h.unknown text)
  | set =>
    rcases hset with hset | hset <;> rw [hset]
    · exact .bind (hensure (.inl rfl)) fun _ _ => .looks hback
    · exact .bind (.attempt (hensure (.inl rfl))) fun _ _ => .looks hback
  | cas =>
    rw [hcas]
    refine .bind (.attempt (.bind_read
      (.ite (.pure _) (.bind (hensure (.inr rfl)) fun _ _ => .pure _)))) fun r _ => ?_
    split
    · exact .fail _
    · exact .looks hback
  | delete =>
    rw [h.deletes]
    exact .bind (hdelete (.inl rfl)) fun _ _ => .pure _
  | deleteCAS =>
    obtain ⟨cidx, held, text, hrun⟩ := h.deletesCAS
    rw [hrun]
    exact .bind (deleteCAS_calm _ _ (hdelete (.inr rfl))) fun _ _ => .ite (.pure _) (.fail _)

/-- The write of an operation. -/
def CatalogOp.write (verb : CatalogOp) (ensure delete : StoreTxn Unit) : StoreTxn Unit :=
  match verb with
  | .set | .cas => ensure
  | .delete | .deleteCAS => delete
  | .get | .unknown _ => pure ()

theorem CatalogVerbs.result {ensure : StoreTxn Unit} (h : CatalogVerbs run ensure delete)
    {verb : CatalogOp} {r : List TxnResult} (hrun : run verb s = (.ok r, s')) :
    s' = (verb.write ensure delete s).2 ∧ NoCrash (verb.write ensure delete) s := by
  obtain ⟨back, hback, hset, refuses, stale, hcas⟩ := h.writes
  have hlooks {m : StoreTxn (List TxnResult)} (hm : m.Looks) {t : State}
      (ht : m t = (.ok r, s')) : s' = t := by
    rw [← hm.state t, ht]
  have hdone {m : StoreTxn Unit} {u : Unit} {t : State} (hm : m s = (.ok u, t)) :
      t = (m s).2 ∧ NoCrash m s := ⟨(congrArg Prod.snd hm).symm, .of_ok (congrArg Prod.fst hm)⟩
  cases verb with
  | get => exact ⟨hlooks h.get hrun, .pure ()⟩
  | unknown text => exact ⟨hlooks (h.unknown text) hrun, .pure ()⟩
  | set =>
    rcases hset with hset | hset <;> rw [hset] at hrun <;>
      obtain ⟨u, s1, hfirst, hrest⟩ := bind_eq_ok.mp hrun <;> obtain rfl := hlooks hback hrest
    · exact hdone hfirst
    · exact ⟨(congrArg Prod.snd hfirst).symm, .of_attempt hfirst⟩
  | cas =>
    rw [hcas] at hrun
    obtain ⟨x, s1, hfirst, hrest⟩ := bind_eq_ok.mp hrun
    have hstate : (casOf refuses ensure s).2 = s1 := congrArg Prod.snd hfirst
    have hcalm : NoCrash (casOf refuses ensure) s := .of_attempt hfirst
    cases hrefuses : refuses s with
    | true =>
      have hrun : casOf refuses ensure s = (.ok false, s) := by
        simp [casOf, read_bind, hrefuses, pure]
      rw [attempt_of_ok hrun] at hfirst
      cases hfirst
      cases hrest
    | false =>
      have hrun : casOf refuses ensure s = (do ensure; return true : StoreTxn Bool) s := by
        simp [casOf, read_bind, hrefuses]
      rw [NoCrash, hrun] at hcalm
      rw [hrun] at hstate
      split at hrest
      · cases hrest
      · rw [hlooks hback hrest, ← hstate, bind_pure_state]
        exact ⟨rfl, .of_bind hcalm⟩
  | delete =>
    rw [h.deletes] at hrun
    obtain ⟨u, s1, hfirst, hrest⟩ := bind_eq_ok.mp hrun
    rw [← (pure_eq_ok.mp hrest).2]
    exact hdone hfirst
  | deleteCAS =>
    obtain ⟨cidx, held, text, hcas⟩ := h.deletesCAS
    rw [hcas] at hrun
    obtain ⟨b, s1, hfirst, hrest⟩ := bind_eq_ok.mp hrun
    cases b with
    | false => cases hrest
    | true =>
      obtain ⟨-, rfl⟩ := pure_eq_ok.mp hrest
      replace hfirst := read_then hfirst
      cases hheld : held s with
      | none =>
        rw [hheld] at hfirst
        cases hfirst
      | some m =>
        rw [hheld] at hfirst
        dsimp only at hfirst
        split at hfirst
        · cases hfirst
        · obtain ⟨u, s2, hdelete, hlast⟩ := bind_eq_ok.mp hfirst
          obtain ⟨-, rfl⟩ := pure_eq_ok.mp hlast
          exact hdone hdelete

variable (idx) in
theorem txnNode_verbs (node : Node) : CatalogVerbs (fun verb => txnNode idx ⟨verb, node⟩)
    (ensureNodeTxn idx node) (deleteNodeTxn idx node.node) where
  get := by
    refine .bind (txnGetNode_looks _) fun n => ?_
    cases n with
    | none => exact .fail _
    | some n => exact .pure _
  unknown _ := .fail _
  writes := ⟨do return (← txnGetNode node).toList.map .node,
    .bind (txnGetNode_looks _) fun _ => .pure _, .inl rfl,
    fun s => casRefuses node.modifyIndex ((nodeRow node.node s).map (·.modifyIndex)), _, rfl⟩
  deletes := rfl
  deletesCAS := ⟨_, _, _, rfl⟩

variable (idx) in
theorem txnService_verbs (node : String) (svc : NodeService) :
    CatalogVerbs (fun verb => txnService idx ⟨verb, node, svc⟩) (ensureServiceTxn idx node svc)
      (deleteServiceTxn idx node svc.id) where
  get := by
    refine .bind (.read _) fun x => ?_
    cases x with
    | none => exact .fail _
    | some x => exact .pure _
  unknown _ := .fail _
  writes := ⟨do return (← getNodeServiceTxn node svc.id).toList.map .service,
    .bind (.read _) fun _ => .pure _, .inr rfl,
    fun s => casRefuses svc.modifyIndex ((serviceRow node svc.id s).map (·.modifyIndex)), _, rfl⟩
  deletes := rfl
  deletesCAS := ⟨_, _, _, rfl⟩

variable (idx) in
theorem txnCheck_verbs (hc : HealthCheck) : CatalogVerbs (fun verb => txnCheck idx ⟨verb, hc⟩)
    (ensureCheckTxn idx hc) (deleteCheckTxn idx hc.node hc.checkID) where
  get := by
    refine .bind (.read _) fun x => ?_
    cases x with
    | none => exact .fail _
    | some x => exact .pure _
  unknown _ := .fail _
  writes := ⟨do return (← read (checkRow hc.node hc.checkID)).toList.map .check,
    .bind (.read _) fun _ => .pure _, .inl rfl,
    fun s => casRefuses hc.modifyIndex ((checkRow hc.node hc.checkID s).map (·.modifyIndex)),
    _, rfl⟩
  deletes := rfl
  deletesCAS := ⟨_, _, _, rfl⟩

theorem txnIntention_calm (op : TxnIntentionOp) : Calm idx p (txnIntention idx op) s := by
  unfold txnIntention
  cases op.op with
  | create => exact .bind (intentionSetTxn_calm _) fun _ _ => .pure _
  | update => exact .bind (intentionSetTxn_calm _) fun _ _ => .pure _
  | delete => exact .bind (intentionDeleteTxn_calm _) fun _ _ => .pure _
  | unknown text => exact .bind (.fail _) fun _ _ => .pure _

theorem txnIntention_rows (op : TxnIntentionOp) : Does SameRows (txnIntention idx op) := by
  unfold txnIntention
  cases op.op with
  | create | update => exact .bind (intentionSetTxn_rows _) fun _ => .pure _
  | delete => exact .bind (intentionDeleteTxn_rows _) fun _ => .pure _
  | unknown text => exact .bind (.fail _) fun _ => .pure _

theorem txnKVS_looks {op : TxnKVOp} (h : op.keyOp = none) : (txnKVS idx op).Looks := by
  obtain ⟨verb, e⟩ := op
  cases verb <;> cases h <;> unfold txnKVS
  case get | checkNotExists =>
    refine .bind (.read _) fun o => ?_
    cases o with
    | none => first | exact .fail _ | exact .pure _
    | some _ => first | exact .fail _ | exact .pure _
  case getTree => exact .bind (.read _) fun _ => .pure _
  case checkSession | checkIndex =>
    refine .bind (.bind (.read _) fun o => ?_) fun _ => .pure _
    cases o with
    | none => exact .fail _
    | some e => exact .ite (.fail _) (.pure _)
  case unknown => exact .fail _

/-- The session that an operation creates. -/
def Operation.newSession : Operation → Option Session
  | call (.sessionCreate sess) => some sess
  | _ => none

/-- The checks that an operation stores. -/
def Operation.checks : Operation → List HealthCheck
  | call (.ensureCheck hc) => [hc]
  | call (.ensureRegistration req) => req.check.toList ++ req.checks
  | txn { check := some { verb := .set, check := hc }, .. }
  | txn { check := some { verb := .cas, check := hc }, .. } => [hc]
  | _ => []

/-- The session that an operation destroys. -/
def Operation.destroyed : Operation → Option String
  | call (.sessionDestroy id) => some id
  | _ => none

/-- The node that an operation removes, because it deletes it or gives it another name. -/
def Operation.removedNode (s : State) : Operation → Option String
  | call (.deleteNode node) => some node
  | call (.ensureNode node) => (node.renamed s).map (·.node)
  | call (.ensureRegistration req) => (req.toNode.renamed s).map (·.node)
  | txn { node := some { verb, node }, .. } =>
    match verb with
    | .set | .cas => (node.renamed s).map (·.node)
    | .delete | .deleteCAS => some node.node
    | .get | .unknown _ => none
  | _ => none

/-- The service that an operation removes. -/
def Operation.removedService : Operation → Option (String × String)
  | call (.deleteService node id) => some (node, id)
  | txn { service := some { verb := .delete, node, service }, .. }
  | txn { service := some { verb := .deleteCAS, node, service }, .. } => some (node, service.id)
  | _ => none

/-- The check that an operation removes. -/
def Operation.removedCheck : Operation → Option (String × String)
  | call (.deleteCheck node id) => some (node, id)
  | txn { check := some { verb := .delete, check }, .. }
  | txn { check := some { verb := .deleteCAS, check }, .. } => some (check.node, check.checkID)
  | _ => none

/-- The checks that go down by an operation: they are removed, alone or with their service, or
they turn critical. -/
def Operation.takenDown (op : Operation) (s : State) : List (String × String) :=
  op.removedCheck.toList ++ (op.removedService.toList.flatMap fun (node, id) =>
    (checksOfService node id s).map fun c => (node, c.checkID)) ++
    (op.checks.filter (·.TurnsCritical)).map fun hc => (hc.node, hc.checkID)

/-- What an operation does to sessions, when the names of the checks that it stores are in `P`. -/
def Operation.scope (op : Operation) (P : String → String → Prop) (s : State) : Scope where
  names := P
  ends u := ∃ id, op.destroyed = some id ∧ uuidKey id = .ok u
  leaves node := op.removedNode s = some node
  downs node checkID := (node, checkID) ∈ op.takenDown s

/-- The checks that an operation stores have names in `P`. -/
def Operation.Names (op : Operation) (P : String → String → Prop) : Prop :=
  ∀ hc ∈ op.checks, hc.serviceID ≠ "" → P hc.node hc.serviceID

variable {P : String → String → Prop}

omit [External] in
theorem Operation.Names.any {op : Operation} : op.Names fun _ _ => True := fun _ _ _ => trivial

theorem Operation.Names.allowed {op : Operation} (h : op.Names P) {hc : HealthCheck}
    (hmem : hc ∈ op.checks) : hc.Allowed (op.scope P s) :=
  ⟨h hc hmem, fun hcrit => List.mem_append_right _
    (List.mem_map.mpr ⟨hc, List.mem_filter.mpr ⟨hmem, decide_eq_true hcrit⟩, rfl⟩)⟩

theorem Operation.downs_of_removedService {op : Operation} {node id : String} {c : HealthCheck}
    (h : op.removedService = some (node, id)) (hc : c ∈ checksOfService node id s) :
    (op.scope P s).Downs node c.checkID := by
  refine .inr (List.mem_append_left _ (List.mem_append_right _ (List.mem_flatMap.mpr
    ⟨(node, id), ?_, List.mem_map_of_mem hc⟩)))
  rw [h]
  exact List.mem_singleton.mpr rfl

theorem Operation.downs_of_removedCheck {op : Operation} {node id : String}
    (h : op.removedCheck = some (node, id)) : (op.scope P s).Downs node id := by
  refine .inr (List.mem_append_left _ (List.mem_append_left _ ?_))
  rw [h]
  exact List.mem_singleton.mpr rfl

omit [External] in
@[elab_as_elim]
theorem TxnOp.kindCases {motive : TxnOp → Prop} (kv : ∀ x a b c d, motive ⟨some x, a, b, c, d⟩)
    (intention : ∀ x a b c, motive ⟨none, some x, a, b, c⟩)
    (node : ∀ x a b, motive ⟨none, none, some x, a, b⟩)
    (service : ∀ x a, motive ⟨none, none, none, some x, a⟩)
    (check : ∀ x, motive ⟨none, none, none, none, some x⟩)
    (missing : motive ⟨none, none, none, none, none⟩) (op : TxnOp) : motive op :=
  match op with
  | ⟨some x, a, b, c, d⟩ => kv x a b c d
  | ⟨none, some x, a, b, c⟩ => intention x a b c
  | ⟨none, none, some x, a, b⟩ => node x a b
  | ⟨none, none, none, some x, a⟩ => service x a
  | ⟨none, none, none, none, some x⟩ => check x
  | ⟨none, none, none, none, none⟩ => missing

theorem Operation.calm_txn {op : TxnOp} (hk : (txn op).keyOp = none) (hP : (txn op).Names P) :
    Calm idx ((txn op).scope P s) (txnOp idx op) s := by
  cases op using TxnOp.kindCases with
  | kv x => exact .looks (txnKVS_looks hk)
  | intention x => exact txnIntention_calm x
  | node x =>
    obtain ⟨verb, node⟩ := x
    refine (txnNode_verbs idx node).calm (fun hverb => ensureNodeTxn_calm fun n hn => ?_)
      fun hverb => deleteNodeTxn_calm ?_
    · rcases hverb with rfl | rfl <;> exact congrArg (Option.map (·.node)) hn
    · rcases hverb with rfl | rfl <;> rfl
  | service x =>
    obtain ⟨verb, node, svc⟩ := x
    refine (txnService_verbs idx node svc).calm (fun _ => ensureServiceTxn_calm node svc)
      fun hverb => deleteServiceTxn_calm fun c hc => downs_of_removedService ?_ hc
    rcases hverb with rfl | rfl <;> rfl
  | check x =>
    obtain ⟨verb, hc⟩ := x
    refine (txnCheck_verbs idx hc).calm (fun hverb => ensureCheckTxn_calm (hP.allowed ?_))
      fun hverb => deleteCheckTxn_calm (downs_of_removedCheck ?_)
    · rcases hverb with rfl | rfl <;> exact List.mem_singleton.mpr rfl
    · rcases hverb with rfl | rfl <;> rfl
  | missing => exact .fail _

theorem Operation.calm {op : Operation} (hk : op.keyOp = none) (hs : op.newSession = none)
    (hP : op.Names P) : Calm idx (op.scope P s) (op.run idx) s := by
  cases op with
  | call c =>
    cases c with
    | kvsSet | kvsSetCAS | kvsDelete | kvsDeleteCAS | kvsDeleteTree | kvsLock | kvsUnlock
    | reapTombstones => cases hk
    | sessionCreate sess => cases hs
    | sessionDestroy id =>
      exact .bind (deleteSessionTxn_calm fun u hu => ⟨id, rfl, hu⟩) fun _ _ => .pure _
    | ensureRegistration req =>
      refine .bind (ensureRegistrationTxn_calm (fun n hn => ?_) fun hc hmem => hP.allowed hmem)
        fun _ _ => .pure _
      exact congrArg (Option.map (·.node)) hn
    | ensureNode node =>
      refine .bind (ensureNodeTxn_calm fun n hn => ?_) fun _ _ => .pure _
      exact congrArg (Option.map (·.node)) hn
    | ensureService node svc => exact .bind (ensureServiceTxn_calm _ _) fun _ _ => .pure _
    | ensureCheck hc =>
      exact .bind (ensureCheckTxn_calm (hP.allowed (List.mem_singleton.mpr rfl))) fun _ _ => .pure _
    | deleteNode node => exact .bind (deleteNodeTxn_calm rfl) fun _ _ => .pure _
    | deleteService node id =>
      exact .bind (deleteServiceTxn_calm fun c hc => downs_of_removedService rfl hc)
        fun _ _ => .pure _
    | deleteCheck node id =>
      exact .bind (deleteCheckTxn_calm (downs_of_removedCheck rfl)) fun _ _ => .pure _
    | preparedQuerySet q => exact .bind (preparedQuerySetTxn_calm _) fun _ _ => .pure _
    | preparedQueryDelete id =>
      exact .bind (.wrap (preparedQueryDeleteTxn_calm _)) fun _ _ => .pure _
    | intentionSet x => exact .bind (intentionSetTxn_calm _) fun _ _ => .pure _
    | intentionDelete id => exact .bind (.wrap (intentionDeleteTxn_calm _)) fun _ _ => .pure _
    | coordinateBatchUpdate us =>
      refine .bind (.of_noCrash (fun _ => (coordinateBatchUpdateTxn_spec us s).2) fun _ => ?_)
        fun _ _ => .pure _
      exact .of_ok (coordinateBatchUpdateTxn_spec (p := .any) us s).1
  | txn op => exact .bind (calm_txn hk hP) fun _ _ => .pure _

theorem Operation.steps {op : Operation} (hs : Sound s) (hk : op.keyOp = none)
    (hn : op.newSession = none) (hP : op.Names P) (h : op.Succeeds idx s s') :
    CatalogSteps idx (op.scope P s) s s' := by
  have hchain := (Operation.calm hk hn hP).steps hs (.of_ok (congrArg Prod.fst h))
  rw [h] at hchain
  exact hchain

end OpenGyoza
