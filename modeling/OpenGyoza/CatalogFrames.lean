-- Steps that leave the rows of the catalog alone: those that only write index
-- rows, keys, sessions, queries, intentions or coordinates.
import OpenGyoza.Catalog
import OpenGyoza.KvEffects

namespace OpenGyoza

open Memdb Txn

/-- The nodes, the services and the checks. -/
def State.catalog [External] (s : State) :
    Table nodeKey × Table serviceKey × Table checkKey :=
  (s.nodes, s.services, s.checks)

variable [External] {idx : Nat}

/-- The rows of the catalog are the same. -/
def SameRows (s s' : State) : Prop := s'.catalog = s.catalog

theorem sameRows_of_does {α : Type} {m : StoreTxn α} (h : Does SameRows m) (s : State) :
    SameRows s (m s).2 :=
  h.holds (fun _ => rfl) (fun _ _ _ h h' => h'.trans h) s

theorem SameRows.refl (s : State) : SameRows s s := rfl

theorem SameRows.trans {s s' s'' : State} (h : SameRows s s') (h' : SameRows s' s'') :
    SameRows s s'' := Eq.trans h' h

theorem SameRows.nodes {s s' : State} (h : SameRows s s') : s'.nodes = s.nodes :=
  congrArg Prod.fst h

theorem SameRows.services {s s' : State} (h : SameRows s s') : s'.services = s.services :=
  congrArg (·.2.1) h

theorem SameRows.checks {s s' : State} (h : SameRows s s') : s'.checks = s.checks :=
  congrArg (·.2.2) h

theorem setIndex_rows {name : IndexName} : Does SameRows (setIndex name idx) :=
  .wrap (.insert fun _ _ _ => rfl)

theorem preparedQueryLookup_looks (id : String) : (preparedQueryLookup id).Looks :=
  .bind (.wrap (.ofExcept _)) fun _ => .read _

theorem querySessionExists_looks (session : String) : (querySessionExists session).Looks := by
  refine .ite (.bind (.wrap (.ofExcept _)) fun u => .bind (.read _) fun sess => ?_) (.pure _)
  cases sess with
  | none => exact .fail _
  | some sess => exact .pure _

theorem templateCompiles_looks (q : PreparedQuery) : (templateCompiles q).Looks := by
  refine .ite ?_ (.pure _)
  cases External.compile q with
  | none => exact .pure _
  | some text => exact .fail _

theorem nameIsNoID_looks (name : String) : (nameIsNoID name).Looks := by
  refine .ite (.bind (preparedQueryLookup_looks name) fun q => ?_) (.pure _)
  cases q with
  | none => exact .pure _
  | some q => exact .fail _

theorem intentionLookup_looks (id : String) : (intentionLookup id).Looks :=
  .bind (.wrap (.ofExcept _)) fun _ => .read _

theorem getNodeIDTxn_looks (id : String) : (getNodeIDTxn id).Looks := by
  unfold getNodeIDTxn
  split
  · exact .fail _
  · exact .read _

theorem preparedQueryDeleteTxn_rows (id : String) :
    Does SameRows (preparedQueryDeleteTxn idx id) :=
  preparedQueryDeleteTxn_steps (fun _ _ _ _ => rfl) (fun _ _ => rfl) id

theorem deleteSessionTxn_rows (id : String) : Does SameRows (deleteSessionTxn idx id) :=
  deleteSessionTxn_steps (fun _ _ _ _ => rfl) (fun _ _ _ => rfl) (fun _ _ _ _ => rfl)
    (fun _ _ => rfl) (fun _ _ => rfl) (fun _ _ => rfl) id

theorem preparedQuerySetTxn_rows (query : PreparedQuery) :
    Does SameRows (preparedQuerySetTxn idx query) := by
  refine .ite (.fail _) (.bind (preparedQueryLookup_looks _).does fun old =>
    .bind (.read _) fun taken => ?_)
  cases taken with
  | some text => exact .fail _
  | none =>
    exact .bind (nameIsNoID_looks _).does fun _ => .bind (querySessionExists_looks _).does fun _ =>
      .bind (templateCompiles_looks _).does fun _ =>
        .bind (.wrap (.insert fun _ _ _ => rfl)) fun _ => setIndex_rows

theorem intentionSetTxn_rows (ixn : Intention) : Does SameRows (intentionSetTxn idx ixn) := by
  have hwrite (x : Intention) : Does SameRows
      (Txn.insert Tables.intentions x >>= fun _ => setIndex (.table "connect-intentions") idx) :=
    .bind (.insert fun _ _ _ => rfl) fun _ => setIndex_rows
  refine .ite (.fail _) (.bind (intentionLookup_looks _).does fun old =>
    .bind (.read _) fun dup => ?_)
  cases dup with
  | none => exact hwrite _
  | some dup => exact .ite (.bind (.fail _) fun _ => hwrite _) (hwrite _)

theorem intentionDeleteTxn_rows (id : String) : Does SameRows (intentionDeleteTxn idx id) := by
  refine .bind (intentionLookup_looks _).does fun x => ?_
  cases x with
  | none => exact .pure _
  | some x =>
    exact .bind (.wrap (.delete fun _ _ _ => rfl)) fun _ => setIndex_rows

theorem coordinateBatchUpdateTxn_rows (updates : List Coordinate) :
    Does SameRows (coordinateBatchUpdateTxn idx updates) := by
  refine .bind (.forEach fun update _ => .ite (.bind (.read _) fun n => ?_) (.pure _)) fun _ =>
    setIndex_rows
  cases n with
  | none => exact .pure _
  | some n => exact .wrap (.insert fun _ _ _ => rfl)

end OpenGyoza
