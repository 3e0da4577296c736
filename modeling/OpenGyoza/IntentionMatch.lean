-- Which intention decides about a connection. The intentions for a destination
-- are found in an index, put in order of their precedence, and the first one
-- that fits the source decides.
import OpenGyoza.IntentionReplication
import OpenGyoza.WritePermissions

namespace OpenGyoza

open Memdb Txn Table List Intention

section Model

variable [External]

/-! ## Intentions that are accepted -/

/-- The check of one pair of a namespace and a name. -/
def wildcardErrors (nsField nameField ns name : String) : List String :=
  (if ns ≠ intentionWildcard ∧ '*' ∈ ns.toList then
    [nsField ++ ": wildcard character '*' cannot be used with partial values"] else []) ++
  (if name ≠ intentionWildcard ∧ '*' ∈ name.toList then
    [nameField ++ ": wildcard character '*' cannot be used with partial values"] else []) ++
  (if name ≠ intentionWildcard ∧ ns = intentionWildcard then
    [nameField ++ ": exact value cannot follow wildcard namespace"] else [])

def emptyErrors (field value : String) : List String :=
  if value = "" then [field ++ " must be set"] else []

/-- The errors of an intention. -/
def Intention.validate (x : Intention) : List String :=
  emptyErrors "SourceNS" x.sourceNS ++ emptyErrors "SourceName" x.sourceName ++
  emptyErrors "DestinationNS" x.destinationNS ++ emptyErrors "DestinationName" x.destinationName ++
  wildcardErrors "SourceNS" "SourceName" x.sourceNS x.sourceName ++
  wildcardErrors "DestinationNS" "DestinationName" x.destinationNS x.destinationName ++
  (if x.description.utf8ByteSize > metaValueMaxLength then
    ["Description exceeds maximum length " ++ toString metaValueMaxLength] else []) ++
  (if (pairsOf x.metadata).length > metaMaxKeyPairs then
    ["Meta exceeds maximum element count " ++ toString metaMaxKeyPairs] else []) ++
  (pairsOf x.metadata).flatMap (fun (k, v) =>
    (if k.utf8ByteSize > metaKeyMaxLength then
      ["Meta key " ++ quote k ++ " exceeds maximum length " ++ toString metaKeyMaxLength]
      else []) ++
    (if v.utf8ByteSize > metaValueMaxLength then
      ["Meta value for key " ++ quote k ++ " exceeds maximum length " ++
        toString metaValueMaxLength] else [])) ++
  (match x.action with
    | .allow | .deny => []
    | .other _ => ["Action must be set to 'allow' or 'deny'"]) ++
  (if x.sourceType ≠ "consul" then ["SourceType must be set to 'consul'"] else [])

/-! ## The query -/

inductive IntentionMatchType where
  | source
  | destination
deriving DecidableEq

structure IntentionMatchEntry where
  ns : String
  name : String

/-- The entry of an intention in the index of its sources or of its destinations: the two names
and the key of the intention. -/
def Intention.indexEntry (type : IntentionMatchType) (x : Intention) : Option (List Byte) :=
  let (ns, name) :=
    match type with
    | .source => (x.sourceNS, x.sourceName)
    | .destination => (x.destinationNS, x.destinationName)
  if ns = "" ∨ name = "" then none
  else
    match intentionKey x with
    | .ok key => some (indexField ns ++ indexField name ++ key)
    | .error _ => none

/-- The search in an index finds all entries that begin with the names. -/
def intentionGet (type : IntentionMatchType) (ns name : String) (s : State) : List Intention :=
  s.intentions.get fun x =>
    (x.indexEntry type).any fun entry => (indexField ns ++ indexField name).isPrefixOf entry

def intentionMatchGetParams (entry : IntentionMatchEntry) : List (String × String) :=
  if entry.ns = intentionWildcard then [("*", "*")]
  else if entry.name = intentionWildcard then [("*", "*"), (entry.ns, "*")]
  else [("*", "*"), (entry.ns, "*"), (entry.ns, entry.name)]

/-- The intentions for one entry, before they are sorted. -/
def intentionsFound (type : IntentionMatchType) (entry : IntentionMatchEntry) (s : State) :
    List Intention :=
  (intentionMatchGetParams entry).flatMap fun (ns, name) => intentionGet type ns name s

def intentionMatch (type : IntentionMatchType) (entries : List IntentionMatchEntry) (s : State) :
    Nat × List (List Intention) :=
  (max 1 (maxIndexTxn ["connect-intentions"] s),
    entries.map fun entry =>
      (intentionsFound type entry s).insertionSort fun a b => precedenceLess b a = false)

/-! ## Decisions -/

/-- The identity in the certificate of a service. -/
structure SpiffeIDService where
  host : String := ""
  ns : String
  datacenter : String := ""
  service : String

/-- Whether an intention allows the service, and whether it is about the service at all. -/
def SpiffeIDService.authorize (id : SpiffeIDService) (ixn : Intention) : Bool × Bool :=
  if ixn.sourceNS ≠ intentionWildcard ∧ ixn.sourceNS ≠ id.ns then (false, false)
  else if ixn.sourceName ≠ intentionWildcard ∧ ixn.sourceName ≠ id.service then (false, false)
  else (ixn.action = .allow, true)

/-- The first intention of a list that is about the service. -/
def SpiffeIDService.firstMatch (id : SpiffeIDService) (ixns : List Intention) : Option Intention :=
  ixns.find? fun ixn => (id.authorize ixn).2

/-- The intentions for a destination, in their order. -/
def matchesFor (ns name : String) (s : State) : List Intention :=
  ((intentionMatch .destination [{ ns := ns, name := name }] s).2.head?).getD []

structure IntentionQueryCheck where
  sourceNS : String
  sourceName : String
  destinationNS : String
  destinationName : String
  sourceType : String := "consul"

/-- Without an intention the anonymous token decides, if there are tokens. -/
def defaultAllow (anonymous : Option Authorizer) : Bool :=
  (anonymous.map (·.intentionDefaultAllow)).getD true

def intentionCheck (rule anonymous : Option Authorizer) (query : IntentionQueryCheck) (s : State) :
    Except String Bool :=
  let uri : SpiffeIDService := { ns := query.sourceNS, service := query.sourceName }
  if query.sourceType ≠ "consul" then
    .error ("unsupported SourceType: " ++ quote query.sourceType)
  else if query.destinationName ≠ "" ∧
      !rule.all (·.serviceRead (bytesOf query.destinationName)) then
    .error errPermissionDenied
  else
    match uri.firstMatch (matchesFor query.destinationNS query.destinationName s) with
    | some ixn => .ok (uri.authorize ixn).1
    | none => .ok (defaultAllow anonymous)

/-- The decision with its reason. `target` is a service of the default namespace. -/
def connectAuthorize (rule anonymous : Option Authorizer) (target : String)
    (uri : SpiffeIDService) (s : State) : Except String (Bool × String) :=
  if target = "" then .error "Target service must be specified"
  else if !rule.all (·.serviceWrite (bytesOf target)) then .error errPermissionDenied
  else
    match uri.firstMatch (matchesFor "default" target s) with
    | some ixn => .ok ((uri.authorize ixn).1, "Matched intention: " ++ ixn.toText)
    | none =>
      match anonymous with
      | none => .ok (true, "ACLs disabled, access is allowed by default")
      | some anonymous =>
        .ok (anonymous.intentionDefaultAllow, "Default behavior configured by ACLs")

end Model

/-! ## What a lower-case name may be -/

/-- The part of the behaviour of `strings.ToLower` that matters here: only the wildcard becomes
the wildcard, and no zero byte is made. -/
class FoldsCase [External] : Prop where
  wildcard : ∀ s, toLower s = intentionWildcard ↔ s = intentionWildcard
  zeroFree : ∀ s, 0 ∉ bytesOf s → 0 ∉ bytesOf (toLower s)

section Laws

variable [External] {s : State} {ns name : String} {id : SpiffeIDService}
  {type : IntentionMatchType}

/-! ## Intentions in the table -/

/-- The names of an intention that was accepted, without zero bytes in the destination. -/
structure Intention.Formed (x : Intention) : Prop where
  sourceNS : x.sourceNS ≠ ""
  sourceName : x.sourceName ≠ ""
  destinationNS : x.destinationNS ≠ ""
  destinationName : x.destinationName ≠ ""
  anySource : x.sourceNS = intentionWildcard → x.sourceName = intentionWildcard
  anyDestination : x.destinationNS = intentionWildcard → x.destinationName = intentionWildcard
  zeroFreeNS : ZeroFree x.destinationNS
  zeroFreeName : ZeroFree x.destinationName

omit [External] in
theorem emptyErrors_eq_nil {field value : String} : emptyErrors field value = [] ↔ value ≠ "" := by
  unfold emptyErrors
  split <;> simp_all

omit [External] in
theorem name_of_wildcardErrors {nsField nameField : String}
    (h : wildcardErrors nsField nameField ns name = []) :
    ns = intentionWildcard → name = intentionWildcard := by
  intro hns
  by_contra hname
  simp [wildcardErrors, hns, hname] at h

variable {x y : Intention}

theorem formed_of_valid (h : x.validate = []) (hns : ZeroFree x.destinationNS)
    (hname : ZeroFree x.destinationName) : x.Formed := by
  simp only [validate, append_eq_nil_iff] at h
  obtain ⟨⟨⟨⟨⟨⟨⟨⟨⟨⟨h1, h2⟩, h3⟩, h4⟩, h5⟩, h6⟩, -⟩, -⟩, -⟩, -⟩, -⟩ := h
  exact {
    sourceNS := emptyErrors_eq_nil.mp h1
    sourceName := emptyErrors_eq_nil.mp h2
    destinationNS := emptyErrors_eq_nil.mp h3
    destinationName := emptyErrors_eq_nil.mp h4
    anySource := name_of_wildcardErrors h5
    anyDestination := name_of_wildcardErrors h6
    zeroFreeNS := hns
    zeroFreeName := hname }

/-- How exact the destination and the source are. -/
def Intention.rank (x : Intention) : Int × Int :=
  (countExact x.destinationNS x.destinationName, countExact x.sourceNS x.sourceName)

/-- The rank in one number. -/
def Intention.rankNumber (x : Intention) : Int := 3 * x.rank.1 + x.rank.2 + 1

omit [External] in
theorem countExact_cases (ns name : String) :
    (ns = intentionWildcard ∧ countExact ns name = 0) ∨
      (ns ≠ intentionWildcard ∧ name = intentionWildcard ∧ countExact ns name = 1) ∨
      (ns ≠ intentionWildcard ∧ name ≠ intentionWildcard ∧ countExact ns name = 2) := by
  unfold countExact
  by_cases hns : ns = intentionWildcard <;> by_cases hname : name = intentionWildcard <;>
    simp [hns, hname]

omit [External] in
theorem updatePrecedence_precedence (x : Intention) :
    x.updatePrecedence.precedence = x.rankNumber := by
  unfold updatePrecedence rankNumber rank
  rcases countExact_cases x.destinationNS x.destinationName with ⟨-, h⟩ | ⟨-, -, h⟩ | ⟨-, -, h⟩ <;>
    simp only [h] <;> omega

/-- The table of intentions as the commands leave it. -/
structure IntentionsFormed (t : Table intentionKey) : Prop where
  formed : ∀ x ∈ t.values, x.Formed
  precedence : ∀ x ∈ t.values, x.precedence = x.rankNumber
  unique : NamesUnique t

/-! ## What an intention is about -/

/-- The intention is about the destination. -/
def Intention.CoversDestination (ns name : String) (x : Intention) : Prop :=
  x.destinationNS = intentionWildcard ∨
    toLower x.destinationNS = toLower ns ∧
      (x.destinationName = intentionWildcard ∨ toLower x.destinationName = toLower name)

/-- The intention is about the source. -/
def Intention.CoversSource (id : SpiffeIDService) (x : Intention) : Prop :=
  (x.sourceNS = intentionWildcard ∨ x.sourceNS = id.ns) ∧
    (x.sourceName = intentionWildcard ∨ x.sourceName = id.service)

omit [External] in
theorem authorize_iff : (id.authorize x).2 = true ↔ x.CoversSource id := by
  unfold SpiffeIDService.authorize CoversSource
  split
  · simp_all
  · split <;> simp_all
    tauto

/-- The names by which an index has an intention. -/
def Intention.names (type : IntentionMatchType) (x : Intention) : String × String :=
  match type with
  | .source => (x.sourceNS, x.sourceName)
  | .destination => (x.destinationNS, x.destinationName)

/-- A namespace and a name that were accepted, without zero bytes. -/
structure NamesFormed (names : String × String) : Prop where
  ns : names.1 ≠ ""
  name : names.2 ≠ ""
  any : names.1 = intentionWildcard → names.2 = intentionWildcard
  zeroFreeNS : ZeroFree names.1
  zeroFreeName : ZeroFree names.2

omit [External] in
theorem Intention.Formed.destinationNames (h : x.Formed) : NamesFormed (x.names .destination) :=
  ⟨h.destinationNS, h.destinationName, h.anyDestination, h.zeroFreeNS, h.zeroFreeName⟩

/-! ## The matchers of a source -/

/-- The intentions for a source, in their order. -/
def sourceMatchesFor (ns name : String) (s : State) : List Intention :=
  ((intentionMatch .source [{ ns := ns, name := name }] s).2.head?).getD []

theorem mem_sourceMatchesFor :
    x ∈ sourceMatchesFor ns name s ↔
      x ∈ intentionsFound .source { ns := ns, name := name } s := by
  show x ∈ List.insertionSort _ _ ↔ _
  rw [mem_insertionSort]

theorem sourceNames_of_valid (h : x.validate = []) (hns : ZeroFree x.sourceNS)
    (hname : ZeroFree x.sourceName) : NamesFormed (x.names .source) := by
  simp only [validate, append_eq_nil_iff] at h
  obtain ⟨⟨⟨⟨⟨⟨⟨⟨⟨⟨h1, h2⟩, -⟩, -⟩, h5⟩, -⟩, -⟩, -⟩, -⟩, -⟩, -⟩ := h
  exact ⟨emptyErrors_eq_nil.mp h1, emptyErrors_eq_nil.mp h2, name_of_wildcardErrors h5, hns, hname⟩

/-- The entry of the intention in the index of the sources begins with names that are looked up
for the source. -/
def Intention.FoundFor (id : SpiffeIDService) (x : Intention) : Prop :=
  ∃ p ∈ intentionMatchGetParams { ns := id.ns, name := id.service },
    ∃ entry, x.indexEntry .source = some entry ∧ indexField p.1 ++ indexField p.2 <+: entry

/-- The index finds the intention for a source that it is not about. -/
def Intention.MistakenFor (id : SpiffeIDService) (x : Intention) : Prop :=
  x.FoundFor id ∧ ¬x.CoversSource id

/-- The source of the intention is the one asked for in another case. -/
def Intention.InOtherCase (id : SpiffeIDService) (x : Intention) : Prop :=
  toLower x.sourceNS = toLower id.ns ∧
    (x.sourceName = intentionWildcard ∨ toLower x.sourceName = toLower id.service) ∧
    (x.sourceNS ≠ id.ns ∨ x.sourceName ≠ intentionWildcard ∧ x.sourceName ≠ id.service)

theorem indexEntry_of_mem (hx : x ∈ s.intentions.values) (hns : (x.names type).1 ≠ "")
    (hname : (x.names type).2 ≠ "") : ∃ key, x.indexEntry type =
      some (indexField (x.names type).1 ++ indexField (x.names type).2 ++ key) := by
  obtain ⟨key, hkey⟩ := key_of_mem hx
  refine ⟨key, ?_⟩
  show (if (x.names type).1 = "" ∨ (x.names type).2 = "" then none else _) = _
  rw [if_neg (by simp [hns, hname]), hkey]
  rfl

theorem mem_sourceMatchesFor_iff (hx : x ∈ s.intentions.values) :
    x ∈ sourceMatchesFor id.ns id.service s ↔ x.FoundFor id := by
  rw [mem_sourceMatchesFor, intentionsFound, mem_flatMap]
  refine exists_congr fun p => and_congr_right fun _ => ?_
  simp [intentionGet, mem_get, hx, Option.any_eq_true]

theorem found_of_covers (hx : x ∈ s.intentions.values) (hvalid : x.validate = [])
    (hns : id.ns ≠ intentionWildcard) (hname : id.service ≠ intentionWildcard)
    (h : x.CoversSource id) : x ∈ sourceMatchesFor id.ns id.service s := by
  simp only [validate, append_eq_nil_iff] at hvalid
  obtain ⟨⟨⟨⟨⟨⟨⟨⟨⟨⟨h1, h2⟩, -⟩, -⟩, h5⟩, -⟩, -⟩, -⟩, -⟩, -⟩, -⟩ := hvalid
  have hnames : (x.names .source).1 ≠ "" := emptyErrors_eq_nil.mp h1
  obtain ⟨key, hentry⟩ := indexEntry_of_mem hx hnames (emptyErrors_eq_nil.mp h2)
  refine (mem_sourceMatchesFor_iff hx).mpr ⟨(x.sourceNS, x.sourceName), ?_, _, hentry,
    prefix_append _ _⟩
  have hany := name_of_wildcardErrors h5
  unfold intentionMatchGetParams
  rw [if_neg hns, if_neg hname]
  rcases h.1 with hwild | hwild
  · simp [hwild, hany hwild, intentionWildcard]
  · rcases h.2 with hwild' | hwild' <;> simp [hwild, hwild', intentionWildcard]

/-! ## The order of the matches -/

theorem sourceDestination_of_formed (h : x.Formed) :
    x.sourceDestination = some (indexField x.sourceNS ++ indexField x.sourceName ++
      indexField x.destinationNS ++ indexField x.destinationName) := by
  simp [sourceDestination, h.sourceNS, h.sourceName, h.destinationNS, h.destinationName]

/-- An intention is about the destination and the source of a connection. -/
structure Intention.Applies (ns name : String) (id : SpiffeIDService) (x : Intention) : Prop where
  destination : x.CoversDestination ns name
  source : x.CoversSource id

theorem destination_of_count (hx : x.Formed) (hy : y.Formed) (hxc : x.CoversDestination ns name)
    (hyc : y.CoversDestination ns name) (hcount : countExact x.destinationNS x.destinationName =
      countExact y.destinationNS y.destinationName) :
    toLower x.destinationNS = toLower y.destinationNS ∧
      toLower x.destinationName = toLower y.destinationName := by
  unfold CoversDestination at hxc hyc
  rcases countExact_cases x.destinationNS x.destinationName with
    ⟨hxn, hx0⟩ | ⟨hxn, hxw, hx1⟩ | ⟨hxn, hxw, hx2⟩ <;>
  rcases countExact_cases y.destinationNS y.destinationName with
    ⟨hyn, hy0⟩ | ⟨hyn, hyw, hy1⟩ | ⟨hyn, hyw, hy2⟩
  case inl.inl =>
    rw [hxn, hyn, hx.anyDestination hxn, hy.anyDestination hyn]
    exact ⟨rfl, rfl⟩
  case inr.inl.inr.inl =>
    rw [(hxc.resolve_left hxn).1, (hyc.resolve_left hyn).1, hxw, hyw]
    exact ⟨rfl, rfl⟩
  case inr.inr.inr.inr =>
    obtain ⟨hxns, hxname⟩ := hxc.resolve_left hxn
    obtain ⟨hyns, hyname⟩ := hyc.resolve_left hyn
    rw [hxns, hyns, hxname.resolve_left hxw, hyname.resolve_left hyw]
    exact ⟨rfl, rfl⟩
  all_goals omega

omit [External] in
theorem source_of_count (hx : x.Formed) (hy : y.Formed) (hxc : x.CoversSource id)
    (hyc : y.CoversSource id)
    (hcount : countExact x.sourceNS x.sourceName = countExact y.sourceNS y.sourceName) :
    x.sourceNS = y.sourceNS ∧ x.sourceName = y.sourceName := by
  unfold CoversSource at hxc hyc
  rcases countExact_cases x.sourceNS x.sourceName with
    ⟨hxn, hx0⟩ | ⟨hxn, hxw, hx1⟩ | ⟨hxn, hxw, hx2⟩ <;>
  rcases countExact_cases y.sourceNS y.sourceName with
    ⟨hyn, hy0⟩ | ⟨hyn, hyw, hy1⟩ | ⟨hyn, hyw, hy2⟩
  case inl.inl =>
    rw [hxn, hyn, hx.anySource hxn, hy.anySource hyn]
    exact ⟨rfl, rfl⟩
  case inr.inl.inr.inl =>
    rw [hxc.1.resolve_left hxn, hyc.1.resolve_left hyn, hxw, hyw]
    exact ⟨rfl, rfl⟩
  case inr.inr.inr.inr =>
    rw [hxc.1.resolve_left hxn, hyc.1.resolve_left hyn, hxc.2.resolve_left hxw,
      hyc.2.resolve_left hyw]
    exact ⟨rfl, rfl⟩
  all_goals omega

theorem eq_of_rank (ht : IntentionsFormed s.intentions) (hx : x ∈ s.intentions.values)
    (hy : y ∈ s.intentions.values) (hxa : x.Applies ns name id) (hya : y.Applies ns name id)
    (hrank : x.rank = y.rank) : x = y := by
  have hxf := ht.formed x hx
  have hyf := ht.formed y hy
  obtain ⟨hdst, hsrc⟩ := Prod.mk.inj hrank
  obtain ⟨hns, hname⟩ := destination_of_count hxf hyf hxa.destination hya.destination hdst
  obtain ⟨hns', hname'⟩ := source_of_count hxf hyf hxa.source hya.source hsrc
  refine ht.unique x hx y hy ?_ ?_
  · rw [sourceDestination_of_formed hxf, sourceDestination_of_formed hyf]
    simp [indexField, hns, hname, hns', hname']
  · rw [sourceDestination_of_formed hxf]
    simp

/-- The intention about a connection that is more exact than all others: first in its
destination, then in its source. -/
structure MostSpecific (s : State) (ns name : String) (id : SpiffeIDService) (x : Intention) :
    Prop where
  stored : x ∈ s.intentions.values
  applies : x.Applies ns name id
  others : ∀ y ∈ s.intentions.values, y.Applies ns name id → y ≠ x →
    y.rank.1 < x.rank.1 ∨ y.rank.1 = x.rank.1 ∧ y.rank.2 < x.rank.2

omit [External] in
theorem countExact_range (ns name : String) : 0 ≤ countExact ns name ∧ countExact ns name ≤ 2 := by
  rcases countExact_cases ns name with ⟨-, h⟩ | ⟨-, -, h⟩ | ⟨-, -, h⟩ <;> omega

omit [External] in
theorem rankNumber_lt : y.rankNumber < x.rankNumber ↔
    y.rank.1 < x.rank.1 ∨ y.rank.1 = x.rank.1 ∧ y.rank.2 < x.rank.2 := by
  have hx := countExact_range x.sourceNS x.sourceName
  have hy := countExact_range y.sourceNS y.sourceName
  unfold rankNumber rank
  omega

omit [External] in
theorem rankNumber_inj (h : x.rankNumber = y.rankNumber) : x.rank = y.rank := by
  have hx := countExact_range x.sourceNS x.sourceName
  have hy := countExact_range y.sourceNS y.sourceName
  unfold rankNumber rank at h
  exact Prod.ext (by unfold rank; omega) (by unfold rank; omega)

theorem MostSpecific.unique (hx : MostSpecific s ns name id x) (hy : MostSpecific s ns name id y) :
    x = y := by
  by_contra hne
  have h1 := rankNumber_lt.mpr (hx.others y hy.stored hy.applies (Ne.symm hne))
  have h2 := rankNumber_lt.mpr (hy.others x hx.stored hx.applies hne)
  omega

section Order

variable {ns name : String} {id : SpiffeIDService} {l : List Intention}

theorem mostSpecific_of_firstMatch (ht : IntentionsFormed s.intentions)
    (hmem : ∀ y, y ∈ l ↔ y ∈ s.intentions.values ∧ y.CoversDestination ns name)
    (hsorted : l.Pairwise fun a b => b.precedence ≤ a.precedence) (h : id.firstMatch l = some x) :
    MostSpecific s ns name id x := by
  obtain ⟨hmatch, before, after, rfl, hbefore⟩ := find?_eq_some_iff_append.mp h
  obtain ⟨hstored, hdestination⟩ := (hmem x).mp (by simp)
  have hx : x.Applies ns name id := ⟨hdestination, authorize_iff.mp hmatch⟩
  refine ⟨hstored, hx, fun y hy happlies hne => ?_⟩
  -- Another one about the source comes later, so its precedence is not greater.
  have hafter : y ∈ after := by
    have hy' := (hmem y).mpr ⟨hy, happlies.destination⟩
    rw [mem_append, mem_cons] at hy'
    rcases hy' with hy' | rfl | hy'
    · have hnot := hbefore y hy'
      rw [authorize_iff.mpr happlies.source] at hnot
      cases hnot
    · exact absurd rfl hne
    · exact hy'
  have hle : y.precedence ≤ x.precedence := by
    have htail := (pairwise_append.mp hsorted).2.1
    exact rel_of_pairwise_cons htail hafter
  rw [ht.precedence y hy, ht.precedence x hstored] at hle
  have hdiffer : y.rankNumber ≠ x.rankNumber := fun heq =>
    hne (eq_of_rank ht hy hstored happlies hx (rankNumber_inj heq))
  exact rankNumber_lt.mp (by omega)

theorem firstMatch_iff (ht : IntentionsFormed s.intentions)
    (hmem : ∀ y, y ∈ l ↔ y ∈ s.intentions.values ∧ y.CoversDestination ns name)
    (hsorted : l.Pairwise fun a b => b.precedence ≤ a.precedence) :
    id.firstMatch l = some x ↔ MostSpecific s ns name id x := by
  refine ⟨mostSpecific_of_firstMatch ht hmem hsorted, fun hx => ?_⟩
  have hfound : (id.firstMatch l).isSome := by
    unfold SpiffeIDService.firstMatch
    rw [find?_isSome]
    exact ⟨x, (hmem x).mpr ⟨hx.stored, hx.applies.destination⟩, authorize_iff.mpr hx.applies.source⟩
  obtain ⟨z, hz⟩ := Option.isSome_iff_exists.mp hfound
  rw [hz, (mostSpecific_of_firstMatch ht hmem hsorted hz).unique hx]

end Order

/-! ## Reachable tables -/

inductive IntentionCommand : Command → Prop
  | set {x : Intention} (hvalid : x.validate = []) (hns : ZeroFree x.destinationNS)
      (hname : ZeroFree x.destinationName) : IntentionCommand (.call (.intentionSet x))
  | delete (id : String) : IntentionCommand (.call (.intentionDelete id))

theorem IntentionsFormed.upsert {t : Table intentionKey} {k : List Byte} (h : IntentionsFormed t)
    (hk : intentionKey x = .ok k) (hx : x.Formed) (hprecedence : x.precedence = x.rankNumber)
    (hfree : ∀ y ∈ t.values, y.sourceDestination = x.sourceDestination → intentionKey y = .ok k) :
    IntentionsFormed (t.upsert x) := by
  have hmem : ∀ {y}, y ∈ (t.upsert x).values → y = x ∨ (y ∈ t.values ∧ intentionKey y ≠ .ok k) :=
    fun hy => (mem_values_upsert hk).mp hy
  refine ⟨fun y hy => ?_, fun y hy => ?_, fun y hy z hz hsame hne => ?_⟩
  · rcases hmem hy with rfl | ⟨hy, -⟩
    · exact hx
    · exact h.formed y hy
  · rcases hmem hy with rfl | ⟨hy, -⟩
    · exact hprecedence
    · exact h.precedence y hy
  · rcases hmem hy with rfl | ⟨hyt, hky⟩ <;> rcases hmem hz with rfl | ⟨hzt, hkz⟩
    · rfl
    · exact absurd (hfree z hzt hsame.symm) hkz
    · exact absurd (hfree y hyt hsame) hky
    · exact h.unique y hyt z hzt hsame hne

theorem IntentionsFormed.erase {t : Table intentionKey} (h : IntentionsFormed t) (k : List Byte) :
    IntentionsFormed (t.erase k) := by
  have hmem : ∀ {y}, y ∈ (t.erase k).values → y ∈ t.values := fun hy =>
    (mem_values_erase.mp hy).1
  exact ⟨fun y hy => h.formed y (hmem hy), fun y hy => h.precedence y (hmem hy),
    fun y hy z hz => h.unique y (hmem hy) z (hmem hz)⟩

theorem intentionWithNames_of_mem (ht : NamesUnique s.intentions) (hx : x.Formed)
    (hy : y ∈ s.intentions.values) (hsame : y.sourceDestination = x.sourceDestination) :
    intentionWithNames x s = some y := by
  have hnames := sourceDestination_of_formed hx
  unfold intentionWithNames
  rw [hnames]
  dsimp only
  rw [← hnames]
  cases hfound : s.intentions.values.find? fun z => z.sourceDestination == x.sourceDestination with
  | none => simpa [hsame] using find?_eq_none.mp hfound y hy
  | some z =>
    have hz : z.sourceDestination = x.sourceDestination := by
      simpa using find?_some hfound
    rw [ht z (mem_of_find?_eq_some hfound) y hy (hz.trans hsame.symm) (by simp [hz, hnames])]

theorem key_of_intentionLookup {id : String} {o : Option Intention} {s' : State}
    (h : intentionLookup id s = (.ok o, s')) : ∃ k, uuidKey id = .ok k := by
  unfold intentionLookup at h
  obtain ⟨k, s1, hlookup, -⟩ := bind_eq_ok.mp h
  exact ⟨k, (uuidKey_of_lookup hlookup).1⟩

theorem intentionSet_formed {idx : Nat} {s' : State} (hx : x.Formed)
    (h : IntentionsFormed s.intentions) (hrun : intentionSetTxn idx x s = (.ok (), s')) :
    IntentionsFormed s'.intentions := by
  obtain ⟨k, hk⟩ : ∃ k, intentionKey x = .ok k := by
    unfold intentionSetTxn at hrun
    split at hrun
    · cases hrun
    · rename_i hid
      obtain ⟨o, s1, hlookup, -⟩ := bind_eq_ok.mp hrun
      obtain ⟨k, hk⟩ := key_of_intentionLookup hlookup
      exact ⟨k, by simp [intentionKey, primaryUUID, hid, hk]⟩
  rcases intentionSetTxn_cases (s := s) idx hk with ⟨hfree, hset⟩ | ⟨-, text, hset⟩
  · rw [hrun] at hset
    obtain ⟨-, rfl⟩ := Prod.mk.inj hset
    have hkey : intentionKey (x.stored idx (s.intentions.first k)) = .ok k := hk
    refine h.upsert hkey ⟨hx.1, hx.2, hx.3, hx.4, hx.5, hx.6, hx.7, hx.8⟩
      (updatePrecedence_precedence x) fun y hy hsame => ?_
    have hid : y.id = x.id := hfree y (intentionWithNames_of_mem h.unique hx hy hsame)
    unfold intentionKey at hk ⊢
    rwa [hid]
  · rw [hrun] at hset
    cases hset

theorem intentionDelete_formed {id : String} {idx : Nat} {s' : State}
    (h : IntentionsFormed s.intentions) (hrun : intentionDeleteTxn idx id s = (.ok (), s')) :
    IntentionsFormed s'.intentions := by
  have hlookup := hrun
  unfold intentionDeleteTxn at hlookup
  obtain ⟨o, s1, hlookup, -⟩ := bind_eq_ok.mp hlookup
  obtain ⟨k, hk⟩ := key_of_intentionLookup hlookup
  rw [intentionDeleteTxn_eq idx hk] at hrun
  obtain ⟨-, rfl⟩ := Prod.mk.inj hrun
  split
  · exact h.erase k
  · exact h

theorem IntentionCommand.formed {c : Command} (hc : IntentionCommand c) (idx : Nat)
    (h : IntentionsFormed s.intentions) : IntentionsFormed (c.apply idx s).intentions := by
  cases hc with
  | @set x hvalid hns hname =>
    change IntentionsFormed (Txn.commit ((StoreCall.intentionSet x).run idx) id s).intentions
    rcases commit_cases ((StoreCall.intentionSet x).run idx) id s with
      hsame | ⟨b, s', hrun, hafter⟩
    · exact hsame.symm ▸ h
    · rw [hafter]
      obtain ⟨_, hset, -⟩ := return_eq_ok.mp hrun
      exact intentionSet_formed (formed_of_valid hvalid hns hname) h hset
  | delete intentionID =>
    change IntentionsFormed
      (Txn.commit ((StoreCall.intentionDelete intentionID).run idx) id s).intentions
    rcases commit_cases ((StoreCall.intentionDelete intentionID).run idx) id s with
      hsame | ⟨b, s', hrun, hafter⟩
    · exact hsame.symm ▸ h
    · rw [hafter]
      obtain ⟨_, hdelete, -⟩ := return_eq_ok.mp hrun
      exact intentionDelete_formed h (wrap_eq_ok.mp hdelete)

theorem replay_formed {log : List LogEntry} (hlog : ∀ e ∈ log, IntentionCommand e.command)
    (h : IntentionsFormed s.intentions) : IntentionsFormed (replay log s).intentions := by
  induction log generalizing s with
  | nil => exact h
  | cons e log ih =>
    rw [replay_cons]
    exact ih (fun e' he' => hlog e' (mem_cons_of_mem _ he'))
      ((hlog e mem_cons_self).formed e.index h)

/-! ## The decision -/

theorem matchesFor_eq (ns name : String) (s : State) : matchesFor ns name s =
    (intentionsFound .destination { ns := ns, name := name } s).insertionSort
      fun a b => precedenceLess b a = false := rfl

/-- What intentions are sorted by. -/
def Intention.sortKey (x : Intention) : Int ×ₗ String ×ₗ String ×ₗ String ×ₗ String :=
  toLex (-x.precedence, toLex (x.sourceNS, toLex (x.sourceName,
    toLex (x.destinationNS, x.destinationName))))

omit [External] in
theorem precedenceLess_iff {a b : Intention} :
    precedenceLess a b = true ↔ a.sortKey < b.sortKey := by
  unfold precedenceLess sortKey
  simp only [Prod.Lex.toLex_lt_toLex]
  split_ifs <;> simp_all

theorem matchesFor_sorted (ns name : String) (s : State) :
    (matchesFor ns name s).Pairwise fun a b => b.precedence ≤ a.precedence := by
  have hrel : ∀ a b : Intention, precedenceLess b a = false ↔ a.sortKey ≤ b.sortKey := by
    intro a b
    rw [← not_lt, ← precedenceLess_iff]
    simp
  have : IsTrans Intention fun a b => precedenceLess b a = false :=
    ⟨fun a b c hab hbc => (hrel a c).mpr (((hrel a b).mp hab).trans ((hrel b c).mp hbc))⟩
  have : Std.Total fun a b : Intention => precedenceLess b a = false :=
    ⟨fun a b => by rw [hrel, hrel]; exact le_total _ _⟩
  rw [matchesFor_eq]
  refine (pairwise_insertionSort _ _).imp fun {a b} h => ?_
  have hkey := (hrel a b).mp h
  unfold sortKey at hkey
  rw [Prod.Lex.toLex_le_toLex] at hkey
  omega

end Laws

/-! ## What depends on lower-case names -/

section Folds

variable [External] [FoldsCase] {s : State} {ns name : String} {type : IntentionMatchType}
  {x : Intention}

theorem indexField_prefix {ns' name' : String} {key : List Byte} (h1 : ZeroFree ns)
    (h2 : ZeroFree name) (h3 : ZeroFree ns') (h4 : ZeroFree name') :
    indexField ns ++ indexField name <+: indexField ns' ++ indexField name' ++ key ↔
      toLower ns = toLower ns' ∧ toLower name = toLower name' := by
  have hfree := FoldsCase.zeroFree
  have hsplit : indexField ns ++ indexField name =
      bytesOf (toLower ns) ++ 0 :: (bytesOf (toLower name) ++ 0 :: []) := by simp [indexField]
  have hsplit' : indexField ns' ++ indexField name' ++ key =
      bytesOf (toLower ns') ++ 0 :: (bytesOf (toLower name') ++ 0 :: key) := by simp [indexField]
  rw [hsplit, hsplit', prefix_of_fields (hfree ns h1) (hfree ns' h3),
    prefix_of_fields (hfree name h2) (hfree name' h4)]
  simp [bytesOf_injective.eq_iff]

theorem toLower_eq_wildcard :
    toLower intentionWildcard = toLower name ↔ name = intentionWildcard := by
  have hself : toLower intentionWildcard = intentionWildcard := (FoldsCase.wildcard _).mpr rfl
  rw [hself, eq_comm, FoldsCase.wildcard]

theorem mem_intentionGet (hx : x ∈ s.intentions.values) (h : NamesFormed (x.names type))
    (hns : ZeroFree ns) (hname : ZeroFree name) :
    x ∈ intentionGet type ns name s ↔
      toLower ns = toLower (x.names type).1 ∧ toLower name = toLower (x.names type).2 := by
  obtain ⟨key, hentry⟩ := indexEntry_of_mem hx h.ns h.name
  unfold intentionGet
  rw [mem_get, hentry, Option.any_some, isPrefixOf_iff_prefix,
    indexField_prefix hns hname h.zeroFreeNS h.zeroFreeName]
  exact and_iff_right hx

theorem mem_found_iff (hx : x ∈ s.intentions.values) (h : NamesFormed (x.names type))
    (hns : ns ≠ intentionWildcard) (hname : name ≠ intentionWildcard) (hns' : ZeroFree ns)
    (hname' : ZeroFree name) :
    x ∈ intentionsFound type { ns := ns, name := name } s ↔
      (x.names type).1 = intentionWildcard ∨ toLower (x.names type).1 = toLower ns ∧
        ((x.names type).2 = intentionWildcard ∨ toLower (x.names type).2 = toLower name) := by
  have hany : ZeroFree intentionWildcard := by
    unfold ZeroFree
    decide
  have hparams : intentionMatchGetParams { ns := ns, name := name } =
      [(intentionWildcard, intentionWildcard), (ns, intentionWildcard), (ns, name)] := by
    unfold intentionMatchGetParams
    rw [if_neg hns, if_neg hname]
    rfl
  unfold intentionsFound
  rw [hparams]
  simp only [flatMap_cons, flatMap_nil, append_nil, mem_append,
    mem_intentionGet hx h hany hany, mem_intentionGet hx h hns' hany,
    mem_intentionGet hx h hns' hname', toLower_eq_wildcard, ← and_or_left]
  constructor
  · rintro (⟨hfirst, -⟩ | ⟨hfirst, hsecond⟩)
    · exact .inl hfirst
    · exact .inr ⟨hfirst.symm, hsecond.imp id Eq.symm⟩
  · rintro (hfirst | ⟨hfirst, hsecond⟩)
    · exact .inl ⟨hfirst, h.any hfirst⟩
    · exact .inr ⟨hfirst.symm, hsecond.imp id Eq.symm⟩

theorem mem_intentionsFound (ht : IntentionsFormed s.intentions) (hns : ns ≠ intentionWildcard)
    (hname : name ≠ intentionWildcard) (hns' : ZeroFree ns) (hname' : ZeroFree name) :
    x ∈ intentionsFound .destination { ns := ns, name := name } s ↔
      x ∈ s.intentions.values ∧ x.CoversDestination ns name := by
  constructor
  · intro hfound
    obtain ⟨_, -, hget⟩ := mem_flatMap.mp hfound
    have hx := (mem_get.mp hget).1
    exact ⟨hx, (mem_found_iff hx (ht.formed x hx).destinationNames hns hname hns' hname').mp
      hfound⟩
  · rintro ⟨hx, hcovers⟩
    exact (mem_found_iff hx (ht.formed x hx).destinationNames hns hname hns' hname').mpr hcovers

/-- In every table that validated intentions without zero bytes in their destination lead to: the
matches for a destination are sorted by precedence, no two of them about one source have the same
precedence, and so the first one, however ties are broken, is the most specific intention about
the connection. It makes the decision of both endpoints. -/
theorem the_most_specific_intention_decides {log : List LogEntry}
    (hlog : ∀ e ∈ log, IntentionCommand e.command) {ns name : String}
    (hns : ns ≠ intentionWildcard) (hname : name ≠ intentionWildcard) (hns' : ZeroFree ns)
    (hname' : ZeroFree name) (id : SpiffeIDService) :
    let s := replay log .empty
    let found := matchesFor ns name s
    found.Pairwise (fun a b => b.precedence ≤ a.precedence) ∧
    (∀ x ∈ found, ∀ y ∈ found, (id.authorize x).2 = true → (id.authorize y).2 = true → x ≠ y →
      x.precedence ≠ y.precedence) ∧
    (∀ l, l.Perm found → l.Pairwise (fun a b => b.precedence ≤ a.precedence) →
      ∀ x, id.firstMatch l = some x ↔ MostSpecific s ns name id x) ∧
    ∀ x, MostSpecific s ns name id x → ∀ rule anonymous,
      (rule.all (·.serviceRead (bytesOf name)) = true →
        intentionCheck rule anonymous
          { sourceNS := id.ns, sourceName := id.service,
            destinationNS := ns, destinationName := name } s = .ok (x.action = .allow)) ∧
      (ns = "default" → name ≠ "" → rule.all (·.serviceWrite (bytesOf name)) = true →
        connectAuthorize rule anonymous name id s =
          .ok (x.action = .allow, "Matched intention: " ++ x.toText)) := by
  intro s found
  have ht : IntentionsFormed s.intentions := by
    refine replay_formed hlog ⟨?_, ?_, ?_⟩ <;> simp [NamesUnique, State.empty]
  have hmem : ∀ x, x ∈ found ↔ x ∈ s.intentions.values ∧ x.CoversDestination ns name := by
    intro x
    rw [show found = _ from matchesFor_eq ns name s, mem_insertionSort]
    exact mem_intentionsFound ht hns hname hns' hname'
  have hsorted := matchesFor_sorted ns name s
  refine ⟨hsorted, fun x hx y hy hax hay hne hsame => ?_, fun l hperm hl x => ?_, ?_⟩
  · obtain ⟨hxs, hxd⟩ := (hmem x).mp hx
    obtain ⟨hys, hyd⟩ := (hmem y).mp hy
    rw [ht.precedence x hxs, ht.precedence y hys] at hsame
    exact hne (eq_of_rank ht hxs hys ⟨hxd, authorize_iff.mp hax⟩ ⟨hyd, authorize_iff.mp hay⟩
      (rankNumber_inj hsame))
  · exact firstMatch_iff ht (fun y => hperm.mem_iff.trans (hmem y)) hl
  · intro x hx rule anonymous
    have hfirst : ∀ uri : SpiffeIDService, uri.ns = id.ns →
        uri.service = id.service → uri.firstMatch found = some x ∧
          (uri.authorize x).1 = decide (x.action = .allow) := by
      intro uri huns huname
      have hsame : uri.authorize = id.authorize := by
        funext ixn
        simp [SpiffeIDService.authorize, huns, huname]
      refine ⟨?_, ?_⟩
      · unfold SpiffeIDService.firstMatch
        rw [hsame]
        exact (firstMatch_iff ht hmem hsorted).mpr hx
      · obtain ⟨h1, h2⟩ := hx.applies.source
        rw [hsame]
        unfold SpiffeIDService.authorize
        rw [if_neg (by tauto), if_neg (by tauto)]
    refine ⟨fun hrule => ?_, fun hdefault hne hrule => ?_⟩
    · obtain ⟨hmatch, hauth⟩ :=
        hfirst { ns := id.ns, service := id.service } rfl rfl
      unfold intentionCheck
      rw [if_neg (by simp), if_neg (by simp [hrule]), show matchesFor ns name s = found from rfl,
        hmatch]
      exact congrArg Except.ok hauth
    · obtain ⟨hmatch, hauth⟩ := hfirst id rfl rfl
      unfold connectAuthorize
      rw [if_neg hne, if_neg (by simp [hrule]), ← hdefault,
        show matchesFor ns name s = found from rfl, hmatch]
      dsimp only
      rw [hauth]

end Folds

section Example

/-- A connection from `db` to `web`, both in the default namespace. -/
def fromDB : SpiffeIDService := { ns := "default", service := "db" }

def allowWeb : Intention :=
  { id := "6b0e6e1a-0000-0000-0000-000000000001", sourceNS := "default", sourceName := "db",
    destinationNS := "default", destinationName := "web", sourceType := "consul",
    action := .allow }

/-- The destination has a zero byte after the name `WEB`. -/
def denyOther : Intention :=
  { allowWeb with
    id := "6b0e6e1a-0000-0000-0000-000000000002"
    destinationName := "WEB\x00x"
    action := .deny }

section Fold

attribute [local instance] ascii

/-- Both intentions are valid and found for the destination `web`, both are about the source `db`,
and both have the precedence 9. The one for the other destination comes first and denies the
connection. -/
theorem a_zero_byte_makes_a_tie :
    let s := replay
      [{ index := 1, command := .call (.intentionSet allowWeb) },
       { index := 2, command := .call (.intentionSet denyOther) }] .empty
    allowWeb.validate = [] ∧ denyOther.validate = [] ∧
      (matchesFor "default" "web" s).map (fun x => (x.id, x.precedence)) =
        [(denyOther.id, 9), (allowWeb.id, 9)] ∧
      (∀ x ∈ matchesFor "default" "web" s, (fromDB.authorize x).2 = true) ∧
      intentionCheck none none
        { sourceNS := "default", sourceName := "db",
          destinationNS := "default", destinationName := "web" } s = .ok false := by
  decide +kernel

/-- An intention about the source `DB`. -/
def denyUpperDB : Intention := { allowWeb with sourceName := "DB", action := .deny }

theorem toLower_eq_of_lt {c d : Char} (hd : d.val < 65) : c.toLower = d ↔ c = d := by
  unfold Char.toLower
  split
  · rename_i h
    constructor
    · rintro rfl
      simp only [UInt32.lt_iff_toNat_lt, UInt32.le_iff_toNat_le, ge_iff_le] at hd h
      simp at hd h
      omega
    · rintro rfl
      exact absurd hd (UInt32.not_lt.mpr h.1)
  · rfl

theorem ascii_folds : FoldsCase where
  wildcard s := by
    rw [← String.toList_inj, ← String.toList_inj,
      show (toLower s).toList = s.toList.map Char.toLower from String.toList_ofList]
    cases s.toList <;> simp [intentionWildcard, toLower_eq_of_lt]
  zeroFree s := by
    rw [zero_mem_bytesOf, zero_mem_bytesOf,
      show (toLower s).toList = s.toList.map Char.toLower from String.toList_ofList]
    simp [toLower_eq_of_lt]

def denyAnySource : Intention :=
  { allowWeb with
    id := "6b0e6e1a-0000-0000-0000-000000000003"
    sourceNS := "*"
    sourceName := "*"
    action := .deny }

/-- A source is allowed that is among those of a wildcard. -/
def exactAndAny : List LogEntry :=
  [{ index := 1, command := .call (.intentionSet denyAnySource) },
   { index := 2, command := .call (.intentionSet allowWeb) }]

/-- Both endpoints decide by the exact intention. -/
theorem the_exact_intention_decides :
    intentionCheck none none
        { sourceNS := "default", sourceName := "db",
          destinationNS := "default", destinationName := "web" } (replay exactAndAny .empty) =
        .ok true ∧
      (connectAuthorize none none "web" fromDB (replay exactAndAny .empty)).map (·.1) =
        .ok true := by
  have := ascii_folds
  have hlog : ∀ e ∈ exactAndAny, IntentionCommand e.command := by
    intro e he
    rcases mem_pair.mp he with rfl | rfl <;>
    exact .set (by decide +kernel) (by unfold ZeroFree; decide) (by unfold ZeroFree; decide)
  obtain ⟨hsorted, -, hfirst, hdecides⟩ := the_most_specific_intention_decides hlog
    (show "default" ≠ intentionWildcard by decide) (show "web" ≠ intentionWildcard by decide)
    (by unfold ZeroFree; decide) (by unfold ZeroFree; decide) fromDB
  have hmatch : fromDB.firstMatch (matchesFor "default" "web" (replay exactAndAny .empty)) =
      some { allowWeb with
        precedence := 9, createIndex := 2, modifyIndex := 2, metadata := some .empty } := by
    decide +kernel
  have hmost := (hfirst _ (.refl _) hsorted _).mp hmatch
  obtain ⟨hcheck, hauthorize⟩ := hdecides _ hmost none none
  refine ⟨hcheck rfl, ?_⟩
  rw [hauthorize rfl (by decide) rfl]
  rfl

end Fold

end Example

end OpenGyoza
