-- What the hashes of policies, roles, tokens and intentions are taken of. The
-- fields are written one after the other, so that two records with different
-- contents can have the same hash.
import OpenGyoza.AclCaches
import OpenGyoza.FlatText

namespace OpenGyoza

open FlatText Memdb List Format

/-! ## What is hashed -/

def ACLServiceIdentity.addToHash (s : ACLServiceIdentity) : List Byte :=
  bytesOf s.serviceName ++ s.datacenters.flatMap bytesOf

def ACLPolicy.hashInput (p : ACLPolicy) : List Byte :=
  bytesOf p.name ++ bytesOf p.description ++ bytesOf p.rules ++ p.datacenters.flatMap bytesOf

def ACLRole.hashInput (r : ACLRole) : List Byte :=
  bytesOf r.name ++ bytesOf r.description ++ r.policies.flatMap (fun link => bytesOf link.id) ++
    r.serviceIdentities.flatMap fun s => s.addToHash

/-- The word for where a token is valid. -/
def locality (isLocal : Bool) : String := if isLocal then "local" else "global"

def ACLToken.hashInput (t : ACLToken) : List Byte :=
  bytesOf t.description ++ bytesOf t.type ++ bytesOf t.rules ++ bytesOf (locality t.isLocal) ++
    t.policies.flatMap (fun link => bytesOf link.id) ++
    t.roles.flatMap (fun link => bytesOf link.id) ++
    t.serviceIdentities.flatMap fun s => s.addToHash

def Intention.hashInput (x : Intention) : List Byte :=
  bytesOf x.id ++ bytesOf x.description ++ bytesOf x.sourceNS ++ bytesOf x.sourceName ++
    bytesOf x.destinationNS ++ bytesOf x.destinationName ++ bytesOf x.sourceType ++
    bytesOf x.action.text ++ bytesOf x.defaultAddr ++
    (pairsOf x.metadata).flatMap fun p => bytesOf p.1 ++ bytesOf p.2

section Hashes

variable [Blake2b]

/-- A hash that is not set, or that is to be set anew, is taken of the input. -/
def hashOf (force : Bool) (hash input : List Byte) : List Byte :=
  if force || hash = [] then Blake2b.sum256 input else hash

def ACLRole.setHash (force : Bool) (r : ACLRole) : List Byte := hashOf force r.hash r.hashInput

def ACLToken.setHash (force : Bool) (t : ACLToken) : List Byte := hashOf force t.hash t.hashInput

def Intention.setHash (force : Bool) (x : Intention) : List Byte := hashOf force x.hash x.hashInput

end Hashes

/-! ## Contents and layouts -/

/-- The fields of a policy that may change. -/
def ACLPolicy.fields (p : ACLPolicy) : String × String × String × List String :=
  (p.name, p.description, p.rules, p.datacenters)

def ACLServiceIdentity.fields (s : ACLServiceIdentity) : String × List String :=
  (s.serviceName, s.datacenters)

def ACLRole.fields (r : ACLRole) : String × String × List String × List (String × List String) :=
  (r.name, r.description, r.policies.map (·.id), r.serviceIdentities.map (·.fields))

def ACLToken.fields (t : ACLToken) :
    String × String × String × Bool × List String × List String × List (String × List String) :=
  (t.description, t.type, t.rules, t.isLocal, t.policies.map (·.id), t.roles.map (·.id),
    t.serviceIdentities.map (·.fields))

/-- The fields of an intention that may change. Its precedence follows from them. -/
def Intention.fields (x : Intention) : String × String × String × String × String × String ×
    String × String × Int × List (String × String) :=
  (x.description, x.sourceNS, x.sourceName, x.destinationNS, x.destinationName, x.sourceType,
    x.action.text, x.defaultAddr, x.defaultPort, pairsOf x.metadata)

def policyFormat := pair .string (.pair .string (.pair .string (.list .string)))

def identityFormat := pair .string (.list .string)

def roleFormat :=
  pair .string (.pair .string (.pair (.list .string) (.list identityFormat)))

def tokenFormat :=
  pair .string (.pair .string (.pair .string (.pair (.word fun l => (locality l).toList)
    (.pair (.list .string) (.pair (.list .string) (.list identityFormat))))))

/-- The keys of the metadata are part of the layout, as their order is fixed. -/
def intentionFormat :=
  pair .string (.pair .string (.pair .string (.pair .string (.pair .string (.pair .string
    (.pair .string (.pair .string (.pair .string (.pair (.word fun _ : Int => [])
      (.list (.pair (.word String.toList) .string)))))))))))

/-- How many characters each field has, and how many elements each list. -/
def ACLPolicy.layout (p : ACLPolicy) : ℕ × ℕ × ℕ × List ℕ := policyFormat.shape p.fields

def ACLRole.layout (r : ACLRole) : ℕ × ℕ × List ℕ × List (ℕ × List ℕ) :=
  roleFormat.shape r.fields

/-- The layout of a token also says where it is valid. -/
def ACLToken.layout (t : ACLToken) :
    ℕ × ℕ × ℕ × Bool × List ℕ × List ℕ × List (ℕ × List ℕ) :=
  tokenFormat.shape t.fields

/-- The layout of an intention also has the port and the keys of the metadata. -/
def Intention.layout (x : Intention) :
    ℕ × ℕ × ℕ × ℕ × ℕ × ℕ × ℕ × ℕ × ℕ × Int × List (String × ℕ) :=
  intentionFormat.shape (x.id, x.fields)

/-! ## Bytes -/

/-- The bytes of a text. -/
def encode (t : List Char) : List Byte := bytesOf (.ofList t)

theorem encode_injective : Function.Injective encode := fun _ _ h =>
  String.ofList_injective (bytesOf_injective h)

@[simp] theorem encode_append (t u : List Char) : encode (t ++ u) = encode t ++ encode u := by
  rw [encode, String.ofList_append, bytesOf_append]
  rfl

@[simp] theorem encode_toList (s : String) : encode s.toList = bytesOf s := by
  rw [encode, String.ofList_toList]

@[simp] theorem encode_flatMap {α : Type} (l : List α) (f : α → List Char) :
    encode (l.flatMap f) = l.flatMap fun a => encode (f a) := by
  induction l with
  | nil => rfl
  | cons a l ih => simp [ih]

theorem ACLPolicy.hashInput_eq (p : ACLPolicy) :
    p.hashInput = encode (policyFormat.text p.fields) := by
  simp [hashInput, policyFormat, fields, pair, list, string]

theorem ACLRole.hashInput_eq (r : ACLRole) : r.hashInput = encode (roleFormat.text r.fields) := by
  simp [hashInput, roleFormat, identityFormat, fields, pair, list, string,
    flatMap_map, ACLServiceIdentity.addToHash, ACLServiceIdentity.fields]

theorem ACLToken.hashInput_eq (t : ACLToken) :
    t.hashInput = encode (tokenFormat.text t.fields) := by
  simp [hashInput, tokenFormat, identityFormat, fields, pair, list, string,
    word, flatMap_map, ACLServiceIdentity.addToHash, ACLServiceIdentity.fields]

theorem Intention.hashInput_eq (x : Intention) :
    x.hashInput = encode (intentionFormat.text (x.id, x.fields)) := by
  simp [hashInput, intentionFormat, fields, pair, list, string, word]

/-! ## Different contents with the same hash -/

theorem pairsOf_closed {m : GoMap String} {l : List (String × String)}
    (h : l.map (·.1) = (pairsOf m).map (·.1)) : ∃ m', pairsOf m' = l := by
  have hsorted : ((pairsOf m).map (·.1)).Pairwise (· < ·) := by
    cases m with
    | none => exact .nil
    | some t =>
      have hkeys : t.values.map (·.1) = t.rows.map (·.1) := by
        rw [Table.values, map_map]
        refine map_congr_left fun r hr => ?_
        exact Except.ok.inj (t.keyed r hr)
      change (t.values.map (·.1)).Pairwise (· < ·)
      rw [hkeys]
      exact pairwise_map.mpr t.sorted
  rw [← h, pairwise_map] at hsorted
  refine ⟨some ⟨l.map fun p => (p.1, p), pairwise_map.mpr hsorted, ?_⟩, ?_⟩
  · intro r hr
    obtain ⟨p, -, rfl⟩ := mem_map.mp hr
    rfl
  · simp [pairsOf, Table.values, Function.comp_def]

theorem identities_closed (l : List (String × List String)) :
    ∃ ids : List ACLServiceIdentity, ids.map (·.fields) = l :=
  ⟨l.map fun p => ⟨p.1, p.2⟩, by simp [ACLServiceIdentity.fields, Function.comp_def]⟩

theorem links_closed (l : List String) : ∃ links : List ACLLink, links.map (·.id) = l :=
  ⟨l.map fun id => ⟨id, ""⟩, by simp [Function.comp_def]⟩

/-- What is hashed tells two contents apart exactly when the records are laid out in the same
way, or when no text fits both layouts. -/
theorem hash_inputs_tell_contents_iff (p q : ACLPolicy) (r r' : ACLRole) (t u : ACLToken)
    (x y : Intention) :
    (Tells ACLPolicy.layout ACLPolicy.fields ACLPolicy.hashInput p q ↔
      p.layout = q.layout ∨ ¬ Meet (policyFormat.mask p.layout) (policyFormat.mask q.layout)) ∧
    (Tells ACLRole.layout ACLRole.fields ACLRole.hashInput r r' ↔
      r.layout = r'.layout ∨ ¬ Meet (roleFormat.mask r.layout) (roleFormat.mask r'.layout)) ∧
    (Tells ACLToken.layout ACLToken.fields ACLToken.hashInput t u ↔
      t.layout = u.layout ∨ ¬ Meet (tokenFormat.mask t.layout) (tokenFormat.mask u.layout)) ∧
    (Tells Intention.layout Intention.fields Intention.hashInput x y ↔
      x.layout = y.layout ∨
        ¬ Meet (intentionFormat.mask x.layout) (intentionFormat.mask y.layout)) := by
  refine ⟨policyFormat.tells_iff encode_injective ACLPolicy.hashInput_eq ?_ (fun _ _ => id)
      (fun _ _ h _ => congrArg _ h) p q,
    roleFormat.tells_iff encode_injective ACLRole.hashInput_eq ?_ (fun _ _ => id)
      (fun _ _ h _ => congrArg _ h) r r',
    tokenFormat.tells_iff encode_injective ACLToken.hashInput_eq ?_ (fun _ _ => id)
      (fun _ _ h _ => congrArg _ h) t u,
    intentionFormat.tells_iff encode_injective Intention.hashInput_eq ?_
      (fun _ _ => congrArg Prod.snd) ?_ x y⟩
  · rintro p ⟨name, description, rules, datacenters⟩ -
    exact ⟨{ p with name, description, rules, datacenters }, rfl⟩
  · rintro r ⟨name, description, policies, identities⟩ -
    obtain ⟨policies, rfl⟩ := links_closed policies
    obtain ⟨serviceIdentities, rfl⟩ := identities_closed identities
    exact ⟨{ r with name, description, policies, serviceIdentities }, rfl⟩
  · rintro t ⟨description, type, rules, isLocal, policies, roles, identities⟩ -
    obtain ⟨policies, rfl⟩ := links_closed policies
    obtain ⟨roles, rfl⟩ := links_closed roles
    obtain ⟨serviceIdentities, rfl⟩ := identities_closed identities
    exact ⟨{ t with description, type, rules, isLocal, policies, roles, serviceIdentities }, rfl⟩
  · rintro x ⟨id, description, sourceNS, sourceName, destinationNS, destinationName, sourceType,
      action, defaultAddr, defaultPort, pairs⟩ h
    have hkeys : pairs.map (·.1) = (pairsOf x.metadata).map (·.1) := by
      have hshape := congrArg (fun l => l.2.2.2.2.2.2.2.2.2.2.map Prod.fst) h
      simpa [intentionFormat, pair, list, word, Intention.fields,
        Function.comp_def] using hshape
    obtain ⟨metadata, rfl⟩ := pairsOf_closed hkeys
    exact ⟨⟨id, description, sourceNS, sourceName, destinationNS, destinationName, sourceType,
      .other action, defaultAddr, defaultPort, metadata, 0, 0, 0, [], 0, 0⟩, rfl⟩
  · -- The length of the ID is what the rest leaves of the whole length.
    intro x y h hlength
    have hid : x.id.length = y.id.length := by
      have hfields : x.fields = y.fields := h
      rw [hfields] at hlength
      simpa [intentionFormat, pair, string] using hlength
    exact congrArg₂ Prod.mk hid (congrArg (fun c => (intentionFormat.shape (x.id, c)).2) h)

section Example

def shortName : ACLPolicy := { id := "p", name := "a", description := "b" }

def longName : ACLPolicy := { id := "p", name := "ab" }

def withDescription : ACLRole := { id := "r", name := "web", description := "p" }

def withPolicy : ACLRole := { id := "r", name := "web", policies := [⟨"p", ""⟩] }

def tokenOfPolicy : ACLToken := { accessorID := "t", secretID := "s", policies := [⟨"x", ""⟩] }

def tokenOfRole : ACLToken := { accessorID := "t", secretID := "s", roles := [⟨"x", ""⟩] }

def intoWeb : Intention :=
  { id := "i", sourceNS := "default", sourceName := "a", destinationNS := "default" }

def onPort : Intention := { intoWeb with defaultPort := 80 }

/-- Letters pass from one field to the next, the ID of a policy becomes the ID of a role, and a
port is not written at all. -/
theorem hash_inputs_collide :
    (shortName.fields ≠ longName.fields ∧ shortName.hashInput = longName.hashInput) ∧
    (withDescription.fields ≠ withPolicy.fields ∧
      withDescription.hashInput = withPolicy.hashInput) ∧
    (tokenOfPolicy.fields ≠ tokenOfRole.fields ∧
      tokenOfPolicy.hashInput = tokenOfRole.hashInput) ∧
    intoWeb.fields ≠ onPort.fields ∧ intoWeb.hashInput = onPort.hashInput := by
  refine ⟨⟨by simp [ACLPolicy.fields, shortName, longName], by decide +kernel⟩,
    ⟨by simp [ACLRole.fields, withDescription, withPolicy], by decide +kernel⟩,
    ⟨by simp [ACLToken.fields, tokenOfPolicy, tokenOfRole], by decide +kernel⟩,
    by simp [Intention.fields, intoWeb, onPort], rfl⟩

end Example

end OpenGyoza
