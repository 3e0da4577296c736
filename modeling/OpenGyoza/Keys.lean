-- What a primary key says about its row, and how the two ways to read a UUID
-- go together.
import OpenGyoza.Store

namespace OpenGyoza

open Memdb List

variable [External]

/-! ## UUIDs -/

omit [External] in
theorem hexDigit_char {c : Char} {n : Nat} (h : hexDigit c = some n) :
    c ≠ '-' ∧ c.utf8Size = 1 := by
  have hle : c.val ≤ 0x7f := by
    unfold hexDigit at h
    split at h
    · rename_i hc
      exact UInt32.le_trans (show c.val ≤ '9'.val from hc.2) (by decide)
    · split at h
      · rename_i hc
        exact UInt32.le_trans (show c.val ≤ 'f'.val from hc.2) (by decide)
      · split at h
        · rename_i hc
          exact UInt32.le_trans (show c.val ≤ 'F'.val from hc.2) (by decide)
        · cases h
  refine ⟨?_, ?_⟩
  · rintro rfl
    simp [hexDigit] at h
  · simp [Char.utf8Size, hle]

variable {l : List Char} {b u k : List Byte} {id : String}

theorem hexDecode_chars (h : hexDecode l = .ok b) : ∀ c ∈ l, c ≠ '-' ∧ c.utf8Size = 1 := by
  induction l using hexDecode.induct generalizing b with
  | case1 hi lo rest hhi => simp [hexDecode, hhi] at h
  | case2 hi lo rest x hhi hlo => simp [hexDecode, hhi, hlo] at h
  | case3 hi lo rest x y hhi hlo ih =>
    simp only [hexDecode, hhi, hlo] at h
    cases hrest : hexDecode rest with
    | error text => rw [hrest] at h; cases h
    | ok bs =>
      intro c hc
      rcases mem_cons.mp hc with rfl | hc
      · exact hexDigit_char ‹_›
      rcases mem_cons.mp hc with rfl | hc
      · exact hexDigit_char ‹_›
      · exact ih hrest c hc
  | case4 c hc => simp [hexDecode, hc] at h
  | case5 c hc => simp [hexDecode, hc] at h
  | case6 => simp

omit [External] in
theorem utf8ByteSize_of_ascii (h : ∀ c ∈ l, c.utf8Size = 1) :
    (String.ofList l).utf8ByteSize = l.length := by
  induction l with
  | nil => simp
  | cons c l ih =>
    rw [← singleton_append, String.ofList_append, String.utf8ByteSize_append,
      ih fun d hd => h d (mem_cons_of_mem _ hd)]
    simp [h c (by simp)]
    omega

omit [External] in
theorem drop_of_hyphen {i : Nat} (h : l[i]? = some '-') (n : Nat) :
    l.drop i = '-' :: ((l.drop (i + 1)).take n ++ l.drop (i + 1 + n)) := by
  obtain ⟨hi, hc⟩ := List.getElem?_eq_some_iff.mp h
  have hcut := take_append_drop n (l.drop (i + 1))
  rw [drop_drop] at hcut
  rw [drop_eq_getElem_cons hi, hc, hcut]

theorem parseUUID_parts (h : parseUUID id = .ok b) :
    ∃ p1 p2 p3 p4 p5, id.toList = p1 ++ '-' :: (p2 ++ '-' :: (p3 ++ '-' :: (p4 ++ '-' :: p5))) ∧
      id.toList.length = 36 ∧ hexDecode (p1 ++ p2 ++ p3 ++ p4 ++ p5) = .ok b := by
  simp only [parseUUID] at h
  split at h
  · cases h
  · rename_i hlen
    split at h
    · cases h
    · rename_i hdash
      simp only [not_or, not_not, ne_eq] at hlen hdash
      obtain ⟨h8, h13, h18, h23⟩ := hdash
      refine ⟨_, _, _, _, _, ?_, hlen, h⟩
      have h23' := drop_of_hyphen h23 0
      simp only [take_zero, nil_append] at h23'
      rw [← h23', ← drop_of_hyphen h18 4, ← drop_of_hyphen h13 4, ← drop_of_hyphen h8 4,
        take_append_drop]

theorem uuidKey_of_parseUUID (h : parseUUID id = .ok b) : uuidKey id = .ok b := by
  obtain ⟨p1, p2, p3, p4, p5, hid, hlen, hdecode⟩ := parseUUID_parts h
  have hchars := hexDecode_chars hdecode
  have hcount (p : List Char) (hp : ∀ c ∈ p, c ≠ '-') : p.count '-' = 0 :=
    count_eq_zero.mpr fun hmem => hp _ hmem rfl
  have hfilter (p : List Char) (hp : ∀ c ∈ p, c ≠ '-') : p.filter (· != '-') = p :=
    filter_eq_self.mpr fun c hc => by simpa using hp c hc
  have h1 : ∀ c ∈ p1, c ≠ '-' := fun c hc => (hchars c (by simp [hc])).1
  have h2 : ∀ c ∈ p2, c ≠ '-' := fun c hc => (hchars c (by simp [hc])).1
  have h3 : ∀ c ∈ p3, c ≠ '-' := fun c hc => (hchars c (by simp [hc])).1
  have h4 : ∀ c ∈ p4, c ≠ '-' := fun c hc => (hchars c (by simp [hc])).1
  have h5 : ∀ c ∈ p5, c ≠ '-' := fun c hc => (hchars c (by simp [hc])).1
  have hsize : id.utf8ByteSize = 36 := by
    rw [← hlen, ← utf8ByteSize_of_ascii ?_, String.ofList_toList]
    intro c hc
    rw [hid] at hc
    by_cases hdash : c = '-'
    · rw [hdash]
      rfl
    · refine (hchars c ?_).2
      simp only [mem_append, mem_cons, hdash, false_or] at hc
      simp only [mem_append]
      tauto
  have hhyphens : id.toList.count '-' = 4 := by
    rw [hid]
    simp [hcount _ h1, hcount _ h2, hcount _ h3, hcount _ h4, hcount _ h5]
  have hhex : id.toList.filter (· != '-') = p1 ++ p2 ++ p3 ++ p4 ++ p5 := by
    rw [hid]
    simp [hfilter _ h1, hfilter _ h2, hfilter _ h3, hfilter _ h4, hfilter _ h5]
  simp only [uuidKey, hsize, hhyphens, hhex, hdecode]
  rfl

theorem uuidArg_of_uuidKey (h : uuidKey id = .ok u) : uuidArg id = .ok u := by
  simp [uuidArg, h]

theorem uuidKey_of_lookup {context : String → String} {s s' : State}
    (h : Txn.wrap context (Txn.ofExcept (uuidArg id)) s = (.ok u, s')) :
    uuidKey id = .ok u ∧ s' = s := by
  cases hu : uuidKey id with
  | error text => simp [uuidArg, hu, Txn.ofExcept, Txn.wrap, Txn.fail] at h
  | ok v =>
    have hv : (.ok v, s) = ((.ok u, s') : Except Fault (List Byte) × State) := by
      rw [← h, uuidArg_of_uuidKey hu]
      rfl
    cases hv
    exact ⟨rfl, rfl⟩

theorem primaryUUID_eq_ok (h : primaryUUID id = .ok k) : id ≠ "" ∧ uuidKey id = .ok k := by
  unfold primaryUUID at h
  split at h
  · cases h
  · cases hu : uuidKey id with
    | error text => rw [hu] at h; cases h
    | ok u =>
      rw [hu] at h
      cases h
      exact ⟨‹_›, rfl⟩

/-- The key of an ID, if it is a UUID. -/
def idKey (id : String) : List Byte := (uuidKey id).toOption.getD []

theorem idKey_of_primaryUUID (h : primaryUUID id = .ok k) : idKey id = k := by
  obtain ⟨-, hu⟩ := primaryUUID_eq_ok h
  simp [idKey, hu, Except.toOption]

/-! ## Rows with a key -/

theorem nodeKey_eq_ok {n : Node} {k : String} (h : nodeKey n = .ok k) :
    n.node ≠ "" ∧ toLower n.node = k := by
  unfold nodeKey at h
  split at h
  · cases h
  · cases hu : optionalUUID "uuid" n.id with
    | error text => rw [hu] at h; cases h
    | ok _ =>
      rw [hu] at h
      cases h
      exact ⟨‹_›, rfl⟩

theorem uuidKey_of_nodeKey {n : Node} {k : String} (h : nodeKey n = .ok k) (hid : n.id ≠ "") :
    ∃ u, uuidKey n.id = .ok u := by
  unfold nodeKey at h
  split at h
  · cases h
  · cases hu : uuidKey n.id with
    | ok u => exact ⟨u, rfl⟩
    | error text =>
      unfold optionalUUID at h
      rw [if_neg hid, hu] at h
      cases h

omit [External] in
theorem prefix_of_fields {a c r t : List Byte} (ha : 0 ∉ a) (hc : 0 ∉ c) :
    a ++ 0 :: r <+: c ++ 0 :: t ↔ a = c ∧ r <+: t := by
  induction a generalizing c with
  | nil =>
    cases c with
    | nil => simp
    | cons b c =>
      simp only [mem_cons, not_or] at hc
      simp [hc.1]
  | cons b a ih =>
    simp only [mem_cons, not_or] at ha
    cases c with
    | nil => simp [Ne.symm ha.1]
    | cons d c =>
      simp only [mem_cons, not_or] at hc
      simp [ih ha.2 hc.2, and_assoc]

/-- A name without a zero byte. -/
def ZeroFree (name : String) : Prop := 0 ∉ bytesOf name

theorem rowKey_congr {a a' b b' : String} (ha : toLower a = toLower a')
    (hb : toLower b = toLower b') : rowKey a b = rowKey a' b' := by
  simp only [rowKey, indexField, ha, hb]

theorem serviceKey_eq_ok {svc : ServiceNode} (h : serviceKey svc = .ok k) :
    svc.node ≠ "" ∧ svc.serviceID ≠ "" ∧ k = rowKey svc.node svc.serviceID := by
  unfold serviceKey at h
  split at h
  · cases h
  · rename_i hne
    rw [not_or] at hne
    cases h
    exact ⟨hne.1, hne.2, rfl⟩

theorem checkKey_eq_ok {c : HealthCheck} (h : checkKey c = .ok k) :
    c.node ≠ "" ∧ c.checkID ≠ "" ∧ c.status ≠ "" ∧ k = rowKey c.node c.checkID := by
  unfold checkKey at h
  split at h
  · cases h
  · rename_i hne
    rw [not_or] at hne
    split at h
    · cases h
    · cases h
      exact ⟨hne.1, hne.2, ‹_›, rfl⟩

theorem sessionKey_eq_ok {sess : Session} (h : sessionKey sess = .ok u) :
    uuidKey sess.id = .ok u ∧ sess.node ≠ "" := by
  unfold sessionKey at h
  cases hp : primaryUUID sess.id with
  | error text => rw [hp] at h; cases h
  | ok j =>
    rw [hp] at h
    by_cases hn : sess.node = ""
    · simp [hn] at h
      cases h
    · simp [hn] at h
      cases h
      exact ⟨(primaryUUID_eq_ok hp).2, hn⟩

theorem sessionCheckKey_eq_ok {m : SessionCheck} (h : sessionCheckKey m = .ok k) :
    m.node ≠ "" ∧ m.checkID ≠ "" ∧ m.session ≠ "" ∧ ∃ u, uuidKey m.session = .ok u ∧
      k = rowKey m.node m.checkID ++ u := by
  unfold sessionCheckKey at h
  by_cases hn : m.node = "" ∨ m.checkID = ""
  · simp [hn] at h
    cases h
  · simp [hn] at h
    rw [not_or] at hn
    cases hp : primaryUUID m.session with
    | error text => rw [hp] at h; cases h
    | ok u =>
      rw [hp] at h
      cases h
      obtain ⟨hs, hu⟩ := primaryUUID_eq_ok hp
      exact ⟨hn.1, hn.2, hs, u, hu, rfl⟩

theorem kvKey_eq_ok {e : DirEntry} {k : Key} (h : kvKey e = .ok k) : e.key = k ∧ k ≠ [] := by
  unfold kvKey at h
  split at h
  · cases h
  · cases hu : optionalUUID "session" e.session with
    | error text => rw [hu] at h; cases h
    | ok u =>
      rw [hu] at h
      cases h
      exact ⟨rfl, ‹_›⟩

omit [External] in
theorem tombstoneKey_eq_ok {k : Key} (idx : Nat) (h : k ≠ []) :
    tombstoneKey { key := k, index := idx } = .ok k := by
  simp [tombstoneKey, h]

theorem preparedQueryKey_eq_ok {q : PreparedQuery} (h : preparedQueryKey q = .ok k) :
    uuidKey q.id = .ok k := by
  unfold preparedQueryKey at h
  cases hp : primaryUUID q.id with
  | error text => rw [hp] at h; cases h
  | ok j =>
    rw [hp] at h
    cases ho : optionalUUID "session" q.session with
    | error text => rw [ho] at h; cases h
    | ok _ =>
      rw [ho] at h
      cases h
      exact (primaryUUID_eq_ok hp).2

end OpenGyoza
