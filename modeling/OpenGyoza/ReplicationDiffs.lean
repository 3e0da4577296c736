-- What replication finds to be done: the differences of two lists of ACL
-- items, of config entries and of legacy ACLs. All three walk over sorted
-- lists, and all three find exactly what differs.
import OpenGyoza.AclRounds
import OpenGyoza.ConfigEntries

namespace Replication

open List

/-! ## Exact differences -/

section Exact

variable {α κ γ : Type} (key : α → κ) (skip : α → Bool)

/-- Only items that are passed over share a key. -/
def KeysUnique (l : List α) : Prop := l.Pairwise fun a b => key a = key b → skip a = true

structure Exact (changed : α → α → Prop) (locals remotes : List α) (deletes updates : List κ) :
    Prop where
  mem_deletes : ∀ k, k ∈ deletes ↔ (∃ l ∈ locals, skip l = false ∧ key l = k) ∧
    ∀ r ∈ remotes, skip r = false → key r ≠ k
  mem_updates : ∀ k, k ∈ updates ↔ ∃ r ∈ remotes, skip r = false ∧ key r = k ∧
    ∀ l ∈ locals, skip l = false → key l = k → changed l r
  nodup_deletes : deletes.Nodup
  nodup_updates : updates.Nodup

/-- What a side has under a key. -/
def Holds (content : α → γ) (l : List α) (k : κ) (c : γ) : Prop :=
  ∃ a ∈ l, skip a = false ∧ key a = k ∧ content a = c

/-- What the local side has under a key when the deletes and then the updates are applied. -/
def HoldsAfter (content : α → γ) (locals remotes : List α) (deletes updates : List κ) (k : κ)
    (c : γ) : Prop :=
  (k ∈ updates ∧ Holds key skip content remotes k c) ∨
    (k ∉ updates ∧ k ∉ deletes ∧ Holds key skip content locals k c)

variable {key skip}

theorem KeysUnique.eq {l : List α} (h : KeysUnique key skip l) {a b : α} (ha : a ∈ l) (hb : b ∈ l)
    (hskip : skip a = false) (hskip' : skip b = false) (hkey : key a = key b) : a = b := by
  by_contra hne
  have hsymm : Std.Symm fun a b : α => key a = key b → skip a = true ∨ skip b = true :=
    ⟨fun a b hab hba => (hab hba.symm).symm⟩
  have hpair : l.Pairwise fun a b => key a = key b → skip a = true ∨ skip b = true :=
    h.imp fun hab heq => .inl (hab heq)
  rcases hpair.forall ha hb hne hkey with hs | hs
  · rw [hskip] at hs
    cases hs
  · rw [hskip'] at hs
    cases hs

theorem Exact.applied {changed : α → α → Prop} {locals remotes : List α}
    {deletes updates : List κ} (h : Exact key skip changed locals remotes deletes updates)
    (hlocals : KeysUnique key skip locals) {content : α → γ}
    (hsame : ∀ l ∈ locals, ∀ r ∈ remotes, skip r = false → key l = key r → ¬changed l r →
      content l = content r) (k : κ) (c : γ) :
    HoldsAfter key skip content locals remotes deletes updates k c ↔
      Holds key skip content remotes k c := by
  have hkept : k ∉ updates → ∀ r ∈ remotes, skip r = false → key r = k →
      ∃ l ∈ locals, skip l = false ∧ key l = k ∧ content l = content r := by
    intro hnot r hr hskip hkey
    by_contra hnone
    refine hnot ((h.mem_updates k).mpr ⟨r, hr, hskip, hkey, fun l hl hls hlk => ?_⟩)
    by_contra hunchanged
    exact hnone ⟨l, hl, hls, hlk, hsame l hl r hr hskip (hlk.trans hkey.symm) hunchanged⟩
  constructor
  · rintro (⟨-, hholds⟩ | ⟨hnot, hstays, l, hl, hls, hlk, rfl⟩)
    · exact hholds
    · -- the key is not deleted, so the remote side has it
      have hremote : ∃ r ∈ remotes, skip r = false ∧ key r = k := by
        by_contra hnone
        refine hstays ((h.mem_deletes k).mpr ⟨⟨l, hl, hls, hlk⟩, fun r hr hskip hkey => ?_⟩)
        exact hnone ⟨r, hr, hskip, hkey⟩
      obtain ⟨r, hr, hskip, hkey⟩ := hremote
      obtain ⟨l', hl', hls', hlk', hcontent⟩ := hkept hnot r hr hskip hkey
      rw [hlocals.eq hl hl' hls hls' (hlk.trans hlk'.symm)]
      exact ⟨r, hr, hskip, hkey, hcontent.symm⟩
  · rintro ⟨r, hr, hskip, hkey, rfl⟩
    by_cases hup : k ∈ updates
    · exact .inl ⟨hup, r, hr, hskip, hkey, rfl⟩
    · obtain ⟨l, hl, hls, hlk, hcontent⟩ := hkept hup r hr hskip hkey
      refine .inr ⟨hup, fun hdel => ?_, l, hl, hls, hlk, hcontent⟩
      exact ((h.mem_deletes k).mp hdel).2 r hr hskip hkey

end Exact

/-- A list in the order of its keys, as sorting leaves it. Items with the same key may stand in any
order. -/
structure SortedBy {α κ : Type} [LinearOrder κ] (key : α → κ) (l sorted : List α) : Prop where
  perm : sorted.Perm l
  sorted : sorted.Pairwise fun a b => key a ≤ key b

theorem KeysUnique.perm {α κ : Type} {key : α → κ} {skip : α → Bool}
    (hskip : ∀ a b, key a = key b → skip a = skip b) {l l' : List α}
    (h : KeysUnique key skip l) (hperm : l'.Perm l) : KeysUnique key skip l' := by
  have hsymm : ∀ {a b : α}, (key a = key b → skip a = true) → key b = key a → skip b = true :=
    fun hab hba => (hskip _ _ hba).trans (hab hba.symm)
  exact (hperm.pairwise_iff hsymm).mpr h

theorem Exact.perm {α κ : Type} {key : α → κ} {skip : α → Bool} {changed : α → α → Prop}
    {locals remotes locals' remotes' : List α} {deletes updates : List κ}
    (h : Exact key skip changed locals remotes deletes updates) (hl : locals.Perm locals')
    (hr : remotes.Perm remotes') : Exact key skip changed locals' remotes' deletes updates := by
  refine ⟨fun k => ?_, fun k => ?_, h.nodup_deletes, h.nodup_updates⟩
  · rw [h.mem_deletes k]
    simp [hl.mem_iff, hr.mem_iff]
  · rw [h.mem_updates k]
    simp [hl.mem_iff, hr.mem_iff]

section Walk

variable {α κ : Type} [LinearOrder κ] {key : α → κ} {skip : α → Bool}

theorem pairwise_lt_of_unique {l : List α} (hsorted : l.Pairwise fun a b => key a ≤ key b)
    (hunique : KeysUnique key skip l) : (l.filter (!skip ·)).Pairwise fun a b => key a < key b := by
  rw [pairwise_filter]
  refine (hsorted.and hunique).imp fun {a b} h ha _ => ?_
  obtain ⟨hle, heq⟩ := h
  exact lt_of_le_of_ne hle fun hab => by simp [heq hab] at ha

theorem nodup_keys {l : List α} (h : (l.filter (!skip ·)).Pairwise fun a b => key a < key b)
    (p : α → Bool) : ((l.filter fun a => !skip a && p a).map key).Nodup := by
  have hsub : (l.filter fun a => !skip a && p a).Sublist (l.filter (!skip ·)) := by
    rw [show (fun a => !skip a && p a) = fun a => p a && !skip a from
      funext fun a => Bool.and_comm _ _, ← filter_filter]
    exact filter_sublist
  rw [nodup_iff_pairwise_ne, pairwise_map]
  exact (h.sublist hsub).imp fun hlt => hlt.ne

theorem walk_exact (changed : α → α → Bool) {locals remotes : List α}
    (hls : locals.Pairwise fun a b => key a ≤ key b) (hlu : KeysUnique key skip locals)
    (hrs : remotes.Pairwise fun a b => key a ≤ key b) (hru : KeysUnique key skip remotes) :
    let d := walk key key changed skip skip locals remotes
    Exact key skip (fun l r => changed l r = true) locals remotes (d.deletes.map key)
      (d.updates.map key) := by
  intro d
  have hl := pairwise_lt_of_unique hls hlu
  have hr := pairwise_lt_of_unique hrs hru
  have hd : d = _ := walk_eq key key changed skip skip hl hr
  rw [hd]
  refine ⟨fun k => ?_, fun k => ?_, nodup_keys hl _, nodup_keys hr _⟩
  · simp only [mem_map, mem_filter, Bool.and_eq_true, Bool.not_eq_true', lacks,
      all_eq_true, Bool.or_eq_true, bne_iff_ne]
    constructor
    · rintro ⟨l, ⟨hl, hskip, hgone⟩, rfl⟩
      refine ⟨⟨l, hl, hskip, rfl⟩, fun r hr hrs heq => ?_⟩
      rcases hgone r hr with hs | hother
      · rw [hrs] at hs
        cases hs
      · exact hother heq.symm
    · rintro ⟨⟨l, hl, hskip, rfl⟩, hgone⟩
      refine ⟨l, ⟨hl, hskip, fun r hr => ?_⟩, rfl⟩
      cases hs : skip r with
      | true => exact .inl rfl
      | false => exact .inr (hgone r hr hs).symm
  · simp only [mem_map, mem_filter, Bool.and_eq_true, Bool.not_eq_true', outdated,
      all_eq_true, Bool.or_eq_true, bne_iff_ne]
    constructor
    · rintro ⟨r, ⟨hr, hskip, hold⟩, rfl⟩
      refine ⟨r, hr, hskip, rfl, fun l hl hls heq => ?_⟩
      rcases hold l hl with (hs | hother) | hchanged
      · rw [hls] at hs
        cases hs
      · exact absurd heq hother
      · exact hchanged
    · rintro ⟨r, hr, hskip, rfl, hold⟩
      refine ⟨r, ⟨hr, hskip, fun l hl => ?_⟩, rfl⟩
      cases hs : skip l with
      | true => exact .inl (.inl rfl)
      | false =>
        by_cases heq : key l = key r
        · exact .inr (hold l hl hs heq)
        · exact .inl (.inr heq)

end Walk

end Replication

namespace OpenGyoza

open Replication

/-! ## ACL items -/

section ACLType

theorem idsUnique_iff {l : List ItemMeta} :
    IDsUnique l ↔ KeysUnique ItemMeta.id (fun a => a.id == "") l := by
  simp [IDsUnique, KeysUnique]

theorem diffACLType_exact (last : Nat) {locals remotes ls rs : List ItemMeta}
    (hlu : IDsUnique locals) (hru : IDsUnique remotes) (hls : SortedBy ItemMeta.id locals ls)
    (hrs : SortedBy ItemMeta.id remotes rs) :
    Exact ItemMeta.id (fun a => a.id == "") (fun l r => last < r.modIndex ∧ r.hash ≠ l.hash)
      locals remotes (diffACLType last ls rs).deletes (diffACLType last ls rs).updates := by
  have hskip : ∀ a b : ItemMeta, a.id = b.id → (a.id == "") = (b.id == "") := by
    intro a b hab
    rw [hab]
  have hexact := walk_exact (fun l r => decide (last < r.modIndex) && r.hash != l.hash) hls.sorted
    ((idsUnique_iff.mp hlu).perm hskip hls.perm) hrs.sorted
    ((idsUnique_iff.mp hru).perm hskip hrs.perm)
  simp only [Bool.and_eq_true, decide_eq_true_eq, bne_iff_ne] at hexact
  exact Exact.perm hexact hls.perm hrs.perm

end ACLType

/-! ## Config entries -/

/-- What config entries are sorted and compared by. -/
def ConfigEntry.sortKey (e : ConfigEntry) : String ×ₗ String :=
  toLex (e.content.kind.text, e.content.name)

def configSort (configs : List ConfigEntry) : List ConfigEntry :=
  configs.insertionSort fun a b => a.sortKey ≤ b.sortKey

/-- The entries to delete and the entries to write. -/
def diffConfigEntries (locals remotes : List ConfigEntry) (lastRemoteIndex : Nat) :
    Diff ConfigEntry ConfigEntry :=
  walk ConfigEntry.sortKey ConfigEntry.sortKey (fun _ r => lastRemoteIndex < r.modifyIndex)
    (fun _ => false) (fun _ => false) (configSort locals) (configSort remotes)

/-! ## Legacy ACLs -/

structure ACL where
  id : String
  name : String := ""
  type : String := ""
  rules : String := ""
  createIndex : Nat := 0
  modifyIndex : Nat := 0
deriving DecidableEq

def ACL.isSame (a other : ACL) : Bool :=
  a.id = other.id ∧ a.name = other.name ∧ a.type = other.type ∧ a.rules = other.rules

/-- What two ACLs are compared by. -/
def ACL.content (a : ACL) : String × String × String × String := (a.id, a.name, a.type, a.rules)

theorem ACL.content_eq_of_isSame {a b : ACL} (h : a.isSame b) : a.content = b.content := by
  obtain ⟨hid, hname, htype, hrules⟩ := of_decide_eq_true h
  rw [ACL.content, ACL.content, hid, hname, htype, hrules]

inductive ACLRequest where
  | set (acl : ACL)
  | delete (acl : ACL)
deriving DecidableEq

/-- The loop over both lists. -/
def reconcileLoop (lastRemoteIndex : Nat) : List ACL → List ACL → List ACLRequest
  | [], [] => []
  | [], r :: remotes => .set r :: reconcileLoop lastRemoteIndex [] remotes
  | l :: locals, [] => .delete l :: reconcileLoop lastRemoteIndex locals []
  | l :: locals, r :: remotes =>
    if l.id > r.id then .set r :: reconcileLoop lastRemoteIndex (l :: locals) remotes
    else if l.id < r.id then .delete l :: reconcileLoop lastRemoteIndex locals (r :: remotes)
    else if r.modifyIndex > lastRemoteIndex ∧ ¬r.isSame l then
      .set r :: reconcileLoop lastRemoteIndex locals remotes
    else reconcileLoop lastRemoteIndex locals remotes
termination_by locals remotes => locals.length + remotes.length

def sortACLs (acls : List ACL) : List ACL := acls.insertionSort fun a b => a.id ≤ b.id

def reconcileLegacyACLs (locals remotes : List ACL) (lastRemoteIndex : Nat) : List ACLRequest :=
  reconcileLoop lastRemoteIndex (sortACLs locals) (sortACLs remotes)

def ACLRequest.deleted? : ACLRequest → Option ACL
  | delete acl => some acl
  | set _ => none

def ACLRequest.set? : ACLRequest → Option ACL
  | set acl => some acl
  | delete _ => none

theorem reconcileLoop_eq_walk (last : Nat) (ls rs : List ACL) :
    let d := walk ACL.id ACL.id (fun l r => decide (r.modifyIndex > last ∧ ¬r.isSame l))
      (fun _ => false) (fun _ => false) ls rs
    (reconcileLoop last ls rs).filterMap (·.deleted?) = d.deletes ∧
      (reconcileLoop last ls rs).filterMap (·.set?) = d.updates := by
  fun_induction reconcileLoop last ls rs with
  | case1 => simp [walk]
  | case2 r rs ih => simpa [walk, ACLRequest.deleted?, ACLRequest.set?] using ih
  | case3 l ls ih =>
    cases ls with
    | nil => simpa [walk, walkRemote, ACLRequest.deleted?, ACLRequest.set?] using ih
    | cons l' ls => simpa [walk, walkRemote, ACLRequest.deleted?, ACLRequest.set?] using ih
  | case4 l ls r rs hgt ih =>
    simp only [walk, walkRemote] at ih ⊢
    simpa [hgt.ne', hgt.not_gt, ACLRequest.deleted?, ACLRequest.set?] using ih
  | case5 l ls r rs hgt hlt ih =>
    simp only [walk, walkRemote] at ih ⊢
    simpa [hlt.ne, hlt, ACLRequest.deleted?, ACLRequest.set?] using ih
  | case6 l ls r rs hgt hlt hchanged ih =>
    have heq : l.id = r.id := le_antisymm (not_lt.mp hgt) (not_lt.mp hlt)
    simp only [walk, walkRemote]
    simpa [heq, hchanged, ACLRequest.deleted?, ACLRequest.set?] using ih
  | case7 l ls r rs hgt hlt hsame ih =>
    have heq : l.id = r.id := le_antisymm (not_lt.mp hgt) (not_lt.mp hlt)
    have hkept : ¬(last < r.modifyIndex ∧ r.isSame l = false) := by simpa using hsame
    simp only [walk, walkRemote]
    simpa [heq, if_neg hkept] using ih

/-! ## All three -/

section Exact

variable {α κ : Type} [LinearOrder κ] {key : α → κ}

theorem sortedBy_insertionSort (key : α → κ) (l : List α) :
    SortedBy key l (l.insertionSort fun a b => key a ≤ key b) := by
  exact ⟨List.perm_insertionSort _ _, List.pairwise_insertionSort _ _⟩

theorem walk_exact_of_unique (changed : α → α → Bool) {locals remotes ls rs : List α}
    (hlu : KeysUnique key (fun _ => false) locals) (hru : KeysUnique key (fun _ => false) remotes)
    (hls : SortedBy key locals ls) (hrs : SortedBy key remotes rs) :
    let d := walk key key changed (fun _ => false) (fun _ => false) ls rs
    Exact key (fun _ => false) (fun l r => changed l r = true) locals remotes (d.deletes.map key)
        (d.updates.map key) ∧
      (∀ l ∈ d.deletes, l ∈ locals) ∧ ∀ r ∈ d.updates, r ∈ remotes := by
  intro d
  have hlu' := KeysUnique.perm (fun _ _ _ => rfl) hlu hls.perm
  have hru' := KeysUnique.perm (fun _ _ _ => rfl) hru hrs.perm
  refine ⟨(walk_exact changed hls.sorted hlu' hrs.sorted hru').perm hls.perm hrs.perm, ?_, ?_⟩
  · intro l hl
    rw [show d = _ from walk_eq _ _ _ _ _ (pairwise_lt_of_unique hls.sorted hlu')
      (pairwise_lt_of_unique hrs.sorted hru')] at hl
    exact hls.perm.mem_iff.mp (List.mem_filter.mp hl).1
  · intro r hr
    rw [show d = _ from walk_eq _ _ _ _ _ (pairwise_lt_of_unique hls.sorted hlu')
      (pairwise_lt_of_unique hrs.sorted hru')] at hr
    exact hrs.perm.mem_iff.mp (List.mem_filter.mp hr).1

end Exact

theorem diffConfigEntries_exact (last : Nat) {locals remotes : List ConfigEntry}
    (hlu : KeysUnique ConfigEntry.sortKey (fun _ => false) locals)
    (hru : KeysUnique ConfigEntry.sortKey (fun _ => false) remotes) :
    let d := diffConfigEntries locals remotes last
    Exact ConfigEntry.sortKey (fun _ => false) (fun _ r => last < r.modifyIndex) locals remotes
        (d.deletes.map ConfigEntry.sortKey) (d.updates.map ConfigEntry.sortKey) ∧
      (∀ l ∈ d.deletes, l ∈ locals) ∧ ∀ r ∈ d.updates, r ∈ remotes := by
  have hexact := walk_exact_of_unique (fun _ r => decide (last < r.modifyIndex)) hlu hru
    (sortedBy_insertionSort _ locals) (sortedBy_insertionSort _ remotes)
  simp only [decide_eq_true_eq] at hexact
  exact hexact

theorem reconcileLegacyACLs_exact (last : Nat) {locals remotes : List ACL}
    (hlu : KeysUnique ACL.id (fun _ => false) locals)
    (hru : KeysUnique ACL.id (fun _ => false) remotes) :
    let requests := reconcileLegacyACLs locals remotes last
    let deletes := requests.filterMap (·.deleted?)
    let updates := requests.filterMap (·.set?)
    Exact ACL.id (fun _ => false) (fun l r => r.modifyIndex > last ∧ ¬r.isSame l) locals remotes
        (deletes.map ACL.id) (updates.map ACL.id) ∧
      (∀ l ∈ deletes, l ∈ locals) ∧ ∀ r ∈ updates, r ∈ remotes := by
  obtain ⟨hdeletes, hupdates⟩ := reconcileLoop_eq_walk last (sortACLs locals) (sortACLs remotes)
  have hexact := walk_exact_of_unique
    (fun l r : ACL => decide (r.modifyIndex > last ∧ ¬r.isSame l)) hlu hru
    (sortedBy_insertionSort _ locals) (sortedBy_insertionSort _ remotes)
  simp only [decide_eq_true_eq] at hexact
  intro requests deletes updates
  rw [show deletes = _ from hdeletes, show updates = _ from hupdates]
  exact hexact

/-- Each of the three differences has exactly the keys that only the local side has and those that
it lacks or has in another form, each once. Applied to the local side, they make it the same as the
remote side when both agree on what was not modified after the last index. -/
theorem replication_differences_are_exact (last : Nat) :
    (∀ locals remotes ls rs : List ItemMeta, IDsUnique locals → IDsUnique remotes →
      SortedBy ItemMeta.id locals ls → SortedBy ItemMeta.id remotes rs →
      let d := diffACLType last ls rs
      Exact ItemMeta.id (fun a => a.id == "") (fun l r => last < r.modIndex ∧ r.hash ≠ l.hash)
          locals remotes d.deletes d.updates ∧
        ((∀ l ∈ locals, ∀ r ∈ remotes, r.id ≠ "" → l.id = r.id → r.modIndex ≤ last →
            l.hash = r.hash) →
          ∀ id hash, HoldsAfter ItemMeta.id (fun a => a.id == "") ItemMeta.hash locals remotes
              d.deletes d.updates id hash ↔
            Holds ItemMeta.id (fun a => a.id == "") ItemMeta.hash remotes id hash)) ∧
    (∀ locals remotes : List ConfigEntry,
      KeysUnique ConfigEntry.sortKey (fun _ => false) locals →
      KeysUnique ConfigEntry.sortKey (fun _ => false) remotes →
      let d := diffConfigEntries locals remotes last
      let deletes := d.deletes.map ConfigEntry.sortKey
      let updates := d.updates.map ConfigEntry.sortKey
      Exact ConfigEntry.sortKey (fun _ => false) (fun _ r => last < r.modifyIndex) locals remotes
          deletes updates ∧
        (∀ l ∈ d.deletes, l ∈ locals) ∧ (∀ r ∈ d.updates, r ∈ remotes) ∧
        ((∀ l ∈ locals, ∀ r ∈ remotes, l.sortKey = r.sortKey → r.modifyIndex ≤ last →
            l.content = r.content) →
          ∀ k content, HoldsAfter ConfigEntry.sortKey (fun _ => false) ConfigEntry.content locals
              remotes deletes updates k content ↔
            Holds ConfigEntry.sortKey (fun _ => false) ConfigEntry.content remotes k content)) ∧
    (∀ locals remotes : List ACL, KeysUnique ACL.id (fun _ => false) locals →
      KeysUnique ACL.id (fun _ => false) remotes →
      let requests := reconcileLegacyACLs locals remotes last
      let deletes := requests.filterMap (·.deleted?)
      let updates := requests.filterMap (·.set?)
      Exact ACL.id (fun _ => false) (fun l r => r.modifyIndex > last ∧ ¬r.isSame l) locals remotes
          (deletes.map ACL.id) (updates.map ACL.id) ∧
        (∀ l ∈ deletes, l ∈ locals) ∧ (∀ r ∈ updates, r ∈ remotes) ∧
        ((∀ l ∈ locals, ∀ r ∈ remotes, l.id = r.id → r.modifyIndex ≤ last → r.isSame l) →
          ∀ id content, HoldsAfter ACL.id (fun _ => false) ACL.content locals remotes
              (deletes.map ACL.id) (updates.map ACL.id) id content ↔
            Holds ACL.id (fun _ => false) ACL.content remotes id content)) := by
  refine ⟨fun locals remotes ls rs hlu hru hls hrs => ?_, fun locals remotes hlu hru => ?_,
    fun locals remotes hlu hru => ?_⟩
  · have hexact := diffACLType_exact last hlu hru hls hrs
    refine ⟨hexact, fun hagree id hash => hexact.applied (idsUnique_iff.mp hlu) ?_ id hash⟩
    intro l hl r hr hskip hid hunchanged
    by_contra hne
    refine hunchanged ⟨?_, Ne.symm hne⟩
    by_contra hold
    exact hne (hagree l hl r hr (by simpa using hskip) hid (Nat.le_of_not_lt hold))
  · obtain ⟨hexact, hdeletes, hupdates⟩ := diffConfigEntries_exact last hlu hru
    refine ⟨hexact, hdeletes, hupdates, fun hagree k content => hexact.applied hlu ?_ k content⟩
    intro l hl r hr _ hkey hunchanged
    exact hagree l hl r hr hkey (Nat.le_of_not_lt hunchanged)
  · obtain ⟨hexact, hdeletes, hupdates⟩ := reconcileLegacyACLs_exact last hlu hru
    refine ⟨hexact, hdeletes, hupdates, fun hagree id content => hexact.applied hlu ?_ id content⟩
    intro l hl r hr _ hid hunchanged
    have hsame : r.isSame l := by
      by_contra hdiffers
      refine hdiffers (hagree l hl r hr hid (Nat.le_of_not_lt fun hnew => ?_))
      exact hunchanged ⟨hnew, hdiffers⟩
    exact (ACL.content_eq_of_isSame hsame).symm

/-- An item without an ID is passed over, one with another hash is written, and one that is gone
is deleted. -/
theorem a_difference_of_items :
    let locals : List ItemMeta := [⟨"b", 3, [1]⟩, ⟨"", 9, [7]⟩, ⟨"a", 2, [0]⟩]
    let remotes : List ItemMeta := [⟨"c", 4, [2]⟩, ⟨"b", 6, [5]⟩]
    let sorted : List ItemMeta := [⟨"", 9, [7]⟩, ⟨"a", 2, [0]⟩, ⟨"b", 3, [1]⟩]
    let sorted' : List ItemMeta := [⟨"b", 6, [5]⟩, ⟨"c", 4, [2]⟩]
    diffACLType 5 sorted sorted' = { deletes := ["a"], updates := ["b", "c"] } ∧
      ∀ id hash, HoldsAfter ItemMeta.id (fun a => a.id == "") ItemMeta.hash locals remotes ["a"]
          ["b", "c"] id hash ↔
        Holds ItemMeta.id (fun a => a.id == "") ItemMeta.hash remotes id hash := by
  intro locals remotes sorted sorted'
  have hdiff : diffACLType 5 sorted sorted' = { deletes := ["a"], updates := ["b", "c"] } := by
    decide +kernel
  have hexact := (replication_differences_are_exact 5).1 locals remotes sorted sorted'
    (by unfold IDsUnique; decide) (by unfold IDsUnique; decide) ⟨by decide, by decide +kernel⟩
    ⟨by decide, by decide +kernel⟩
  rw [hdiff] at hexact
  exact ⟨hdiff, hexact.2 (by decide)⟩

end OpenGyoza
