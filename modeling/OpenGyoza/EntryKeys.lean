-- The keys under which the cache of the agent keeps its entries. The parts of
-- a request are joined with slashes that nothing escapes.
import Mathlib.Data.List.Basic

namespace OpenGyoza

open List

/-- What the key of an entry is made of. -/
structure EntryParts where
  type : String
  datacenter : String
  token : String
  key : String

def makeEntryKey (t dc token key : String) : String := t ++ "/" ++ dc ++ "/" ++ token ++ "/" ++ key

def EntryParts.entryKey (r : EntryParts) : String := makeEntryKey r.type r.datacenter r.token r.key

/-- There is no slash in the parts, but maybe as the last character of the key. -/
def EntryParts.Plain (r : EntryParts) : Prop :=
  '/' ∉ r.type.toList ∧ '/' ∉ r.datacenter.toList ∧ '/' ∉ r.token.toList ∧
    '/' ∉ r.key.toList.dropLast

theorem entryKey_toList (r : EntryParts) : r.entryKey.toList = r.type.toList ++ '/' ::
    (r.datacenter.toList ++ '/' :: (r.token.toList ++ '/' :: r.key.toList)) := by
  simp [EntryParts.entryKey, makeEntryKey]

theorem cut_inj {s : Char} {a a' x y : List Char} (ha : s ∉ a) (ha' : s ∉ a')
    (h : a' ++ s :: x = a ++ s :: y) : a' = a ∧ x = y := by
  induction a generalizing a' with
  | nil => cases a' <;> simp_all
  | cons b a ih => cases a' <;> grind

theorem entryKey_inj {r r' : EntryParts} (h : r.Plain) (hkey : r'.key ≠ "")
    (heq : r'.entryKey = r.entryKey) : r' = r := by
  obtain ⟨t, dc, token, key⟩ := r
  obtain ⟨t', dc', token', key'⟩ := r'
  obtain ⟨ht, hdc, htoken, hlast⟩ := h
  have hlist := congrArg String.toList heq
  simp only [entryKey_toList] at hlist ht hdc htoken hlast
  -- the other key has a slash too if this one ends in one
  have hle : key.toList.count '/' ≤ key'.toList.count '/' := by
    obtain hnil | ⟨l, x, hl⟩ := eq_nil_or_concat' key.toList
    · simp [hnil]
    · obtain ⟨l', y, hl'⟩ :=
        (eq_nil_or_concat' key'.toList).resolve_left (by simpa using hkey)
      rw [hl, hl'] at hlist
      rw [hl, dropLast_concat] at hlast
      have hxy : y = x := by
        simpa only [← append_assoc, ← cons_append, getLast?_concat,
          Option.some.injEq] using congrArg getLast? hlist
      simp [hl, hl', hxy, count_eq_zero.mpr hlast]
  have hcount := congrArg (count '/') hlist
  simp only [count_append, count_cons_self, count_eq_zero.mpr ht,
    count_eq_zero.mpr hdc, count_eq_zero.mpr htoken] at hcount
  obtain ⟨h1, hlist⟩ := cut_inj ht (count_eq_zero.mp (by omega)) hlist
  obtain ⟨h2, hlist⟩ := cut_inj hdc (count_eq_zero.mp (by omega)) hlist
  obtain ⟨h3, h4⟩ := cut_inj htoken (count_eq_zero.mp (by omega)) hlist
  simp only [String.toList_inj] at h1 h2 h3 h4
  rw [h1, h2, h3, h4]

/-- A request with a key shares its entry with no other request, exactly if its parts have no
slash that could be taken for a separator. -/
theorem entries_are_apart_iff (r : EntryParts) :
    (∀ r' : EntryParts, r'.key ≠ "" → (r'.entryKey = r.entryKey ↔ r' = r)) ↔ r.Plain := by
  refine ⟨fun h => ?_, fun h r' hkey => ⟨entryKey_inj h hkey, fun heq => heq ▸ rfl⟩⟩
  have hsame : ∀ r' : EntryParts, r'.key ≠ "" → r'.entryKey.toList = r.entryKey.toList → r' = r :=
    fun r' hkey heq => (h r' hkey).mp (String.toList_inj.mp heq)
  -- where there is a slash to cut at, the same text comes from other parts
  refine ⟨fun hmem => ?_, fun hmem => ?_, fun hmem => ?_, fun hmem => ?_⟩
  · obtain ⟨a, b, hab⟩ := append_of_mem hmem
    have heq := hsame ⟨.ofList a, .ofList b, r.datacenter, r.token ++ "/" ++ r.key⟩ (by simp)
      (by simp [entryKey_toList, hab])
    simpa [hab] using congrArg (·.type.toList) heq
  · obtain ⟨a, b, hab⟩ := append_of_mem hmem
    have heq := hsame ⟨r.type, .ofList a, .ofList b, r.token ++ "/" ++ r.key⟩ (by simp)
      (by simp [entryKey_toList, hab])
    simpa [hab] using congrArg (·.datacenter.toList) heq
  · obtain ⟨a, b, hab⟩ := append_of_mem hmem
    have heq := hsame ⟨r.type, r.datacenter, .ofList a, .ofList b ++ "/" ++ r.key⟩ (by simp)
      (by simp [entryKey_toList, hab])
    simpa [hab] using congrArg (·.token.toList) heq
  · obtain ⟨a, b, hab⟩ := append_of_mem hmem
    obtain hnil | ⟨l, x, hl⟩ := eq_nil_or_concat' r.key.toList
    · simp [hnil] at hmem
    · rw [hl, dropLast_concat] at hab
      have heq := hsame ⟨r.type, r.datacenter, r.token ++ "/" ++ .ofList a, .ofList (b ++ [x])⟩
        (by simp) (by simp [entryKey_toList, hl, hab])
      simpa using congrArg (·.token.toList) heq

/-- A token with a slash in it reads the leaf certificate that was fetched with another one. -/
theorem tokens_share_an_entry :
    EntryParts.entryKey ⟨"connect-ca-leaf", "dc1", "secret", "service:x/service:web"⟩ =
      EntryParts.entryKey ⟨"connect-ca-leaf", "dc1", "secret/service:x", "service:web"⟩ := by
  decide

end OpenGyoza
