-- Lists of keys that are cut at a separator. Equal cuts are dropped only when
-- they follow each other, which is enough because the keys come in order.
import OpenGyoza.KvEffects
import OpenGyoza.Log

namespace OpenGyoza

open Memdb Table List

section Order

variable {α : Type} [LinearOrder α]

theorem le_of_isPrefix {x y : List α} (h : x <+: y) : x ≤ y := by
  obtain ⟨t, rfl⟩ := h
  induction x with
  | nil => exact not_lt.mp (not_lt_nil t)
  | cons a x ih =>
    refine not_lt.mp fun hlt => ?_
    cases hlt with
    | cons hlt => exact absurd hlt (not_lt.mpr ih)
    | rel hlt => exact lt_irrefl a hlt

theorem isPrefix_of_between {x y z : List α} (hz : x <+: z) (hxy : x ≤ y) (hyz : y ≤ z) :
    x <+: y := by
  induction x generalizing y z with
  | nil => exact nil_prefix
  | cons a x ih =>
    obtain ⟨t, rfl⟩ := hz
    cases y with
    | nil => exact absurd .nil (not_lt.mpr hxy)
    | cons b y =>
      obtain rfl : a = b :=
        le_antisymm (not_lt.mp fun hba => absurd (List.Lex.rel hba) (not_lt.mpr hxy))
          (not_lt.mp fun hab => absurd (List.Lex.rel hab) (not_lt.mpr hyz))
      refine cons_prefix_cons.mpr ⟨rfl, ih (prefix_append x t) ?_ ?_⟩
      · exact not_lt.mp fun hlt => absurd (List.Lex.cons hlt) (not_lt.mpr hxy)
      · exact not_lt.mp fun hlt => absurd (List.Lex.cons hlt) (not_lt.mpr hyz)

end Order

/-! ## Cuts -/

/-- `x` is the key up to the end of the first separator after the prefix. -/
def FirstCut (pfx sep k x : Key) : Prop :=
  ∃ a, x = pfx ++ a ++ sep ∧ x <+: k ∧ ∀ a', pfx ++ a' ++ sep <+: k → a.length ≤ a'.length

/-- What a list shows for a key: the key up to the end of the first separator after the prefix,
or all of it when there is none. -/
def Shows (pfx sep k x : Key) : Prop :=
  (sep ≠ [] ∧ FirstCut pfx sep k x) ∨
    (x = k ∧ (sep = [] ∨ ∀ a, ¬ pfx ++ a ++ sep <+: k))

section Cuts

variable {pfx sep k k' x y : Key}

theorem FirstCut.of_prefix (h : FirstCut pfx sep k x) (hk : x <+: k') : FirstCut pfx sep k' x := by
  obtain ⟨a, rfl, hx, hfirst⟩ := h
  refine ⟨a, rfl, hk, fun a' ha' => ?_⟩
  by_contra hlt
  -- A separator that stands earlier ends inside the cut, so the first key has it too.
  have hinside : pfx ++ a' ++ sep <+: pfx ++ a ++ sep := by
    apply prefix_of_prefix_length_le ha' hk
    simp only [length_append]
    omega
  exact hlt (hfirst a' (hinside.trans hx))

theorem FirstCut.unique (hx : FirstCut pfx sep k x) (hy : FirstCut pfx sep k y) : x = y := by
  obtain ⟨a, rfl, hxk, hfirst⟩ := hx
  obtain ⟨b, rfl, hyk, hfirst'⟩ := hy
  have hlength : a.length = b.length := le_antisymm (hfirst b hyk) (hfirst' a hxk)
  apply (prefix_of_prefix_length_le hxk hyk (by simp [hlength])).eq_of_length
  simp [hlength]

theorem Shows.isPrefix (h : Shows pfx sep k x) : x <+: k := by
  rcases h with ⟨-, a, -, hx, -⟩ | ⟨rfl, -⟩
  · exact hx
  · exact prefix_rfl

theorem Shows.mono (hx : Shows pfx sep k x) (hy : Shows pfx sep k' y) (hk : k < k') : x ≤ y := by
  by_contra hlt
  rw [not_le] at hlt
  have hxk : x ≤ k := le_of_isPrefix hx.isPrefix
  rcases hy with ⟨hsep, hcut⟩ | ⟨rfl, -⟩
  · have hyk : y <+: k :=
      isPrefix_of_between (Shows.isPrefix (.inl ⟨hsep, hcut⟩)) (hlt.le.trans hxk) hk.le
    have hcutk : FirstCut pfx sep k y := hcut.of_prefix hyk
    rcases hx with ⟨-, hcut'⟩ | ⟨-, hnil | hnone⟩
    · exact absurd (hcut'.unique hcutk) hlt.ne'
    · exact hsep hnil
    · obtain ⟨a, rfl, -, -⟩ := hcut
      exact hnone a hyk
  · exact absurd (hlt.trans_le hxk) hk.not_gt

theorem keyIndex_some {l : Key} {i : Nat} (h : keyIndex sep l = some i) :
    ∃ a, a.length = i ∧ a ++ sep <+: l ∧ ∀ a', a' ++ sep <+: l → a.length ≤ a'.length := by
  induction l generalizing i with
  | nil =>
    simp only [keyIndex] at h
    split at h
    · rename_i hsep
      cases h
      exact ⟨[], rfl, by simp [hsep], fun a' _ => by simp⟩
    · cases h
  | cons b rest ih =>
    simp only [keyIndex] at h
    split at h
    · rename_i hhere
      cases h
      exact ⟨[], rfl, by simpa using hhere, fun a' _ => by simp⟩
    · rename_i hhere
      obtain ⟨j, hj, rfl⟩ := Option.map_eq_some_iff.mp h
      obtain ⟨a, rfl, ha, hfirst⟩ := ih hj
      refine ⟨b :: a, rfl, by simpa using ha, fun a' ha' => ?_⟩
      cases a' with
      | nil => exact absurd (by simpa using ha') hhere
      | cons c a' =>
        have hrest := (cons_prefix_cons.mp ha').2
        simpa using hfirst a' hrest

theorem keyIndex_none {l : Key} (h : keyIndex sep l = none) (a : Key) : ¬ a ++ sep <+: l := by
  induction l generalizing a with
  | nil =>
    simp only [keyIndex] at h
    split at h
    · cases h
    · rename_i hsep
      simp [hsep]
  | cons b rest ih =>
    simp only [keyIndex] at h
    split at h
    · cases h
    · rename_i hhere
      rw [Option.map_eq_none_iff] at h
      cases a with
      | nil => simpa using hhere
      | cons c a => exact fun ha => ih h a (cons_prefix_cons.mp ha).2

theorem Shows.unique (hx : Shows pfx sep k x) (hy : Shows pfx sep k y) : x = y := by
  rcases hx with ⟨hsep, hx⟩ | ⟨rfl, hx⟩ <;> rcases hy with ⟨hsep', hy⟩ | ⟨rfl, hy⟩
  · exact hx.unique hy
  · obtain ⟨a, rfl, ha, -⟩ := hx
    exact absurd ha (hy.resolve_left hsep a)
  · obtain ⟨a, rfl, ha, -⟩ := hy
    exact absurd ha (hx.resolve_left hsep' a)
  · rfl

end Cuts

/-! ## The loop -/

section Loop

variable {pfx sep : Key} {e : DirEntry} {done : List Key} {acc : List Key × Key}

theorem listKeysStep_cases (acc : List Key × Key) (h : pfx <+: e.key) :
    (∃ x, sep ≠ [] ∧ FirstCut pfx sep e.key x ∧
      listKeysStep pfx sep acc e = .ok (if x = acc.2 then acc else (acc.1 ++ [x], x))) ∨
    ((sep = [] ∨ ∀ a, ¬ pfx ++ a ++ sep <+: e.key) ∧
      listKeysStep pfx sep acc e = .ok (acc.1 ++ [e.key], acc.2)) := by
  obtain ⟨rest, hrest⟩ := h
  have hdrop : e.key.drop pfx.length = rest := by rw [← hrest, drop_left]
  have hlength : ¬ e.key.length < pfx.length := by
    rw [← hrest, length_append]
    omega
  unfold listKeysStep
  by_cases hsep : sep = []
  · exact .inr ⟨.inl hsep, by rw [if_pos hsep]⟩
  · rw [if_neg hsep, if_neg hlength, hdrop]
    cases hindex : keyIndex sep rest with
    | none =>
      refine .inr ⟨.inr fun a ha => ?_, rfl⟩
      rw [← hrest, append_assoc, prefix_append_right_inj] at ha
      exact keyIndex_none hindex a ha
    | some i =>
      obtain ⟨a, rfl, ha, hfirst⟩ := keyIndex_some hindex
      have hcut : e.key.take (pfx.length + a.length + sep.length) = pfx ++ a ++ sep := by
        have hprefix : pfx ++ a ++ sep <+: e.key := by
          rw [← hrest, append_assoc, prefix_append_right_inj]
          exact ha
        simpa [Nat.add_assoc] using (prefix_iff_eq_take.mp hprefix).symm
      refine .inl ⟨pfx ++ a ++ sep, hsep, ⟨a, rfl, hcut ▸ take_prefix _ _, ?_⟩, ?_⟩
      · intro a' ha'
        rw [← hrest, append_assoc, prefix_append_right_inj] at ha'
        exact hfirst a' ha'
      · simp only [hcut]
        split <;> rfl

/-- What the loop has after the keys of `done`: what is shown for them, in order, and the last
cut. -/
structure Listed (pfx sep : Key) (done : List Key) (acc : List Key × Key) : Prop where
  sorted : acc.1.Pairwise (· < ·)
  mem : ∀ x, x ∈ acc.1 ↔ ∃ k ∈ done, Shows pfx sep k x
  last : ∀ k ∈ done, ∀ x, sep ≠ [] → FirstCut pfx sep k x → x ≤ acc.2
  cut : acc.2 = [] ∨ sep ≠ [] ∧ ∃ k ∈ done, FirstCut pfx sep k acc.2

theorem Listed.snoc {k x : Key} (h : Listed pfx sep done acc) (hnext : ∀ k' ∈ done, k' < k)
    (hx : Shows pfx sep k x) (hnew : x ∉ acc.1) :
    (acc.1 ++ [x]).Pairwise (· < ·) ∧
      ∀ y, y ∈ acc.1 ++ [x] ↔ ∃ k' ∈ done ++ [k], Shows pfx sep k' y := by
  constructor
  · rw [pairwise_append]
    refine ⟨h.sorted, pairwise_singleton _ _, fun y hy z hz => ?_⟩
    rw [mem_singleton] at hz
    subst hz
    obtain ⟨k', hk', hshown⟩ := (h.mem y).mp hy
    refine lt_of_le_of_ne (hshown.mono hx (hnext k' hk')) fun heq => ?_
    exact hnew (heq ▸ hy)
  · intro y
    have hlast : y = x ↔ Shows pfx sep k y := ⟨fun hy => hy ▸ hx, fun hy => hy.unique hx⟩
    simp [h.mem y, hlast, or_and_right, exists_or]

theorem Listed.step (h : Listed pfx sep done acc) (hpfx : pfx <+: e.key)
    (hnext : ∀ k ∈ done, k < e.key) :
    ∃ acc', listKeysStep pfx sep acc e = .ok acc' ∧ Listed pfx sep (done ++ [e.key]) acc' := by
  have hsplit : ∀ k ∈ done ++ [e.key], k ∈ done ∨ k = e.key := by simp
  rcases listKeysStep_cases acc hpfx with ⟨x, hsep, hcut, hstep⟩ | ⟨hwhole, hstep⟩
  · have hx : Shows pfx sep e.key x := .inl ⟨hsep, hcut⟩
    -- The cuts before are not greater, so a cut that is in the list already is the last one.
    have hlater : acc.2 ≤ x := by
      rcases h.cut with hnil | ⟨-, k, hk, hcut'⟩
      · rw [hnil]
        exact le_of_isPrefix nil_prefix
      · exact Shows.mono (.inl ⟨hsep, hcut'⟩) hx (hnext k hk)
    have hfound : x ∈ acc.1 → x = acc.2 := by
      intro hmem
      obtain ⟨k, hk, hshown⟩ := (h.mem x).mp hmem
      have hcut' : FirstCut pfx sep k x := hcut.of_prefix hshown.isPrefix
      exact le_antisymm (h.last k hk x hsep hcut') hlater
    refine ⟨_, hstep, ?_⟩
    split
    · rename_i hlast
      subst hlast
      have hne : acc.2 ≠ [] := by
        obtain ⟨a, ha, -, -⟩ := hcut
        simp [ha, hsep]
      obtain ⟨-, k, hk, hcut'⟩ := h.cut.resolve_left hne
      have hin : ∃ k ∈ done, Shows pfx sep k acc.2 := ⟨k, hk, .inl ⟨hsep, hcut'⟩⟩
      refine ⟨h.sorted, fun y => ?_, ?_, .inr ⟨hsep, k, by simp [hk], hcut'⟩⟩
      · rw [h.mem y]
        refine ⟨fun ⟨k', hk', hshown⟩ => ⟨k', by simp [hk'], hshown⟩, ?_⟩
        rintro ⟨k', hk', hshown⟩
        rcases hsplit k' hk' with hk' | rfl
        · exact ⟨k', hk', hshown⟩
        · rwa [hshown.unique hx]
      · intro k' hk' y hsep' hy
        rcases hsplit k' hk' with hk' | rfl
        · exact h.last k' hk' y hsep' hy
        · exact (hy.unique hcut).le
    · rename_i hlast
      obtain ⟨hsorted, hmem⟩ := h.snoc hnext hx (mt hfound hlast)
      refine ⟨hsorted, hmem, fun k' hk' y hsep' hy => ?_, .inr ⟨hsep, e.key, by simp, hcut⟩⟩
      rcases hsplit k' hk' with hk' | rfl
      · exact (h.last k' hk' y hsep' hy).trans hlater
      · exact (hy.unique hcut).le
  · have hx : Shows pfx sep e.key e.key := .inr ⟨rfl, hwhole⟩
    have hnew : e.key ∉ acc.1 := by
      intro hmem
      obtain ⟨k, hk, hshown⟩ := (h.mem _).mp hmem
      exact absurd (le_of_isPrefix hshown.isPrefix) (hnext k hk).not_ge
    obtain ⟨hsorted, hmem⟩ := h.snoc hnext hx hnew
    refine ⟨_, hstep, hsorted, hmem, fun k' hk' y hsep hy => ?_, ?_⟩
    · rcases hsplit k' hk' with hk' | rfl
      · exact h.last k' hk' y hsep hy
      · obtain ⟨a, rfl, ha, -⟩ := hy
        exact absurd ha (hwhole.resolve_left hsep a)
    · exact h.cut.imp_right fun ⟨hsep, k, hk, hcut⟩ => ⟨hsep, k, by simp [hk], hcut⟩

theorem Listed.run {ents : List DirEntry} (h : Listed pfx sep done acc)
    (hpfx : ∀ e ∈ ents, pfx <+: e.key) (hsorted : (done ++ ents.map (·.key)).Pairwise (· < ·)) :
    ∃ acc', ents.foldlM (listKeysStep pfx sep) acc = .ok acc' ∧
      Listed pfx sep (done ++ ents.map (·.key)) acc' := by
  induction ents generalizing done acc with
  | nil => exact ⟨acc, rfl, by simpa using h⟩
  | cons e ents ih =>
    have hcons : done ++ (e :: ents).map (·.key) = done ++ [e.key] ++ ents.map (·.key) := by simp
    rw [hcons] at hsorted ⊢
    have hnext : ∀ k ∈ done, k < e.key := by
      intro k hk
      have hdone := (pairwise_append.mp hsorted).1
      exact (pairwise_append.mp hdone).2.2 k hk e.key (by simp)
    obtain ⟨acc1, hstep, hlisted⟩ := h.step (hpfx e mem_cons_self) hnext
    obtain ⟨acc', hrun, hlisted'⟩ :=
      ih hlisted (fun e he => hpfx e (mem_cons_of_mem _ he)) hsorted
    refine ⟨acc', ?_, hlisted'⟩
    rw [foldlM_cons, hstep]
    exact hrun

theorem foldlM_step_ok {ents : List DirEntry} {acc' : List Key × Key}
    (h : ents.foldlM (listKeysStep pfx sep) acc = .ok acc') (he : e ∈ ents) :
    ∃ acc1 acc2, listKeysStep pfx sep acc1 e = .ok acc2 := by
  induction ents generalizing acc with
  | nil => cases he
  | cons d ents ih =>
    rw [foldlM_cons] at h
    cases hstep : listKeysStep pfx sep acc d with
    | error fault =>
      rw [hstep] at h
      cases h
    | ok acc1 =>
      rw [hstep] at h
      rcases mem_cons.mp he with rfl | he
      · exact ⟨acc, acc1, hstep⟩
      · exact ih h he

theorem foldlM_without_separator (ents : List DirEntry) (acc : List Key × Key) :
    ents.foldlM (listKeysStep pfx []) acc = .ok (acc.1 ++ ents.map (·.key), acc.2) := by
  induction ents generalizing acc with
  | nil => simp [pure, Except.pure]
  | cons e ents ih =>
    have hstep : listKeysStep pfx [] acc e = .ok (acc.1 ++ [e.key], acc.2) := by
      simp [listKeysStep]
    rw [foldlM_cons, hstep]
    refine (ih (acc.1 ++ [e.key], acc.2)).trans ?_
    simp

end Loop

/-! ## Lists of keys -/

section Laws

variable [External]

theorem kvs_sorted (s : State) (p : DirEntry → Bool) :
    ((s.kvs.get p).map (·.key)).Pairwise (· < ·) := by
  have hrows : s.kvs.values.Pairwise fun a b => a.key < b.key := by
    unfold Table.values
    rw [pairwise_map]
    refine s.kvs.sorted.imp_of_mem fun {a b} ha hb hlt => ?_
    rw [(kvKey_eq_ok (s.kvs.keyed a ha)).1, (kvKey_eq_ok (s.kvs.keyed b hb)).1]
    exact hlt
  rw [pairwise_map]
  exact hrows.filter p

/-- A list of keys has, in order and once, what is to be shown for the stored keys with the
prefix. This is so exactly when the prefix is not a stored key with a zero byte after it. -/
theorem key_lists_show_each_cut_once (pfx sep : Key) (s : State) :
    (∃ idx keys, kvsListKeys pfx sep s = .ok (idx, keys) ∧ keys.Pairwise (· < ·) ∧
      ∀ x, x ∈ keys ↔ ∃ k, s.kvs.first k ≠ none ∧ pfx <+: k ∧ Shows pfx sep k x) ↔
      ∀ k, pfx = k ++ [0] → s.kvs.first k = none := by
  constructor
  · rintro ⟨idx, keys, hrun, -, hmem⟩ k rfl
    by_contra hstored
    obtain ⟨e, he⟩ := Option.ne_none_iff_exists'.mp hstored
    obtain ⟨rfl, -⟩ := key_of_kvs_first he
    have hents : e ∈ s.kvs.get fun d => underPrefix (e.key ++ [0]) d.key :=
      mem_get.mpr ⟨mem_values_of_first he, underPrefix_iff.mpr (.inr rfl)⟩
    unfold kvsListKeys at hrun
    dsimp only at hrun
    by_cases hsep : sep = []
    · -- The list has the key, which does not begin with the prefix.
      subst hsep
      rw [foldlM_without_separator] at hrun
      cases hrun
      obtain ⟨k', -, hpfx, hshown⟩ := (hmem e.key).mp (by simpa using ⟨e, hents, rfl⟩)
      obtain rfl : e.key = k' := hshown.unique (.inr ⟨rfl, .inl rfl⟩)
      have hlength := hpfx.length_le
      rw [length_append, length_singleton] at hlength
      omega
    · -- The rest of the key after the prefix cannot be taken.
      cases hloop : (s.kvs.get fun d => underPrefix (e.key ++ [0]) d.key).foldlM
          (listKeysStep (e.key ++ [0]) sep) ([], []) with
      | error fault =>
        rw [hloop] at hrun
        cases hrun
      | ok acc =>
        obtain ⟨acc₁, acc₂, hstep⟩ := foldlM_step_ok hloop hents
        simp [listKeysStep, hsep] at hstep
  · intro hzero
    have hpfx : ∀ e ∈ s.kvs.get fun e => underPrefix pfx e.key, pfx <+: e.key := by
      intro e he
      obtain ⟨hvalue, hunder⟩ := mem_get.mp he
      obtain ⟨k, hk⟩ := mem_values.mp hvalue
      obtain ⟨rfl, -⟩ := key_of_kvs_first hk
      refine (underPrefix_iff.mp hunder).resolve_right fun hends => ?_
      rw [hzero e.key hends] at hk
      cases hk
    obtain ⟨acc, hrun, hlisted⟩ : ∃ acc', (s.kvs.get fun e => underPrefix pfx e.key).foldlM
        (listKeysStep pfx sep) ([], []) = .ok acc' ∧ Listed pfx sep _ acc' :=
      (⟨.nil, by simp, by simp, .inl rfl⟩ : Listed pfx sep [] ([], [])).run hpfx
        (by simpa using kvs_sorted s _)
    have hlist : kvsListKeys pfx sep s =
        .ok (listIndex pfx (s.kvs.get fun e => underPrefix pfx e.key) s, acc.1) := by
      unfold kvsListKeys
      dsimp only
      rw [hrun]
      rfl
    refine ⟨_, acc.1, hlist, hlisted.sorted, fun x => ?_⟩
    rw [hlisted.mem x, nil_append]
    constructor
    · rintro ⟨k, hk, hshown⟩
      obtain ⟨e, he, rfl⟩ := mem_map.mp hk
      obtain ⟨k, hfirst⟩ := mem_values.mp (mem_get.mp he).1
      obtain ⟨rfl, -⟩ := key_of_kvs_first hfirst
      exact ⟨e.key, by simp [hfirst], hpfx e he, hshown⟩
    · rintro ⟨k, hstored, hbegins, hshown⟩
      obtain ⟨e, he⟩ := Option.ne_none_iff_exists'.mp hstored
      obtain ⟨rfl, -⟩ := key_of_kvs_first he
      refine ⟨e.key, mem_map_of_mem (mem_get.mpr ⟨mem_values_of_first he, ?_⟩),
        hshown⟩
      exact underPrefix_iff.mpr (.inl hbegins)

end Laws

section Example

attribute [local instance] ascii

/-- The key `k` alone. -/
def singleKey : List LogEntry :=
  [{ index := 1, command := .call (.kvsSet { key := bytesOf "k", value := bytesOf "v" }) }]

/-- A list of the keys under `k` and a zero byte finds the key `k`, which does not begin with
it. With a separator the server crashes on the missing rest of the key. -/
theorem a_zero_byte_crashes_a_key_list :
    let s := replay singleKey .empty
    kvsListKeys (bytesOf "k" ++ [0]) [] s = .ok (1, [bytesOf "k"]) ∧
      kvsListKeys (bytesOf "k" ++ [0]) (bytesOf "/") s =
        .error (.panic "runtime error: slice bounds out of range") := by
  decide +kernel

end Example

end OpenGyoza
