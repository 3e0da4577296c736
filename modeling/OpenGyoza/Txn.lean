-- Write transactions of an in-memory database. A step that fails keeps the
-- writes made before it, as the caller may go on in the same transaction;
-- only a commit or an abort decides whether they stay.
import OpenGyoza.Table

namespace Memdb

open Table List

/-- Why a step did not finish: an error value, or a crash of the process. -/
inductive Fault where
  | error (text : String)
  | panic (text : String)
deriving DecidableEq, Repr

theorem except_bind_ok {ε α β : Type} {m : Except ε α} {k : α → Except ε β} {b : β} :
    (m >>= k) = .ok b ↔ ∃ a, m = .ok a ∧ k a = .ok b := by
  cases m with
  | error e => simp [bind, Except.bind]
  | ok a => simp [bind, Except.bind]

/-- A step inside one transaction on the state `σ`. -/
def Txn (σ α : Type) : Type := σ → Except Fault α × σ

namespace Txn

variable {σ α β : Type} {text : String} {I : σ → Prop}

instance : Monad (Txn σ) where
  pure a := fun s => (.ok a, s)
  bind m k := fun s =>
    match m s with
    | (.ok a, s') => k a s'
    | (.error e, s') => (.error e, s')

def read (f : σ → α) : Txn σ α := fun s => (.ok (f s), s)

def modify (f : σ → σ) : Txn σ Unit := fun s => (.ok (), f s)

def fail (text : String) : Txn σ α := fun s => (.error (.error text), s)

def crash (text : String) : Txn σ α := fun s => (.error (.panic text), s)

def ofExcept : Except String α → Txn σ α
  | .ok a => pure a
  | .error text => fail text

/-- Gives the text of an error a context. A crash passes unchanged. -/
def annotate (context : String → String) : Except Fault α → Except Fault α
  | .error (.error text) => .error (.error (context text))
  | r => r

@[simp] theorem annotate_ok (context : String → String) (a : α) :
    annotate context (.ok a) = .ok a := rfl

@[simp] theorem annotate_error (context : String → String) (text : String) :
    annotate context (.error (.error text) : Except Fault α) = .error (.error (context text)) := rfl

def wrap (context : String → String) (m : Txn σ α) : Txn σ α := fun s =>
  (annotate context (m s).1, (m s).2)

/-- An error becomes a value. A crash is not caught. -/
def caught : Except Fault α → Except Fault (Except String α)
  | .ok a => .ok (.ok a)
  | .error (.error text) => .ok (.error text)
  | .error (.panic text) => .error (.panic text)

/-- Runs `m` and hands its error on as a value, with the writes made so far still in place. -/
def attempt (m : Txn σ α) : Txn σ (Except String α) := fun s => (caught (m s).1, (m s).2)

/-- Runs `f` on every element, and stops at the first fault. -/
def forEach : List α → (α → Txn σ Unit) → Txn σ Unit
  | [], _ => pure ()
  | a :: l, f => do
    f a
    forEach l f

/-- The state after a whole transaction: its writes count only when it returns a value that
`good` accepts. -/
def commit (m : Txn σ α) (good : α → Bool) (s : σ) : σ :=
  match m s with
  | (.ok a, s') => if good a then s' else s
  | (.error _, _) => s

/-! ## Table rows -/

variable {κ ν : Type} [LinearOrder κ] {key : ν → Except String κ}

/-- Where a table stands in the state. -/
structure Ref (σ : Type) (key : ν → Except String κ) where
  get : σ → Table key
  set : Table key → σ → σ
  get_set : ∀ t s, get (set t s) = t := by intros; rfl
  set_get : ∀ s, set (get s) s = s := by intros; rfl
  set_set : ∀ t u s, set t (set u s) = set t s := by intros; rfl

/-- Writes a row in the place of the row with its key. A row with no key is refused. -/
def insert (r : Ref σ key) (v : ν) : Txn σ Unit :=
  match key v with
  | .error text => fail text
  | .ok _ => modify fun s => r.set ((r.get s).upsert v) s

/-- Takes away the row with the key of `v`. -/
def delete (r : Ref σ key) (v : ν) : Txn σ Unit :=
  match key v with
  | .error text => fail text
  | .ok k => do
    match ← read fun s => (r.get s).first k with
    | none => fail "not found"
    | some _ => modify fun s => r.set ((r.get s).erase k) s

/-! ## What holds after a step -/

/-- `Q` holds of the result of `m` and of the state after it, when it starts in `s`. -/
def wp (m : Txn σ α) (Q : Except Fault α → σ → Prop) (s : σ) : Prop := Q (m s).1 (m s).2

/-- What the first half of a sequence has to give: a value from which `k` goes on, or a fault,
which ends the sequence. -/
def andThen (k : α → σ → Prop) (Q : Except Fault β → σ → Prop) : Except Fault α → σ → Prop
  | .ok a, s => k a s
  | .error e, s => Q (.error e) s

@[simp] theorem andThen_ok (k : α → σ → Prop) (Q : Except Fault β → σ → Prop) (a : α) (s : σ) :
    andThen k Q (.ok a) s ↔ k a s := Iff.rfl

@[simp] theorem andThen_error (k : α → σ → Prop) (Q : Except Fault β → σ → Prop) (e : Fault)
    (s : σ) : andThen k Q (.error e : Except Fault α) s ↔ Q (.error e) s := Iff.rfl

variable {Q : Except Fault α → σ → Prop} {s : σ} {k : α → Txn σ β} {a : α} {s' : σ}
  {context : String → String} {c : Prop} {l : List β} {f : β → Txn σ Unit} {m n : Txn σ α}

theorem bind_of_ok (h : m s = (.ok a, s')) : (m >>= k) s = k a s' := by
  simp [Bind.bind, h]

theorem bind_of_error {e : Fault} (h : m s = (.error e, s')) : (m >>= k) s = (.error e, s') := by
  simp [Bind.bind, h]

theorem read_bind (f : σ → α) (k : α → Txn σ β) (s : σ) : (read f >>= k) s = k (f s) s := rfl

theorem modify_bind (f : σ → σ) (k : Unit → Txn σ β) (s : σ) : (modify f >>= k) s = k () (f s) :=
  rfl

theorem read_then {f : σ → α} {r : Except Fault β × σ} (h : (read f >>= k) s = r) :
    k (f s) s = r := h

theorem modify_then {f : σ → σ} {k : Unit → Txn σ β} {r : Except Fault β × σ}
    (h : (modify f >>= k) s = r) : k () (f s) = r := h

theorem attempt_of_ok (h : m s = (.ok a, s')) : attempt m s = (.ok (.ok a), s') := by
  simp [attempt, h, caught]

theorem attempt_of_panic (h : m s = (.error (.panic text), s')) :
    attempt m s = (.error (.panic text), s') := by
  simp [attempt, h, caught]

theorem attempt_of_error (h : m s = (.error (.error text), s')) :
    attempt m s = (.ok (.error text), s') := by
  simp [attempt, h, caught]

theorem bind_pure_state (m : Txn σ α) (b : β) (s : σ) :
    ((m >>= fun _ => Pure.pure b) s).2 = (m s).2 := by
  simp only [bind, Pure.pure]
  rcases m s with ⟨_ | _, _⟩ <;> rfl

theorem bind_eq_ok {b : β} {s'' : σ} :
    (m >>= k) s = (.ok b, s'') ↔ ∃ a s', m s = (.ok a, s') ∧ k a s' = (.ok b, s'') := by
  simp only [bind]
  rcases m s with ⟨_ | a, s'⟩ <;> simp

theorem pure_eq_ok {b : α} : (pure a : Txn σ α) s = (.ok b, s') ↔ a = b ∧ s = s' := by
  simp [pure]

theorem return_eq_ok {f : α → β} {b : β} : (m >>= fun a => Pure.pure (f a)) s = (.ok b, s') ↔
    ∃ a, m s = (.ok a, s') ∧ f a = b := by
  simp only [bind, Pure.pure]
  rcases m s with ⟨_ | a, s'⟩ <;> simp [and_comm]

theorem read_eq_ok {f : σ → α} : read f s = (.ok a, s') ↔ f s = a ∧ s = s' := by
  simp [read]

theorem wrap_eq_ok :
    wrap context m s = (.ok a, s') ↔ m s = (.ok a, s') := by
  simp only [wrap, Prod.ext_iff]
  rcases m s with ⟨(_ | _) | _, _⟩ <;> simp [annotate]

theorem ite_fail_eq_ok [Decidable c] :
    (if c then fail text else m) s = (.ok a, s') ↔ ¬ c ∧ m s = (.ok a, s') := by
  by_cases h : c
  · simp [h, fail]
  · simp [h]

theorem insert_eq_ok {r : Ref σ key} {v : ν} {u : Unit} : insert r v s = (.ok u, s') ↔
      ∃ k, key v = .ok k ∧ s' = r.set ((r.get s).upsert v) s := by
  unfold insert
  cases key v with
  | error text => simp [fail]
  | ok k => simp [modify, eq_comm]

theorem delete_eq_ok {r : Ref σ key} {v w : ν} {k : κ} {u : Unit} (h : key v = .ok k)
    (hw : (r.get s).first k = some w)
    (hrun : delete r v s = (.ok u, s')) : r.set ((r.get s).erase k) s = s' := by
  simp only [delete, h] at hrun
  replace hrun := read_then hrun
  rw [hw] at hrun
  exact congrArg Prod.snd hrun

theorem attempt_eq_ok :
    attempt m s = (.ok (.ok a), s') ↔ m s = (.ok a, s') := by
  simp only [attempt, Prod.ext_iff]
  rcases m s with ⟨(_ | _) | _, _⟩ <;> simp [caught]

theorem commit_cases (m : Txn σ α) (good : α → Bool) (s : σ) :
    commit m good s = s ∨ ∃ a s', m s = (.ok a, s') ∧ commit m good s = s' := by
  unfold commit
  rcases m s with ⟨e | a, s'⟩
  · exact .inl rfl
  · by_cases h : good a
    · exact .inr ⟨a, s', rfl, if_pos h⟩
    · exact .inl (if_neg h)

theorem eq_of_wp {r : Except Fault α} (h : wp m (fun a t => a = r ∧ t = s') s) :
    m s = (r, s') := Prod.ext h.1 h.2

theorem wp_of_eq {r : Except Fault α} (h : m s = (r, s')) : wp m Q s ↔ Q r s' := by
  simp [wp, h]

theorem wp_mono {P : Except Fault α → σ → Prop} (h : wp m P s)
    (hPQ : ∀ r s', P r s' → Q r s') : wp m Q s := hPQ _ _ h

@[simp] theorem wp_pure (a : α) : wp (pure a) Q s ↔ Q (.ok a) s := Iff.rfl

@[simp] theorem wp_bind (m : Txn σ β) (k : β → Txn σ α) :
    wp (m >>= k) Q s ↔ wp m (andThen (fun b => wp (k b) Q) Q) s := by
  change Q ((m >>= k) s).1 ((m >>= k) s).2 ↔ andThen _ Q (m s).1 (m s).2
  simp only [bind]
  rcases m s with ⟨_ | _, _⟩ <;> rfl

@[simp] theorem wp_read (f : σ → α) : wp (read f) Q s ↔ Q (.ok (f s)) s := Iff.rfl

@[simp] theorem wp_modify (f : σ → σ) {Q : Except Fault Unit → σ → Prop} :
    wp (modify f) Q s ↔ Q (.ok ()) (f s) := Iff.rfl

@[simp] theorem wp_fail (text : String) :
    wp (fail text) Q s ↔ Q (.error (.error text)) s := Iff.rfl

@[simp] theorem wp_wrap (context : String → String) (m : Txn σ α) :
    wp (wrap context m) Q s ↔ wp m (fun r s' => Q (annotate context r) s') s := Iff.rfl

@[simp] theorem wp_attempt (m : Txn σ α) {Q : Except Fault (Except String α) → σ → Prop} :
    wp (attempt m) Q s ↔ wp m (fun r s' => Q (caught r) s') s := Iff.rfl

@[simp] theorem wp_ite (c : Prop) [Decidable c] (m n : Txn σ α) :
    wp (if c then m else n) Q s ↔ if c then wp m Q s else wp n Q s := by
  split <;> rfl

theorem wp_forEach_cons (b : β) (l : List β) (f : β → Txn σ Unit)
    {Q : Except Fault Unit → σ → Prop} :
    wp (forEach (b :: l) f) Q s ↔ wp (f b) (andThen (fun _ => wp (forEach l f) Q) Q) s :=
  wp_bind _ _

theorem wp_forEach_append (l l' : List β) (f : β → Txn σ Unit) {Q : Except Fault Unit → σ → Prop} :
    wp (forEach (l ++ l') f) Q s ↔
      wp (forEach l f) (andThen (fun _ => wp (forEach l' f) Q) Q) s := by
  induction l generalizing s with
  | nil => rfl
  | cons b l ih =>
    rw [cons_append, wp_forEach_cons, wp_forEach_cons]
    unfold wp
    rcases (f b s).1 with e | u
    · rfl
    · exact ih

theorem wp_forEach_map {γ : Type} (g : γ → β) (l : List γ) (f : β → Txn σ Unit)
    {Q : Except Fault Unit → σ → Prop} :
    wp (forEach (l.map g) f) Q s ↔ wp (forEach l fun c => f (g c)) Q s := by
  induction l generalizing s with
  | nil => rfl
  | cons c l ih =>
    rw [map_cons, wp_forEach_cons, wp_forEach_cons]
    unfold wp
    rcases (f (g c) s).1 with e | u
    · rfl
    · exact ih

theorem wp_forEach_fold {g : σ → β → σ} (h : ∀ b ∈ l, ∀ s, f b s = (.ok (), g s b))
    {Q : Except Fault Unit → σ → Prop} : wp (forEach l f) Q s ↔ Q (.ok ()) (l.foldl g s) := by
  induction l generalizing s with
  | nil => rfl
  | cons b l ih =>
    rw [wp_forEach_cons, wp_of_eq (h b (by simp) s), andThen_ok, foldl_cons]
    exact ih fun c hc => h c (by simp [hc])

/-- `Q` holds in the end, unless there was a crash. There is none when `safe` holds. -/
def unlessCrash (safe : Prop) (Q : Except Fault α → σ → Prop) : Except Fault α → σ → Prop
  | .error (.panic _), _ => ¬ safe
  | r, s => Q r s

/-- A value for which `P` holds, or a crash. There is none when `safe` holds. -/
abbrev orCrash (safe : Prop) (P : α → σ → Prop) : Except Fault α → σ → Prop :=
  unlessCrash safe fun r s => ∃ a, r = .ok a ∧ P a s

section OrCrash

variable {safe safe' : Prop} {P : α → σ → Prop}

theorem wp_unlessCrash_mono {Q' : Except Fault α → σ → Prop} (h : wp m (unlessCrash safe Q) s)
    (hsafe : safe' → safe) (hQ : ∀ r s', Q r s' → Q' r s') : wp m (unlessCrash safe' Q') s := by
  refine wp_mono h ?_
  rintro ((_ | text) | a) s' hr
  · exact hQ _ _ hr
  · exact fun h => hr (hsafe h)
  · exact hQ _ _ hr

theorem of_unlessCrash (h : wp m (unlessCrash safe Q) s)
    (hcrash : ∀ text, (m s).1 ≠ .error (.panic text)) : Q (m s).1 (m s).2 := by
  unfold wp at h
  rcases hm : (m s).1 with (text | text) | a
  · rw [hm] at h
    exact h
  · exact absurd hm (hcrash text)
  · rw [hm] at h
    exact h

theorem wp_orCrash_mono {P' : α → σ → Prop} (h : wp m (orCrash safe P) s)
    (hsafe : safe' → safe) (hP : ∀ a s', P a s' → P' a s') : wp m (orCrash safe' P') s :=
  wp_unlessCrash_mono h hsafe fun _ s' ⟨a, hr, ha⟩ => ⟨a, hr, hP a s' ha⟩

theorem wp_bind_unlessCrash {Q' : Except Fault β → σ → Prop} (h : wp m (unlessCrash safe Q) s)
    (hok : ∀ a s', Q (.ok a) s' → wp (k a) (unlessCrash safe Q') s')
    (herr : ∀ text s', Q (.error (.error text)) s' → Q' (.error (.error text)) s') :
    wp (m >>= k) (unlessCrash safe Q') s := by
  rw [wp_bind]
  refine wp_mono h ?_
  rintro ((text | text) | a) s' hr
  · exact herr text s' hr
  · exact hr
  · exact hok a s' hr

theorem wp_bind_orCrash {Q : Except Fault β → σ → Prop} (h : wp m (orCrash safe P) s)
    (hk : ∀ a s', P a s' → wp (k a) (unlessCrash safe Q) s') :
    wp (m >>= k) (unlessCrash safe Q) s := by
  refine wp_bind_unlessCrash h ?_ ?_
  · rintro a s' ⟨_, ⟨⟩, ha⟩
    exact hk a s' ha
  · rintro text s' ⟨_, ⟨⟩, -⟩

theorem wp_wrap_unlessCrash {context : String → String} {Q' : Except Fault α → σ → Prop}
    (h : wp m (unlessCrash safe Q) s) (hok : ∀ a s', Q (.ok a) s' → Q' (.ok a) s')
    (herr : ∀ text s', Q (.error (.error text)) s' → Q' (.error (.error (context text))) s') :
    wp (wrap context m) (unlessCrash safe Q') s := by
  rw [wp_wrap]
  refine wp_mono h ?_
  rintro ((text | text) | a) s' hr
  · exact herr text s' hr
  · exact hr
  · exact hok a s' hr

theorem wp_forEach_orCrash {J : List β → σ → Prop} (hs : J l s)
    (turn : ∀ b l s, J (b :: l) s → wp (f b) (orCrash safe fun _ => J l) s) :
    wp (forEach l f) (orCrash safe fun _ => J []) s := by
  induction l generalizing s with
  | nil => exact ⟨(), rfl, hs⟩
  | cons b l ih => exact wp_bind_orCrash (turn b l s hs) fun _ _ h => ih h

end OrCrash

theorem wp_forEach_all {D : β → σ → Prop} (hs : I s) (step : ∀ b ∈ l, ∀ s, I s →
      wp (f b) (fun r s' => r = .ok () ∧ I s' ∧ D b s' ∧ ∀ c, D c s → D c s') s) :
    wp (forEach l f) (fun r s' => r = .ok () ∧ I s' ∧ ∀ b ∈ l, D b s') s := by
  have hmain : wp (forEach l f)
      (fun r s' => r = .ok () ∧ I s' ∧ (∀ b ∈ l, D b s') ∧ ∀ c, D c s → D c s') s := by
    induction l generalizing s with
    | nil => exact ⟨rfl, hs, by simp, fun _ h => h⟩
    | cons b l ih =>
      rw [wp_forEach_cons]
      refine wp_mono (step b (by simp) s hs) ?_
      rintro _ s1 ⟨rfl, hI, hb, hkeep⟩
      rw [andThen_ok]
      refine wp_mono (ih hI fun c hc => step c (mem_cons_of_mem _ hc)) ?_
      rintro _ s2 ⟨rfl, hI2, hl, hkeep2⟩
      refine ⟨rfl, hI2, fun c hc => ?_, fun c hc => hkeep2 c (hkeep c hc)⟩
      rcases mem_cons.mp hc with rfl | hc
      · exact hkeep2 _ hb
      · exact hl c hc
  exact wp_mono hmain fun _ _ ⟨hr, hI, hl, _⟩ => ⟨hr, hI, hl⟩

section Rows

variable {Q : Except Fault Unit → σ → Prop} {v : ν}

theorem wp_insert (r : Ref σ key) {k : κ} (h : key v = .ok k) :
    wp (insert r v) Q s ↔ Q (.ok ()) (r.set ((r.get s).upsert v) s) := by
  simp [insert, h]

theorem wp_insert_error (r : Ref σ key) (h : key v = .error text) :
    wp (insert r v) Q s ↔ Q (.error (.error text)) s := by
  simp [insert, h]

theorem wp_delete (r : Ref σ key) {w : ν} {k : κ} (h : key v = .ok k)
    (hw : (r.get s).first k = some w) :
    wp (delete r v) Q s ↔ Q (.ok ()) (r.set ((r.get s).erase k) s) := by
  simp [delete, h, hw]

theorem wp_insert_of (r : Ref σ key)
    (hok : ∀ k, key v = .ok k → Q (.ok ()) (r.set ((r.get s).upsert v) s))
    (herr : ∀ text, Q (.error (.error text)) s) : wp (insert r v) Q s := by
  cases hk : key v with
  | error text => exact (wp_insert_error r hk).mpr (herr text)
  | ok k => exact (wp_insert r hk).mpr (hok k hk)

theorem wp_delete_of (r : Ref σ key)
    (hok : ∀ k, key v = .ok k → Q (.ok ()) (r.set ((r.get s).erase k) s))
    (herr : ∀ text, Q (.error (.error text)) s) : wp (delete r v) Q s := by
  cases hk : key v with
  | error text => simpa [delete, hk] using herr text
  | ok k =>
    cases hrow : (r.get s).first k with
    | none => simpa [delete, hk, hrow] using herr "not found"
    | some w => exact (wp_delete r hk hrow).mpr (hok k hk)

theorem wp_forEach_rows (t : σ → Table key) {p : ν → Bool} {l : List ν} {f : ν → Txn σ Unit}
    {g : ν → Option ν} (hl : l.Perm ((t s).get p)) (hs : I s) (turn : ∀ v k s, p v = true → (t s).first k = some v → I s →
      wp (f v) (fun r s' => r = .ok () ∧ I s' ∧ (t s').first k = g v ∧
        ∀ j, j ≠ k → (t s').first j = (t s).first j) s) :
    wp (forEach l f) (fun r s' => r = .ok () ∧ I s' ∧
      ∀ k, (t s').first k = (t s).first k >>= fun v => if p v then g v else some v) s := by
  have hloop : ∀ (l : List ν) (s : σ), l.Pairwise (fun v w => key v ≠ key w) → I s →
      (∀ v ∈ l, p v = true ∧ v ∈ (t s).values) → wp (forEach l f) (fun r s' => r = .ok () ∧ I s' ∧
        (∀ v ∈ l, ∀ k, key v = .ok k → (t s').first k = g v) ∧
        ∀ k, (∀ v ∈ l, key v ≠ .ok k) → (t s').first k = (t s).first k) s := by
    intro l
    induction l with
    | nil => exact fun s _ hs _ => ⟨rfl, hs, by simp, fun _ _ => rfl⟩
    | cons v l ih =>
      intro s hl hs hrows
      obtain ⟨hv, hl⟩ := pairwise_cons.mp hl
      obtain ⟨hpv, hmem⟩ := hrows v (by simp)
      obtain ⟨k, hk⟩ := mem_values.mp hmem
      have hkey := key_of_first hk
      rw [wp_forEach_cons]
      refine wp_mono (turn v k s hpv hk hs) ?_
      rintro _ s1 ⟨rfl, hs1, hdone, hothers⟩
      rw [andThen_ok]
      refine wp_mono (ih s1 hl hs1 fun w hw => ?_) ?_
      · obtain ⟨hpw, hmem⟩ := hrows w (mem_cons_of_mem _ hw)
        obtain ⟨j, hj⟩ := mem_values.mp hmem
        refine ⟨hpw, mem_values.mpr ⟨j, ?_⟩⟩
        rw [hothers j ?_, hj]
        rintro rfl
        exact hv w hw (by rw [hkey, key_of_first hj])
      · rintro _ s' ⟨rfl, hs', hall, hrest⟩
        refine ⟨rfl, hs', fun w hw j hj => ?_, fun j hj => ?_⟩
        · rcases mem_cons.mp hw with rfl | hw
          · rw [hkey] at hj
            cases hj
            rw [hrest k fun w hw h => hv w hw (by rw [hkey, h]), hdone]
          · exact hall w hw j hj
        · rw [hrest j fun w hw => hj w (mem_cons_of_mem _ hw), hothers j]
          rintro rfl
          exact hj v (by simp) hkey
  have hkeys : l.Pairwise fun v w => key v ≠ key w :=
    (hl.pairwise_iff fun h => Ne.symm h).mpr ((t s).values_pairwise.filter p)
  refine wp_mono (hloop _ s hkeys hs fun v hv => (mem_get.mp (hl.subset hv)).symm) ?_
  rintro _ s' ⟨rfl, hs', hall, hrest⟩
  refine ⟨rfl, hs', fun k => ?_⟩
  by_cases hk : ∃ v ∈ l, key v = .ok k
  · obtain ⟨v, hv, hkey⟩ := hk
    obtain ⟨hmem, hpv⟩ := mem_get.mp (hl.subset hv)
    rw [hall v hv k hkey, first_of_mem hmem hkey]
    simp [hpv]
  · simp only [not_exists, not_and] at hk
    rw [hrest k hk]
    cases hrow : (t s).first k with
    | none => rfl
    | some v =>
      have hpv : p v ≠ true := fun hpv =>
        hk v (hl.mem_iff.mpr (mem_get.mpr ⟨mem_values_of_first hrow, hpv⟩)) (key_of_first hrow)
      simp [hpv]

theorem wp_forEach_erase (t : σ → Table key) {p : ν → Bool} {l : List ν} {f : ν → Txn σ Unit}
    (hl : l.Perm ((t s).get p)) (hs : I s) (turn : ∀ v k s, p v = true → (t s).first k = some v → I s →
      wp (f v) (fun r s' => r = .ok () ∧ I s' ∧ t s' = (t s).erase k) s) :
    wp (forEach l f) (fun r s' => r = .ok () ∧ I s' ∧ t s' = (t s).keep (! p ·)) s := by
  refine wp_mono (wp_forEach_rows t (g := fun _ => none) hl hs fun v k s hpv hk hs => ?_) ?_
  · refine wp_mono (turn v k s hpv hk hs) ?_
    rintro _ s' ⟨rfl, hs', ht⟩
    rw [ht]
    exact ⟨rfl, hs', first_erase_self _ _, fun j hj => first_erase_ne _ hj⟩
  · rintro _ s' ⟨rfl, hs', hrows⟩
    refine ⟨rfl, hs', ext_first fun k => ?_⟩
    rw [hrows, first_keep]
    cases (t s).first k with
    | none => rfl
    | some v => cases hpv : p v <;> simp [Option.filter, hpv]

theorem wp_deleteAll (r : Ref σ key) {p : ν → Bool} {l : List ν} (hl : l.Perm ((r.get s).get p))
    (context : String → String) :
    wp (forEach l fun v => wrap context (delete r v))
      (fun res s' => res = .ok () ∧ s' = r.set ((r.get s).keep (! p ·)) s) s := by
  refine wp_mono (wp_forEach_erase r.get (I := fun s' => s' = r.set (r.get s') s) hl
    (r.set_get s).symm fun v k s1 _ hk hs1 => ?_) ?_
  · rw [wp_wrap, wp_delete r (key_of_first hk) hk, annotate_ok, r.get_set]
    refine ⟨rfl, ?_, rfl⟩
    nth_rewrite 2 [hs1]
    exact r.set_set _ _ _
  · rintro _ s' ⟨rfl, hs', ht⟩
    rw [hs', ht]
    exact ⟨rfl, rfl⟩

end Rows

/-! ## What a step does to the state -/

/-- All that `m` does to the state is a chain of `r` steps, whether it fails or not. -/
def Does (r : σ → σ → Prop) (m : Txn σ α) : Prop := ∀ s, Relation.ReflTransGen r s (m s).2

section Does

variable {r : σ → σ → Prop}

theorem Does.pure (a : α) : Does r (Pure.pure a : Txn σ α) := fun _ => .refl

theorem Does.read (f : σ → α) : Does r (read f) := fun _ => .refl

theorem Does.fail (text : String) : Does r (fail text : Txn σ α) := fun _ => .refl

theorem Does.crash (text : String) : Does r (crash text : Txn σ α) := fun _ => .refl

theorem Does.ofExcept (e : Except String α) : Does r (ofExcept e : Txn σ α) := by
  cases e with
  | ok a => exact .pure a
  | error text => exact .fail text

theorem Does.modify {f : σ → σ} (h : ∀ s, r s (f s)) : Does r (modify f) := fun s => .single (h s)

theorem Does.wrap (h : Does r m) :
    Does r (wrap context m) := h

theorem Does.attempt (h : Does r m) : Does r (attempt m) := h

theorem Does.bind (hm : Does r m) (hk : ∀ a, Does r (k a)) : Does r (m >>= k) := by
  intro s
  have h1 := hm s
  simp only [Bind.bind]
  rcases hms : m s with ⟨_ | a, s'⟩ <;> rw [hms] at h1
  · exact h1
  · exact h1.trans (hk a s')

theorem Does.ite [Decidable c] (hm : Does r m) (hn : Does r n) : Does r (if c then m else n) := by
  split
  · exact hm
  · exact hn

theorem Does.forEach (h : ∀ b ∈ l, Does r (f b)) : Does r (forEach l f) := by
  induction l with
  | nil => exact .pure ()
  | cons b l ih =>
    exact .bind (h b (by simp)) fun _ => ih fun c hc => h c (mem_cons_of_mem _ hc)

theorem Does.insert {t : Ref σ key} {v : ν}
    (h : ∀ s k, key v = .ok k → r s (t.set ((t.get s).upsert v) s)) : Does r (insert t v) := by
  unfold Txn.insert
  split
  · exact .fail _
  · rename_i hk
    exact .modify fun s => h s _ hk

theorem Does.delete {t : Ref σ key} {v : ν}
    (h : ∀ s k, key v = .ok k → r s (t.set ((t.get s).erase k) s)) : Does r (delete t v) := by
  unfold Txn.delete
  split
  · exact .fail _
  · rename_i hk
    refine .bind (.read _) fun w => ?_
    cases w with
    | none => exact .fail _
    | some w => exact .modify fun s => h s _ hk

theorem Does.mono {r' : σ → σ → Prop} (h : Does r m)
    (hr : ∀ s s', r s s' → Relation.ReflTransGen r' s s') : Does r' m := by
  intro s
  generalize (m s).2 = s', h s = h1
  induction h1 with
  | refl => exact .refl
  | tail _ hstep ih => exact ih.trans (hr _ _ hstep)

theorem Does.holds (h : Does r m) (hrefl : ∀ s, r s s)
    (htrans : ∀ s s' s'', r s s' → r s' s'' → r s s'') (s : σ) : r s (m s).2 := by
  generalize (m s).2 = s', h s = hsteps
  induction hsteps with
  | refl => exact hrefl s
  | tail _ hstep ih => exact htrans _ _ _ ih hstep

end Does

/-! ## Steps that never crash -/

/-- `m` may fail, but it does not crash. -/
def NoCrash (m : Txn σ α) (s : σ) : Prop := ∀ text, (m s).1 ≠ .error (.panic text)

section NoCrash

theorem NoCrash.pure (a : α) : NoCrash (Pure.pure a : Txn σ α) s := nofun

theorem NoCrash.read (f : σ → α) : NoCrash (read f) s := nofun

theorem NoCrash.modify (f : σ → σ) : NoCrash (modify f) s := nofun

theorem NoCrash.fail (text : String) : NoCrash (fail text : Txn σ α) s := nofun

theorem NoCrash.ofExcept (e : Except String α) : NoCrash (ofExcept e : Txn σ α) s := by
  cases e with
  | ok a => exact .pure a
  | error text => exact .fail text

theorem NoCrash.wrap (h : NoCrash m s) : NoCrash (wrap context m) s := by
  intro text hcrash
  simp only [Txn.wrap] at hcrash
  rcases hm : (m s).1 with (_ | text) | a
  · rw [hm] at hcrash
    cases hcrash
  · exact h text hm
  · rw [hm] at hcrash
    cases hcrash

theorem NoCrash.bind (hm : NoCrash m s) (hk : ∀ a s', NoCrash (k a) s') : NoCrash (m >>= k) s := by
  intro text hcrash
  simp only [Bind.bind] at hcrash
  rcases hms : m s with ⟨e | a, s'⟩ <;> rw [hms] at hcrash
  · cases hcrash
    exact hm text (by rw [hms])
  · exact hk a s' text hcrash

theorem NoCrash.bind_read {f : σ → α} (h : NoCrash (k (f s)) s) :
    NoCrash (Txn.read f >>= k) s := h

theorem NoCrash.of_ok (h : (m s).1 = .ok a) : NoCrash m s := by
  intro text hcrash
  rw [h] at hcrash
  cases hcrash

theorem NoCrash.of_attempt {x : Except String α} (h : attempt m s = (.ok x, s')) :
    NoCrash m s := by
  intro text hpanic
  simp [attempt, hpanic, caught] at h

theorem NoCrash.of_bind (h : NoCrash (m >>= k) s) : NoCrash m s := by
  intro text hpanic
  have hrun : ((m >>= k) s).1 = .error (.panic text) := by
    simp only [Bind.bind]
    rcases hms : m s with ⟨e | a, s'⟩ <;> rw [hms] at hpanic
    · cases hpanic
      rfl
    · cases hpanic
  exact h text hrun

theorem NoCrash.ite [Decidable c] (hm : NoCrash m s) (hn : NoCrash n s) :
    NoCrash (if c then m else n) s := by
  split
  · exact hm
  · exact hn

theorem NoCrash.forEach (h : ∀ b ∈ l, ∀ s, NoCrash (f b) s) : NoCrash (forEach l f) s := by
  induction l generalizing s with
  | nil => exact .pure ()
  | cons b l ih =>
    exact .bind (h b (by simp) s) fun _ s' => ih fun c hc => h c (by simp [hc])

theorem NoCrash.insert (t : Ref σ key) (v : ν) : NoCrash (insert t v) s := by
  unfold Txn.insert
  split
  · exact .fail _
  · exact .modify _

theorem NoCrash.delete (t : Ref σ key) (v : ν) : NoCrash (delete t v) s := by
  unfold Txn.delete
  split
  · exact .fail _
  · refine .bind (.read _) fun w s' => ?_
    cases w with
    | none => exact .fail _
    | some w => exact .modify _

end NoCrash

/-! ## Steps that only look -/

/-- `m` gives a value or an error, and leaves the state alone. -/
def Looks (m : Txn σ α) : Prop :=
  ∀ s, (∃ a, m s = (.ok a, s)) ∨ ∃ text, m s = (.error (.error text), s)

section Looks
theorem Looks.pure (a : α) : Looks (Pure.pure a : Txn σ α) := fun _ => .inl ⟨a, rfl⟩

theorem Looks.read (f : σ → α) : Looks (read f) := fun s => .inl ⟨f s, rfl⟩

theorem Looks.fail (text : String) : Looks (fail text : Txn σ α) := fun _ => .inr ⟨text, rfl⟩

theorem Looks.ofExcept (e : Except String α) : Looks (ofExcept e : Txn σ α) := by
  cases e with
  | ok a => exact .pure a
  | error text => exact .fail text

theorem Looks.wrap (h : Looks m) : Looks (wrap context m) := by
  intro s
  unfold Txn.wrap
  rcases h s with ⟨a, hrun⟩ | ⟨text, hrun⟩ <;> rw [hrun]
  · exact .inl ⟨a, rfl⟩
  · exact .inr ⟨context text, rfl⟩

theorem Looks.bind (hm : Looks m) (hk : ∀ a, Looks (k a)) : Looks (m >>= k) := by
  intro s
  rcases hm s with ⟨a, hrun⟩ | ⟨text, hrun⟩
  · rw [bind_of_ok hrun]
    exact hk a s
  · rw [bind_of_error hrun]
    exact .inr ⟨text, rfl⟩

theorem Looks.ite [Decidable c] (hm : Looks m) (hn : Looks n) : Looks (if c then m else n) := by
  split
  · exact hm
  · exact hn

theorem Looks.state (h : Looks m) (s : σ) : (m s).2 = s := by
  rcases h s with ⟨_, hrun⟩ | ⟨_, hrun⟩ <;> rw [hrun]

theorem Looks.does {r : σ → σ → Prop} (h : Looks m) : Does r m := by
  intro s
  rw [h.state s]

theorem Looks.noCrash (h : Looks m) : NoCrash m s := by
  intro text
  rcases h s with ⟨_, hrun⟩ | ⟨_, hrun⟩ <;> rw [hrun] <;> nofun

end Looks

end Txn

end Memdb
