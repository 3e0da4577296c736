-- Texts that are written field after field with nothing in between. Such a text
-- does not say where a field ends and the next one begins, so it tells two
-- values apart only when they are laid out in the same way, or when no text
-- fits both of their layouts.
import Mathlib.Data.List.Forall2

namespace FlatText

open List

variable {ι α β γ σ τ ρ : Type} {t : List ι}

/-! ## Masks -/

/-- A mask has the letters that are fixed by a layout, each in its place. -/
abbrev Mask (ι : Type) := List (Option ι)

/-- The text has as many letters as the mask, with the fixed ones in their places. -/
def Fits (m : Mask ι) (t : List ι) : Prop := Forall₂ (fun o c => ∀ d ∈ o, d = c) m t

/-- The masks are of one length, and no two different letters are fixed for one place. -/
def Meet (m m' : Mask ι) : Prop := Forall₂ (fun o o' => ∀ c ∈ o, ∀ d ∈ o', c = d) m m'

variable {m : Mask ι}

theorem Fits.length (h : Fits m t) : t.length = m.length :=
  (Forall₂.length_eq h).symm

variable {m' : Mask ι}

theorem fits_append : Fits (m ++ m') t ↔ ∃ u u', t = u ++ u' ∧ Fits m u ∧ Fits m' u' := by
  constructor
  · intro h
    have htake := forall₂_take m.length h
    have hdrop := forall₂_drop m.length h
    rw [take_left] at htake
    rw [drop_left] at hdrop
    exact ⟨_, _, (take_append_drop _ _).symm, htake, hdrop⟩
  · rintro ⟨u, u', rfl, hu, hu'⟩
    exact rel_append hu hu'

theorem fits_free {n : ℕ} : Fits (replicate n none) t ↔ t.length = n := by
  induction n generalizing t with
  | zero => simp [Fits]
  | succ n ih =>
    cases t with
    | nil => simp [Fits]
    | cons c t => simpa [Fits, replicate_succ] using ih

theorem fits_word {w : List ι} : Fits (w.map some) t ↔ t = w := by
  induction w generalizing t with
  | nil => simp [Fits]
  | cons c w ih =>
    cases t with
    | nil => simp [Fits]
    | cons d t =>
      rw [map_cons, Fits, forall₂_cons, cons.injEq, eq_comm]
      exact and_congr (by simp) ih

theorem Fits.meet (h : Fits m t) (h' : Fits m' t) : Meet m m' := by
  induction h generalizing m' with
  | nil =>
    cases h'
    exact .nil
  | cons hc _ ih =>
    obtain _ | ⟨hd, h'⟩ := h'
    exact .cons (fun c hm d hm' => (hc c hm).trans (hd d hm').symm) (ih h')

theorem Meet.exists_fits [Inhabited ι] (h : Meet m m') : ∃ t, Fits m t ∧ Fits m' t := by
  induction h with
  | nil => exact ⟨[], .nil, .nil⟩
  | @cons o o' m m' hletter _ ih =>
    obtain ⟨t, ht, ht'⟩ := ih
    cases o with
    | some c =>
      exact ⟨c :: t, .cons (fun _ hd => (Option.some.inj hd).symm) ht,
        .cons (fun d hd => (hletter c rfl d hd).symm) ht'⟩
    | none =>
      refine ⟨o'.getD default :: t, .cons nofun ht, .cons (fun d hd => ?_) ht'⟩
      obtain rfl : o' = some d := hd
      rfl

/-! ## Formats -/

structure Format (ι α σ : Type) where
  shape : α → σ
  mask : σ → Mask ι
  text : α → List ι
  fits : ∀ a, Fits (mask (shape a)) (text a)
  injective : ∀ {a b}, shape a = shape b → text a = text b → a = b
  reached : ∀ {a t}, Fits (mask (shape a)) t → ∃ b, shape b = shape a ∧ text b = t

namespace Format

/-- One word for each value. -/
def word (w : α → List ι) : Format ι α α where
  shape := id
  mask a := (w a).map some
  text := w
  fits _ := fits_word.mpr rfl
  injective h _ := h
  reached h := ⟨_, rfl, (fits_word.mp h).symm⟩

/-- The characters of a string. -/
def string : Format Char String ℕ where
  shape := String.length
  mask n := replicate n none
  text := String.toList
  fits s := fits_free.mpr s.length_toList
  injective _ h := String.toList_inj.mp h
  reached {_ t} h := ⟨.ofList t, by rw [String.length_ofList]; exact fits_free.mp h,
    String.toList_ofList⟩

theorem length_text (F : Format ι α σ) (a : α) :
    (F.text a).length = (F.mask (F.shape a)).length := (F.fits a).length

/-- The one value after the other. -/
def pair (F : Format ι α σ) (G : Format ι β τ) : Format ι (α × β) (σ × τ) where
  shape p := (F.shape p.1, G.shape p.2)
  mask q := F.mask q.1 ++ G.mask q.2
  text p := F.text p.1 ++ G.text p.2
  fits p := fits_append.mpr ⟨_, _, rfl, F.fits p.1, G.fits p.2⟩
  injective {a b} hshape htext := by
    obtain ⟨hfirst, hsecond⟩ := Prod.mk.inj hshape
    have hlength : (F.text a.1).length = (F.text b.1).length := by
      rw [length_text, length_text, hfirst]
    obtain ⟨htext₁, htext₂⟩ := append_inj htext hlength
    exact Prod.ext (F.injective hfirst htext₁) (G.injective hsecond htext₂)
  reached h := by
    obtain ⟨u, u', rfl, hu, hu'⟩ := fits_append.mp h
    obtain ⟨a, ha, rfl⟩ := F.reached hu
    obtain ⟨b, hb, rfl⟩ := G.reached hu'
    exact ⟨(a, b), Prod.ext ha hb, rfl⟩

/-- The values of a list one after the other. -/
def list (F : Format ι α σ) : Format ι (List α) (List σ) where
  shape l := l.map F.shape
  mask l := l.flatMap F.mask
  text l := l.flatMap F.text
  fits l := by
    induction l with
    | nil => exact .nil
    | cons a l ih => exact fits_append.mpr ⟨_, _, rfl, F.fits a, ih⟩
  injective {l l'} hshape htext := by
    induction l generalizing l' with
    | nil => exact (map_eq_nil_iff.mp hshape.symm).symm
    | cons a l ih =>
      cases l' with
      | nil => cases hshape
      | cons b l' =>
        obtain ⟨hhead, htail⟩ := cons.inj hshape
        have hlength : (F.text a).length = (F.text b).length := by
          rw [length_text, length_text, hhead]
        obtain ⟨htext₁, htext₂⟩ := append_inj htext hlength
        rw [F.injective hhead htext₁, ih htail htext₂]
  reached {l t} h := by
    induction l generalizing t with
    | nil =>
      cases h
      exact ⟨[], rfl, rfl⟩
    | cons a l ih =>
      obtain ⟨u, u', rfl, hu, hu'⟩ := fits_append.mp h
      obtain ⟨b, hb, rfl⟩ := F.reached hu
      obtain ⟨l', hl', rfl⟩ := ih hu'
      exact ⟨b :: l', congrArg₂ cons hb hl', rfl⟩

end Format

/-! ## What a text tells -/

/-- Whatever stands in the fields of two records that are laid out as `x` and `y`: the texts
differ when the contents do. -/
def Tells (layout : ρ → σ) (content : ρ → γ) (text : ρ → β) (x y : ρ) : Prop :=
  ∀ x' y', layout x' = layout x → layout y' = layout y → content x' ≠ content y' →
    text x' ≠ text y'

theorem Format.tells_iff [Inhabited ι] (F : Format ι α σ) {of : ρ → α} {content : ρ → γ}
    {text : ρ → β} {encode : List ι → β} (hencode : Function.Injective encode)
    (htext : ∀ x, text x = encode (F.text (of x)))
    (hclosed : ∀ x a, F.shape a = F.shape (of x) → ∃ x', of x' = a)
    (hcontent : ∀ x y, of x = of y → content x = content y)
    (hshape : ∀ x y, content x = content y → (F.mask (F.shape (of x))).length =
      (F.mask (F.shape (of y))).length → F.shape (of x) = F.shape (of y)) (x y : ρ) :
    Tells (fun x => F.shape (of x)) content text x y ↔ F.shape (of x) = F.shape (of y) ∨
      ¬ Meet (F.mask (F.shape (of x))) (F.mask (F.shape (of y))) := by
  constructor
  · intro htells
    by_contra hcon
    obtain ⟨hne, hmeet⟩ := not_or.mp hcon
    rw [not_not] at hmeet
    obtain ⟨t, ht, ht'⟩ := hmeet.exists_fits
    obtain ⟨a, ha, rfl⟩ := F.reached ht
    obtain ⟨b, hb, hb'⟩ := F.reached ht'
    obtain ⟨x', rfl⟩ := hclosed x a ha
    obtain ⟨y', rfl⟩ := hclosed y b hb
    refine htells x' y' ha hb (fun heq => hne ?_) ?_
    · rw [← ha, ← hb]
      exact hshape x' y' heq (by rw [← F.length_text, ← F.length_text, hb'])
    · rw [htext, htext, hb']
  · rintro (hsame | hapart) x' y' hx hy hne heq
    all_goals rw [htext, htext, hencode.eq_iff] at heq
    · exact hne (hcontent x' y' (F.injective (hx.trans (hsame.trans hy.symm)) heq))
    · have hfits := F.fits (of y')
      rw [← heq, show F.shape (of y') = _ from hy] at hfits
      have hfits' := F.fits (of x')
      rw [show F.shape (of x') = _ from hx] at hfits'
      exact hapart (hfits'.meet hfits)

end FlatText
