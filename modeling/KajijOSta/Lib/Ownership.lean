import Mathlib.Data.Finset.Card
import Mathlib.Data.Fintype.Card

/-! # Resources with one owner each

Owners hold at most one resource, and a flag per resource says whether it is
taken. `Exclusive` relates the two: a resource is taken exactly when it is held
or set aside, and nobody shares. An owner that takes a free resource keeps this
exactly when it held none (`acquire_iff`), and one that gives a taken resource
back, exactly when it is the one it held (`release_iff`). -/
namespace KajijOSta.Ownership

variable {V F : Type*} [DecidableEq V] [DecidableEq F]
  {holds : V → Option F} {taken : F → Bool} {aside : F → Prop} {v : V} {f : F}

/-- Every resource is free, set aside, or held by one owner. -/
structure Exclusive (holds : V → Option F) (taken : F → Bool) (aside : F → Prop) : Prop where
  held_taken : ∀ v f, holds v = some f → taken f = true
  unique : ∀ v w f, holds v = some f → holds w = some f → v = w
  aside_taken : ∀ f, aside f → taken f = true
  aside_not_held : ∀ v f, holds v = some f → ¬ aside f
  taken_held : ∀ f, taken f = true → ¬ aside f → ∃ v, holds v = some f

omit [DecidableEq F] in
/-- Who holds a resource once the holding of `v` is replaced. -/
theorem update_eq_some {o : Option F} {w : V} {g : F} :
    Function.update holds v o w = some g ↔
      (w = v ∧ o = some g) ∨ (w ≠ v ∧ holds w = some g) := by
  by_cases hw : w = v
  · subst hw
    simp
  · rw [Function.update_of_ne hw]
    simp [hw]

namespace Exclusive

theorem acquire (h : Exclusive holds taken aside) (hv : holds v = none) (hf : taken f = false) :
    Exclusive (Function.update holds v (some f)) (Function.update taken f true) aside := by
  -- what is held afterwards is the new resource, or another one held before
  have hheld : ∀ w g, Function.update holds v (some f) w = some g →
      (w = v ∧ g = f) ∨ (holds w = some g ∧ g ≠ f) := by
    intro w g hg
    rcases update_eq_some.mp hg with ⟨hw, ho⟩ | ⟨_, hg⟩
    · exact Or.inl ⟨hw, (Option.some.inj ho).symm⟩
    · refine Or.inr ⟨hg, ?_⟩
      intro he
      rw [← he, h.held_taken w g hg] at hf
      cases hf
  refine ⟨?_, ?_, ?_, ?_, ?_⟩
  · intro w g hg
    rcases hheld w g hg with ⟨_, hgf⟩ | ⟨hg, hgf⟩
    · rw [hgf, Function.update_self]
    · rw [Function.update_of_ne hgf]
      exact h.held_taken w g hg
  · intro w w' g hg hg'
    rcases hheld w g hg with ⟨hw, hgf⟩ | ⟨hg, hgf⟩
    · rcases hheld w' g hg' with ⟨hw', _⟩ | ⟨_, hne⟩
      · rw [hw, hw']
      · exact absurd hgf hne
    · rcases hheld w' g hg' with ⟨_, he⟩ | ⟨hg', _⟩
      · exact absurd he hgf
      · exact h.unique w w' g hg hg'
  · intro g hg
    by_cases hgf : g = f
    · rw [hgf, Function.update_self]
    · rw [Function.update_of_ne hgf]
      exact h.aside_taken g hg
  · intro w g hg ha
    rcases hheld w g hg with ⟨_, hgf⟩ | ⟨hg, _⟩
    · rw [← hgf, h.aside_taken g ha] at hf
      cases hf
    · exact h.aside_not_held w g hg ha
  · intro g hg ha
    by_cases hgf : g = f
    · exact ⟨v, by rw [hgf, Function.update_self]⟩
    · rw [Function.update_of_ne hgf] at hg
      obtain ⟨w, hw⟩ := h.taken_held g hg ha
      refine ⟨w, update_eq_some.mpr (Or.inr ⟨?_, hw⟩)⟩
      intro he
      rw [he, hv] at hw
      cases hw

theorem release (h : Exclusive holds taken aside) (hv : holds v = some f) :
    Exclusive (Function.update holds v none) (Function.update taken f false) aside := by
  -- what is held afterwards is held by another owner, so it is another resource
  have hrest : ∀ w g, Function.update holds v none w = some g → holds w = some g ∧ g ≠ f := by
    intro w g hg
    rcases update_eq_some.mp hg with ⟨_, ho⟩ | ⟨hw, hg⟩
    · cases ho
    · refine ⟨hg, ?_⟩
      intro he
      subst he
      exact hw (h.unique w v g hg hv)
  refine ⟨?_, ?_, ?_, ?_, ?_⟩
  · intro w g hg
    obtain ⟨hg, hgf⟩ := hrest w g hg
    rw [Function.update_of_ne hgf]
    exact h.held_taken w g hg
  · intro w w' g hg hg'
    exact h.unique w w' g (hrest w g hg).1 (hrest w' g hg').1
  · intro g hg
    rw [Function.update_of_ne]
    · exact h.aside_taken g hg
    · intro he
      subst he
      exact h.aside_not_held v g hv hg
  · exact fun w g hg => h.aside_not_held w g (hrest w g hg).1
  · intro g hg ha
    have hgf : g ≠ f := by
      intro he
      subst he
      rw [Function.update_self] at hg
      cases hg
    rw [Function.update_of_ne hgf] at hg
    obtain ⟨w, hw⟩ := h.taken_held g hg ha
    refine ⟨w, update_eq_some.mpr (Or.inr ⟨?_, hw⟩)⟩
    intro he
    subst he
    exact hgf (Option.some.inj (hw.symm.trans hv))

/-- Taking a second resource would leave the first taken and held by nobody. -/
theorem acquire_iff (h : Exclusive holds taken aside) (hf : taken f = false) :
    Exclusive (Function.update holds v (some f)) (Function.update taken f true) aside ↔
      holds v = none := by
  refine ⟨fun h' => ?_, fun hv => h.acquire hv hf⟩
  cases hv : holds v with
  | none => rfl
  | some g =>
    have hg := h.held_taken v g hv
    have hgf : g ≠ f := by
      intro he
      subst he
      rw [hf] at hg
      cases hg
    obtain ⟨w, hw⟩ := h'.taken_held g (by rwa [Function.update_of_ne hgf])
      (h.aside_not_held v g hv)
    rcases update_eq_some.mp hw with ⟨_, ho⟩ | ⟨hwv, hw⟩
    · exact absurd (Option.some.inj ho).symm hgf
    · exact absurd (h.unique w v g hw hv) hwv

/-- Giving back what another owner holds, or what is set aside, would free it
under them. -/
theorem release_iff (h : Exclusive holds taken aside) (hf : taken f = true) :
    Exclusive (Function.update holds v none) (Function.update taken f false) aside ↔
      holds v = some f := by
  refine ⟨fun h' => ?_, h.release⟩
  have hna : ¬ aside f := fun ha => by
    have := h'.aside_taken f ha
    rw [Function.update_self] at this
    cases this
  obtain ⟨w, hw⟩ := h.taken_held f hf hna
  by_cases hwv : w = v
  · rw [← hwv, hw]
  · have := h'.held_taken w f (by rwa [Function.update_of_ne hwv])
    rw [Function.update_self] at this
    cases this

end Exclusive

/-! ## Counting the free resources -/

section Count
variable [Fintype F]

def freeCount (taken : F → Bool) : Nat := (Finset.univ.filter fun f => taken f = false).card

omit [DecidableEq F] in
theorem freeCount_le (taken : F → Bool) : freeCount taken ≤ Fintype.card F :=
  Finset.card_filter_le _ _

theorem freeCount_acquire (hf : taken f = false) :
    freeCount (Function.update taken f true) + 1 = freeCount taken := by
  have hmem : f ∈ Finset.univ.filter fun g => taken g = false :=
    Finset.mem_filter.mpr ⟨Finset.mem_univ f, hf⟩
  have herase : (Finset.univ.filter fun g => Function.update taken f true g = false) =
      (Finset.univ.filter fun g => taken g = false).erase f := by
    ext g
    by_cases hg : g = f <;> simp [hg]
  unfold freeCount
  rw [herase, Finset.card_erase_add_one hmem]

theorem freeCount_release (hf : taken f = true) :
    freeCount (Function.update taken f false) = freeCount taken + 1 := by
  have h := @freeCount_acquire F _ (Function.update taken f false) f _ (Function.update_self ..)
  rw [Function.update_idem, ← hf, Function.update_eq_self] at h
  exact h.symm

end Count

end KajijOSta.Ownership
