import KajijOSta.Lib.Runs

/-! # Two runs side by side

Two systems take actions of one kind, some of them silent. A silent action of either side
never fails and keeps the two related; the others are matched one against one. Then runs
with as many actions that are not silent end in related states, or on the same failure,
wherever the silent ones stand (`lockstep`). -/
namespace KajijOSta.Lockstep
open KajijOSta.Runs

/-! ## Results side by side -/

/-- Two computations both return, with related results, or fail alike. -/
inductive Matches {F A B : Type*} (R : A → B → Prop) : Except F A → Except F B → Prop
  | ok {a : A} {b : B} (h : R a b) : Matches R (.ok a) (.ok b)
  | error (f : F) : Matches R (.error f) (.error f)

namespace Matches
variable {F A B A' B' : Type*} {R : A → B → Prop} {Q : A' → B' → Prop} {x : Except F A}
  {y : Except F B}

theorem map {f : A → A'} {g : B → B'} (h : Matches R x y) (hfg : ∀ a b, R a b → Q (f a) (g b)) :
    Matches Q (x.map f) (y.map g) := by
  cases h with
  | ok h => exact .ok (hfg _ _ h)
  | error f => exact .error f

theorem mono {R' : A → B → Prop} (h : Matches R x y) (hR : ∀ a b, R a b → R' a b) :
    Matches R' x y := by
  cases h with
  | ok h => exact .ok (hR _ _ h)
  | error f => exact .error f

/-- What is known of each result besides. -/
theorem strengthen {P : A → Prop} {P' : B → Prop} (h : Matches R x y)
    (hx : ∀ a, x = .ok a → P a) (hy : ∀ b, y = .ok b → P' b) :
    Matches (fun a b => R a b ∧ P a ∧ P' b) x y := by
  cases h with
  | ok h => exact .ok ⟨h, hx _ rfl, hy _ rfl⟩
  | error f => exact .error f

/-- Errors renamed on both sides. -/
theorem mapError {G : Type*} (h : Matches R x y) (f : F → G) :
    Matches R (x.mapError f) (y.mapError f) := by
  cases h with
  | ok h => exact .ok h
  | error e => exact .error (f e)

/-- Two computations that match two that match. -/
theorem transport {x' : Except F A'} {y' : Except F B'} {P : A → A' → Prop} {P' : B → B' → Prop}
    (h : Matches R x y) (hx : Matches P x x') (hy : Matches P' y y') :
    Matches (fun a' b' => ∃ a b, R a b ∧ P a a' ∧ P' b b') x' y' := by
  cases h with
  | ok h =>
    cases hx with
    | ok hx =>
      cases hy with
      | ok hy => exact .ok ⟨_, _, h, hx, hy⟩
  | error f =>
    cases hx with
    | error =>
      cases hy with
      | error => exact .error f

theorem of_ok {a : A} (h : Matches R x y) (hx : x = .ok a) : ∃ b, y = .ok b ∧ R a b := by
  cases h with
  | ok h =>
    cases hx
    exact ⟨_, rfl, h⟩
  | error f => cases hx

end Matches

/-! ## Runs side by side -/

section Lockstep
variable {S T A F : Type*} {step : S → A → Except F S} {step' : T → A → Except F T}
  {visible : A → Bool} {R : S → T → Prop} {s : S} {t : T} {as bs : List A}

/-- Silent actions in front of a run of the one side. -/
theorem run_silent (hright : ∀ s t a, R s t → visible a = false → ∃ t', step' t a = .ok t' ∧ R s t')
    (hR : R s t) (hb : bs.countP visible = 0) : ∃ t', run step' t bs = .ok t' ∧ R s t' := by
  induction bs generalizing t with
  | nil => exact ⟨t, rfl, hR⟩
  | cons b bs ih =>
    obtain ⟨hsilent, hrest⟩ : visible b = false ∧ bs.countP visible = 0 := by
      cases hv : visible b with
      | true => simp [hv] at hb
      | false => simpa [hv] using hb
    obtain ⟨t', ht, hR'⟩ := hright s t b hR hsilent
    rw [run_cons ht]
    exact ih hR' hrest

/-- The first action of a run that is not silent, with the silent ones in front of it. -/
theorem countP_split {n : Nat} (hb : bs.countP visible = n + 1) :
    ∃ before b after, bs = before ++ b :: after ∧ before.countP visible = 0 ∧
      visible b = true ∧ after.countP visible = n := by
  induction bs with
  | nil => simp at hb
  | cons b bs ih =>
    cases hv : visible b with
    | true => exact ⟨[], b, bs, rfl, rfl, hv, by simpa [hv] using hb⟩
    | false =>
      obtain ⟨before, c, after, rfl, h0, hc, hn⟩ := ih (by simpa [hv] using hb)
      exact ⟨b :: before, c, after, rfl, by simp [hv, h0], hc, hn⟩

/-- **Runs in lockstep.** -/
theorem lockstep
    (hleft : ∀ s t a, R s t → visible a = false → ∃ s', step s a = .ok s' ∧ R s' t)
    (hright : ∀ s t a, R s t → visible a = false → ∃ t', step' t a = .ok t' ∧ R s t')
    (hboth : ∀ s t a b, R s t → visible a = true → visible b = true →
      Matches R (step s a) (step' t b))
    (hR : R s t) (hcount : as.countP visible = bs.countP visible) :
    Matches R (run step s as) (run step' t bs) := by
  induction as generalizing s t bs with
  | nil =>
    obtain ⟨t', ht, hR'⟩ := run_silent hright hR hcount.symm
    rw [ht]
    exact .ok hR'
  | cons a as ih =>
    cases hv : visible a with
    | false =>
      obtain ⟨s', hs, hR'⟩ := hleft s t a hR hv
      rw [run_cons hs]
      exact ih hR' (by simpa [hv] using hcount)
    | true =>
      have hn : bs.countP visible = as.countP visible + 1 := by
        rw [← hcount, List.countP_cons_of_pos hv]
      obtain ⟨before, b, after, rfl, h0, hb, hn'⟩ := countP_split hn
      obtain ⟨t', ht, hR'⟩ := run_silent hright hR h0
      rw [run_append ht]
      have hstep := hboth s t' a b hR' hv hb
      generalize hx : step s a = x at hstep
      generalize hy : step' t' b = y at hstep
      cases hstep with
      | ok h =>
        rw [run_cons hx, run_cons hy]
        exact ih h hn'.symm
      | error f =>
        simp only [run, hx, hy]
        exact .error f

end Lockstep

end KajijOSta.Lockstep
