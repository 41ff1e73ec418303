import Mathlib.Data.List.Basic

/-! # Runs of a system whose steps can fail

A step takes a state and an action to the next state, or fails. What a step
keeps under a condition on the state and the action, a run keeps whose steps
all meet the condition (`run_invariant`). When a step that misses the condition
shows it at once, the runs that keep the property throughout are exactly those
(`always_iff_meets`). -/
namespace KajijOSta.Runs

variable {S A F : Type*} (step : S → A → Except F S)

/-- Take the actions in order, until one fails. -/
def run : S → List A → Except F S
  | s, [] => .ok s
  | s, a :: as =>
    match step s a with
    | .ok s' => run s' as
    | .error f => .error f

/-- Each action meets the condition in the state it is taken in. -/
def Meets (ok : S → A → Prop) : S → List A → Prop
  | _, [] => True
  | s, a :: as => ok s a ∧ ∀ s', step s a = .ok s' → Meets ok s' as

/-- The actions run to the end, with `P` in every state on the way. -/
def Always (P : S → Prop) : S → List A → Prop
  | s, [] => P s
  | s, a :: as => P s ∧ ∃ s', step s a = .ok s' ∧ Always P s' as

/-- `P` in every state the actions reach, also when one of them fails. -/
def Throughout (P : S → Prop) : S → List A → Prop
  | s, [] => P s
  | s, a :: as => P s ∧ ∀ s', step s a = .ok s' → Throughout P s' as

variable {step} {pre ok : S → A → Prop} {I P : S → Prop} {s s' : S} {a : A} {as : List A}

/-- A computation in front of others: both return. -/
theorem bind_eq_ok {A B : Type} {x : Except F A} {f : A → Except F B} {b : B} :
    x >>= f = .ok b ↔ ∃ a, x = .ok a ∧ f a = .ok b := by
  cases x with
  | error e => simp [bind, Except.bind]
  | ok a => simp [bind, Except.bind]

theorem run_cons (h : step s a = .ok s') : run step s (a :: as) = run step s' as := by
  simp only [run, h]

theorem run_append {bs : List A} (h : run step s as = .ok s') :
    run step s (as ++ bs) = run step s' bs := by
  induction as generalizing s with
  | nil =>
    cases h
    rfl
  | cons a as ih =>
    cases ha : step s a with
    | error f => simp [run, ha] at h
    | ok t =>
      rw [run_cons ha] at h
      rw [List.cons_append, run_cons ha]
      exact ih h

theorem Meets.append {bs : List A} (h : Meets step ok s as)
    (h' : ∀ s', run step s as = .ok s' → Meets step ok s' bs) : Meets step ok s (as ++ bs) := by
  induction as generalizing s with
  | nil => exact h' s rfl
  | cons a as ih =>
    refine ⟨h.1, fun t ht => ih (h.2 t ht) fun s' hs' => h' s' ?_⟩
    rw [run_cons ht, hs']

theorem Always.head (h : Always step P s as) : P s := by
  cases as with
  | nil => exact h
  | cons a as => exact h.1

theorem Always.run (h : Always step P s as) : ∃ s', run step s as = .ok s' ∧ P s' := by
  induction as generalizing s with
  | nil => exact ⟨s, rfl, h⟩
  | cons a as ih =>
    obtain ⟨_, s', hs', h'⟩ := h
    rw [run_cons hs']
    exact ih h'

theorem Always.mono {Q : S → Prop} (h : Always step P s as) (hPQ : ∀ s, P s → Q s) :
    Always step Q s as := by
  induction as generalizing s with
  | nil => exact hPQ s h
  | cons a as ih =>
    obtain ⟨hP, s', hs', h'⟩ := h
    exact ⟨hPQ s hP, s', hs', ih h'⟩

theorem meets_true : Meets step (fun _ _ => True) s as := by
  induction as generalizing s with
  | nil => trivial
  | cons a as ih => exact ⟨trivial, fun t _ => ih⟩

theorem Meets.mono {ok' : S → A → Prop} (h : Meets step ok s as) (hok : ∀ s a, ok s a → ok' s a) :
    Meets step ok' s as := by
  induction as generalizing s with
  | nil => trivial
  | cons a as ih => exact ⟨hok s a h.1, fun t ht => ih (h.2 t ht)⟩

theorem Meets.and (h : Meets step pre s as) (h' : Meets step ok s as) :
    Meets step (fun s a => pre s a ∧ ok s a) s as := by
  induction as generalizing s with
  | nil => trivial
  | cons a as ih => exact ⟨⟨h.1, h'.1⟩, fun t ht => ih (h.2 t ht) (h'.2 t ht)⟩

/-- Two conditions that agree under an invariant single out the same runs. -/
theorem meets_iff {R : S → A → Prop}
    (hI : ∀ s a s', I s → ok s a → step s a = .ok s' → I s')
    (h : ∀ s a, I s → (R s a ↔ ok s a)) (hs : I s) : Meets step R s as ↔ Meets step ok s as := by
  induction as generalizing s with
  | nil => exact Iff.rfl
  | cons a as ih =>
    unfold Meets
    rw [h s a hs]
    exact and_congr_right fun hok => forall₂_congr fun t ht => ih (hI s a t hs hok ht)

/-- **The invariant rule.** A step under the condition returns and keeps the
invariant; so does a run, in every state on the way. -/
theorem always_of_meets (hstep : ∀ s a, I s → ok s a → ∃ s', step s a = .ok s' ∧ I s')
    (hs : I s) (hm : Meets step ok s as) : Always step I s as := by
  induction as generalizing s with
  | nil => exact hs
  | cons a as ih =>
    obtain ⟨t, ht, hI⟩ := hstep s a hs hm.1
    exact ⟨hs, t, ht, ih hI (hm.2 t ht)⟩

theorem run_invariant (hstep : ∀ s a, I s → ok s a → ∃ s', step s a = .ok s' ∧ I s')
    (hs : I s) (hm : Meets step ok s as) : ∃ s', run step s as = .ok s' ∧ I s' :=
  (always_of_meets hstep hs hm).run

/-- What no step breaks holds after a run that got to its end. -/
theorem of_run (hstep : ∀ s a s', I s → ok s a → step s a = .ok s' → I s') (hs : I s)
    (hm : Meets step ok s as) (h : run step s as = .ok s') : I s' := by
  induction as generalizing s with
  | nil => cases h; exact hs
  | cons a as ih =>
    cases ha : step s a with
    | error f => simp [run, ha] at h
    | ok t =>
      rw [run_cons ha] at h
      exact ih (hstep s a t hs hm.1 ha) (hm.2 t ha) h

/-- **The exact condition on runs.** Among the runs whose steps meet `pre`, the
ones that keep `P` throughout and whose steps meet `R` are those whose steps
meet `ok`, when a step that meets it meets `R` and keeps an invariant under `P`,
and one that misses it fails, or misses `R`, or loses `P`. -/
theorem always_iff_meets {R : S → A → Prop} (hI : ∀ s, I s → P s)
    (hgood : ∀ s a, I s → pre s a → ok s a → R s a ∧ ∃ s', step s a = .ok s' ∧ I s')
    (hbad : ∀ s a s', I s → pre s a → ¬ ok s a → R s a → step s a = .ok s' → ¬ P s')
    (hs : I s) (hpre : Meets step pre s as) :
    (Always step P s as ∧ Meets step R s as) ↔ Meets step ok s as := by
  induction as generalizing s with
  | nil => exact ⟨fun _ => trivial, fun _ => ⟨hI s hs, trivial⟩⟩
  | cons a as ih =>
    by_cases hok : ok s a
    · obtain ⟨hR, t, ht, hIt⟩ := hgood s a hs hpre.1 hok
      have hrest := ih hIt (hpre.2 t ht)
      constructor
      · intro hx
        obtain ⟨⟨_, s', hs', h'⟩, _, hR'⟩ := hx
        cases ht.symm.trans hs'
        refine ⟨hok, fun u hu => ?_⟩
        cases ht.symm.trans hu
        exact hrest.mp ⟨h', hR' t ht⟩
      · intro hx
        obtain ⟨_, h'⟩ := hx
        obtain ⟨hP, hR'⟩ := hrest.mpr (h' t ht)
        refine ⟨⟨hI s hs, t, ht, hP⟩, hR, fun u hu => ?_⟩
        cases ht.symm.trans hu
        exact hR'
    · constructor
      · intro hx
        obtain ⟨⟨_, s', hs', h'⟩, hR, _⟩ := hx
        exact absurd h'.head (hbad s a s' hs hpre.1 hok hR hs')
      · exact fun h => absurd h.1 hok

/-- The same for what is to hold in the states a run reaches, whether it ends or not. -/
theorem throughout_iff_meets {R : S → A → Prop} (hI : ∀ s, I s → P s)
    (hgood : ∀ s a, I s → ok s a → R s a ∧ ∀ s', step s a = .ok s' → I s')
    (hbad : ∀ s a, I s → ¬ ok s a → R s a → ∃ s', step s a = .ok s' ∧ ¬ P s') (hs : I s) :
    (Throughout step P s as ∧ Meets step R s as) ↔ Meets step ok s as := by
  induction as generalizing s with
  | nil => exact ⟨fun _ => trivial, fun _ => ⟨hI s hs, trivial⟩⟩
  | cons a as ih =>
    constructor
    · intro hx
      obtain ⟨⟨_, hP⟩, hR, hrest⟩ := hx
      by_cases hok : ok s a
      · have hkeep := (hgood s a hs hok).2
        exact ⟨hok, fun t ht => (ih (hkeep t ht)).mp ⟨hP t ht, hrest t ht⟩⟩
      · obtain ⟨t, ht, hlost⟩ := hbad s a hs hok hR
        have hPt : P t := by
          cases as with
          | nil => exact hP t ht
          | cons b as => exact (hP t ht).1
        exact absurd hPt hlost
    · intro hx
      obtain ⟨hok, hrest⟩ := hx
      obtain ⟨hR, hkeep⟩ := hgood s a hs hok
      have hboth := fun t ht => (ih (hkeep t ht)).mpr (hrest t ht)
      exact ⟨⟨hI s hs, fun t ht => (hboth t ht).1⟩, hR, fun t ht => (hboth t ht).2⟩

end KajijOSta.Runs
