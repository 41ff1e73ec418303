import Mathlib.Order.Basic

/-! # Programs that wait

Code that polls a device in a loop ends when the device makes it end. A program
runs with a bound on the rounds of each of its waits; `Ends p s Q` says that from
the state `s` every bound that is large enough gives one result, and that it
satisfies `Q`. The rules: one step, sequence, counted loop, and a wait or a loop over
local variables whose rounds decrease a measure. `Keeps R p` says of any run that
returns, with whatever bound, that `R` relates where it began and where it ended. -/
namespace KajijOSta.Program

/-- A program over the states `S`: from a bound and a state its value and the state
after it, or nothing when a wait has used up the bound. -/
def Prog (S A : Type) : Type := Nat → S → Option (A × S)

instance (S : Type) : Monad (Prog S) where
  pure a := fun _ s => some (a, s)
  bind p f := fun n s => (p n s).bind fun x => f x.1 n x.2

variable {S A B L : Type}

/-- One step: a value and a new state. -/
def Prog.step (f : S → A × S) : Prog S A := fun _ s => some (f s)

/-- Up to `k` rounds of `while (test);`. -/
def waitFor (test : Prog S Bool) (n : Nat) : Nat → S → Option (Unit × S)
  | 0, _ => none
  | k + 1, s => (test n s).bind fun x =>
    if x.1 then waitFor test n k x.2 else some ((), x.2)

/-- `while (test);` -/
def Prog.wait (test : Prog S Bool) : Prog S Unit := fun n => waitFor test n n

/-- `for (i = 0; i < k; i++) body(i);` -/
def Prog.times (body : Nat → Prog S Unit) : Nat → Prog S Unit
  | 0 => pure ()
  | k + 1 => do
    Prog.times body k
    body k

/-- Up to `k` rounds of a loop over the local variables `l`: a round goes on with new
values, or leaves the loop with a result. -/
def loopFor (body : L → Prog S (L ⊕ A)) (n : Nat) : Nat → L → S → Option (A × S)
  | 0, _, _ => none
  | k + 1, l, s => (body l n s).bind fun x =>
    match x.1 with
    | .inl l' => loopFor body n k l' x.2
    | .inr a => some (a, x.2)

/-- `while (..) { .. }` over local variables. -/
def Prog.loop (body : L → Prog S (L ⊕ A)) (l : L) : Prog S A := fun n => loopFor body n n l

/-- With any bound that is large enough the program has one result, in `Q`. -/
def Ends (p : Prog S A) (s : S) (Q : A → S → Prop) : Prop :=
  ∃ a s', (∃ N, ∀ n, N ≤ n → p n s = some (a, s')) ∧ Q a s'

namespace Ends
variable {p : Prog S A} {f : A → Prog S B} {s : S} {Q Q' : A → S → Prop} {R : B → S → Prop}

theorem pure {a : A} (h : Q a s) : Ends (Pure.pure a : Prog S A) s Q :=
  ⟨a, s, ⟨0, fun _ _ => rfl⟩, h⟩

theorem step {g : S → A × S} (h : Q (g s).1 (g s).2) : Ends (Prog.step g) s Q :=
  ⟨(g s).1, (g s).2, ⟨0, fun _ _ => rfl⟩, h⟩

theorem mono (h : Ends p s Q) (hQ : ∀ a s', Q a s' → Q' a s') : Ends p s Q' := by
  obtain ⟨a, s', hrun, hq⟩ := h
  exact ⟨a, s', hrun, hQ a s' hq⟩

theorem bind (h : Ends p s Q) (hf : ∀ a s', Q a s' → Ends (f a) s' R) : Ends (p >>= f) s R := by
  obtain ⟨a, s', ⟨N, hN⟩, hq⟩ := h
  obtain ⟨b, s'', ⟨N', hN'⟩, hr⟩ := hf a s' hq
  refine ⟨b, s'', ⟨max N N', fun n hn => ?_⟩, hr⟩
  show (p n s).bind (fun x => f x.1 n x.2) = _
  rw [hN n (by omega), Option.bind_some, hN' n (by omega)]

/-- A counted loop keeps an invariant that each round hands on. -/
theorem times {body : Nat → Prog S Unit} (Inv : Nat → S → Prop) {k : Nat}
    (hbody : ∀ i s, i < k → Inv i s → Ends (body i) s fun _ s' => Inv (i + 1) s')
    (h : Inv 0 s) : Ends (Prog.times body k) s fun _ s' => Inv k s' := by
  induction k with
  | zero => exact pure h
  | succ k ih =>
    have hloop := ih fun i s hi hinv => hbody i s (by omega) hinv
    exact hloop.bind fun _ s' hinv => hbody k s' (by omega) hinv

/-- A wait ends when each of its rounds ends, and either leaves it or decreases a
measure. -/
theorem wait {test : Prog S Bool} {P : S → Prop} (Inv : S → Prop) (μ : S → Nat)
    (htest : ∀ s, Inv s → Ends test s fun b s' =>
      (b = true → Inv s' ∧ μ s' < μ s) ∧ (b = false → P s'))
    (h : Inv s) : Ends (Prog.wait test) s fun _ s' => P s' := by
  have hrounds : ∀ (m : Nat) (s : S), μ s < m → Inv s →
      ∃ s', (∃ N, ∀ n k, N ≤ n → N ≤ k → waitFor test n k s = some ((), s')) ∧ P s' := by
    intro m
    induction m with
    | zero => exact fun s hm _ => absurd hm (Nat.not_lt_zero _)
    | succ m ih =>
      intro s hm hinv
      obtain ⟨b, s', ⟨N, hN⟩, htrue, hfalse⟩ := htest s hinv
      cases b with
      | false =>
        refine ⟨s', ⟨N + 1, fun n k hn hk => ?_⟩, hfalse rfl⟩
        cases k with
        | zero => exact absurd hk (by omega)
        | succ k =>
          rw [waitFor, hN n (by omega)]
          rfl
      | true =>
        obtain ⟨hinv', hlt⟩ := htrue rfl
        obtain ⟨s'', ⟨N', hN'⟩, hp⟩ := ih s' (by omega) hinv'
        refine ⟨s'', ⟨max N N' + 1, fun n k hn hk => ?_⟩, hp⟩
        cases k with
        | zero => exact absurd hk (by omega)
        | succ k =>
          rw [waitFor, hN n (by omega), Option.bind_some, if_pos rfl, hN' n k (by omega) (by omega)]
  obtain ⟨s', ⟨N, hN⟩, hp⟩ := hrounds (μ s + 1) s (Nat.lt_succ_self _) h
  exact ⟨(), s', ⟨N, fun n hn => hN n n hn hn⟩, hp⟩

/-- A loop over local variables ends when each of its rounds ends, and either leaves it
or goes on with a smaller index of the invariant. -/
theorem loop {body : L → Prog S (L ⊕ A)} (Inv : Nat → L → S → Prop)
    (hbody : ∀ k l s, Inv k l s → Ends (body l) s fun x s' =>
      (∃ l' k', x = .inl l' ∧ k' < k ∧ Inv k' l' s') ∨ ∃ a, x = .inr a ∧ Q a s')
    {k : Nat} {l : L} (h : Inv k l s) : Ends (Prog.loop body l) s Q := by
  have hrounds : ∀ (k : Nat) (l : L) (s : S), Inv k l s → ∃ a s',
      (∃ N, ∀ n r, N ≤ n → N ≤ r → loopFor body n r l s = some (a, s')) ∧ Q a s' := by
    intro k
    induction k using Nat.strongRecOn with
    | _ k ih =>
      intro l s hinv
      obtain ⟨x, s', ⟨N, hN⟩, hx⟩ := hbody k l s hinv
      rcases hx with ⟨l', k', rfl, hlt, hinv'⟩ | ⟨a, rfl, hq⟩
      · obtain ⟨a, s'', ⟨N', hN'⟩, hq⟩ := ih k' hlt l' s' hinv'
        refine ⟨a, s'', ⟨max N N' + 1, fun n r hn hr => ?_⟩, hq⟩
        cases r with
        | zero => exact absurd hr (by omega)
        | succ r =>
          rw [loopFor, hN n (by omega)]
          exact hN' n r (by omega) (by omega)
      · refine ⟨a, s', ⟨N + 1, fun n r hn hr => ?_⟩, hq⟩
        cases r with
        | zero => exact absurd hr (by omega)
        | succ r =>
          rw [loopFor, hN n (by omega)]
          rfl
  obtain ⟨a, s', ⟨N, hN⟩, hq⟩ := hrounds k l s h
  exact ⟨a, s', ⟨N, fun n hn => hN n n hn hn⟩, hq⟩

end Ends

/-! ## What every run keeps -/

/-- Where a run began and where it returned are related. -/
def Keeps (R : S → S → Prop) (p : Prog S A) : Prop := ∀ n s a s', p n s = some (a, s') → R s s'

namespace Keeps
variable {R : S → S → Prop} {p : Prog S A} {f : A → Prog S B}

theorem step {g : S → A × S} (h : ∀ s, R s (g s).2) : Keeps R (Prog.step g) := by
  intro n s a s' hrun
  obtain rfl : (g s).2 = s' := congrArg Prod.snd (Option.some.inj hrun)
  exact h s

variable [IsPreorder S R]

theorem pure (a : A) : Keeps R (Pure.pure a : Prog S A) := by
  intro n s b s' hrun
  cases hrun
  exact refl_of R s

theorem bind (hp : Keeps R p) (hf : ∀ a, Keeps R (f a)) : Keeps R (p >>= f) := by
  intro n s b s' hrun
  obtain ⟨x, hx, hrun⟩ := Option.bind_eq_some_iff.mp hrun
  exact trans_of R (hp n s x.1 x.2 hx) (hf x.1 n x.2 b s' hrun)

theorem times {body : Nat → Prog S Unit} (h : ∀ i, Keeps R (body i)) (k : Nat) :
    Keeps R (Prog.times body k) := by
  induction k with
  | zero => exact pure ()
  | succ k ih => exact ih.bind fun _ => h k

theorem wait {test : Prog S Bool} (h : Keeps R test) : Keeps R (Prog.wait test) := by
  have hrounds : ∀ n k s a s', waitFor test n k s = some (a, s') → R s s' := by
    intro n k
    induction k with
    | zero =>
      intro s a s' hrun
      cases hrun
    | succ k ih =>
      intro s a s' hrun
      obtain ⟨x, hx, hrun⟩ := Option.bind_eq_some_iff.mp hrun
      have hfirst := h n s x.1 x.2 hx
      split at hrun
      · exact trans_of R hfirst (ih x.2 a s' hrun)
      · cases hrun
        exact hfirst
  exact fun n s a s' hrun => hrounds n n s a s' hrun

end Keeps

end KajijOSta.Program
