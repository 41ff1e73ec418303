import Mathlib.Data.List.Basic
import Mathlib.Logic.Function.Basic
import KajijOSta.Lib.Program

/-! # Code on a flat memory

A flat memory holds a value at every address, and keeps a record of the addresses that
loads and stores have touched. A block is copied by moves of one cell: where no move
writes what a later one reads or writes, the order does not show (`moves_of_ordered`),
and a loop that makes them ends in that memory (`moveLoop_ends`). -/
namespace KajijOSta.FlatMemory
open KajijOSta.Program

/-- A memory, and the addresses touched so far, the last one first. -/
structure Flat (α β : Type) where
  cell : α → β
  touched : List α

variable {α β A L : Type} {P Q : α → Prop}

/-- Between the two only addresses in `P` have been touched. -/
def Touches (P : α → Prop) (m m' : Flat α β) : Prop :=
  ∃ accesses, m'.touched = accesses ++ m.touched ∧ ∀ a ∈ accesses, P a

theorem Touches.refl (m : Flat α β) : Touches P m m := ⟨[], rfl, nofun⟩

theorem Touches.trans {m m' m'' : Flat α β} (h : Touches P m m') (h' : Touches P m' m'') :
    Touches P m m'' := by
  obtain ⟨as, hm, has⟩ := h
  obtain ⟨bs, hm', hbs⟩ := h'
  refine ⟨bs ++ as, ?_, fun a ha => ?_⟩
  · rw [hm', hm, List.append_assoc]
  · rcases List.mem_append.mp ha with hb | ha
    · exact hbs a hb
    · exact has a ha

theorem Touches.mono {m m' : Flat α β} (h : Touches P m m') (hpq : ∀ a, P a → Q a) :
    Touches Q m m' := by
  obtain ⟨as, hm, has⟩ := h
  exact ⟨as, hm, fun a ha => hpq a (has a ha)⟩

/-- Nothing is stored, and only addresses in `P` have been touched. -/
def Reads (P : α → Prop) (m m' : Flat α β) : Prop := m'.cell = m.cell ∧ Touches P m m'

theorem Reads.refl (m : Flat α β) : Reads P m m := ⟨rfl, Touches.refl m⟩

theorem Reads.trans {m m' m'' : Flat α β} (h : Reads P m m') (h' : Reads P m' m'') :
    Reads P m m'' := ⟨h'.1.trans h.1, h.2.trans h'.2⟩

/-! ## Loads and stores -/

section Access
variable [DecidableEq α]

/-- `*a`. -/
def load (a : α) : Prog (Flat α β) β := Prog.step fun m =>
  (m.cell a, { m with touched := a :: m.touched })

/-- `*a = v`. -/
def store (a : α) (v : β) : Prog (Flat α β) Unit := Prog.step fun m =>
  ((), ⟨Function.update m.cell a v, a :: m.touched⟩)

variable {m : Flat α β} {a : α}

omit [DecidableEq α] in
theorem load_ends (h : P a) : Ends (load a) m fun v m' =>
    v = m.cell a ∧ Reads P m m' :=
  Ends.step ⟨rfl, rfl, [a], rfl, fun _ hb => List.mem_singleton.mp hb ▸ h⟩

theorem store_ends (h : P a) (v : β) : Ends (store a v) m fun _ m' =>
    m'.cell = Function.update m.cell a v ∧ Touches P m m' :=
  Ends.step ⟨rfl, [a], rfl, fun _ hb => List.mem_singleton.mp hb ▸ h⟩

/-! ## Moves -/

/-- What a move, `*x.1 = *x.2`, makes of the cells. -/
def move (c : α → β) (x : α × α) : α → β := Function.update c x.1 (c x.2)

def moves (c : α → β) (l : List (α × α)) : α → β := l.foldl move c

/-- No move reads or writes where an earlier one has written. -/
def Ordered (l : List (α × α)) : Prop := l.Pairwise fun x y => y.1 ≠ x.1 ∧ y.2 ≠ x.1

theorem moves_frame {l : List (α × α)} {a : α} (h : ∀ x ∈ l, a ≠ x.1) (c : α → β) :
    moves c l a = c a := by
  induction l generalizing c with
  | nil => rfl
  | cons x l ih =>
    have hrest := ih (fun y hy => h y (List.mem_cons_of_mem x hy)) (move c x)
    exact hrest.trans (Function.update_of_ne (h x List.mem_cons_self) _ _)

/-- Moves in such an order do what all of them would at once. -/
theorem moves_of_ordered {l : List (α × α)} (h : Ordered l) (c : α → β) :
    ∀ x ∈ l, moves c l x.1 = c x.2 := by
  induction l generalizing c with
  | nil => nofun
  | cons y l ih =>
    obtain ⟨hy, hl⟩ := List.pairwise_cons.mp h
    intro x hx
    rcases List.mem_cons.mp hx with rfl | hx
    · have hlast := moves_frame (fun z hz => (hy z hz).1.symm) (move c x)
      exact hlast.trans (Function.update_self _ _ _)
    · have hrest := ih hl (move c y) x hx
      exact hrest.trans (Function.update_of_ne (hy x hx).2 _ _)

/-- A round of a loop that makes a move. -/
def moveRound (x : α × α) (l : L) : Prog (Flat α β) (L ⊕ A) := do
  let v ← load x.2
  store x.1 v
  return .inl l

theorem moveRound_ends (x : α × α) (l : L) : Ends (moveRound (A := A) x l) m fun y m' =>
    y = .inl l ∧ m'.cell = move m.cell x ∧ Touches (fun a => a = x.1 ∨ a = x.2) m m' := by
  refine (load_ends (P := fun a => a = x.1 ∨ a = x.2) (Or.inr rfl)).bind fun v m₁ hload => ?_
  obtain ⟨rfl, hcell, htouch⟩ := hload
  refine (store_ends (P := fun a => a = x.1 ∨ a = x.2) (Or.inl rfl) _).bind
    fun _ m₂ hstore => Ends.pure ?_
  obtain ⟨hcell', htouch'⟩ := hstore
  refine ⟨rfl, ?_, htouch.trans htouch'⟩
  rw [hcell', hcell]
  rfl

/-- A loop each of whose rounds makes the next of the moves left. -/
theorem moveLoop_ends {body : L → Prog (Flat α β) (L ⊕ A)} (left : L → List (α × α))
    (hdone : ∀ l, left l = [] → ∃ a, body l = pure (.inr a))
    (hnext : ∀ l x xs, left l = x :: xs → ∃ l', left l' = xs ∧ body l = moveRound x l')
    (l : L) : Ends (Prog.loop body l) m fun _ m' => m'.cell = moves m.cell (left l) ∧
      Touches (fun a => ∃ x ∈ left l, a = x.1 ∨ a = x.2) m m' := by
  -- the moves still to be made lead to the same memory in every round
  refine Ends.loop (fun k l₁ m₁ => k = (left l₁).length ∧
    moves m₁.cell (left l₁) = moves m.cell (left l) ∧ left l₁ ⊆ left l ∧
    Touches (fun a => ∃ x ∈ left l, a = x.1 ∨ a = x.2) m m₁) (fun k l₁ m₁ hinv => ?_)
    ⟨rfl, rfl, List.Subset.refl _, Touches.refl m⟩
  obtain ⟨rfl, hmoves, hsub, htouch⟩ := hinv
  cases hleft : left l₁ with
  | nil =>
    obtain ⟨a, hbody⟩ := hdone l₁ hleft
    rw [hbody]
    refine Ends.pure (Or.inr ⟨a, rfl, ?_, htouch⟩)
    rw [← hmoves, hleft]
    rfl
  | cons x xs =>
    obtain ⟨l₂, hl₂, hbody⟩ := hnext l₁ x xs hleft
    rw [hbody]
    refine (moveRound_ends x l₂).mono fun y m₂ hround => Or.inl ?_
    obtain ⟨rfl, hcell, htouch'⟩ := hround
    have hx : x ∈ left l := hsub (hleft ▸ List.mem_cons_self)
    refine ⟨l₂, (left l₂).length, rfl, ?_, rfl, ?_, ?_, ?_⟩
    · rw [hl₂]
      exact Nat.lt_succ_self _
    · rw [← hmoves, hleft, hl₂, hcell]
      rfl
    · rw [hl₂]
      exact fun z hz => hsub (hleft ▸ List.mem_cons_of_mem x hz)
    · exact htouch.trans (htouch'.mono fun a ha => ⟨x, hx, ha⟩)

end Access

end KajijOSta.FlatMemory
