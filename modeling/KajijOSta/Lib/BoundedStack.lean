import Mathlib.Logic.Function.Iterate

/-! # A position and a bounded stack of the positions above it

Going on pushes the current position, unless the stack is full, and moves all the
same; going back pops one, unless the stack is empty. Going back as often as one
went on leads as many steps too far as there was no room for (`leave_enterAll`), so
it undoes the way exactly when there was room, or nothing to pop
(`leave_enterAll_eq_iff`). -/
namespace KajijOSta.BoundedStack

/-- The current position, and those above it, the nearest first. -/
structure Position (α : Type*) where
  current : α
  above : List α

variable {α : Type*} (size : Nat)

def enter (p : Position α) (x : α) : Position α :=
  ⟨x, if size ≤ p.above.length then p.above else p.current :: p.above⟩

def leave (p : Position α) : Position α :=
  match p.above with
  | [] => p
  | x :: rest => ⟨x, rest⟩

def enterAll (p : Position α) (xs : List α) : Position α := xs.foldl (enter size) p

section Leave
variable {p q : Position α}

theorem leave_nil (h : p.above = []) : leave p = p := by
  unfold leave
  rw [h]

theorem leave_above : (leave p).above = p.above.drop 1 := by
  unfold leave
  cases h : p.above with
  | nil => exact h
  | cons x rest => rfl

/-- Where there is something to pop, the current position does not matter. -/
theorem leave_congr (h : q.above = p.above) (hne : p.above ≠ []) : leave q = leave p := by
  obtain ⟨x, rest, hp⟩ := List.exists_cons_of_ne_nil hne
  unfold leave
  rw [h, hp]

theorem iterate_leave_above (k : Nat) : (leave^[k] p).above = p.above.drop k := by
  induction k with
  | zero => rfl
  | succ k ih => rw [Function.iterate_succ_apply', leave_above, ih, List.drop_drop]

/-- Only an empty stack is left alone. -/
theorem iterate_leave_eq_iff {k : Nat} : leave^[k] p = p ↔ k = 0 ∨ p.above = [] := by
  constructor
  · intro h
    have hlen := congrArg (fun q => q.above.length) h
    simp only [iterate_leave_above, List.length_drop] at hlen
    rcases Nat.eq_zero_or_pos p.above.length with h0 | hpos
    · exact Or.inr (List.eq_nil_of_length_eq_zero h0)
    · exact Or.inl (by omega)
  · rintro (rfl | hnil)
    · rfl
    · exact Function.iterate_fixed (leave_nil hnil) k

end Leave

section Enter
variable {size} {p : Position α}

theorem enter_room (h : p.above.length < size) (x : α) :
    enter size p x = ⟨x, p.current :: p.above⟩ := by
  unfold enter
  rw [if_neg (Nat.not_le.mpr h)]

theorem enter_full (h : size ≤ p.above.length) (x : α) : enter size p x = ⟨x, p.above⟩ := by
  unfold enter
  rw [if_pos h]

theorem leave_enter (h : p.above.length < size) (x : α) : leave (enter size p x) = p := by
  rw [enter_room h]
  rfl

/-- The stack never holds more than its size. -/
theorem enter_length_le (h : p.above.length ≤ size) (x : α) :
    (enter size p x).above.length ≤ size := by
  rcases Nat.lt_or_ge p.above.length size with hlt | hge
  · rw [enter_room hlt]
    exact hlt
  · rw [enter_full hge]
    exact h

theorem enterAll_full (h : size ≤ p.above.length) (xs : List α) :
    (enterAll size p xs).above = p.above := by
  induction xs generalizing p with
  | nil => rfl
  | cons x xs ih =>
    have hx := enter_full h x
    have hrest := ih (p := enter size p x) (by rw [hx]; exact h)
    rw [hx] at hrest
    unfold enterAll
    rw [List.foldl_cons, hx]
    exact hrest

/-- **Going on and back.** The steps there was no room for are gone back from the
start. -/
theorem leave_enterAll (h : p.above.length ≤ size) (hpos : 0 < size) (xs : List α) :
    leave^[xs.length] (enterAll size p xs) = leave^[p.above.length + xs.length - size] p := by
  induction xs generalizing p with
  | nil =>
    have h0 : p.above.length + ([] : List α).length - size = 0 := Nat.sub_eq_zero_of_le h
    rw [h0]
    rfl
  | cons x xs ih =>
    rcases Nat.lt_or_ge p.above.length size with hlt | hge
    · have hx := ih (p := enter size p x) (by rw [enter_room hlt]; exact hlt)
      have hlen : (enter size p x).above.length = p.above.length + 1 := by
        rw [enter_room hlt]
        rfl
      have hsum : p.above.length + 1 + xs.length - size =
          p.above.length + (x :: xs).length - size := by
        rw [List.length_cons]
        omega
      rw [hlen, hsum] at hx
      rw [List.length_cons, Function.iterate_succ_apply']
      calc leave (leave^[xs.length] (enterAll size p (x :: xs)))
          = leave (leave^[p.above.length + (x :: xs).length - size] (enter size p x)) :=
            congrArg leave hx
        _ = leave^[p.above.length + (x :: xs).length - size] (leave (enter size p x)) := by
            rw [← Function.iterate_succ_apply' leave, Function.iterate_succ_apply]
        _ = leave^[p.above.length + (x :: xs).length - size] p := by rw [leave_enter hlt]
    · -- a full stack: what is popped first is what was on it before
      have hne : p.above ≠ [] := by
        intro hnil
        rw [hnil] at hge
        exact absurd hpos (Nat.not_lt.mpr hge)
      have hsum : p.above.length + (x :: xs).length - size = xs.length + 1 := by
        rw [List.length_cons]
        omega
      rw [hsum, List.length_cons, Function.iterate_succ_apply, Function.iterate_succ_apply,
        leave_congr (enterAll_full hge (x :: xs)) hne]

/-- **When going back undoes the way.** -/
theorem leave_enterAll_eq_iff (h : p.above.length ≤ size) (hpos : 0 < size) (xs : List α) :
    leave^[xs.length] (enterAll size p xs) = p ↔
      p.above.length + xs.length ≤ size ∨ p.above = [] := by
  rw [leave_enterAll h hpos, iterate_leave_eq_iff, Nat.sub_eq_zero_iff_le]

end Enter

end KajijOSta.BoundedStack
