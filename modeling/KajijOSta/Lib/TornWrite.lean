import KajijOSta.Lib.WriteLog

/-! # Torn writes

A store of cells that lie in sectors. A write that is cut short leaves each sector as it
was before it or as it is after it, in any pattern (`tear`). What the states before and
after the write agree on is there in the torn one; a write that changes one sector only is
not torn at all (`tear_eq_or`). `AlongTorn P s ws` says that `P` holds of every state a
crash during the writes can leave. -/
namespace KajijOSta.TornWrite
open KajijOSta.WriteLog

section Tear
variable {A V I : Type*} (sector : A → I) {s s' : A → V} {through : I → Bool}

/-- The sectors that got through are those of the second state. -/
def tear (s s' : A → V) (through : I → Bool) : A → V := fun a =>
  if through (sector a) then s' a else s a

/-- A sector is that of one of the states as a whole. -/
theorem tear_sector (s s' : A → V) (through : I → Bool) (x : I) :
    (∀ a, sector a = x → tear sector s s' through a = s a) ∨
      ∀ a, sector a = x → tear sector s s' through a = s' a := by
  cases hx : through x with
  | true =>
    refine Or.inr fun a ha => ?_
    rw [tear, ha, hx, if_pos rfl]
  | false =>
    refine Or.inl fun a ha => ?_
    rw [tear, ha, hx, if_neg Bool.false_ne_true]

theorem tear_same {a : A} {v : V} (h : s a = v) (h' : s' a = v) :
    tear sector s s' through a = v := by
  unfold tear
  split
  · exact h'
  · exact h

theorem tear_self (s : A → V) (through : I → Bool) : tear sector s s through = s :=
  funext fun _ => tear_same sector rfl rfl

/-- A write to one sector gets through or not. -/
theorem tear_eq_or {x : I} (h : ∀ a, sector a ≠ x → s' a = s a) :
    tear sector s s' through = s ∨ tear sector s s' through = s' := by
  refine (tear_sector sector s s' through x).imp (fun hx => ?_) fun hx => ?_
  · funext a
    by_cases ha : sector a = x
    · exact hx a ha
    · exact tear_same sector rfl (h a ha)
  · funext a
    by_cases ha : sector a = x
    · exact hx a ha
    · exact tear_same sector (h a ha).symm rfl

end Tear

/-! ## Logs -/

section Log
variable {A V I W : Type*} (sector : A → I) (apply : (A → V) → W → A → V)

/-- The state when so many writes got through, and of the next one some sectors. -/
def cut (s : A → V) (ws : List W) (writes : Nat) (through : I → Bool) : A → V :=
  tear sector (replay apply s (ws.take writes)) (replay apply s (ws.take (writes + 1))) through

/-- `P` holds of the state before each of the writes, of those it leaves when it is cut
short, and of the last one. -/
def AlongTorn (P : (A → V) → Prop) : (A → V) → List W → Prop
  | s, [] => P s
  | s, w :: ws => (∀ through, P (tear sector s (apply s w) through)) ∧ AlongTorn P (apply s w) ws

variable {sector apply} {P Q : (A → V) → Prop} {s : A → V} {ws vs : List W}

theorem AlongTorn.append (h : AlongTorn sector apply P s ws)
    (h' : AlongTorn sector apply P (replay apply s ws) vs) :
    AlongTorn sector apply P s (ws ++ vs) := by
  induction ws generalizing s with
  | nil => exact h'
  | cons w ws ih => exact ⟨h.1, ih h.2 h'⟩

theorem AlongTorn.mono (h : AlongTorn sector apply P s ws) (hPQ : ∀ s, P s → Q s) :
    AlongTorn sector apply Q s ws := by
  induction ws generalizing s with
  | nil => exact hPQ s h
  | cons w ws ih => exact ⟨fun through => hPQ _ (h.1 through), ih h.2⟩

/-- What tearing keeps holds wherever the writes are cut. -/
theorem AlongTorn.of_along (hP : ∀ s s' through, P s → P s' → P (tear sector s s' through))
    (h : Along apply P s ws) : AlongTorn sector apply P s ws := by
  induction ws generalizing s with
  | nil => exact h
  | cons w ws ih => exact ⟨fun through => hP _ _ through h.1 h.2.head, ih h.2⟩

/-- The crash states. -/
theorem AlongTorn.cut (h : AlongTorn sector apply P s ws) (writes : Nat) (through : I → Bool) :
    P (cut sector apply s ws writes through) := by
  induction ws generalizing s writes with
  | nil =>
    unfold TornWrite.cut
    rw [List.take_nil, List.take_nil, tear_self]
    exact h
  | cons w ws ih =>
    cases writes with
    | zero => exact h.1 through
    | succ writes => exact ih h.2 writes

end Log

end KajijOSta.TornWrite
