import Mathlib.Data.List.Basic

/-! # Logs of writes and the states a crash can leave

A store changed by a list of writes, each of which happens as a whole. A crash
stops after some prefix of the list: `Along P s ws` says that `P` holds of
every state a crash can leave, the first and the last included. -/
namespace KajijOSta.WriteLog

variable {S W : Type*} (apply : S → W → S)

def replay (s : S) (ws : List W) : S := ws.foldl apply s

/-- `P` holds of the state after every prefix of the writes. -/
def Along (P : S → Prop) : S → List W → Prop
  | s, [] => P s
  | s, w :: ws => P s ∧ Along P (apply s w) ws

@[simp] theorem replay_nil (s : S) : replay apply s [] = s := rfl

theorem replay_append (s : S) (ws vs : List W) :
    replay apply s (ws ++ vs) = replay apply (replay apply s ws) vs := List.foldl_append

variable {apply} {P Q : S → Prop}

theorem Along.head {s : S} {ws : List W} (h : Along apply P s ws) : P s := by
  cases ws with
  | nil => exact h
  | cons w ws => exact h.1

theorem Along.last {s : S} {ws : List W} (h : Along apply P s ws) : P (replay apply s ws) := by
  induction ws generalizing s with
  | nil => exact h
  | cons w ws ih => exact ih h.2

theorem Along.append {s : S} {ws vs : List W} (h : Along apply P s ws)
    (h' : Along apply P (replay apply s ws) vs) : Along apply P s (ws ++ vs) := by
  induction ws generalizing s with
  | nil => exact h'
  | cons w ws ih => exact ⟨h.1, ih h.2 h'⟩

theorem Along.mono {s : S} {ws : List W} (h : Along apply P s ws) (hPQ : ∀ s, P s → Q s) :
    Along apply Q s ws := by
  induction ws generalizing s with
  | nil => exact hPQ s h
  | cons w ws ih => exact ⟨hPQ s h.1, ih h.2⟩

theorem along_single {s : S} {w : W} : Along apply P s [w] ↔ P s ∧ P (apply s w) := Iff.rfl

/-- The crash states, one for each number of writes that got through. -/
theorem Along.take {s : S} {ws : List W} (h : Along apply P s ws) (k : Nat) :
    P (replay apply s (ws.take k)) := by
  induction ws generalizing s k with
  | nil => rw [List.take_nil]; exact h
  | cons w ws ih =>
    cases k with
    | zero => exact h.1
    | succ k => exact ih h.2 k

end KajijOSta.WriteLog
