import Mathlib.Data.List.Basic

/-! # Histories of operations, some of them cut short

What clients see of a store: operations that were answered, and operations that a crash cut
short, which took effect or did not. A history is explained by a specification when the
operations that took effect, one after the other, give the answers seen. -/
namespace KajijOSta.History

/-- An operation, answered or cut short. -/
inductive Entry (O R : Type*)
  | answered (op : O) (reply : R)
  | cut (op : O)

variable {S O R : Type*}

def Entry.op : Entry O R → O
  | .answered op _ | .cut op => op

/-- The history leads from one state to another. `T s op reply s'` says that the operation may
be answered so, and leave the state so. -/
inductive Explains (T : S → O → R → S → Prop) : S → List (Entry O R) → S → Prop
  | nil (s : S) : Explains T s [] s
  | answered {s s' t : S} {op : O} {reply : R} {log : List (Entry O R)} (h : T s op reply s')
      (hlog : Explains T s' log t) : Explains T s (.answered op reply :: log) t
  | lost {s t : S} {op : O} {log : List (Entry O R)} (hlog : Explains T s log t) :
      Explains T s (.cut op :: log) t
  | applied {s s' t : S} {op : O} {reply : R} {log : List (Entry O R)} (h : T s op reply s')
      (hlog : Explains T s' log t) : Explains T s (.cut op :: log) t

namespace Explains
variable {T : S → O → R → S → Prop} {s t u : S} {log log' : List (Entry O R)} {P : S → Prop}

theorem append (h : Explains T s log t) (h' : Explains T t log' u) :
    Explains T s (log ++ log') u := by
  induction h with
  | nil => exact h'
  | answered h _ ih => exact .answered h (ih h')
  | lost _ ih => exact .lost (ih h')
  | applied h _ ih => exact .applied h (ih h')

/-- The state between two parts of a history. -/
theorem split (h : Explains T s (log ++ log') u) :
    ∃ t, Explains T s log t ∧ Explains T t log' u := by
  induction log generalizing s with
  | nil => exact ⟨s, .nil s, h⟩
  | cons e log ih =>
    cases h with
    | answered h hlog =>
      obtain ⟨t, hfirst, hrest⟩ := ih hlog
      exact ⟨t, .answered h hfirst, hrest⟩
    | lost hlog =>
      obtain ⟨t, hfirst, hrest⟩ := ih hlog
      exact ⟨t, .lost hfirst, hrest⟩
    | applied h hlog =>
      obtain ⟨t, hfirst, hrest⟩ := ih hlog
      exact ⟨t, .applied h hfirst, hrest⟩

/-- The step of an answered operation in a history. -/
theorem step {op : O} {reply : R} (h : Explains T s (log ++ .answered op reply :: log') u) :
    ∃ t t', Explains T s log t ∧ T t op reply t' ∧ Explains T t' log' u := by
  obtain ⟨t, hfirst, hrest⟩ := h.split
  cases hrest with
  | answered h hlog => exact ⟨t, _, hfirst, h, hlog⟩

/-- What each operation of a history keeps, the history keeps. -/
theorem keeps (h : Explains T s log t) (hs : P s)
    (hkeep : ∀ e ∈ log, ∀ s reply s', P s → T s e.op reply s' → P s') : P t := by
  induction h with
  | nil => exact hs
  | answered h _ ih =>
    refine ih ?_ fun e he => hkeep e (List.mem_cons_of_mem _ he)
    exact hkeep _ List.mem_cons_self _ _ _ hs h
  | lost _ ih => exact ih hs fun e he => hkeep e (List.mem_cons_of_mem _ he)
  | applied h _ ih =>
    refine ih ?_ fun e he => hkeep e (List.mem_cons_of_mem _ he)
    exact hkeep (.cut _) List.mem_cons_self _ _ _ hs h

end Explains

end KajijOSta.History
