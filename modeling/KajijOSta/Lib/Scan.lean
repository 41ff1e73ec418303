import Mathlib.Data.List.FinRange
import Mathlib.Data.List.Induction
import Mathlib.Order.Basic

/-! # Scans of an array

A scan over the indices of an array in increasing order stops at the least
index that passes a test: `List.find?` on a strictly increasing list, and
`List.filter` followed by `List.take` when several are collected. A scan that
overwrites its result at every hit keeps the one of the greatest such index. -/
namespace KajijOSta.Scan

variable {α : Type*} [LinearOrder α] {l : List α} {p : α → Bool} {a : α}

/-- The scan finds the least element that passes the test. -/
theorem find?_eq_some_iff (hl : l.Pairwise (· < ·)) :
    l.find? p = some a ↔ a ∈ l ∧ p a = true ∧ ∀ b ∈ l, b < a → p b = false := by
  induction l with
  | nil => simp
  | cons x xs ih =>
    obtain ⟨hx, hxs⟩ := List.pairwise_cons.mp hl
    rw [List.find?_cons]
    cases hp : p x with
    | true =>
      simp only [Option.some.injEq]
      constructor
      · intro he
        subst he
        refine ⟨List.mem_cons_self, hp, fun b hb hlt => ?_⟩
        rcases List.mem_cons.mp hb with rfl | hb
        · exact absurd hlt (lt_irrefl _)
        · exact absurd hlt (hx b hb).le.not_gt
      · intro hcase
        obtain ⟨ha, hpa, hmin⟩ := hcase
        rcases List.mem_cons.mp ha with rfl | ha
        · rfl
        · have := hmin x List.mem_cons_self (hx a ha)
          rw [hp] at this
          cases this
    | false =>
      simp only [ih hxs, List.mem_cons]
      constructor
      · intro hcase
        obtain ⟨ha, hpa, hmin⟩ := hcase
        refine ⟨Or.inr ha, hpa, fun b hb hlt => ?_⟩
        rcases hb with rfl | hb
        · exact hp
        · exact hmin b hb hlt
      · intro hcase
        obtain ⟨ha, hpa, hmin⟩ := hcase
        rcases ha with rfl | ha
        · rw [hp] at hpa
          cases hpa
        · exact ⟨ha, hpa, fun b hb => hmin b (Or.inr hb)⟩

/-- The scan that goes on to the end keeps what it read at the last hit. -/
theorem foldl_eq_iff {β : Type*} {f : α → β} {init v : β} (hl : l.Pairwise (· < ·)) :
    l.foldl (fun acc i => if p i then f i else acc) init = v ↔
      (∃ a ∈ l, p a = true ∧ (∀ b ∈ l, a < b → p b = false) ∧ f a = v) ∨
      ((∀ a ∈ l, p a = false) ∧ init = v) := by
  induction l using List.reverseRecOn with
  | nil => simp
  | append_singleton xs x ih =>
    obtain ⟨hxs, _, hx⟩ := List.pairwise_append.mp hl
    have hlt : ∀ a ∈ xs, a < x := fun a ha => hx a ha x (List.mem_singleton_self x)
    rw [List.foldl_append, List.foldl_cons, List.foldl_nil]
    cases hp : p x with
    | true =>
      rw [if_pos rfl]
      constructor
      · intro hv
        refine Or.inl ⟨x, by simp, hp, fun b hb hxb => ?_, hv⟩
        rcases List.mem_append.mp hb with hb | hb
        · exact absurd hxb (hlt b hb).le.not_gt
        · rw [List.mem_singleton.mp hb] at hxb
          exact absurd hxb (lt_irrefl x)
      · intro hcase
        rcases hcase with ⟨a, ha, _, hlast, hv⟩ | ⟨hnone, _⟩
        · rcases List.mem_append.mp ha with ha | ha
          · have := hlast x (by simp) (hlt a ha)
            rw [hp] at this
            cases this
          · rw [← List.mem_singleton.mp ha]
            exact hv
        · have := hnone x (by simp)
          rw [hp] at this
          cases this
    | false =>
      rw [if_neg Bool.false_ne_true, ih hxs]
      refine or_congr ⟨fun hcase => ?_, fun hcase => ?_⟩ (and_congr_left fun _ => ?_)
      · obtain ⟨a, ha, hpa, hlast, hv⟩ := hcase
        refine ⟨a, List.mem_append_left _ ha, hpa, fun b hb hab => ?_, hv⟩
        rcases List.mem_append.mp hb with hb | hb
        · exact hlast b hb hab
        · rw [List.mem_singleton.mp hb]
          exact hp
      · obtain ⟨a, ha, hpa, hlast, hv⟩ := hcase
        rcases List.mem_append.mp ha with ha | ha
        · exact ⟨a, ha, hpa, fun b hb => hlast b (List.mem_append_left _ hb), hv⟩
        · rw [List.mem_singleton.mp ha, hp] at hpa
          cases hpa
      · constructor
        · intro hnone a ha
          rcases List.mem_append.mp ha with ha | ha
          · exact hnone a ha
          · rw [List.mem_singleton.mp ha]
            exact hp
        · exact fun hnone a ha => hnone a (List.mem_append_left _ ha)

end KajijOSta.Scan
