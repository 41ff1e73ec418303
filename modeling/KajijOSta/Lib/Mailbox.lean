import Mathlib.Data.List.Basic

/-! # A mailbox of one slot

A writer puts values, a reader takes what the slot holds and leaves it empty. A
slot that folds the values put since the last take (`f`, from `empty`) shows the
reader that fold of every batch (`takes_eq`). Where the slot keeps the last value
only, the reader gets the last of each batch: never one twice or out of order, and
all of them exactly when no batch has two. -/
namespace KajijOSta.Mailbox

variable {α σ : Type*}

/-- What happens to the slot. -/
inductive Event (α : Type*)
  | put (a : α)
  | take

def puts : List (Event α) → List α
  | [] => []
  | .put a :: es => a :: puts es
  | .take :: es => puts es

/-- What the takes return, when the slot holds `s`. -/
def takes (f : σ → α → σ) (empty : σ) : σ → List (Event α) → List σ
  | _, [] => []
  | s, .put a :: es => takes f empty (f s a) es
  | s, .take :: es => s :: takes f empty empty es

/-- The values put from one take to the next, when `b` has been put so far; the
last batch is still open. -/
def batches : List α → List (Event α) → List (List α)
  | b, [] => [b]
  | b, .put a :: es => batches (b ++ [a]) es
  | b, .take :: es => b :: batches [] es

/-- With a take at the end, each batch is taken once, folded. -/
theorem takes_eq (f : σ → α → σ) (empty : σ) : ∀ (es : List (Event α)) (b : List α),
    takes f empty (b.foldl f empty) (es ++ [.take]) = (batches b es).map (·.foldl f empty)
  | [], b => rfl
  | .put a :: es, b => by
    have hs : f (b.foldl f empty) a = (b ++ [a]).foldl f empty := by
      rw [List.foldl_append, List.foldl_cons, List.foldl_nil]
    rw [List.cons_append, takes, batches, hs]
    exact takes_eq f empty es (b ++ [a])
  | .take :: es, b => by
    rw [List.cons_append, takes, batches, List.map_cons]
    exact congrArg _ (takes_eq f empty es [])

theorem flatten_batches : ∀ (es : List (Event α)) (b : List α),
    (batches b es).flatten = b ++ puts es
  | [], b => by simp [batches, puts]
  | .put a :: es, b => by
    rw [batches, puts, flatten_batches es, List.append_assoc, List.singleton_append]
  | .take :: es, b => by
    rw [batches, puts, List.flatten_cons, flatten_batches es, List.nil_append]

/-! ## The last of each batch -/

/-- The last value of each batch that has one. -/
def lasts (bs : List (List α)) : List α := bs.filterMap List.getLast?

theorem lasts_nil_cons (bs : List (List α)) : lasts ([] :: bs) = lasts bs := rfl

theorem lasts_cons_concat (b : List α) (a : α) (bs : List (List α)) :
    lasts ((b ++ [a]) :: bs) = a :: lasts bs := by
  unfold lasts
  rw [List.filterMap_cons_some (List.getLast?_concat)]

theorem lasts_sublist : ∀ bs : List (List α), (lasts bs).Sublist bs.flatten
  | [] => List.Sublist.refl _
  | b :: bs => by
    rcases List.eq_nil_or_concat b with rfl | ⟨l, a, rfl⟩
    · rw [lasts_nil_cons]
      exact lasts_sublist bs
    · rw [List.concat_eq_append, lasts_cons_concat, List.flatten_cons, List.append_assoc]
      exact ((lasts_sublist bs).cons_cons a).trans (List.sublist_append_right l _)

/-- Nothing is lost exactly when no batch has two values. -/
theorem lasts_eq_flatten_iff : ∀ bs : List (List α),
    lasts bs = bs.flatten ↔ ∀ b ∈ bs, b.length ≤ 1
  | [] => by simp [lasts]
  | b :: bs => by
    have ih := lasts_eq_flatten_iff bs
    rw [List.forall_mem_cons, ← ih]
    rcases List.eq_nil_or_concat b with rfl | ⟨l, a, rfl⟩
    · rw [lasts_nil_cons, List.flatten_cons, List.nil_append]
      exact ⟨fun h => ⟨Nat.zero_le _, h⟩, fun h => h.2⟩
    · rw [List.concat_eq_append, lasts_cons_concat, List.flatten_cons, List.append_assoc,
        List.length_append, List.length_singleton]
      constructor
      · intro h
        -- the two sides have the same length, and the batches after are no shorter
        have hlen := congrArg List.length h
        have hle := (lasts_sublist bs).length_le
        simp only [List.length_cons, List.length_append, List.length_nil] at hlen
        have hl : l = [] := List.eq_nil_of_length_eq_zero (by omega)
        rw [hl] at h ⊢
        exact ⟨Nat.le_refl _, (List.cons_eq_cons.mp h).2⟩
      · intro h
        have hl : l = [] := List.eq_nil_of_length_eq_zero (by omega)
        rw [hl, h.2]
        rfl

end KajijOSta.Mailbox
