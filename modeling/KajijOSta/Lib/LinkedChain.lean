import Mathlib.Data.List.Nodup

/-! # Chains of links in a partial successor function

A table that maps a cell to the next one (`next`), with a marker `stop` for
the end of a chain: the shape of a file allocation table, of a free list, of
any linked list held in an array. `Chain next stop a l` says that following
the links from `a` visits exactly the cells `l` and then meets the marker;
`follow` is the loop that walks it. -/
namespace KajijOSta.LinkedChain

variable {α : Type*}

/-- Following `next` from `a` visits exactly `l`, in order, and ends at `stop`. -/
def Chain (next : α → Option α) (stop : α) : α → List α → Prop
  | a, [] => a = stop
  | a, x :: xs => a = x ∧ a ≠ stop ∧ ∃ b, next a = some b ∧ Chain next stop b xs

section Basic
variable {next next' : α → Option α} {stop : α}

@[simp] theorem chain_nil {a : α} : Chain next stop a [] ↔ a = stop := Iff.rfl

/-- The cells of a chain are determined by its first cell. -/
theorem Chain.det {a : α} {l l' : List α} (h : Chain next stop a l)
    (h' : Chain next stop a l') : l = l' := by
  induction l generalizing a l' with
  | nil =>
    cases l' with
    | nil => rfl
    | cons y ys => exact absurd h h'.2.1
  | cons x xs ih =>
    obtain ⟨hx, hs, b, hb, hc⟩ := h
    cases l' with
    | nil => exact absurd h' hs
    | cons y ys =>
      obtain ⟨hy, _, b', hb', hc'⟩ := h'
      have hbb : b = b' := Option.some.inj (hb.symm.trans hb')
      subst hbb
      rw [← hx, ← hy, ih hc hc']

/-- A chain that does not start at the marker starts with its first cell. -/
theorem Chain.head_mem {a : α} {l : List α} (h : Chain next stop a l) (ha : a ≠ stop) : a ∈ l := by
  cases l with
  | nil => exact absurd h ha
  | cons x xs => exact h.1 ▸ List.mem_cons_self

/-- A chain is read from the links of its own cells only. -/
theorem Chain.congr {a : α} {l : List α} (h : Chain next stop a l)
    (hn : ∀ x ∈ l, next' x = next x) : Chain next' stop a l := by
  induction l generalizing a with
  | nil => exact h
  | cons x xs ih =>
    obtain ⟨rfl, hs, b, hb, hc⟩ := h
    refine ⟨rfl, hs, b, ?_, ih hc fun y hy => hn y (List.mem_cons_of_mem _ hy)⟩
    rw [hn a List.mem_cons_self, hb]

/-- Every cell of a chain has a link: to the next cell, or to the marker. -/
theorem Chain.next_mem {a x : α} {l : List α} (h : Chain next stop a l) (hx : x ∈ l) :
    ∃ b, next x = some b ∧ (b ∈ l ∨ b = stop) := by
  induction l generalizing a with
  | nil => cases hx
  | cons y ys ih =>
    obtain ⟨rfl, _, b, hb, hc⟩ := h
    rcases List.mem_cons.mp hx with rfl | hx
    · refine ⟨b, hb, ?_⟩
      cases ys with
      | nil => exact Or.inr hc
      | cons z zs => exact Or.inl (by rw [hc.1]; simp)
    · obtain ⟨b', hb', hm⟩ := ih hc hx
      exact ⟨b', hb', hm.imp_left (List.mem_cons_of_mem _)⟩

/-- The rest of a chain, from any of its cells on. -/
theorem Chain.from_mem {a x : α} {l : List α} (h : Chain next stop a l) (hx : x ∈ l) :
    ∃ s t, l = s ++ x :: t ∧ Chain next stop x (x :: t) := by
  induction l generalizing a with
  | nil => cases hx
  | cons y ys ih =>
    have hh := h
    obtain ⟨rfl, _, b, _, hc⟩ := hh
    rcases List.mem_cons.mp hx with rfl | hx
    · exact ⟨[], ys, rfl, h⟩
    · obtain ⟨s, t, rfl, ht⟩ := ih hc hx
      exact ⟨a :: s, t, rfl, ht⟩

/-- A chain that ends meets no cell twice: what follows a cell is determined
by it, so a second visit would never end. -/
theorem Chain.nodup {a : α} {l : List α} (h : Chain next stop a l) : l.Nodup := by
  induction l generalizing a with
  | nil => exact List.nodup_nil
  | cons x xs ih =>
    have hh := h
    obtain ⟨rfl, _, b, _, hc⟩ := hh
    refine List.nodup_cons.mpr ⟨fun hm => ?_, ih hc⟩
    obtain ⟨s, t, hst, ht⟩ := hc.from_mem hm
    have := congrArg List.length (h.det ht)
    simp [hst] at this
    omega

/-- The chain from the first cell of `l` when each cell links to the one after
it and the last one to the marker. -/
theorem chain_of_linked : ∀ {l : List α}, stop ∉ l →
    (∀ s x t, l = s ++ x :: t → next x = some (t.headD stop)) →
    Chain next stop (l.headD stop) l
  | [], _, _ => rfl
  | x :: xs, hs, hn => by
    refine ⟨rfl, fun he => hs (by simpa using Or.inl he.symm), xs.headD stop,
      hn [] x xs rfl, ?_⟩
    refine chain_of_linked (fun hm => hs (List.mem_cons_of_mem _ hm)) ?_
    intro s y t he
    exact hn (x :: s) y t (by rw [he]; rfl)

end Basic

section Follow
variable [DecidableEq α] {next : α → Option α} {stop : α}

/-- Walk the chain from `a`, for at most `fuel` cells. `none` when a cell has no
link, or when the marker has not been met in time. -/
def follow (next : α → Option α) (stop : α) : Nat → α → Option (List α)
  | 0, a => if a = stop then some [] else none
  | fuel + 1, a =>
    if a = stop then some []
    else (next a).bind fun b => (follow next stop fuel b).map (a :: ·)

theorem follow_of_chain {fuel : Nat} {a : α} {l : List α} (h : Chain next stop a l)
    (hf : l.length ≤ fuel) : follow next stop fuel a = some l := by
  induction l generalizing a fuel with
  | nil => cases fuel <;> simp_all [follow]
  | cons x xs ih =>
    obtain ⟨rfl, hs, b, hb, hc⟩ := h
    cases fuel with
    | zero => simp at hf
    | succ fuel => simp [follow, hs, hb, ih hc (by simpa using hf)]

end Follow

end KajijOSta.LinkedChain
