import Mathlib.Algebra.Group.Nat.Defs
import Mathlib.Data.List.Basic

/-! # A stack of words in a memory of cells

Addresses are 32-bit numbers and wrap around; a word is kept in `n` cells one behind the
other (`Codec`). A stack grows downwards. `Grown` says what a memory is like after words
have been pushed on another one: it holds them from the stack pointer up, and outside
their cells it is the other one. -/
namespace KajijOSta.WordStack

/-- Words kept in `n` cells each. -/
structure Codec (W β : Type) (n : Nat) where
  split : W → Fin n → β
  join : (Fin n → β) → W
  join_split : ∀ w, join (split w) = w
  fits : n < 2 ^ 32

/-- The `k` addresses from `a` on. -/
def Span (a : UInt32) (k : Nat) (x : UInt32) : Prop := (x - a).toNat < k

instance (a : UInt32) (k : Nat) (x : UInt32) : Decidable (Span a k x) :=
  inferInstanceAs (Decidable (_ < _))

/-! ## Addresses -/

section Addresses
variable {a x : UInt32} {k l : Nat}

theorem toNat_ofNat_of_lt (hk : k < 2 ^ 32) : (UInt32.ofNat k).toNat = k := by
  rw [UInt32.toNat_ofNat', Nat.mod_eq_of_lt hk]

theorem sub_ofNat_add (a : UInt32) (k l : Nat) :
    a - UInt32.ofNat k - UInt32.ofNat l = a - UInt32.ofNat (k + l) := by
  apply UInt32.toNat_inj.mp
  simp only [UInt32.toNat_sub, UInt32.toNat_ofNat']
  omega

theorem add_ofNat_add (a : UInt32) (k l : Nat) :
    a + UInt32.ofNat k + UInt32.ofNat l = a + UInt32.ofNat (k + l) := by
  apply UInt32.toNat_inj.mp
  simp only [UInt32.toNat_add, UInt32.toNat_ofNat']
  omega

theorem sub_add_ofNat (a : UInt32) (k : Nat) : a - UInt32.ofNat k + UInt32.ofNat k = a := by
  apply UInt32.toNat_inj.mp
  have := a.toNat_lt
  simp only [UInt32.toNat_add, UInt32.toNat_sub, UInt32.toNat_ofNat']
  omega

theorem add_ofNat_sub (a : UInt32) (k : Nat) : a + UInt32.ofNat k - a = UInt32.ofNat k := by
  apply UInt32.toNat_inj.mp
  have := a.toNat_lt
  simp only [UInt32.toNat_add, UInt32.toNat_sub, UInt32.toNat_ofNat']
  omega

/-- The first `k` addresses are left out from the `k + l` when the start moves on. -/
theorem span_add (hkl : k + l ≤ 2 ^ 32) :
    Span (a + UInt32.ofNat k) l x ↔ k ≤ (x - a).toNat ∧ Span a (k + l) x := by
  have ha := a.toNat_lt
  have hx := x.toNat_lt
  unfold Span
  simp only [UInt32.toNat_add, UInt32.toNat_sub, UInt32.toNat_ofNat']
  omega

/-- A block that ends where another one does and begins further down. -/
theorem Span.below {j : Nat} (h : Span (a - UInt32.ofNat k) (k + j) x) (hkl : k ≤ l)
    (hfits : l + j ≤ 2 ^ 32) : Span (a - UInt32.ofNat l) (l + j) x := by
  have ha := a.toNat_lt
  have hx := x.toNat_lt
  unfold Span at *
  simp only [UInt32.toNat_sub, UInt32.toNat_ofNat'] at *
  omega

theorem Span.mono (h : Span a k x) (hkl : k ≤ l) : Span a l x := Nat.lt_of_lt_of_le h hkl

end Addresses

/-! ## Words in a memory -/

section Words
variable {W β : Type} {n : Nat} (c : Codec W β n) {m m' : UInt32 → β} {a b sp : UInt32} {w : W}
  {ws : List W}

def Codec.get (m : UInt32 → β) (a : UInt32) : W := c.join fun i => m (a + UInt32.ofNat i)

def Codec.put (m : UInt32 → β) (a : UInt32) (w : W) : UInt32 → β := fun x =>
  if h : Span a n x then c.split w ⟨(x - a).toNat, h⟩ else m x

theorem Codec.get_put (m : UInt32 → β) (a : UInt32) (w : W) : c.get (c.put m a w) a = w := by
  unfold Codec.get
  refine (congrArg c.join ?_).trans (c.join_split w)
  funext i
  have hi : (a + UInt32.ofNat i - a).toNat = i := by
    rw [add_ofNat_sub, toNat_ofNat_of_lt (Nat.lt_trans i.isLt c.fits)]
  have hspan : Span a n (a + UInt32.ofNat i) := Nat.lt_of_le_of_lt (Nat.le_of_eq hi) i.isLt
  rw [Codec.put, dif_pos hspan]
  exact congrArg (c.split w) (Fin.ext hi)

theorem Codec.put_outside (h : ¬ Span a n b) : c.put m a w b = m b := dif_neg h

theorem Codec.get_congr (h : ∀ x, Span a n x → m' x = m x) : c.get m' a = c.get m a := by
  refine congrArg c.join (funext fun i => h _ ?_)
  unfold Span
  rw [add_ofNat_sub, toNat_ofNat_of_lt (Nat.lt_trans i.isLt c.fits)]
  exact i.isLt

/-- The memory holds the words from an address on. -/
def Codec.Holds (m : UInt32 → β) : UInt32 → List W → Prop
  | _, [] => True
  | a, w :: ws => c.get m a = w ∧ Codec.Holds m (a + UInt32.ofNat n) ws

variable {c}

theorem Codec.Holds.congr (h : c.Holds m a ws) (hfits : n * ws.length ≤ 2 ^ 32)
    (hm : ∀ x, Span a (n * ws.length) x → m' x = m x) : c.Holds m' a ws := by
  induction ws generalizing a with
  | nil => trivial
  | cons w ws ih =>
    have hlen : n * (w :: ws).length = n + n * ws.length := by
      rw [List.length_cons, Nat.mul_succ, Nat.add_comm]
    rw [hlen] at hfits hm
    refine ⟨(c.get_congr fun x hx => hm x (hx.mono (Nat.le_add_right _ _))).trans h.1, ?_⟩
    exact ih h.2 (by omega) fun x hx => hm x ((span_add hfits).mp hx).2

/-- The words above the first ones. -/
theorem Codec.Holds.drop (vs : List W) (h : c.Holds m a (vs ++ ws)) :
    c.Holds m (a + UInt32.ofNat (n * vs.length)) ws := by
  induction vs generalizing a with
  | nil =>
    have hzero : a + UInt32.ofNat (n * ([] : List W).length) = a := UInt32.add_zero a
    rw [hzero]
    exact h
  | cons v vs ih =>
    have hlen : n * (v :: vs).length = n + n * vs.length := by
      rw [List.length_cons, Nat.mul_succ, Nat.add_comm]
    rw [hlen, ← add_ofNat_add]
    exact ih h.2

/-- Word number `k` of those held. -/
theorem Codec.Holds.get (h : c.Holds m a ws) (k : Nat) (hk : k < ws.length) :
    c.get m (a + UInt32.ofNat (n * k)) = ws[k] := by
  induction ws generalizing a k with
  | nil => exact absurd hk (Nat.not_lt_zero k)
  | cons w ws ih =>
    cases k with
    | zero =>
      have hzero : a + UInt32.ofNat (n * 0) = a := UInt32.add_zero a
      rw [hzero]
      exact h.1
    | succ k =>
      have hk' : n * (k + 1) = n + n * k := by rw [Nat.mul_succ, Nat.add_comm]
      rw [hk', ← add_ofNat_add]
      exact ih h.2 k (Nat.lt_of_succ_lt_succ hk)

/-! ## Pushing -/

variable (c) in
/-- The memory `m`, with words pushed below `top` on it: the stack pointer is `sp`. -/
structure Grown (m : UInt32 → β) (top : UInt32) (m' : UInt32 → β) (sp : UInt32)
    (ws : List W) : Prop where
  pointer : sp = top - UInt32.ofNat (n * ws.length)
  fits : n * ws.length ≤ 2 ^ 32
  holds : c.Holds m' sp ws
  outside : ∀ x, ¬ Span sp (n * ws.length) x → m' x = m x

namespace Grown
variable {top : UInt32}

theorem nil (m : UInt32 → β) (top : UInt32) : Grown c m top m top [] where
  pointer := (UInt32.sub_zero top).symm
  fits := Nat.zero_le _
  holds := trivial
  outside _ _ := rfl

theorem push (h : Grown c m top m' sp ws) (hfits : n * (ws.length + 1) ≤ 2 ^ 32) (w : W) :
    Grown c m top (c.put m' (sp - UInt32.ofNat n) w) (sp - UInt32.ofNat n) (w :: ws) := by
  have hlen : n * (w :: ws).length = n + n * ws.length := by
    rw [List.length_cons, Nat.mul_succ, Nat.add_comm]
  have hfits : n + n * ws.length ≤ 2 ^ 32 := by
    rw [← hlen]
    exact hfits
  have hspan : ∀ x, Span sp (n * ws.length) x ↔
      n ≤ (x - (sp - UInt32.ofNat n)).toNat ∧
        Span (sp - UInt32.ofNat n) (n + n * ws.length) x := by
    intro x
    have h := span_add (a := sp - UInt32.ofNat n) (x := x) hfits
    rwa [sub_add_ofNat] at h
  refine ⟨?_, by rw [hlen]; exact hfits, ⟨c.get_put _ _ _, ?_⟩, fun x hx => ?_⟩
  · rw [hlen, h.pointer, sub_ofNat_add, Nat.add_comm]
  · -- the words above lie outside the cells of the new one
    rw [sub_add_ofNat]
    refine h.holds.congr h.fits fun x hx => c.put_outside ?_
    exact Nat.not_lt.mpr ((hspan x).mp hx).1
  · rw [hlen] at hx
    rw [c.put_outside fun hs => hx (hs.mono (Nat.le_add_right _ _)),
      h.outside x fun hs => hx ((hspan x).mp hs).2]

end Grown

end Words

end KajijOSta.WordStack
