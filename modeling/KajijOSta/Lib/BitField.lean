import Mathlib.Data.Nat.ModEq
import Mathlib.Tactic.Ring

/-! # Packed bit fields

A packed record of bit fields is one number: the fields lie one behind the other, the
first at the least significant bits. Hardware reads such a number by the positions of its
bits. `bits_pack` joins the two: the bits that some neighbouring fields take up are
these fields, packed by themselves. -/
namespace KajijOSta.BitField

/-- A field: its width, and a value of that width. -/
abbrev Field := Σ w : Nat, BitVec w

def width : List Field → Nat
  | [] => 0
  | f :: fs => f.1 + width fs

def pack : List Field → Nat
  | [] => 0
  | f :: fs => f.2.toNat + 2 ^ f.1 * pack fs

/-- The `n` bits of a number from bit `lo` on. -/
def bits (lo n x : Nat) : Nat := x / 2 ^ lo % 2 ^ n

section Packing
variable (pre mid post : List Field)

@[simp] theorem width_nil : width [] = 0 := rfl

@[simp] theorem width_cons (f : Field) (fs : List Field) : width (f :: fs) = f.1 + width fs := rfl

@[simp] theorem pack_nil : pack [] = 0 := rfl

theorem pack_cons (f : Field) (fs : List Field) :
    pack (f :: fs) = f.2.toNat + 2 ^ f.1 * pack fs := rfl

theorem pack_append : pack (pre ++ post) = pack pre + 2 ^ width pre * pack post := by
  induction pre with
  | nil => simp
  | cons f fs ih =>
    rw [List.cons_append, pack_cons, pack_cons, ih, width_cons]
    ring

theorem pack_lt : pack pre < 2 ^ width pre := by
  induction pre with
  | nil => simp
  | cons f fs ih =>
    have hf := f.2.isLt
    have hmul : 2 ^ f.1 * (pack fs + 1) ≤ 2 ^ f.1 * 2 ^ width fs := Nat.mul_le_mul_left _ ih
    rw [pack_cons, width_cons, Nat.pow_add]
    rw [Nat.mul_add, Nat.mul_one] at hmul
    omega

/-- The bits of the fields in the middle are those fields. -/
theorem bits_pack : bits (width pre) (width mid) (pack (pre ++ mid ++ post)) = pack mid := by
  have hpre := pack_lt pre
  have hmid := pack_lt mid
  unfold bits
  rw [List.append_assoc, pack_append, pack_append, Nat.add_mul_div_left _ _ (Nat.two_pow_pos _),
    Nat.div_eq_of_lt hpre, Nat.zero_add, Nat.add_mul_mod_self_left, Nat.mod_eq_of_lt hmid]

end Packing

section Split
variable {fs mid : List Field} {lo n w : Nat} {v : BitVec w} (pre post : List Field)

/-- Bits at a position are the fields found there. -/
theorem bits_fields (hfs : fs = pre ++ mid ++ post) (hlo : width pre = lo) (hn : width mid = n) :
    bits lo n (pack fs) = pack mid := by
  rw [hfs, ← hlo, ← hn]
  exact bits_pack pre mid post

/-- The bits of one field are its value. -/
theorem bits_field {post : List Field} (hfs : fs = pre ++ ⟨w, v⟩ :: post) (hlo : width pre = lo) :
    bits lo w (pack fs) = v.toNat := by
  have hfs : fs = pre ++ [⟨w, v⟩] ++ post := by
    rw [hfs, List.append_assoc, List.singleton_append]
  rw [bits_fields pre post hfs hlo (by simp), pack_cons, pack_nil, Nat.mul_zero, Nat.add_zero]

end Split

end KajijOSta.BitField
