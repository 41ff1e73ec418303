import Mathlib.Data.List.Range
import KajijOSta.Stdlib.String

/-! # Moving blocks

`memmove` copies from the low end where the destination lies below the source, else
from the high end. Either way no byte is written before it is read (`upward_ordered`,
`downward_ordered`), so the block arrives as it was, however the two ranges overlap
(`memmove_moves`). `memcpy` always copies from the low end, and `memset` stores one value
in that order. -/
namespace KajijOSta.Stdlib
open KajijOSta.Program KajijOSta.FlatMemory

/-! ## Addresses -/

section Addresses
variable {a : UInt32} {i j n : Nat}

theorem add_ofNat (a : UInt32) (i j : Nat) :
    a + UInt32.ofNat i + UInt32.ofNat j = a + UInt32.ofNat (i + j) := by
  rw [UInt32.ofNat_add, UInt32.add_assoc]

theorem toNat_add (h : a.toNat + i < UInt32.size) : (a + UInt32.ofNat i).toNat = a.toNat + i := by
  have hi : i < UInt32.size := by omega
  rw [UInt32.toNat_add, UInt32.toNat_ofNat_of_lt' hi]
  exact Nat.mod_eq_of_lt h

end Addresses

/-! ## The moves -/

/-- Byte `k` of a block and where it goes. -/
def byteMove (dest src : UInt32) (k : Nat) : UInt32 × UInt32 :=
  (dest + UInt32.ofNat k, src + UInt32.ofNat k)

/-- The moves of `copyUp` from index `i` on. -/
def upward (dest src : UInt32) (i n : Nat) : List (UInt32 × UInt32) :=
  (List.range' i (n - i)).map (byteMove dest src)

/-- The moves of `copyDown` below index `i`. -/
def downward (dest src : UInt32) (i : Nat) : List (UInt32 × UInt32) :=
  (List.range i).reverse.map (byteMove dest src)

section Moves
variable {dest src : UInt32} {i j n : Nat}

theorem upward_nil (h : n ≤ i) : upward dest src i n = [] := by
  unfold upward
  rw [Nat.sub_eq_zero_of_le h]
  rfl

theorem upward_cons (h : i < n) :
    upward dest src i n = byteMove dest src i :: upward dest src (i + 1) n := by
  unfold upward
  rw [show n - i = n - (i + 1) + 1 by omega, List.range'_succ]
  rfl

theorem downward_succ (dest src : UInt32) (i : Nat) :
    downward dest src (i + 1) = byteMove dest src i :: downward dest src i := by
  unfold downward
  rw [List.range_succ, List.reverse_append]
  rfl

theorem mem_upward {x : UInt32 × UInt32} :
    x ∈ upward dest src 0 n ↔ ∃ k < n, x = byteMove dest src k := by
  unfold upward
  simp [eq_comm]

theorem mem_downward {x : UInt32 × UInt32} :
    x ∈ downward dest src n ↔ ∃ k < n, x = byteMove dest src k := by
  unfold downward
  simp [eq_comm]

variable (hdest : dest.toNat + n ≤ UInt32.size) (hsrc : src.toNat + n ≤ UInt32.size)

include hdest in
theorem dest_ne (hi : i < n) (hj : j < n) (hij : i ≠ j) :
    (byteMove dest src j).1 ≠ (byteMove dest src i).1 := by
  intro he
  have hnat := congrArg UInt32.toNat he
  unfold byteMove at hnat
  rw [toNat_add (by omega), toNat_add (by omega)] at hnat
  omega

include hdest hsrc in
/-- A byte that lies further in the direction of the copy is not overwritten, nor is one
of a block below the destination. -/
theorem src_ne (hi : i < n) (hj : j < n)
    (h : i < j ∧ dest.toNat ≤ src.toNat ∨ j < i ∧ src.toNat ≤ dest.toNat ∨
      src.toNat + n ≤ dest.toNat) :
    (byteMove dest src j).2 ≠ (byteMove dest src i).1 := by
  intro he
  have hnat := congrArg UInt32.toNat he
  unfold byteMove at hnat
  rw [toNat_add (by omega), toNat_add (by omega)] at hnat
  omega

include hdest hsrc in
theorem upward_ordered (h : dest.toNat ≤ src.toNat ∨ src.toNat + n ≤ dest.toNat) :
    Ordered (upward dest src 0 n) := by
  unfold Ordered upward
  rw [List.pairwise_map]
  refine (List.pairwise_lt_range').imp_of_mem fun {i j} hi hj hij => ?_
  have hi' : i < n := by simpa using hi
  have hj' : j < n := by simpa using hj
  refine ⟨dest_ne hdest hi' hj' hij.ne, src_ne hdest hsrc hi' hj' ?_⟩
  rcases h with hle | hbelow
  · exact Or.inl ⟨hij, hle⟩
  · exact Or.inr (Or.inr hbelow)

include hdest hsrc in
theorem downward_ordered (h : src.toNat ≤ dest.toNat) : Ordered (downward dest src n) := by
  unfold Ordered downward
  rw [List.pairwise_map, List.pairwise_reverse]
  refine List.pairwise_lt_range.imp_of_mem fun {j i} hj hi hji => ?_
  have hi' : i < n := List.mem_range.mp hi
  have hj' : j < n := List.mem_range.mp hj
  exact ⟨dest_ne hdest hi' hj' hji.ne', src_ne hdest hsrc hi' hj' (Or.inr (Or.inl ⟨hji, h⟩))⟩

end Moves

/-! ## The loops -/

def Block (a : UInt32) (n : Nat) (x : UInt32) : Prop := ∃ k < n, x = a + UInt32.ofNat k

section Loops
variable (dest src n : UInt32) (m : Ram)

variable {dest src n m} in
/-- Moves from block to block touch the two blocks. -/
theorem touches_blocks {m' : Ram} {l : List (UInt32 × UInt32)}
    (hl : ∀ x ∈ l, ∃ k < n.toNat, x = byteMove dest src k)
    (h : Touches (fun a => ∃ x ∈ l, a = x.1 ∨ a = x.2) m m') :
    Touches (fun a => Block dest n.toNat a ∨ Block src n.toNat a) m m' := by
  refine h.mono fun a ha => ?_
  obtain ⟨x, hx, hax⟩ := ha
  obtain ⟨k, hk, rfl⟩ := hl x hx
  rcases hax with rfl | rfl
  · exact Or.inl ⟨k, hk, rfl⟩
  · exact Or.inr ⟨k, hk, rfl⟩

theorem succ_toNat {i : UInt32} (h : i < n) : (i + 1).toNat = i.toNat + 1 := by
  have hi := UInt32.lt_iff_toNat_lt.mp h
  have hn := n.toNat_lt
  rw [UInt32.toNat_add]
  exact Nat.mod_eq_of_lt (by simp only [UInt32.reduceToNat]; omega)

theorem pred_toNat {i : UInt32} (h : i ≠ 0) : i.toNat = (i - 1).toNat + 1 := by
  have hpos : 0 < i.toNat := Nat.pos_of_ne_zero fun h0 => h (UInt32.toNat_inj.mp h0)
  rw [UInt32.toNat_sub_of_le i 1 (UInt32.le_iff_toNat_le.mpr hpos)]
  exact (Nat.sub_add_cancel hpos).symm

/-- From the low end: the bytes are moved one after the other. -/
theorem copyUp_ends : Ends (copyUp dest src n) m fun _ m' =>
    m'.cell = moves m.cell (upward dest src 0 n.toNat) ∧
    Touches (fun a => Block dest n.toNat a ∨ Block src n.toNat a) m m' := by
  unfold copyUp
  refine (moveLoop_ends (fun i : UInt32 => upward dest src i.toNat n.toNat)
    (fun i hleft => ?_) (fun i x xs hleft => ?_) 0).mono fun _ m' h =>
      ⟨h.1, touches_blocks (fun x hx => mem_upward.mp hx) h.2⟩
  · refine ⟨(), if_neg fun hi => ?_⟩
    rw [upward_cons (UInt32.lt_iff_toNat_lt.mp hi)] at hleft
    cases hleft
  · by_cases hi : i < n
    · rw [upward_cons (UInt32.lt_iff_toNat_lt.mp hi)] at hleft
      cases hleft
      refine ⟨i + 1, by rw [succ_toNat n hi], (if_pos hi).trans ?_⟩
      unfold byteMove
      rw [UInt32.ofNat_toNat]
      rfl
    · rw [upward_nil (Nat.not_lt.mp fun h => hi (UInt32.lt_iff_toNat_lt.mpr h))] at hleft
      cases hleft

/-- From the high end. -/
theorem copyDown_ends : Ends (copyDown dest src n) m fun _ m' =>
    m'.cell = moves m.cell (downward dest src n.toNat) ∧
    Touches (fun a => Block dest n.toNat a ∨ Block src n.toNat a) m m' := by
  unfold copyDown
  refine (moveLoop_ends (fun i : UInt32 => downward dest src i.toNat)
    (fun i hleft => ?_) (fun i x xs hleft => ?_) n).mono fun _ m' h =>
      ⟨h.1, touches_blocks (fun x hx => mem_downward.mp hx) h.2⟩
  · refine ⟨(), if_neg fun hi => hi ?_⟩
    rw [pred_toNat hi, downward_succ] at hleft
    cases hleft
  · by_cases hi : i = 0
    · rw [hi] at hleft
      cases hleft
    · rw [pred_toNat hi, downward_succ] at hleft
      cases hleft
      refine ⟨i - 1, rfl, (if_pos hi).trans ?_⟩
      unfold byteMove
      rw [UInt32.ofNat_toNat]
      rfl

end Loops

/-! ## Filling -/

/-- One value from `pos` to `stop`, and nothing else is changed. -/
structure Filled (v : UInt8) (s : UInt32) (pos stop : Nat) (m m' : Ram) : Prop where
  filled : ∀ j, pos ≤ j → j < stop → m'.cell (s + UInt32.ofNat j) = v
  frame : ∀ a, (∀ j, pos ≤ j → j < stop → a ≠ s + UInt32.ofNat j) → m'.cell a = m.cell a

section Filling
variable {v : UInt8} {s : UInt32} {pos stop : Nat} {m m' m'' : Ram}

theorem Filled.refl (v : UInt8) (s : UInt32) (pos : Nat) (m : Ram) : Filled v s pos pos m m :=
  ⟨fun _ h h' => absurd h' (Nat.not_lt.mpr h), fun _ _ => rfl⟩

theorem Filled.congr (h : Filled v s pos stop m m') (hcell : m''.cell = m'.cell) :
    Filled v s pos stop m m'' :=
  ⟨fun j hj hlt => (congrFun hcell _).trans (h.filled j hj hlt),
    fun a ha => (congrFun hcell a).trans (h.frame a ha)⟩

theorem Filled.succ (h : Filled v s pos stop m m') (hle : pos ≤ stop)
    (hcell : m''.cell = Function.update m'.cell (s + UInt32.ofNat stop) v) :
    Filled v s pos (stop + 1) m m'' := by
  constructor
  · intro j hj hlt
    rw [hcell]
    by_cases he : s + UInt32.ofNat j = s + UInt32.ofNat stop
    · rw [he, Function.update_self]
    · have hne : j ≠ stop := fun h => he (h ▸ rfl)
      rw [Function.update_of_ne he]
      exact h.filled j hj (by omega)
  · intro a ha
    rw [hcell, Function.update_of_ne (ha stop hle (Nat.lt_succ_self stop))]
    exact h.frame a fun j hj hlt => ha j hj (Nat.lt_succ_of_lt hlt)

/-- `memset` fills the block. -/
theorem memset_fills (s : UInt32) (c : Int32) (n : UInt32) (m : Ram) :
    Ends (memset s c n) m fun p m' => p = s ∧
      Filled c.toUInt32.toUInt8 s 0 n.toNat m m' ∧ Touches (Block s n.toNat) m m' := by
  unfold memset
  refine Ends.bind (Q := fun _ m' => Filled c.toUInt32.toUInt8 s 0 n.toNat m m' ∧
    Touches (Block s n.toNat) m m') ?_ fun _ m' h => Ends.pure ⟨rfl, h⟩
  -- `i` bytes are filled, `k` are left
  refine Ends.loop (fun k i m₁ => i.toNat + k = n.toNat ∧
    Filled c.toUInt32.toUInt8 s 0 i.toNat m m₁ ∧ Touches (Block s n.toNat) m m₁)
    (fun k i m₁ hinv => ?_) ⟨Nat.zero_add _, Filled.refl _ s 0 m, Touches.refl m⟩
  obtain ⟨hk, hfilled, htouch⟩ := hinv
  by_cases hi : i < n
  · have hlt := UInt32.lt_iff_toNat_lt.mp hi
    have hsucc := succ_toNat n hi
    have hoff : s + i = s + UInt32.ofNat i.toNat := by rw [UInt32.ofNat_toNat]
    rw [if_pos hi, hoff]
    refine (store_ends (P := Block s n.toNat) ⟨i.toNat, hlt, rfl⟩ _).bind fun _ m₂ hstore => ?_
    obtain ⟨hcell, htouch'⟩ := hstore
    refine Ends.pure (Or.inl ⟨i + 1, k - 1, rfl, by omega, by omega, ?_, htouch.trans htouch'⟩)
    rw [hsucc]
    exact hfilled.succ (Nat.zero_le _) hcell
  · have hstop : i.toNat = n.toNat := by
      have := mt UInt32.lt_iff_toNat_lt.mpr hi
      omega
    rw [if_neg hi]
    exact Ends.pure (Or.inr ⟨(), rfl, hstop ▸ hfilled, htouch⟩)

end Filling

/-! ## The functions -/

/-- What a copy leaves: the block as it was at the source, and all else unchanged. -/
structure Copied (dest src n : UInt32) (m m' : Ram) : Prop where
  copied : ∀ i < n, m'.cell (dest + i) = m.cell (src + i)
  frame : ∀ a, (∀ i < n, a ≠ dest + i) → m'.cell a = m.cell a

section Functions
variable {dest src n : UInt32} {m m' : Ram}

/-- Ordered moves of the bytes of a block copy the block. -/
theorem copied_of_ordered {l : List (UInt32 × UInt32)} (h : Ordered l)
    (hl : ∀ x, x ∈ l ↔ ∃ k < n.toNat, x = byteMove dest src k)
    (hcell : m'.cell = moves m.cell l) : Copied dest src n m m' := by
  constructor
  · intro i hi
    have hmem := (hl (byteMove dest src i.toNat)).mpr ⟨_, UInt32.lt_iff_toNat_lt.mp hi, rfl⟩
    have hmove := moves_of_ordered h m.cell _ hmem
    unfold byteMove at hmove
    rw [UInt32.ofNat_toNat] at hmove
    rw [hcell, hmove]
  · intro a ha
    rw [hcell]
    refine moves_frame (fun x hx => ?_) m.cell
    obtain ⟨k, hk, rfl⟩ := (hl x).mp hx
    have hk' : (UInt32.ofNat k).toNat = k :=
      UInt32.toNat_ofNat_of_lt' (hk.trans n.toNat_lt)
    refine ha (UInt32.ofNat k) (UInt32.lt_iff_toNat_lt.mpr ?_)
    rw [hk']
    exact hk

/-- **`memmove` under overlap.** The block arrives at the destination as it was at the
source, nothing else changes, and nothing outside the two blocks is touched. -/
theorem memmove_moves (m : Ram) (hdest : dest.toNat + n.toNat ≤ UInt32.size)
    (hsrc : src.toNat + n.toNat ≤ UInt32.size) : Ends (memmove dest src n) m fun p m' =>
      p = dest ∧ Copied dest src n m m' ∧
      Touches (fun a => Block dest n.toNat a ∨ Block src n.toNat a) m m' := by
  unfold memmove
  split
  · rename_i hlt
    have hle := (UInt32.lt_iff_toNat_lt.mp hlt).le
    refine (copyUp_ends dest src n m).bind fun _ m' h => Ends.pure ⟨rfl, ?_, h.2⟩
    exact copied_of_ordered (upward_ordered hdest hsrc (Or.inl hle)) (fun x => mem_upward) h.1
  · rename_i hnlt
    have hle := Nat.not_lt.mp fun h => hnlt (UInt32.lt_iff_toNat_lt.mpr h)
    refine (copyDown_ends dest src n m).bind fun _ m' h => Ends.pure ⟨rfl, ?_, h.2⟩
    exact copied_of_ordered (downward_ordered hdest hsrc hle) (fun x => mem_downward) h.1

/-- `memcpy` copies a block that does not overlap the destination, or that it overlaps from
above. -/
theorem memcpy_copies (m : Ram) (hdest : dest.toNat + n.toNat ≤ UInt32.size)
    (hsrc : src.toNat + n.toNat ≤ UInt32.size)
    (h : dest.toNat ≤ src.toNat ∨ src.toNat + n.toNat ≤ dest.toNat) :
    Ends (memcpy dest src n) m fun p m' => p = dest ∧ Copied dest src n m m' ∧
      Touches (fun a => Block dest n.toNat a ∨ Block src n.toNat a) m m' := by
  unfold memcpy
  refine (copyUp_ends dest src n m).bind fun _ m' hcopy => Ends.pure ⟨rfl, ?_, hcopy.2⟩
  exact copied_of_ordered (upward_ordered hdest hsrc h) (fun x => mem_upward) hcopy.1

end Functions

/-- Three bytes two places up, over the last of them. -/
theorem memmove_overlapping : Ends (memmove 0x102 0x100 3) ⟨fun a => a.toUInt8, []⟩
    fun p m' => p = 0x102 ∧ m'.cell 0x102 = 0 ∧ m'.cell 0x103 = 1 ∧ m'.cell 0x104 = 2 ∧
      m'.cell 0x101 = 1 := by
  refine (memmove_moves ⟨fun a => a.toUInt8, []⟩ (by decide) (by decide)).mono fun p m' h => ?_
  obtain ⟨hp, hcopied, _⟩ := h
  refine ⟨hp, hcopied.copied 0 (by decide), hcopied.copied 1 (by decide),
    hcopied.copied 2 (by decide), hcopied.frame 0x101 fun i hi he => ?_⟩
  have hi3 : i.toNat < 3 := UInt32.lt_iff_toNat_lt.mp hi
  have hnat : (0x101 : UInt32).toNat = ((0x102 : UInt32) + i).toNat := congrArg UInt32.toNat he
  simp only [UInt32.toNat_add, UInt32.reduceToNat] at hnat
  omega

end KajijOSta.Stdlib
