import KajijOSta.Fat32.Specs
import KajijOSta.Stdlib.Splitting

/-! # The string functions and their callers

The models of the driver and of the shell have functions of their own for blocks and
strings. In the memory of a program the string functions do the same: `memcmp` compares
the bytes of two blocks as the driver does (`memcmp_refines`), `memcpy` copies as it does
(`memcpy_refines`), and `strcmp` is the `strcmp` of the shell and reads no further than
the second string goes (`strcmp_refines`). -/
namespace KajijOSta.Stdlib
open KajijOSta.Program KajijOSta.FlatMemory

/-! ## Blocks -/

def AgreeBelow (m : Ram) (s1 s2 : UInt32) (k : Nat) : Prop :=
  ∀ j < k, m.cell (s1 + UInt32.ofNat j) = m.cell (s2 + UInt32.ofNat j)

/-- The sign of the first difference of two blocks. -/
inductive Sign (m : Ram) (s1 s2 : UInt32) (n : Nat) : Int32 → Prop
  | equal (h : AgreeBelow m s1 s2 n) : Sign m s1 s2 n 0
  | less {i : Nat} (hi : i < n) (h : AgreeBelow m s1 s2 i)
      (hlt : m.cell (s1 + UInt32.ofNat i) < m.cell (s2 + UInt32.ofNat i)) : Sign m s1 s2 n (-1)
  | greater {i : Nat} (hi : i < n) (h : AgreeBelow m s1 s2 i)
      (hlt : m.cell (s2 + UInt32.ofNat i) < m.cell (s1 + UInt32.ofNat i)) : Sign m s1 s2 n 1

section Blocks
variable {m : Ram} {s1 s2 : UInt32} {n k : Nat} {r : Int32}

theorem AgreeBelow.succ (h : AgreeBelow m s1 s2 k)
    (hk : m.cell (s1 + UInt32.ofNat k) = m.cell (s2 + UInt32.ofNat k)) :
    AgreeBelow m s1 s2 (k + 1) := by
  intro j hj
  rcases Nat.lt_succ_iff_lt_or_eq.mp hj with hlt | rfl
  · exact h j hlt
  · exact hk

/-- `memcmp` returns the sign of the first difference. -/
theorem memcmp_sign (s1 s2 n : UInt32) (m : Ram) : Ends (memcmp s1 s2 n) m fun r m' =>
    Sign m s1 s2 n.toNat r ∧ Reads (fun a => Block s1 n.toNat a ∨ Block s2 n.toNat a) m m' := by
  unfold memcmp
  -- `i` bytes agree, `k` are left
  refine Ends.loop (fun k i m₁ => i.toNat + k = n.toNat ∧ AgreeBelow m s1 s2 i.toNat ∧
    Reads (fun a => Block s1 n.toNat a ∨ Block s2 n.toNat a) m m₁)
    (fun k i m₁ hinv => ?_)
    ⟨Nat.zero_add _, fun j hj => absurd hj (Nat.not_lt_zero j), Reads.refl m⟩
  obtain ⟨hk, hagree, hreads⟩ := hinv
  by_cases hi : i < n
  · have hlt := UInt32.lt_iff_toNat_lt.mp hi
    have hoff1 : s1 + i = s1 + UInt32.ofNat i.toNat := by rw [UInt32.ofNat_toNat]
    have hoff2 : s2 + i = s2 + UInt32.ofNat i.toNat := by rw [UInt32.ofNat_toNat]
    rw [if_pos hi, hoff1, hoff2]
    refine (load_ends (P := fun a => Block s1 n.toNat a ∨ Block s2 n.toNat a)
      (Or.inl ⟨i.toNat, hlt, rfl⟩)).bind fun b1 m₂ hload => ?_
    refine (load_ends (P := fun a => Block s1 n.toNat a ∨ Block s2 n.toNat a)
      (Or.inr ⟨i.toNat, hlt, rfl⟩)).bind fun b2 m₃ hload' => ?_
    obtain ⟨hb1, hreads1⟩ := hload
    obtain ⟨hb2, hreads2⟩ := hload'
    have hall := (hreads.trans hreads1).trans hreads2
    rw [hreads.1] at hb1
    rw [hreads1.1, hreads.1] at hb2
    subst hb1 hb2
    split
    · rename_i hless
      exact Ends.pure (Or.inr ⟨-1, rfl, Sign.less hlt hagree hless, hall⟩)
    · rename_i hnless
      split
      · rename_i hgreater
        exact Ends.pure (Or.inr ⟨1, rfl, Sign.greater hlt hagree hgreater, hall⟩)
      · rename_i hngreater
        have hsame := UInt8.le_antisymm (UInt8.not_lt.mp hngreater) (UInt8.not_lt.mp hnless)
        refine Ends.pure (Or.inl ⟨i + 1, k - 1, rfl, by omega, ?_, ?_, hall⟩)
        · rw [succ_toNat n hi]
          omega
        · rw [succ_toNat n hi]
          exact hagree.succ hsame
  · have hstop : i.toNat = n.toNat := by
      have := mt UInt32.lt_iff_toNat_lt.mpr hi
      omega
    rw [if_neg hi]
    exact Ends.pure (Or.inr ⟨0, rfl, Sign.equal (hstop ▸ hagree), hreads⟩)

def bytesAt (m : Ram) (a : UInt32) (n : Nat) : Fin n → UInt8 := fun i => m.cell (a + UInt32.ofNat i)

/-- The driver's comparison stops at the first difference. -/
theorem memcmp_difference {f g : Fin n → UInt8} (i : Fin n) (h : ∀ j < i, f j = g j) :
    (f i < g i → Fat32.memcmp f g = -1) ∧ (g i < f i → Fat32.memcmp f g = 1) := by
  induction n with
  | zero => exact i.elim0
  | succ n ih =>
    unfold Fat32.memcmp
    cases i using Fin.cases with
    | zero =>
      refine ⟨fun hlt => if_pos hlt, fun hlt => ?_⟩
      rw [if_neg (UInt8.lt_asymm hlt), if_pos hlt]
    | succ i =>
      rw [h 0 (Fin.succ_pos i), if_neg (UInt8.lt_irrefl _), if_neg (UInt8.lt_irrefl _)]
      exact ih i fun j hj => h j.succ (Fin.succ_lt_succ_iff.mpr hj)

theorem Sign.toInt_eq (h : Sign m s1 s2 n r) :
    r.toInt = Fat32.memcmp (bytesAt m s1 n) (bytesAt m s2 n) := by
  cases h with
  | equal h => exact (Fat32.memcmp_eq_zero.mpr (funext fun i => h i i.isLt)).symm
  | @less i hi h hlt => exact ((memcmp_difference ⟨i, hi⟩ fun j hj => h j hj).1 hlt).symm
  | @greater i hi h hlt => exact ((memcmp_difference ⟨i, hi⟩ fun j hj => h j hj).2 hlt).symm

/-- `memcmp` compares the bytes of the blocks as the driver does. -/
theorem memcmp_refines (s1 s2 n : UInt32) (m : Ram) : Ends (memcmp s1 s2 n) m fun r m' =>
    r.toInt = Fat32.memcmp (bytesAt m s1 n.toNat) (bytesAt m s2 n.toNat) ∧ m'.cell = m.cell :=
  (memcmp_sign s1 s2 n m).mono fun _ _ h => ⟨h.1.toInt_eq, h.2.1⟩

def view (m : Ram) (a : UInt32) : Fat32.Memory := fun i => m.cell (a + UInt32.ofNat i)

/-- `memcpy` leaves the buffer of the destination as the driver's copy does. -/
theorem memcpy_refines {dest src n : UInt32} (m : Ram)
    (hdest : dest.toNat + n.toNat ≤ UInt32.size) (hsrc : src.toNat + n.toNat ≤ UInt32.size)
    (h : dest.toNat ≤ src.toNat ∨ src.toNat + n.toNat ≤ dest.toNat) :
    Ends (memcpy dest src n) m fun _ m' => ∀ i, dest.toNat + i < UInt32.size →
      view m' dest i = Fat32.memcpy (view m dest) 0 (view m src) 0 n.toNat i := by
  refine (memcpy_copies m hdest hsrc h).mono fun _ m' hcopy i hi => ?_
  obtain ⟨_, hcopied, _⟩ := hcopy
  have hnat : (UInt32.ofNat i).toNat = i := UInt32.toNat_ofNat_of_lt' (by omega)
  rw [Fat32.memcpy_apply]
  by_cases hlt : i < n.toNat
  · rw [if_pos ⟨Nat.zero_le i, by omega⟩, Nat.sub_zero, Nat.zero_add]
    exact hcopied.copied _ (UInt32.lt_iff_toNat_lt.mpr (hnat.symm ▸ hlt))
  · rw [if_neg (by omega)]
    refine hcopied.frame _ fun k hk he => hlt ?_
    rw [UInt32.add_right_inj] at he
    rw [← hnat, he]
    exact UInt32.lt_iff_toNat_lt.mp hk

end Blocks

/-! ## Strings -/

section Strings
variable {m : Ram} {s1 s2 : UInt32} {chars : List UInt8}

@[simp] theorem view_zero (m : Ram) (a : UInt32) : view m a 0 = m.cell a :=
  congrArg m.cell (UInt32.add_zero a)

theorem view_from_one (m : Ram) (a : UInt32) : (view m a).from 1 = view m (a + 1) :=
  funext fun i => congrArg m.cell (add_ofNat a 1 i).symm

/-- The byte at a string is its first character, or the terminator. -/
theorem IsString.head (h : IsString m s2 chars) : m.cell s2 = chars.headD 0 := by
  rw [← view_zero m s2]
  cases chars with
  | nil => exact h.terminated
  | cons c cs => exact h.byte rfl

theorem IsString.tail {c : UInt8} (h : IsString m s2 (c :: chars)) :
    IsString m (s2 + 1) chars := by
  have hoff : ∀ i, s2 + 1 + UInt32.ofNat i = s2 + UInt32.ofNat (i + 1) := by
    intro i
    rw [Nat.add_comm]
    exact add_ofNat s2 1 i
  refine ⟨(List.ne_and_not_mem_of_not_mem_cons h.nonzero).2, fun {i b} hb => ?_, ?_⟩
  · rw [hoff]
    exact h.byte hb
  · rw [hoff]
    exact h.terminated

/-- Where the loop goes on, so does the comparison of the shell. -/
theorem strcmp_next {V : Fat32.Memory} (h0 : V 0 ≠ 0) (h : V 0 = chars.headD 0) :
    ∃ c cs, chars = c :: cs ∧ Shell.strcmp V chars = Shell.strcmp (V.from 1) cs := by
  cases chars with
  | nil => exact absurd h h0
  | cons c cs =>
    refine ⟨c, cs, rfl, ?_⟩
    have hc : V 0 = c := h
    simp [Shell.strcmp, hc]

/-- Where it stops, the two bytes tell. -/
theorem strcmp_stop {V : Fat32.Memory} (hz : 0 ∉ chars) (h : V 0 ≠ 0 → V 0 ≠ chars.headD 0) :
    Shell.strcmp V chars = true ↔ V 0 = 0 ∧ chars.headD 0 = 0 := by
  cases chars with
  | nil => simp [Shell.strcmp]
  | cons c cs =>
    have hc : c ≠ 0 := (List.ne_and_not_mem_of_not_mem_cons hz).1.symm
    have hne : V 0 ≠ c := by
      by_cases h0 : V 0 = 0
      · rw [h0]
        exact hc.symm
      · exact h h0
    simp [Shell.strcmp, hne, hc]

/-- The two strings up to their terminators, were they of one length. -/
def Alongside (s1 s2 : UInt32) (n : Nat) (a : UInt32) : Prop :=
  Block s1 (n + 1) a ∨ Block s2 (n + 1) a

/-- The loop stops where the bytes decide. -/
theorem skipCommon_ends (h : IsString m s2 chars) : Ends (skipCommon s1 s2) m fun p m' =>
    (Shell.strcmp (view m s1) chars = true ↔ m.cell p.1 = 0 ∧ m.cell p.2 = 0) ∧
    Alongside s1 s2 chars.length p.1 ∧ Alongside s1 s2 chars.length p.2 ∧
    Reads (Alongside s1 s2 chars.length) m m' := by
  unfold skipCommon
  -- `cs` is still to be compared
  refine Ends.loop (fun k p m₁ => ∃ cs, cs.length = k ∧ k ≤ chars.length ∧
    p = (s1 + UInt32.ofNat (chars.length - k), s2 + UInt32.ofNat (chars.length - k)) ∧
    IsString m p.2 cs ∧ Shell.strcmp (view m p.1) cs = Shell.strcmp (view m s1) chars ∧
    Reads (Alongside s1 s2 chars.length) m m₁) (fun k p m₁ hinv => ?_)
    ⟨chars, rfl, le_refl _, ?_, h, rfl, Reads.refl m⟩
  · obtain ⟨cs, rfl, hle, hp, hstring, hcmp, hreads⟩ := hinv
    have hp1 : Alongside s1 s2 chars.length p.1 := Or.inl ⟨_, by omega, congrArg Prod.fst hp⟩
    have hp2 : Alongside s1 s2 chars.length p.2 := Or.inr ⟨_, by omega, congrArg Prod.snd hp⟩
    have hstop : (m.cell p.1 ≠ 0 → m.cell p.1 ≠ m.cell p.2) →
        (Shell.strcmp (view m s1) chars = true ↔ m.cell p.1 = 0 ∧ m.cell p.2 = 0) := by
      intro hne
      rw [hstring.head, ← view_zero] at hne ⊢
      rw [← hcmp]
      exact strcmp_stop hstring.nonzero hne
    refine (load_ends hp1).bind fun c1 m₂ hload => ?_
    obtain ⟨hc1, hreads1⟩ := hload
    rw [hreads.1] at hc1
    subst hc1
    split
    · rename_i hzero
      exact Ends.pure (Or.inr ⟨p, rfl, hstop fun hne => absurd hzero hne, hp1, hp2,
        hreads.trans hreads1⟩)
    · rename_i hzero
      refine (load_ends hp2).bind fun c2 m₃ hload' => ?_
      obtain ⟨hc2, hreads2⟩ := hload'
      rw [hreads1.1, hreads.1] at hc2
      subst hc2
      have hall := (hreads.trans hreads1).trans hreads2
      split
      · rename_i hsame
        rw [hstring.head, ← view_zero] at hsame
        have hfirst : view m p.1 0 ≠ 0 := fun h0 => hzero ((view_zero m p.1).symm.trans h0)
        obtain ⟨c, rest, rfl, hnext⟩ := strcmp_next hfirst hsame
        rw [List.length_cons] at hle hp ⊢
        refine Ends.pure (Or.inl ⟨_, rest.length, rfl, Nat.lt_succ_self _, rest, rfl, by omega, ?_,
          hstring.tail, ?_, hall⟩)
        · rw [hp, next_offset, next_offset,
            show chars.length - (rest.length + 1) + 1 = chars.length - rest.length by omega]
        · rw [← hcmp, hnext, view_from_one]
      · rename_i hdiffer
        exact Ends.pure (Or.inr ⟨p, rfl, hstop fun _ => hdiffer, hp1, hp2, hall⟩)
  · rw [Nat.sub_self]
    exact Prod.ext (UInt32.add_zero s1).symm (UInt32.add_zero s2).symm

/-- `strcmp` compares as the shell's does, and reads no further than the second string
goes. -/
theorem strcmp_refines (h : IsString m s2 chars) : Ends (strcmp s1 s2) m fun r m' =>
    r = (if Shell.strcmp (view m s1) chars then 1 else 0) ∧
    Reads (Alongside s1 s2 chars.length) m m' := by
  unfold strcmp
  refine (skipCommon_ends h).bind fun p m₁ hskip => ?_
  obtain ⟨hdecides, hp1, hp2, hreads⟩ := hskip
  refine (load_ends hp1).bind fun c1 m₂ hload => ?_
  obtain ⟨hc1, hreads1⟩ := hload
  rw [hreads.1] at hc1
  subst hc1
  by_cases h1 : m.cell p.1 = 0
  · rw [if_pos h1]
    refine (load_ends hp2).bind fun c2 m₃ hload' => ?_
    obtain ⟨hc2, hreads2⟩ := hload'
    rw [hreads1.1, hreads.1] at hc2
    subst hc2
    have hall := (hreads.trans hreads1).trans hreads2
    by_cases h2 : m.cell p.2 = 0
    · rw [if_pos h2, if_pos (hdecides.mpr ⟨h1, h2⟩)]
      exact Ends.pure ⟨rfl, hall⟩
    · rw [if_neg h2, if_neg fun he => h2 (hdecides.mp he).2]
      exact Ends.pure ⟨rfl, hall⟩
  · rw [if_neg h1, if_neg fun he => h1 (hdecides.mp he).1]
    exact Ends.pure ⟨rfl, hreads.trans hreads1⟩

end Strings

end KajijOSta.Stdlib
