import KajijOSta.Stdlib.Moving
import KajijOSta.Terminal.Strings

/-! # Splitting a string in place

`get_string` in the memory of a program does what `Terminal.getString` does to the
array (`getString_refines`). On a string it returns the field between the blanks, and
touches nothing behind the terminator (`getString_splits`). -/
namespace KajijOSta.Stdlib
open KajijOSta.Program KajijOSta.FlatMemory
open KajijOSta.Terminal (blank fields fieldStart FieldAt scanWord)

/-! ## Arrays in memory -/

/-- The bytes of an array lie at `s`. -/
structure ArrayAt (m : Ram) (s : UInt32) (l : List UInt8) : Prop where
  fits : l.length ≤ UInt32.size
  byte : ∀ {i b}, l[i]? = some b → m.cell (s + UInt32.ofNat i) = b

section Arrays
variable {m m' m'' : Ram} {s : UInt32} {l : List UInt8} {n i j : Nat}

theorem ArrayAt.reads (h : ArrayAt m s l) (hr : Reads (Block s n) m m') : ArrayAt m' s l :=
  ⟨h.fits, fun hb => (congrFun hr.1 _).trans (h.byte hb)⟩

theorem block_of_getElem? {b : UInt8} (hb : l[i]? = some b) :
    Block s l.length (s + UInt32.ofNat i) :=
  ⟨i, (List.getElem?_eq_some_iff.mp hb).1, rfl⟩

theorem ArrayAt.load_ends (h : ArrayAt m s l) {b : UInt8} (hb : l[i]? = some b) :
    Ends (load (s + UInt32.ofNat i)) m fun c m' => c = b ∧ Reads (Block s l.length) m m' := by
  refine (FlatMemory.load_ends (block_of_getElem? hb)).mono fun c m' hload => ?_
  exact ⟨hload.1.trans (h.byte hb), hload.2⟩

/-- The bytes of an array have different addresses. -/
theorem offset_inj (hi : i < UInt32.size) (hj : j < UInt32.size)
    (h : s + UInt32.ofNat i = s + UInt32.ofNat j) : i = j := by
  have hnat := congrArg UInt32.toNat ((UInt32.add_right_inj s).mp h)
  rwa [UInt32.toNat_ofNat_of_lt' hi, UInt32.toNat_ofNat_of_lt' hj] at hnat

theorem next_offset (s : UInt32) (i : Nat) :
    s + UInt32.ofNat i + 1 = s + UInt32.ofNat (i + 1) := add_ofNat s i 1

end Arrays

/-! ## The scans of an array -/

section Scans
variable {l u : List UInt8} {n : Nat}

/-- Where the scan for a blank or a zero stops. -/
theorem scanWord_some (h : scanWord l = some n) :
    (∀ j < n, ∃ b, l[j]? = some b ∧ b ≠ blank ∧ b ≠ 0) ∧
    ∃ b, l[n]? = some b ∧ (b = blank ∨ b = 0) := by
  induction l generalizing n with
  | nil => cases h
  | cons c l ih =>
    unfold scanWord at h
    by_cases hc : c ≠ blank ∧ c ≠ 0
    · rw [if_pos hc] at h
      obtain ⟨k, hk, rfl⟩ := Option.map_eq_some_iff.mp h
      obtain ⟨hword, hend⟩ := ih hk
      refine ⟨fun j hj => ?_, hend⟩
      cases j with
      | zero => exact ⟨c, rfl, hc⟩
      | succ j => exact hword j (Nat.lt_of_succ_lt_succ hj)
    · rw [if_neg hc] at h
      cases h
      refine ⟨fun j hj => absurd hj (Nat.not_lt_zero j), c, rfl, ?_⟩
      rw [not_and_or, not_not, not_not] at hc
      exact hc

/-- What the last loop leaves. -/
theorem zeroRest_some (h : Terminal.zeroRest l = some u) : ∃ n,
    (∀ j < n, ∃ b, l[j]? = some b ∧ b ≠ 0) ∧ l[n]? = some 0 ∧
    u = List.replicate n 0 ++ l.drop n := by
  induction l generalizing u with
  | nil => cases h
  | cons c l ih =>
    unfold Terminal.zeroRest at h
    by_cases hc : c ≠ 0
    · rw [if_pos hc] at h
      obtain ⟨v, hv, rfl⟩ := Option.map_eq_some_iff.mp h
      obtain ⟨n, hword, hend, rfl⟩ := ih hv
      refine ⟨n + 1, fun j hj => ?_, hend, rfl⟩
      cases j with
      | zero => exact ⟨c, rfl, hc⟩
      | succ j => exact hword j (Nat.lt_of_succ_lt_succ hj)
    · rw [if_neg hc] at h
      cases h
      exact ⟨0, fun j hj => absurd hj (Nat.not_lt_zero j), congrArg some (not_not.mp hc), rfl⟩

end Scans

/-! ## The loops -/

section Loops
variable {m : Ram} {s : UInt32} {l : List UInt8} {pos n : Nat}

/-- The pointer stops at the blank or the zero behind the word. -/
theorem skipWord_ends (h : ArrayAt m s l) (hscan : scanWord (l.drop pos) = some n) :
    Ends (skipWord (s + UInt32.ofNat pos)) m fun p m' =>
      p = s + UInt32.ofNat (pos + n) ∧ Reads (Block s l.length) m m' := by
  obtain ⟨hword, b, hb, hstop⟩ := scanWord_some hscan
  rw [List.getElem?_drop] at hb
  unfold skipWord
  -- `k` bytes of the word are still to come
  refine Ends.loop (fun k p m₁ => k ≤ n ∧ p = s + UInt32.ofNat (pos + (n - k)) ∧
    Reads (Block s l.length) m m₁) (fun k p m₁ hinv => ?_)
    ⟨le_refl n, by rw [Nat.sub_self, Nat.add_zero], Reads.refl m⟩
  obtain ⟨hk, rfl, hreads⟩ := hinv
  cases k with
  | zero =>
    refine ((h.reads hreads).load_ends hb).bind fun c m₂ hload => ?_
    obtain ⟨rfl, hreads'⟩ := hload
    have hexit : ¬ (c ≠ 0x20 ∧ c ≠ 0) := by
      rw [not_and_or, not_not, not_not]
      exact hstop
    rw [if_neg hexit]
    exact Ends.pure (Or.inr ⟨_, rfl, rfl, hreads.trans hreads'⟩)
  | succ k =>
    obtain ⟨c, hc, hblank, hzero⟩ := hword (n - (k + 1)) (by omega)
    rw [List.getElem?_drop] at hc
    refine ((h.reads hreads).load_ends hc).bind fun c' m₂ hload => ?_
    obtain ⟨rfl, hreads'⟩ := hload
    rw [if_pos ⟨hblank, hzero⟩]
    refine Ends.pure (Or.inl ⟨_, k, rfl, Nat.lt_succ_self k, by omega, ?_, hreads.trans hreads'⟩)
    rw [next_offset, show pos + (n - (k + 1)) + 1 = pos + (n - k) by omega]

/-- The loop over the index ends at a field, or at the zero before it. -/
theorem seekField_ends (h : ArrayAt m s l) {idx : UInt8} {r : Option Nat}
    (hr : Terminal.seekField idx.toNat l = some r) : Ends (seekField s idx) m fun p m' =>
      p = r.map (fun start => s + UInt32.ofNat start) ∧ Reads (Block s l.length) m m' := by
  unfold seekField
  -- from `pos` on the field is number `k`
  refine Ends.loop (fun k x m₁ => x.2.toNat = k ∧ (∃ pos, x.1 = s + UInt32.ofNat pos ∧
      (Terminal.seekField k (l.drop pos)).map (fun start => start.map (pos + ·)) = some r) ∧
    Reads (Block s l.length) m m₁) (fun k x m₁ hinv => ?_)
    ⟨rfl, ⟨0, (UInt32.add_zero s).symm, ?_⟩, Reads.refl m⟩
  · obtain ⟨hk, ⟨pos, hx, hseek⟩, hreads⟩ := hinv
    cases k with
    | zero =>
      rw [if_pos (UInt8.toNat_inj.mp hk)]
      cases hseek
      exact Ends.pure (Or.inr ⟨_, rfl, congrArg some hx, hreads⟩)
    | succ k =>
      have hne : x.2 ≠ 0 := fun h0 => Nat.succ_ne_zero k (hk.symm.trans (congrArg UInt8.toNat h0))
      rw [if_neg hne]
      unfold Terminal.seekField at hseek
      cases hscan : scanWord (l.drop pos) with
      | none =>
        rw [hscan] at hseek
        cases hseek
      | some n =>
        simp only [hscan] at hseek
        rw [hx]
        refine (skipWord_ends (h.reads hreads) hscan).bind fun p m₂ hskip => ?_
        obtain ⟨rfl, hreads'⟩ := hskip
        obtain ⟨_, b, hb, hstop⟩ := scanWord_some hscan
        rw [List.getElem?_drop] at hb
        have hget : (l.drop pos).getD n 0 = b := by
          rw [List.getD_eq_getElem?_getD, List.getElem?_drop, hb]
          rfl
        rw [hget] at hseek
        refine ((h.reads (hreads.trans hreads')).load_ends hb).bind fun c m₃ hload => ?_
        obtain ⟨rfl, hreads''⟩ := hload
        have hall := (hreads.trans hreads').trans hreads''
        by_cases hzero : c = 0
        · rw [if_pos hzero] at hseek ⊢
          cases hseek
          exact Ends.pure (Or.inr ⟨none, rfl, rfl, hall⟩)
        · rw [if_neg hzero, Option.map_map, List.drop_drop] at hseek
          rw [if_neg hzero]
          refine Ends.pure (Or.inl ⟨_, k, rfl, Nat.lt_succ_self k, ?_,
            ⟨pos + (n + 1), next_offset s (pos + n), ?_⟩, hall⟩)
          · have hpos : 1 ≤ x.2 := UInt8.le_iff_toNat_le.mpr (hk ▸ Nat.succ_pos k)
            rw [UInt8.toNat_sub_of_le _ _ hpos, hk]
            rfl
          · rw [← hseek]
            refine congrArg (fun f => Option.map f _) (funext fun start => ?_)
            rw [Function.comp_apply, Option.map_map]
            exact congrArg (fun f => Option.map f start) (funext fun j => Nat.add_assoc _ _ _)
  · rw [List.drop_zero, hr]
    cases r with
    | none => rfl
    | some start => exact congrArg (fun k => some (some k)) (Nat.zero_add start)

/-- The last loop zeroes the bytes up to the terminator. -/
theorem zeroRest_ends (h : ArrayAt m s l) (hword : ∀ j < n, ∃ b, l[pos + j]? = some b ∧ b ≠ 0)
    (hend : l[pos + n]? = some 0) : Ends (zeroRest (s + UInt32.ofNat pos)) m fun _ m' =>
      Filled 0 s pos (pos + n) m m' ∧ Touches (Block s l.length) m m' := by
  have hfits := h.fits
  have hlen := (List.getElem?_eq_some_iff.mp hend).1
  unfold zeroRest
  -- `k` bytes are still to be zeroed
  refine Ends.loop (fun k p m₁ => k ≤ n ∧ p = s + UInt32.ofNat (pos + (n - k)) ∧
    Filled 0 s pos (pos + (n - k)) m m₁ ∧ Touches (Block s l.length) m m₁)
    (fun k p m₁ hinv => ?_) ⟨le_refl n, ?_, ?_, Touches.refl m⟩
  · obtain ⟨hk, rfl, hzeroed, htouch⟩ := hinv
    -- the byte the pointer stands at is still the one of the array
    have hkeep : ∀ b, l[pos + (n - k)]? = some b →
        m₁.cell (s + UInt32.ofNat (pos + (n - k))) = b := by
      intro b hb
      rw [hzeroed.frame _ fun j hj hlt he => ?_, h.byte hb]
      have := offset_inj (by omega) (by omega) he
      omega
    have hblock : Block s l.length (s + UInt32.ofNat (pos + (n - k))) := ⟨_, by omega, rfl⟩
    refine (FlatMemory.load_ends hblock).bind fun c m₂ hload => ?_
    obtain ⟨rfl, hcell, htouch'⟩ := hload
    cases k with
    | zero =>
      rw [hkeep 0 hend, if_neg (not_not.mpr rfl)]
      exact Ends.pure (Or.inr ⟨(), rfl, hzeroed.congr hcell, htouch.trans htouch'⟩)
    | succ k =>
      obtain ⟨b, hb, hzero⟩ := hword (n - (k + 1)) (by omega)
      rw [hkeep b hb, if_pos hzero]
      refine (store_ends hblock 0).bind fun _ m₃ hstore => ?_
      obtain ⟨hcell', htouch''⟩ := hstore
      rw [hcell] at hcell'
      have hstep := hzeroed.succ (Nat.le_add_right pos _) hcell'
      have hpos : pos + (n - (k + 1)) + 1 = pos + (n - k) := by omega
      rw [hpos] at hstep
      refine Ends.pure (Or.inl ⟨_, k, rfl, Nat.lt_succ_self k, by omega, ?_, hstep,
        (htouch.trans htouch').trans htouch''⟩)
      rw [next_offset, hpos]
  · rw [Nat.sub_self, Nat.add_zero]
  · rw [Nat.sub_self, Nat.add_zero]
    exact Filled.refl 0 s pos m

end Loops

/-! ## The function -/

section Function
variable {m m' : Ram} {s : UInt32} {l l' : List UInt8} {chars w : List UInt8} {idx : UInt8}

theorem zeroed_getElem? {pos n i : Nat} (h : pos + n ≤ l.length) :
    (l.take pos ++ (List.replicate n 0 ++ l.drop (pos + n)))[i]? =
      if pos ≤ i ∧ i < pos + n then some 0 else l[i]? := by
  rw [List.getElem?_append, List.getElem?_append, List.length_take, List.length_replicate,
    List.getElem?_take, List.getElem?_replicate, List.getElem?_drop, Nat.min_eq_left (by omega)]
  by_cases hlt : i < pos
  · rw [if_pos hlt, if_pos hlt, if_neg (by omega)]
  · rw [if_neg hlt]
    by_cases hlt' : i - pos < n
    · rw [if_pos hlt', if_pos hlt', if_pos (by omega)]
    · rw [if_neg hlt', if_neg (by omega), show pos + n + (i - pos - n) = i by omega]

/-- The array with the zeros in it. -/
theorem ArrayAt.zeroed (h : ArrayAt m s l) {pos n : Nat} (hz : Filled 0 s pos (pos + n) m m')
    (hlen : pos + n ≤ l.length) :
    ArrayAt m' s (l.take pos ++ (List.replicate n 0 ++ l.drop (pos + n))) := by
  have hfits := h.fits
  have hlength : (l.take pos ++ (List.replicate n 0 ++ l.drop (pos + n))).length = l.length := by
    rw [List.length_append, List.length_append, List.length_take, List.length_replicate,
      List.length_drop]
    omega
  refine ⟨hlength ▸ hfits, fun {i b} hb => ?_⟩
  have hi : i < l.length := hlength ▸ (List.getElem?_eq_some_iff.mp hb).1
  rw [zeroed_getElem? hlen] at hb
  by_cases hin : pos ≤ i ∧ i < pos + n
  · rw [if_pos hin] at hb
    cases hb
    exact hz.filled i hin.1 hin.2
  · rw [if_neg hin] at hb
    rw [hz.frame _ fun j hj hlt he => hin ?_, h.byte hb]
    obtain rfl : i = j := offset_inj (by omega) (by omega) he
    exact ⟨hj, hlt⟩

/-- **Of the array.** Where the splitter of an array stays in it, `get_string` returns the
same place, leaves the same bytes, and touches no others. -/
theorem getString_refines {r : Option Nat} (h : ArrayAt m s l)
    (hr : Terminal.getString l idx = some (r, l')) : Ends (getString s idx) m fun p m' =>
      p = r.map (fun start => s + UInt32.ofNat start) ∧ ArrayAt m' s l' ∧
      (r = none → m'.cell = m.cell) ∧
      (∀ a, ¬ Block s l.length a → m'.cell a = m.cell a) ∧
      Touches (Block s l.length) m m' := by
  unfold Terminal.getString at hr
  cases hseek : Terminal.seekField idx.toNat l with
  | none =>
    rw [hseek] at hr
    cases hr
  | some r' =>
    rw [hseek] at hr
    unfold getString
    refine (seekField_ends h hseek).bind fun p m₁ hfound => ?_
    obtain ⟨rfl, hreads⟩ := hfound
    cases r' with
    | none =>
      cases hr
      exact Ends.pure ⟨rfl, h.reads hreads, fun _ => hreads.1, fun a _ => congrFun hreads.1 a,
        hreads.2⟩
    | some start =>
      cases hscan : scanWord (l.drop start) with
      | none =>
        simp only [hscan] at hr
        cases hr
      | some n =>
        simp only [hscan] at hr
        obtain ⟨u, hu, he⟩ := Option.map_eq_some_iff.mp hr
        cases he
        obtain ⟨k, hword, hend, rfl⟩ := zeroRest_some hu
        simp only [List.getElem?_drop] at hword hend
        refine (skipWord_ends (h.reads hreads) hscan).bind fun p m₂ hskip => ?_
        obtain ⟨rfl, hreads'⟩ := hskip
        have hall := hreads.trans hreads'
        have hlen := (List.getElem?_eq_some_iff.mp hend).1
        refine (zeroRest_ends (h.reads hall) hword hend).bind fun _ m₃ hzero => Ends.pure ?_
        obtain ⟨hzeroed, htouch⟩ := hzero
        refine ⟨rfl, ?_, nofun, fun a ha => ?_, hall.2.trans htouch⟩
        · rw [List.drop_drop]
          exact (h.reads hall).zeroed hzeroed hlen.le
        · refine (hzeroed.frame a fun j _ hlt he => ha ⟨j, by omega, he⟩).trans ?_
          exact congrFun hall.1 a

end Function

/-! ## Strings -/

/-- The bytes at `s`, up to the first zero. -/
structure IsString (m : Ram) (s : UInt32) (chars : List UInt8) : Prop where
  nonzero : 0 ∉ chars
  byte : ∀ {i b}, chars[i]? = some b → m.cell (s + UInt32.ofNat i) = b
  terminated : m.cell (s + UInt32.ofNat chars.length) = 0

/-- Of the string the bytes before the field at `start` and the field `w` are as they were,
and from the end of the field to the terminator there are zeros. -/
structure FieldLeft (m m' : Ram) (s : UInt32) (chars : List UInt8) (start : Nat)
    (w : List UInt8) : Prop where
  before : ∀ j < start, m'.cell (s + UInt32.ofNat j) = m.cell (s + UInt32.ofNat j)
  field : ∀ j b, w[j]? = some b → m.cell (s + UInt32.ofNat (start + j)) = b ∧
    m'.cell (s + UInt32.ofNat (start + j)) = b
  zeroed : ∀ j, start + w.length ≤ j → j ≤ chars.length → m'.cell (s + UInt32.ofNat j) = 0

section Strings
variable {m m' : Ram} {s : UInt32} {chars w : List UInt8}

/-- A string is shorter than the memory, as it does not run over its own terminator. -/
theorem IsString.length_lt (h : IsString m s chars) : chars.length < UInt32.size := by
  by_contra hge
  have hlt : chars.length % UInt32.size < chars.length :=
    Nat.lt_of_lt_of_le (Nat.mod_lt _ (by decide)) (Nat.not_lt.mp hge)
  have hbyte := h.byte (List.getElem?_eq_getElem hlt)
  have hmod : UInt32.ofNat (chars.length % UInt32.size) = UInt32.ofNat chars.length :=
    UInt32.ofNat_mod_size
  rw [hmod, h.terminated] at hbyte
  exact h.nonzero (hbyte ▸ List.getElem_mem hlt)

theorem IsString.arrayAt (h : IsString m s chars) : ArrayAt m s (chars ++ [0]) := by
  have hlen := h.length_lt
  refine ⟨by rw [List.length_append]; exact hlen, fun {i b} hb => ?_⟩
  rcases Nat.lt_trichotomy i chars.length with hlt | rfl | hgt
  · rw [List.getElem?_append_left hlt] at hb
    exact h.byte hb
  · rw [List.getElem?_concat_length] at hb
    cases hb
    exact h.terminated
  · rw [List.getElem?_eq_none (by rw [List.length_append]; exact hgt)] at hb
    cases hb

/-- What the array after the split says of the string. -/
theorem fieldLeft_of_arrays {idx : Nat} {front back : List UInt8} (h : ArrayAt m s (chars ++ [0]))
    (hat : FieldAt chars idx w front back)
    (h' : ArrayAt m' s (front ++ w ++ (List.replicate back.length 0 ++ [0]))) :
    FieldLeft m m' s chars front.length w := by
  have hchars := hat.line_eq
  -- up to the end of the field the two arrays are the same
  have hsame : ∀ {j b}, (front ++ w)[j]? = some b →
      m.cell (s + UInt32.ofNat j) = b ∧ m'.cell (s + UInt32.ofNat j) = b := by
    intro j b hb
    have hlt := (List.getElem?_eq_some_iff.mp hb).1
    refine ⟨h.byte ?_, h'.byte ((List.getElem?_append_left hlt).trans hb)⟩
    rw [hchars, List.append_assoc (front ++ w), List.getElem?_append_left hlt]
    exact hb
  refine ⟨fun j hj => ?_, fun j b hb => hsame ?_, fun j hj hle => h'.byte ?_⟩
  · have hb : (front ++ w)[j]? = some front[j] := by
      rw [List.getElem?_append_left hj]
      exact List.getElem?_eq_getElem hj
    exact (hsame hb).2.trans (hsame hb).1.symm
  · rw [List.getElem?_append_right (Nat.le_add_right _ _), Nat.add_sub_cancel_left]
    exact hb
  · have hlen : chars.length = front.length + w.length + back.length := by
      rw [hchars, List.length_append, List.length_append]
    rw [← List.length_append] at hj hlen
    rw [List.getElem?_append_right hj,
      show List.replicate back.length 0 ++ [0] = List.replicate (back.length + 1) (0 : UInt8) from
        List.replicate_succ'.symm]
    exact List.getElem?_replicate_of_lt (by omega)

/-- **An exact splitter.** `get_string` returns NULL, and leaves the string alone, exactly
when it has at most `idx` fields. Otherwise it returns the start of field `idx`, and
zeroes what follows the field. It touches nothing behind the terminator. -/
theorem getString_splits (h : IsString m s chars) (idx : UInt8) :
    Ends (getString s idx) m fun p m' =>
      (p = none ∧ m'.cell = m.cell ↔ (fields chars).length ≤ idx.toNat) ∧
      (∀ w, (fields chars)[idx.toNat]? = some w →
        p = some (s + UInt32.ofNat (fieldStart chars idx.toNat)) ∧
        FieldLeft m m' s chars (fieldStart chars idx.toNat) w) ∧
      (∀ a, ¬ Block s (chars.length + 1) a → m'.cell a = m.cell a) ∧
      Touches (Block s (chars.length + 1)) m m' := by
  have harray := h.arrayAt
  rcases Nat.lt_or_ge idx.toNat (fields chars).length with hlt | hge
  · have hw := List.getElem?_eq_getElem hlt
    obtain ⟨front, back, hat, hr⟩ := Terminal.getString_field [] h.nonzero hw
    refine (getString_refines harray hr).mono fun p m' hends => ?_
    obtain ⟨rfl, harray', _, hframe, htouch⟩ := hends
    refine ⟨⟨nofun, fun hge => absurd hlt (Nat.not_lt.mpr hge)⟩, fun w hw' => ?_, ?_, ?_⟩
    · obtain rfl : (fields chars)[idx.toNat] = w := Option.some.inj (hw.symm.trans hw')
      rw [← hat.start]
      exact ⟨rfl, fieldLeft_of_arrays harray hat harray'⟩
    · rwa [List.length_append] at hframe
    · rwa [List.length_append] at htouch
  · have hr := Terminal.getString_missing [] h.nonzero hge
    refine (getString_refines harray hr).mono fun p m' hends => ?_
    obtain ⟨rfl, _, hkeep, hframe, htouch⟩ := hends
    refine ⟨⟨fun _ => hge, fun _ => ⟨rfl, hkeep rfl⟩⟩, fun w hw => ?_, ?_, ?_⟩
    · rw [List.getElem?_eq_none hge] at hw
      cases hw
    · rwa [List.length_append] at hframe
    · rwa [List.length_append] at htouch

end Strings

/-- A memory with a string at `s`. -/
def holding (s : UInt32) (chars : List UInt8) : Ram := ⟨fun a => chars.getD (a - s).toNat 0, []⟩

theorem holding_isString {s : UInt32} {chars : List UInt8} (hz : 0 ∉ chars)
    (hlen : chars.length < UInt32.size) : IsString (holding s chars) s chars := by
  have hcell : ∀ i < UInt32.size, (holding s chars).cell (s + UInt32.ofNat i) = chars.getD i 0 := by
    intro i hi
    unfold holding
    simp only [UInt32.add_comm s, UInt32.add_sub_cancel, UInt32.toNat_ofNat_of_lt' hi]
  refine ⟨hz, fun {i b} hb => ?_, ?_⟩
  · rw [hcell i ((List.getElem?_eq_some_iff.mp hb).1.trans hlen), List.getD_eq_getElem?_getD, hb]
    rfl
  · rw [hcell _ hlen, List.getD_eq_getElem?_getD, List.getElem?_eq_none (le_refl _)]
    rfl

def rmLine : List UInt8 := [0x72, 0x6D, 0x20, 0x61, 0x20, 0x62]

/-- Field 1 of it is "a", and "b" is gone. -/
theorem getString_rm : Ends (getString 0x1000 1) (holding 0x1000 rmLine) fun p m' =>
    p = some 0x1003 ∧ m'.cell 0x1003 = 0x61 ∧ m'.cell 0x1005 = 0 := by
  have hstring : IsString (holding 0x1000 rmLine) 0x1000 rmLine :=
    holding_isString (by decide) (by decide)
  refine (getString_splits hstring 1).mono fun p m' h => ?_
  obtain ⟨hp, hleft⟩ := h.2.1 [0x61] (by decide)
  exact ⟨hp, (hleft.field 0 0x61 rfl).2, hleft.zeroed 5 (by decide) (by decide)⟩

end KajijOSta.Stdlib
