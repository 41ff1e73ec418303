import KajijOSta.Shell.Commands
import Mathlib.Data.List.Basic

/-! # The words of a command line

`get_string` finds a field of a string in place. It works on the array from the
string to the end of the buffer; a scan that meets neither a blank nor a zero
leaves the array. On a terminated string it is the split at the blanks
(`getString_field`, `getString_missing`). -/
namespace KajijOSta.Terminal
open KajijOSta.Fat32

def blank : UInt8 := 0x20

/-! ## The function -/

/-- The loops that stop at a blank or a zero: how far they go. -/
def scanWord : List UInt8 → Option Nat
  | [] => none
  | c :: s => if c ≠ blank ∧ c ≠ 0 then (scanWord s).map (· + 1) else some 0

/-- The loop over `idx`: where the field starts; the inner `none` is NULL. -/
def seekField : Nat → List UInt8 → Option (Option Nat)
  | 0, _ => some (some 0)
  | idx + 1, s =>
    match scanWord s with
    | none => none
    | some n =>
      if s.getD n 0 = 0 then some none
      else (seekField idx (s.drop (n + 1))).map fun start => start.map (n + 1 + ·)

/-- The last loop: set the remaining characters to zero. -/
def zeroRest : List UInt8 → Option (List UInt8)
  | [] => none
  | c :: s => if c ≠ 0 then (zeroRest s).map (0 :: ·) else some (c :: s)

/-- `get_string`: the offset it returns, and the array afterwards; `none` when it
leaves the array. -/
def getString (s : List UInt8) (idx : UInt8) : Option (Option Nat × List UInt8) :=
  match seekField idx.toNat s with
  | none => none
  | some none => some (none, s)
  | some (some start) =>
    match scanWord (s.drop start) with
    | none => none
    | some n => (zeroRest (s.drop (start + n))).map fun rest =>
        (some start, s.take (start + n) ++ rest)

/-! ## Fields -/

def fields (line : List UInt8) : List (List UInt8) := line.splitOn blank

def fieldStart (line : List UInt8) (idx : Nat) : Nat :=
  (((fields line).take idx).map fun w => w.length + 1).sum

/-- A line is one field, or a field, a blank and a line. -/
theorem line_induction {P : List UInt8 → Prop} (hlast : ∀ w, blank ∉ w → P w)
    (hcons : ∀ w l, blank ∉ w → P l → P (w ++ blank :: l)) (line : List UInt8) : P line := by
  induction hn : line.length using Nat.strong_induction_on generalizing line with
  | _ n ih =>
    by_cases hb : blank ∈ line
    · obtain ⟨w, l, rfl, hw⟩ := List.eq_append_cons_of_mem hb
      refine hcons w l hw (ih l.length ?_ l rfl)
      rw [← hn, List.length_append, List.length_cons]
      omega
    · exact hlast line hb

theorem fields_last {w : List UInt8} (hw : blank ∉ w) : fields w = [w] :=
  List.splitOn_eq_singleton hw

theorem fields_cons {w : List UInt8} (hw : blank ∉ w) (l : List UInt8) :
    fields (w ++ blank :: l) = w :: fields l :=
  List.splitOn_append_cons_self_of_not_mem hw l

theorem fieldStart_cons {w : List UInt8} (hw : blank ∉ w) (l : List UInt8) (idx : Nat) :
    fieldStart (w ++ blank :: l) (idx + 1) = w.length + 1 + fieldStart l idx := by
  unfold fieldStart
  rw [fields_cons hw, List.take_succ_cons, List.map_cons, List.sum_cons]

/-- A field in its line: what lies before it, and what behind. -/
structure FieldAt (line : List UInt8) (idx : Nat) (w front back : List UInt8) : Prop where
  line_eq : line = front ++ w ++ back
  start : front.length = fieldStart line idx
  noBlank : blank ∉ w
  ends : back = [] ∨ ∃ rest, back = blank :: rest

theorem fieldAt (line : List UInt8) : ∀ {idx : Nat} {w : List UInt8},
    (fields line)[idx]? = some w → ∃ front back, FieldAt line idx w front back := by
  induction line using line_induction with
  | hlast v hv =>
    intro idx w h
    rw [fields_last hv] at h
    cases idx with
    | zero =>
      obtain rfl : v = w := Option.some.inj h
      exact ⟨[], [], (List.append_nil v).symm, rfl, hv, Or.inl rfl⟩
    | succ idx => cases h
  | hcons v l hv ih =>
    intro idx w h
    rw [fields_cons hv] at h
    cases idx with
    | zero =>
      obtain rfl : v = w := Option.some.inj h
      exact ⟨[], blank :: l, rfl, rfl, hv, Or.inr ⟨l, rfl⟩⟩
    | succ idx =>
      obtain ⟨front, back, hl, hstart, hw, hends⟩ := ih h
      refine ⟨v ++ blank :: front, back, ?_, ?_, hw, hends⟩
      · rw [hl]
        simp only [List.append_assoc, List.cons_append]
      · rw [fieldStart_cons hv, List.length_append, List.length_cons, hstart]
        omega

/-! ## What the function returns -/

section Terminated
variable {line : List UInt8} (tail : List UInt8)

/-- A scan stops behind the word. -/
theorem scanWord_word {w : List UInt8} {c : UInt8} (hb : blank ∉ w) (hz : 0 ∉ w)
    (hc : c = blank ∨ c = 0) : scanWord (w ++ c :: tail) = some w.length := by
  induction w with
  | nil =>
    refine if_neg fun h => ?_
    rcases hc with rfl | rfl
    · exact h.1 rfl
    · exact h.2 rfl
  | cons x w ih =>
    obtain ⟨hxb, hb⟩ := List.ne_and_not_mem_of_not_mem_cons hb
    obtain ⟨hxz, hz⟩ := List.ne_and_not_mem_of_not_mem_cons hz
    have hx : x ≠ blank ∧ x ≠ 0 := ⟨hxb.symm, hxz.symm⟩
    rw [List.cons_append, scanWord, if_pos hx, ih hb hz]
    rfl

theorem zeroRest_eq {u : List UInt8} (hz : 0 ∉ u) :
    zeroRest (u ++ 0 :: tail) = some (List.replicate u.length 0 ++ 0 :: tail) := by
  induction u with
  | nil => rfl
  | cons x u ih =>
    obtain ⟨hx, hz⟩ := List.ne_and_not_mem_of_not_mem_cons hz
    rw [List.cons_append, zeroRest, if_pos hx.symm, ih hz]
    rfl

theorem seekField_eq : ∀ (idx : Nat), 0 ∉ line → seekField idx (line ++ 0 :: tail) =
    some (if idx < (fields line).length then some (fieldStart line idx) else none) := by
  induction line using line_induction with
  | hlast w hw =>
    intro idx hz
    rw [fields_last hw]
    cases idx with
    | zero => rfl
    | succ idx =>
      have hend : (w ++ 0 :: tail).getD w.length 0 = 0 := by simp
      have hout : ¬ idx + 1 < [w].length := by simp
      simp only [seekField, scanWord_word tail hw hz (Or.inr rfl), hend, if_true, if_neg hout]
  | hcons w l hw ih =>
    intro idx hz
    rw [List.mem_append, List.mem_cons, not_or, not_or] at hz
    obtain ⟨hzw, _, hzl⟩ := hz
    rw [List.append_assoc, List.cons_append]
    cases idx with
    | zero =>
      rw [fields_cons hw]
      rfl
    | succ idx =>
      have hend : ¬ (w ++ blank :: (l ++ 0 :: tail)).getD w.length 0 = 0 := by
        have hget : (w ++ blank :: (l ++ 0 :: tail)).getD w.length 0 = blank := by simp
        rw [hget]
        decide
      have hdrop : (w ++ blank :: (l ++ 0 :: tail)).drop (w.length + 1) = l ++ 0 :: tail := by
        rw [List.drop_length_add_append, List.drop_one, List.tail_cons]
      have hlen : idx + 1 < (w :: fields l).length ↔ idx < (fields l).length := by simp
      simp only [seekField, scanWord_word _ hw hzw (Or.inl rfl), hdrop, ih idx hzl, if_neg hend,
        fields_cons hw, fieldStart_cons hw, hlen]
      split <;> rfl

/-- There are not enough fields: NULL, and the string stays as it is. -/
theorem getString_missing {idx : UInt8} (hz : 0 ∉ line)
    (h : (fields line).length ≤ idx.toNat) :
    getString (line ++ 0 :: tail) idx = some (none, line ++ 0 :: tail) := by
  unfold getString
  rw [seekField_eq tail idx.toNat hz, if_neg (Nat.not_lt.mpr h)]

/-- The field and what lies before it stay, the rest of the string is zeroed. -/
theorem getString_field {idx : UInt8} {w : List UInt8} (hz : 0 ∉ line)
    (h : (fields line)[idx.toNat]? = some w) :
    ∃ front back, FieldAt line idx.toNat w front back ∧
      getString (line ++ 0 :: tail) idx = some (some front.length,
        front ++ w ++ (List.replicate back.length 0 ++ 0 :: tail)) := by
  obtain ⟨front, back, hat⟩ := fieldAt line h
  have hlt : idx.toNat < (fields line).length := (List.getElem?_eq_some_iff.mp h).1
  have hline : line ++ 0 :: tail = front ++ (w ++ (back ++ 0 :: tail)) := by
    rw [hat.line_eq]
    simp only [List.append_assoc]
  have hzero : 0 ∉ front ∧ 0 ∉ w ∧ 0 ∉ back := by
    have := hat.line_eq ▸ hz
    simpa [not_or, and_assoc] using this
  obtain ⟨_, hzw, hzb⟩ := hzero
  -- behind the field lies a blank or the terminator
  have hscan : scanWord (w ++ (back ++ 0 :: tail)) = some w.length := by
    rcases hat.ends with rfl | ⟨rest, rfl⟩
    · exact scanWord_word tail hat.noBlank hzw (Or.inr rfl)
    · exact scanWord_word (rest ++ 0 :: tail) hat.noBlank hzw (Or.inl rfl)
  refine ⟨front, back, hat, ?_⟩
  unfold getString
  rw [seekField_eq tail idx.toNat hz, if_pos hlt, ← hat.start, hline]
  simp only [List.drop_left, hscan]
  rw [← List.append_assoc, ← List.length_append, List.drop_left, List.take_left,
    zeroRest_eq tail hzb]
  rfl

end Terminated

end KajijOSta.Terminal
