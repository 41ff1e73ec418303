import KajijOSta.Lib.BitField
import Mathlib.Data.List.FinRange
import Mathlib.Data.Fintype.Basic
import Mathlib.Logic.Function.Basic

/-! # Descriptor tables

`gdt.c` and `idt.c`: the tables as the kernel writes them, field by field, and what the
processor takes from the eight bytes of an entry (`Segment`, `Gate`). -/
namespace KajijOSta.Interrupts
open KajijOSta.BitField

/-! ## Constants -/

def gdtMaxEntryCount : Nat := 32
def gdtKernelCodeSegmentSelector : UInt16 := 0x8
def gdtKernelDataSegmentSelector : UInt16 := 0x10
def gdtUserCodeSegmentSelector : UInt16 := 0x18
def gdtUserDataSegmentSelector : UInt16 := 0x20
def gdtTssSelector : UInt16 := 0x28
def idtMaxEntryCount : Nat := 256
def isrStubTableLimit : Nat := 64
def interruptGateRBit1 : BitVec 3 := 0b000
def interruptGateRBit2 : BitVec 3 := 0b110
def interruptGateRBit3 : BitVec 1 := 0b0

/-- `sizeof(struct TSSEntry)`: three fields and 23 unused registers. -/
def sizeofTSSEntry : Nat := 4 * (3 + 23)

instance : NeZero gdtMaxEntryCount := ⟨by decide⟩

instance : NeZero idtMaxEntryCount := ⟨by decide⟩

instance : NeZero isrStubTableLimit := ⟨by decide⟩

/-! ## The global descriptor table -/

structure SegmentDescriptor where
  segmentLow : UInt16
  baseLow : UInt16
  baseMid : UInt8
  typeBit : BitVec 4
  nonSystem : BitVec 1
  descriptorPrivilegeLevel : BitVec 2
  present : BitVec 1
  segmentHigh : BitVec 4
  available : BitVec 1
  longMode : BitVec 1
  defaultOperationSize : BitVec 1
  granularity : BitVec 1
  baseHigh : UInt8

def SegmentDescriptor.fields (d : SegmentDescriptor) : List Field :=
  [⟨16, d.segmentLow.toBitVec⟩, ⟨16, d.baseLow.toBitVec⟩, ⟨8, d.baseMid.toBitVec⟩,
    ⟨4, d.typeBit⟩, ⟨1, d.nonSystem⟩, ⟨2, d.descriptorPrivilegeLevel⟩, ⟨1, d.present⟩,
    ⟨4, d.segmentHigh⟩, ⟨1, d.available⟩, ⟨1, d.longMode⟩, ⟨1, d.defaultOperationSize⟩,
    ⟨1, d.granularity⟩, ⟨8, d.baseHigh.toBitVec⟩]

def SegmentDescriptor.quad (d : SegmentDescriptor) : Nat := pack d.fields

def nullDescriptor : SegmentDescriptor := ⟨0, 0, 0, 0, 0, 0, 0, 0, 0, 0, 0, 0, 0⟩

/-- A descriptor of all memory, of the given type and privilege. -/
def flatDescriptor (typeBit : BitVec 4) (privilege : BitVec 2) : SegmentDescriptor where
  segmentLow := 0xFFFF
  segmentHigh := 0xF
  baseLow := 0
  baseMid := 0
  baseHigh := 0
  typeBit := typeBit
  nonSystem := 1
  descriptorPrivilegeLevel := privilege
  present := 1
  available := 0
  longMode := 0
  defaultOperationSize := 1
  granularity := 1

/-- The descriptor of the task state segment, its base not set. -/
def tssDescriptor : SegmentDescriptor where
  segmentHigh := BitVec.ofNat 4 ((sizeofTSSEntry &&& 0xF <<< 16) >>> 16)
  segmentLow := UInt16.ofNat sizeofTSSEntry
  baseHigh := 0
  baseMid := 0
  baseLow := 0
  nonSystem := 0
  typeBit := 0x9
  descriptorPrivilegeLevel := 0
  present := 1
  available := 0
  defaultOperationSize := 1
  longMode := 0
  granularity := 0

structure GlobalDescriptorTable where
  table : Fin gdtMaxEntryCount → SegmentDescriptor

def globalDescriptorTable : GlobalDescriptorTable where
  table i :=
    if i = 1 then flatDescriptor 0xA 0
    else if i = 2 then flatDescriptor 0x2 0
    else if i = 3 then flatDescriptor 0xA 0x3
    else if i = 4 then flatDescriptor 0x2 0x3
    else if i = 5 then tssDescriptor
    else nullDescriptor

/-- `gdt_install_tss`, for the address of `_interrupt_tss_entry`. -/
def gdtInstallTss (gdt : GlobalDescriptorTable) (base : UInt32) : GlobalDescriptorTable where
  table := Function.update gdt.table 5
    { gdt.table 5 with
      baseHigh := ((base &&& 0xFF000000) >>> 24).toUInt8
      baseMid := ((base &&& 0xFF0000) >>> 16).toUInt8
      baseLow := (base &&& 0xFFFF).toUInt16 }

/-! ## The interrupt descriptor table -/

structure IDTGate where
  offsetLow : UInt16
  segment : UInt16
  reserved : BitVec 5
  rBit1 : BitVec 3
  rBit2 : BitVec 3
  gate32 : BitVec 1
  rBit3 : BitVec 1
  dpl : BitVec 2
  validBit : BitVec 1
  offsetHigh : UInt16

def IDTGate.fields (g : IDTGate) : List Field :=
  [⟨16, g.offsetLow.toBitVec⟩, ⟨16, g.segment.toBitVec⟩, ⟨5, g.reserved⟩, ⟨3, g.rBit1⟩,
    ⟨3, g.rBit2⟩, ⟨1, g.gate32⟩, ⟨1, g.rBit3⟩, ⟨2, g.dpl⟩, ⟨1, g.validBit⟩,
    ⟨16, g.offsetHigh.toBitVec⟩]

def IDTGate.quad (g : IDTGate) : Nat := pack g.fields

structure InterruptDescriptorTable where
  table : Fin idtMaxEntryCount → IDTGate

def interruptDescriptorTable : InterruptDescriptorTable where
  table _ := ⟨0, 0, 0, 0, 0, 0, 0, 0, 0, 0⟩

def setInterruptGate (idt : InterruptDescriptorTable) (intVector : UInt8)
    (handlerAddress : UInt32) (gdtSegSelector : UInt16) (privilege : UInt8) :
    InterruptDescriptorTable where
  table := Function.update idt.table (Fin.ofNat idtMaxEntryCount intVector.toNat)
    { offsetLow := (handlerAddress &&& 0xFFFF).toUInt16
      offsetHigh := ((handlerAddress >>> 16) &&& 0xFFFF).toUInt16
      segment := gdtSegSelector
      reserved := 0
      dpl := BitVec.ofNat 2 privilege.toNat
      rBit1 := interruptGateRBit1
      rBit2 := interruptGateRBit2
      rBit3 := interruptGateRBit3
      gate32 := 1
      validBit := 1 }

/-- The loop of `initialize_idt`, so many rounds of it. -/
def setStubGates (isrStubTable : Fin isrStubTableLimit → UInt32)
    (idt : InterruptDescriptorTable) : Nat → InterruptDescriptorTable
  | 0 => idt
  | i + 1 => setInterruptGate (setStubGates isrStubTable idt i) (UInt8.ofNat i)
      (isrStubTable (Fin.ofNat isrStubTableLimit i)) gdtKernelCodeSegmentSelector 0

/-- `initialize_idt`, up to where it loads the table. -/
def initializeIdt (isrStubTable : Fin isrStubTableLimit → UInt32)
    (idt : InterruptDescriptorTable) : InterruptDescriptorTable :=
  setInterruptGate (setStubGates isrStubTable idt isrStubTableLimit) 0x30 (isrStubTable 0x30)
    gdtKernelCodeSegmentSelector 3

/-! ## What the processor reads -/

/-- A segment, as the processor takes it from a descriptor. -/
structure Segment where
  base : Nat
  limit : Nat
  kind : Nat
  system : Bool
  dpl : Nat
  present : Bool
deriving DecidableEq

/-- A limit in bytes, or in pages of 4 KiB. -/
def scaledLimit (limit granularity : Nat) : Nat :=
  if granularity = 1 then 4096 * limit + 4095 else limit

def Segment.ofQuad (x : Nat) : Segment where
  base := bits 16 24 x + 2 ^ 24 * bits 56 8 x
  limit := scaledLimit (bits 0 16 x + 2 ^ 16 * bits 48 4 x) (bits 55 1 x)
  kind := bits 40 4 x
  system := bits 44 1 x = 0
  dpl := bits 45 2 x
  present := bits 47 1 x = 1

/-- A gate, as the processor takes it from the interrupt descriptor table. -/
structure Gate where
  offset : Nat
  selector : Nat
  kind : Nat
  dpl : Nat
  present : Bool
deriving DecidableEq

def Gate.ofQuad (x : Nat) : Gate where
  offset := bits 0 16 x + 2 ^ 16 * bits 48 16 x
  selector := bits 16 16 x
  kind := bits 40 5 x
  dpl := bits 45 2 x
  present := bits 47 1 x = 1

def interruptGateKind : Nat := 0b01110

/-- The segment of a descriptor is made of its fields. -/
theorem SegmentDescriptor.segment (d : SegmentDescriptor) : Segment.ofQuad d.quad =
    { base := d.baseLow.toNat + 2 ^ 16 * d.baseMid.toNat + 2 ^ 24 * d.baseHigh.toNat
      limit := scaledLimit (d.segmentLow.toNat + 2 ^ 16 * d.segmentHigh.toNat) d.granularity.toNat
      kind := d.typeBit.toNat
      system := d.nonSystem.toNat = 0
      dpl := d.descriptorPrivilegeLevel.toNat
      present := d.present.toNat = 1 } := by
  have hlimitLow : bits 0 16 d.quad = d.segmentLow.toBitVec.toNat :=
    bits_field (d.fields.take 0) rfl rfl
  have hbase : bits 16 24 d.quad = pack ((d.fields.drop 1).take 2) :=
    bits_fields (d.fields.take 1) (d.fields.drop 3) rfl rfl rfl
  have hkind : bits 40 4 d.quad = d.typeBit.toNat :=
    bits_field (d.fields.take 3) rfl rfl
  have hsystem : bits 44 1 d.quad = d.nonSystem.toNat :=
    bits_field (d.fields.take 4) rfl rfl
  have hdpl : bits 45 2 d.quad = d.descriptorPrivilegeLevel.toNat :=
    bits_field (d.fields.take 5) rfl rfl
  have hpresent : bits 47 1 d.quad = d.present.toNat :=
    bits_field (d.fields.take 6) rfl rfl
  have hlimitHigh : bits 48 4 d.quad = d.segmentHigh.toNat :=
    bits_field (d.fields.take 7) rfl rfl
  have hgranularity : bits 55 1 d.quad = d.granularity.toNat :=
    bits_field (d.fields.take 11) rfl rfl
  have hbaseHigh : bits 56 8 d.quad = d.baseHigh.toBitVec.toNat :=
    bits_field (d.fields.take 12) rfl rfl
  have hmid : pack ((d.fields.drop 1).take 2) = d.baseLow.toNat + 2 ^ 16 * d.baseMid.toNat := rfl
  unfold Segment.ofQuad
  rw [hlimitLow, hbase, hkind, hsystem, hdpl, hpresent, hlimitHigh, hgranularity, hbaseHigh, hmid]
  rfl

/-- The gate of an entry is made of its fields. -/
theorem IDTGate.gate (g : IDTGate) : Gate.ofQuad g.quad =
    { offset := g.offsetLow.toNat + 2 ^ 16 * g.offsetHigh.toNat
      selector := g.segment.toNat
      kind := g.rBit2.toNat + 2 ^ 3 * (g.gate32.toNat + 2 * g.rBit3.toNat)
      dpl := g.dpl.toNat
      present := g.validBit.toNat = 1 } := by
  have hlow : bits 0 16 g.quad = g.offsetLow.toBitVec.toNat :=
    bits_field (g.fields.take 0) rfl rfl
  have hselector : bits 16 16 g.quad = g.segment.toBitVec.toNat :=
    bits_field (g.fields.take 1) rfl rfl
  have hkind : bits 40 5 g.quad = pack ((g.fields.drop 4).take 3) :=
    bits_fields (g.fields.take 4) (g.fields.drop 7) rfl rfl rfl
  have hdpl : bits 45 2 g.quad = g.dpl.toNat := bits_field (g.fields.take 7) rfl rfl
  have hpresent : bits 47 1 g.quad = g.validBit.toNat :=
    bits_field (g.fields.take 8) rfl rfl
  have hhigh : bits 48 16 g.quad = g.offsetHigh.toBitVec.toNat :=
    bits_field (g.fields.take 9) rfl rfl
  have hpack : pack ((g.fields.drop 4).take 3) =
      g.rBit2.toNat + 2 ^ 3 * (g.gate32.toNat + 2 * g.rBit3.toNat) := rfl
  unfold Gate.ofQuad
  rw [hlow, hselector, hkind, hdpl, hpresent, hhigh, hpack]
  rfl

/-! ## The tables as the processor reads them -/

def GlobalDescriptorTable.segment (gdt : GlobalDescriptorTable) (i : Fin gdtMaxEntryCount) :
    Segment := Segment.ofQuad (gdt.table i).quad

def InterruptDescriptorTable.gate (idt : InterruptDescriptorTable) (v : Fin idtMaxEntryCount) :
    Gate := Gate.ofQuad (idt.table v).quad

def flatSegment (kind dpl : Nat) : Segment := ⟨0, 2 ^ 32 - 1, kind, false, dpl, true⟩

theorem flatDescriptor_segment (typeBit : BitVec 4) (privilege : BitVec 2) :
    Segment.ofQuad (flatDescriptor typeBit privilege).quad =
      flatSegment typeBit.toNat privilege.toNat := by
  rw [SegmentDescriptor.segment]
  simp [flatDescriptor, flatSegment, scaledLimit]

/-- The three parts of a base address make up the address. -/
theorem base_parts (base : UInt32) :
    (base &&& 0xFFFF).toUInt16.toNat + 2 ^ 16 * ((base &&& 0xFF0000) >>> 16).toUInt8.toNat +
      2 ^ 24 * ((base &&& 0xFF000000) >>> 24).toUInt8.toNat = base.toNat := by
  have hlt := base.toNat_lt
  have hlow : (base &&& 0xFFFF).toNat = base.toNat % 2 ^ 16 := by
    rw [UInt32.toNat_and]
    exact Nat.and_two_pow_sub_one_eq_mod _ 16
  have hmid : ((base &&& 0xFF0000) >>> 16).toNat = base.toNat / 2 ^ 16 % 2 ^ 8 := by
    rw [UInt32.toNat_shiftRight, UInt32.toNat_and, Nat.shiftRight_and_distrib,
      Nat.shiftRight_eq_div_pow]
    exact Nat.and_two_pow_sub_one_eq_mod _ 8
  have hhigh : ((base &&& 0xFF000000) >>> 24).toNat = base.toNat / 2 ^ 24 % 2 ^ 8 := by
    rw [UInt32.toNat_shiftRight, UInt32.toNat_and, Nat.shiftRight_and_distrib,
      Nat.shiftRight_eq_div_pow]
    exact Nat.and_two_pow_sub_one_eq_mod _ 8
  rw [UInt32.toNat_toUInt16, UInt32.toNat_toUInt8, UInt32.toNat_toUInt8, hlow, hmid, hhigh]
  omega

/-- Once the task state segment is installed: kernel code and data, user code and data,
each all of memory, and the task state segment; nothing else is present. -/
theorem gdtInstallTss_segment (base : UInt32) (i : Fin gdtMaxEntryCount) :
    (gdtInstallTss globalDescriptorTable base).segment i =
      if i = 1 then flatSegment 0xA 0
      else if i = 2 then flatSegment 0x2 0
      else if i = 3 then flatSegment 0xA 3
      else if i = 4 then flatSegment 0x2 3
      else if i = 5 then ⟨base.toNat, sizeofTSSEntry, 0x9, true, 0, true⟩
      else ⟨0, 0, 0, true, 0, false⟩ := by
  by_cases h5 : i = 5
  · subst h5
    simp only [GlobalDescriptorTable.segment, gdtInstallTss, Function.update_self,
      SegmentDescriptor.segment, base_parts]
    rfl
  · simp only [GlobalDescriptorTable.segment, gdtInstallTss, Function.update_of_ne h5,
      globalDescriptorTable]
    split_ifs
    · exact flatDescriptor_segment 0xA 0
    · exact flatDescriptor_segment 0x2 0
    · exact flatDescriptor_segment 0xA 3
    · exact flatDescriptor_segment 0x2 3
    · exact SegmentDescriptor.segment nullDescriptor

theorem offset_parts (a : UInt32) :
    (a &&& 0xFFFF).toUInt16.toNat + 2 ^ 16 * ((a >>> 16) &&& 0xFFFF).toUInt16.toNat =
      a.toNat := by
  have hlt := a.toNat_lt
  have hlow : (a &&& 0xFFFF).toNat = a.toNat % 2 ^ 16 := by
    rw [UInt32.toNat_and]
    exact Nat.and_two_pow_sub_one_eq_mod _ 16
  have hhigh : ((a >>> 16) &&& 0xFFFF).toNat = a.toNat / 2 ^ 16 % 2 ^ 16 := by
    rw [UInt32.toNat_and, UInt32.toNat_shiftRight, Nat.shiftRight_eq_div_pow]
    exact Nat.and_two_pow_sub_one_eq_mod _ 16
  rw [UInt32.toNat_toUInt16, UInt32.toNat_toUInt16, hlow, hhigh]
  omega

theorem setInterruptGate_self (idt : InterruptDescriptorTable) (intVector : UInt8)
    (handlerAddress : UInt32) (gdtSegSelector : UInt16) (privilege : UInt8) :
    (setInterruptGate idt intVector handlerAddress gdtSegSelector privilege).gate
        (Fin.ofNat idtMaxEntryCount intVector.toNat) =
      ⟨handlerAddress.toNat, gdtSegSelector.toNat, interruptGateKind, privilege.toNat % 4,
        true⟩ := by
  simp only [InterruptDescriptorTable.gate, setInterruptGate, Function.update_self, IDTGate.gate,
    offset_parts, BitVec.toNat_ofNat]
  rfl

theorem setInterruptGate_other (idt : InterruptDescriptorTable) {intVector : UInt8}
    (handlerAddress : UInt32) (gdtSegSelector : UInt16) (privilege : UInt8)
    {v : Fin idtMaxEntryCount} (hv : v.val ≠ intVector.toNat) :
    (setInterruptGate idt intVector handlerAddress gdtSegSelector privilege).gate v =
      idt.gate v := by
  have hne : v ≠ Fin.ofNat idtMaxEntryCount intVector.toNat := by
    intro he
    refine hv ?_
    rw [he, Fin.val_ofNat]
    exact Nat.mod_eq_of_lt intVector.toNat_lt
  simp only [InterruptDescriptorTable.gate, setInterruptGate, Function.update_of_ne hne]

/-- After so many rounds of the loop the gates below are those of the stubs. -/
theorem setStubGates_gate (isrStubTable : Fin isrStubTableLimit → UInt32)
    (idt : InterruptDescriptorTable) (v : Fin idtMaxEntryCount) :
    ∀ n ≤ isrStubTableLimit, (setStubGates isrStubTable idt n).gate v =
      if v.val < n then
        ⟨(isrStubTable (Fin.ofNat isrStubTableLimit v.val)).toNat, 8, interruptGateKind, 0, true⟩
      else idt.gate v
  | 0, _ => rfl
  | n + 1, hn => by
    have hn64 : n + 1 ≤ 64 := hn
    have hval : (UInt8.ofNat n).toNat = n := by
      rw [UInt8.toNat_ofNat']
      omega
    have ih := setStubGates_gate isrStubTable idt v n (by omega)
    rw [setStubGates]
    by_cases hv : v.val = n
    · have he : v = Fin.ofNat idtMaxEntryCount (UInt8.ofNat n).toNat := by
        rw [hval, ← hv]
        exact (Fin.ofNat_val_eq_self v).symm
      rw [if_pos (by omega), hv, he, setInterruptGate_self]
      rfl
    · rw [setInterruptGate_other _ _ _ _ (by rwa [hval]), ih]
      by_cases hlt : v.val < n
      · rw [if_pos hlt, if_pos (by omega)]
      · rw [if_neg hlt, if_neg (by omega)]

/-- The gates of `initialize_idt`: those of the stubs are present and lead to the kernel's
code, the one for system calls open to ring 3. -/
theorem initializeIdt_gate (isrStubTable : Fin isrStubTableLimit → UInt32)
    (v : Fin idtMaxEntryCount) :
    (initializeIdt isrStubTable interruptDescriptorTable).gate v =
      if v.val < isrStubTableLimit then
        ⟨(isrStubTable (Fin.ofNat isrStubTableLimit v.val)).toNat, 8, interruptGateKind,
          if v = 0x30 then 3 else 0, true⟩
      else ⟨0, 0, 0, 0, false⟩ := by
  unfold initializeIdt
  by_cases hv : v = 0x30
  · subst hv
    exact setInterruptGate_self _ 0x30 _ _ 3
  · have hne : v.val ≠ (0x30 : UInt8).toNat := fun he => hv (Fin.ext he)
    rw [setInterruptGate_other _ _ _ _ hne, setStubGates_gate _ _ _ _ (le_refl _), if_neg hv]
    split
    · rfl
    · exact IDTGate.gate _

end KajijOSta.Interrupts
