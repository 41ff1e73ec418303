import KajijOSta.Fat32.Layout
import KajijOSta.Interrupts.Descriptors
import KajijOSta.Lib.WordStack

/-! # The processor

As much of the processor as the code of `intsetup.s` and `kernel-entrypoint.s` runs on:
registers, memory, the stack, the way into an interrupt handler through the descriptor
tables (`deliver`) and the instructions up to `iret`. `W` is what else the kernel works
on. What processor and compiler leave open is a parameter (`Leeway`). -/
namespace KajijOSta.Interrupts
open KajijOSta.WordStack KajijOSta.Fat32

/-! ## Memory -/

abbrev Ram := UInt32 → UInt8

/-- 32-bit words, lowest byte first. -/
def word : Codec UInt32 UInt8 4 where
  split w i := byte32 w i
  join bs := word32 fun i => if h : i < 4 then bs ⟨i, h⟩ else 0
  join_split w := word32_of_bytes fun i hi => dif_pos hi
  fits := by decide

/-! ## State -/

structure Cpu where
  eax : UInt32
  ecx : UInt32
  edx : UInt32
  ebx : UInt32
  esp : UInt32
  ebp : UInt32
  esi : UInt32
  edi : UInt32
  cs : UInt16
  ss : UInt16
  ds : UInt16
  es : UInt16
  fs : UInt16
  gs : UInt16
  eip : UInt32
  eflags : UInt32
deriving DecidableEq

def Cpu.cpl (cpu : Cpu) : Nat := cpu.cs.toNat % 4

def Cpu.withEsp (cpu : Cpu) (esp : UInt32) : Cpu := { cpu with esp := esp }

/-- Processor and memory, and what else the kernel works on. -/
structure State (W : Type) where
  cpu : Cpu
  ram : Ram
  world : W

/-- The tables the processor uses, and the address of the task state segment. -/
structure Tables where
  gdt : Fin gdtMaxEntryCount → Segment
  idt : Fin idtMaxEntryCount → Gate
  task : UInt32

def Tables.segmentOf (t : Tables) (selector : Nat) : Option Segment :=
  if h : selector / 8 < gdtMaxEntryCount then some (t.gdt ⟨selector / 8, h⟩) else none

/-- `set_tss_register`: the address of the task state segment, for its selector. -/
def setTssRegister (gdt : GlobalDescriptorTable) : UInt32 :=
  UInt32.ofNat (gdt.segment (Fin.ofNat gdtMaxEntryCount (gdtTssSelector.toNat / 8))).base

/-- The tables of the kernel, with the addresses of the stubs and of
`_interrupt_tss_entry`. -/
def kernelTables (isrStubTable : Fin isrStubTableLimit → UInt32) (tssEntry : UInt32) : Tables where
  gdt := (gdtInstallTss globalDescriptorTable tssEntry).segment
  idt := (initializeIdt isrStubTable interruptDescriptorTable).gate
  task := setTssRegister (gdtInstallTss globalDescriptorTable tssEntry)

/-- What processor and compiler leave open: whether a pushed selector fills its word, the
flags that `add` sets, and of a call of a C function the return address, the stack the
function takes and what it leaves there, and the registers it need not keep. -/
structure Leeway where
  zeroExtends : Bool
  returnAddress : UInt32
  depth : Nat
  left : UInt32 → UInt8
  eax : UInt32
  ecx : UInt32
  edx : UInt32
  eflags : UInt32

namespace State
variable {W : Type}

def push (s : State W) (w : UInt32) : State W :=
  { s with
    cpu := s.cpu.withEsp (s.cpu.esp - 4)
    ram := word.put s.ram (s.cpu.esp - 4) w }

/-- Push a selector: the upper half of its word is cleared, or stays as it was. -/
def pushSelector (zeroExtends : Bool) (s : State W) (selector : UInt16) : State W :=
  if zeroExtends then s.push selector.toUInt32
  else s.push ((word.get s.ram (s.cpu.esp - 4) &&& 0xFFFF0000) ||| selector.toUInt32)

def top (s : State W) (k : Nat) : UInt32 := word.get s.ram (s.cpu.esp + UInt32.ofNat (4 * k))

def drop (s : State W) (k : Nat) : State W :=
  { s with cpu := s.cpu.withEsp (s.cpu.esp + UInt32.ofNat (4 * k)) }

def onStack (s : State W) (esp : UInt32) (ss : UInt16) : State W :=
  { s with
    cpu.esp := esp
    cpu.ss := ss }

end State

/-! ## The way into a handler -/

/-- What raises an interrupt: a device, the processor itself, or `int`. -/
inductive Cause
  | device
  | exception
  | software
deriving DecidableEq

/-- The flags an interrupt gate clears: TF, IF, NT, RF and VM. -/
def gateFlags : UInt32 := 0x34300

/-- A segment of code that is entered at its own privilege. -/
def Segment.IsCode (s : Segment) : Prop :=
  s.present = true ∧ s.system = false ∧ 8 ≤ s.kind ∧ s.kind < 12

instance (s : Segment) : Decidable s.IsCode := inferInstanceAs (Decidable (_ ∧ _))

/-- A segment of data that can be written, for the stack of a ring. -/
def Segment.IsStack (s : Segment) (ring : Nat) : Prop :=
  s.present = true ∧ s.system = false ∧ s.kind < 8 ∧ s.kind / 2 % 2 = 1 ∧ s.dpl = ring

instance (s : Segment) (ring : Nat) : Decidable (s.IsStack ring) :=
  inferInstanceAs (Decidable (_ ∧ _))

/-- A selector that can be loaded for the stack of a ring: in the global table, and both it
and its segment are of the ring. -/
def Tables.StackSelector (t : Tables) (ring : Nat) (selector : UInt16) : Prop :=
  selector.toNat % 8 = ring ∧ ∃ s ∈ t.segmentOf selector.toNat, s.IsStack ring

instance (t : Tables) (ring : Nat) (selector : UInt16) :
    Decidable (t.StackSelector ring selector) := inferInstanceAs (Decidable (_ ∧ _))

section Deliver
variable {W : Type} (t : Tables) (zeroExtends : Bool)

/-- Change to the stack of ring 0: its pointer and its segment are in the task state
segment, behind the first field. -/
def switchStack (s : State W) : State W :=
  ((s.onStack (word.get s.ram (t.task + 4)) (word.get s.ram (t.task + 8)).toUInt16).pushSelector
    zeroExtends s.cpu.ss).push s.cpu.esp

/-- What the processor pushes of the code it interrupts. -/
def pushReturn (s : State W) (cpu : Cpu) (errorCode : Option UInt32) : State W :=
  let s := ((s.push cpu.eflags).pushSelector zeroExtends cpu.cs).push cpu.eip
  match errorCode with
  | some e => s.push e
  | none => s

/-- Interrupt `v`; `eip` is the address to go on from. There is no handler to enter when
the gate or its segment is not usable, when `int` names a gate that is closed to the
ring, or when the task state segment has no segment for the stack. -/
def deliver (s : State W) (cause : Cause) (v : Fin idtMaxEntryCount)
    (errorCode : Option UInt32) : Option (State W) :=
  let gate := t.idt v
  if gate.present = true ∧ gate.kind = interruptGateKind ∧
      (cause = .software → s.cpu.cpl ≤ gate.dpl) then
    match t.segmentOf gate.selector with
    | none => none
    | some code =>
      if code.IsCode ∧ code.dpl ≤ s.cpu.cpl ∧ (code.dpl < s.cpu.cpl →
          t.StackSelector code.dpl (word.get s.ram (t.task + 8)).toUInt16) then
        let inner := if code.dpl < s.cpu.cpl then switchStack t zeroExtends s else s
        let entered := pushReturn zeroExtends inner s.cpu errorCode
        some { entered with
          cpu.eip := UInt32.ofNat gate.offset
          cpu.cs := UInt16.ofNat (gate.selector / 4 * 4 + code.dpl)
          cpu.eflags := s.cpu.eflags &&& ~~~gateFlags }
      else none
  else none

end Deliver

/-! ## Instructions -/

inductive SegmentRegister
  | ds
  | es
  | fs
  | gs

/-- The instructions of the handlers, and of the way to a user program. -/
inductive Instruction
  | pushDword (w : UInt32)
  | pushSegment (r : SegmentRegister)
  | popSegment (r : SegmentRegister)
  | pushad
  | popad
  | pushEax
  | popEax
  | pushf
  | movAx (w : UInt16)
  | movEax (w : UInt32)
  | movEaxEcx
  | movEcxStack (k : Nat)
  | addEax (w : UInt32)
  | movSegmentAx (r : SegmentRegister)
  | callMainInterruptHandler
  | addEsp (k : Nat)
  | sti
  | iret

namespace Cpu

def segment (cpu : Cpu) : SegmentRegister → UInt16
  | .ds => cpu.ds
  | .es => cpu.es
  | .fs => cpu.fs
  | .gs => cpu.gs

def setSegment (cpu : Cpu) (selector : UInt16) : SegmentRegister → Cpu
  | .ds => { cpu with ds := selector }
  | .es => { cpu with es := selector }
  | .fs => { cpu with fs := selector }
  | .gs => { cpu with gs := selector }

end Cpu

end KajijOSta.Interrupts
