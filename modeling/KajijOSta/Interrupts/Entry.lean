import KajijOSta.Interrupts.Processor

/-! # Entry and return of interrupt handlers

The stubs of `intsetup.s` and `call_generic_handler`, instruction by instruction, and the
frame that `main_interrupt_handler` gets from them. The C function is a parameter here: it
takes the frame, memory and the kernel's state, and returns, or stops on a fault of `F`. -/
namespace KajijOSta.Interrupts
open KajijOSta.WordStack

/-! ## The frame -/

structure IndexRegisters where
  edi : UInt32
  esi : UInt32

structure StackRegisters where
  esp : UInt32
  ebp : UInt32

structure GeneralRegisters where
  ebx : UInt32
  edx : UInt32
  ecx : UInt32
  eax : UInt32

structure SegmentRegisters where
  gs : UInt32
  fs : UInt32
  es : UInt32
  ds : UInt32

structure CPURegister where
  index : IndexRegisters
  stack : StackRegisters
  general : GeneralRegisters
  segment : SegmentRegisters

structure InterruptStack where
  errorCode : UInt32
  eip : UInt32
  cs : UInt32
  eflags : UInt32

structure InterruptFrame where
  cpu : CPURegister
  intNumber : UInt32
  intStack : InterruptStack

/-- The frame whose words are given by their number. -/
def InterruptFrame.ofWords (w : Nat → UInt32) : InterruptFrame where
  cpu :=
    { index := ⟨w 0, w 1⟩
      stack := ⟨w 2, w 3⟩
      general := ⟨w 4, w 5, w 6, w 7⟩
      segment := ⟨w 8, w 9, w 10, w 11⟩ }
  intNumber := w 12
  intStack := ⟨w 13, w 14, w 15, w 16⟩

def sizeofFrame : Nat := 17

/-! ## Running instructions -/

section Exec
variable {W F : Type} (t : Tables) (e : Leeway)
  (handler : InterruptFrame → Ram → W → Except F (Ram × W))

/-- What a data segment register holds after the return to an outer ring. -/
def retained (ring : Nat) (selector : UInt16) : UInt16 :=
  match t.segmentOf selector.toNat with
  | some segment => if segment.dpl < ring then 0 else selector
  | none => 0

/-- The flags that `add` sets: CF, PF, AF, ZF, SF and OF. -/
def arithmeticFlags : UInt32 := 0x8D5

/-- Registers after `add`: what it sets of the flags is left open. -/
def Cpu.added (cpu : Cpu) (eflags : UInt32) : Cpu :=
  { cpu with eflags := (cpu.eflags &&& ~~~arithmeticFlags) ||| (eflags &&& arithmeticFlags) }

def iret (s : State W) : State W :=
  let cs := (s.top 1).toUInt16
  let back : State W := { s.drop 3 with
    cpu.eip := s.top 0
    cpu.cs := cs
    cpu.eflags := s.top 2 }
  if s.cpu.cpl < cs.toNat % 4 then
    { back with
      cpu.esp := s.top 3
      cpu.ss := (s.top 4).toUInt16
      cpu.ds := retained t (cs.toNat % 4) s.cpu.ds
      cpu.es := retained t (cs.toNat % 4) s.cpu.es
      cpu.fs := retained t (cs.toNat % 4) s.cpu.fs
      cpu.gs := retained t (cs.toNat % 4) s.cpu.gs }
  else back

def pushad (s : State W) : State W :=
  (((((((s.push s.cpu.eax).push s.cpu.ecx).push s.cpu.edx).push s.cpu.ebx).push
    s.cpu.esp).push s.cpu.ebp).push s.cpu.esi).push s.cpu.edi

/-- `popad`: the word of `esp` is skipped. -/
def popad (s : State W) : State W :=
  { s.drop 8 with
    cpu.edi := s.top 0
    cpu.esi := s.top 1
    cpu.ebp := s.top 2
    cpu.ebx := s.top 4
    cpu.edx := s.top 5
    cpu.ecx := s.top 6
    cpu.eax := s.top 7 }

/-- `call main_interrupt_handler`: the frame is on top of the stack, the return address
goes below it, and below that lies the stack of the function. -/
def callMainInterruptHandler (s : State W) : Except F (State W) :=
  match handler (InterruptFrame.ofWords s.top) (s.push e.returnAddress).ram s.world with
  | .error f => .error f
  | .ok (ram, world) => .ok
      { cpu := { s.cpu with eax := e.eax, ecx := e.ecx, edx := e.edx, eflags := e.eflags }
        ram := fun a =>
          if Span (s.cpu.esp - UInt32.ofNat e.depth) e.depth a then e.left a else ram a
        world := world }

def exec (s : State W) : Instruction → Except F (State W)
  | .pushDword w => .ok (s.push w)
  | .pushSegment r => .ok (s.pushSelector e.zeroExtends (s.cpu.segment r))
  | .popSegment r => .ok { s.drop 1 with cpu := (s.drop 1).cpu.setSegment (s.top 0).toUInt16 r }
  | .pushad => .ok (pushad s)
  | .popad => .ok (popad s)
  | .pushEax => .ok (s.push s.cpu.eax)
  | .popEax => .ok { s.drop 1 with cpu.eax := s.top 0 }
  | .pushf => .ok (s.push (s.cpu.eflags &&& 0xFCFFFF))
  | .movAx w => .ok { s with cpu.eax := (s.cpu.eax &&& 0xFFFF0000) ||| w.toUInt32 }
  | .movEax w => .ok { s with cpu.eax := w }
  | .movEaxEcx => .ok { s with cpu.eax := s.cpu.ecx }
  | .movEcxStack k => .ok { s with cpu.ecx := word.get s.ram (s.cpu.esp + UInt32.ofNat k) }
  | .addEax w => .ok { s with cpu := { s.cpu.added e.eflags with eax := s.cpu.eax + w } }
  | .movSegmentAx r => .ok { s with cpu := s.cpu.setSegment s.cpu.eax.toUInt16 r }
  | .callMainInterruptHandler => callMainInterruptHandler e handler s
  | .addEsp k => .ok { s with
      cpu := (s.cpu.added e.eflags).withEsp (s.cpu.esp + UInt32.ofNat k) }
  | .sti => .ok { s with cpu.eflags := s.cpu.eflags ||| 0x200 }
  | .iret => .ok (iret t s)

def execAll (s : State W) : List Instruction → Except F (State W)
  | [] => .ok s
  | i :: is => do
    let s ← exec t e handler s i
    execAll s is

end Exec

/-! ## The code -/

def saveRegisters : List Instruction :=
  [.pushSegment .ds, .pushSegment .es, .pushSegment .fs, .pushSegment .gs, .pushad]

def loadKernelSegments : List Instruction :=
  [.pushEax, .movAx 0x10, .movSegmentAx .ds, .movSegmentAx .es, .movSegmentAx .fs,
    .movSegmentAx .gs, .popEax]

def restoreContext : List Instruction :=
  [.popad, .popSegment .gs, .popSegment .fs, .popSegment .es, .popSegment .ds, .addEsp 8, .sti,
    .iret]

def callGenericHandler : List Instruction :=
  saveRegisters ++ loadKernelSegments ++ [.callMainInterruptHandler] ++ restoreContext

/-- The vectors whose stub is an `error_code_interrupt_handler`. -/
def errorCodeVectors : List Nat := [8, 10, 11, 12, 13, 14, 17, 30]

/-- What the stub of a vector pushes. -/
def stubPushes (v : Nat) : List Instruction :=
  if v ∈ errorCodeVectors then [.pushDword (UInt32.ofNat v)]
  else [.pushDword 0, .pushDword (UInt32.ofNat v)]

def interruptHandler (v : Nat) : List Instruction := stubPushes v ++ callGenericHandler

def kernelExecuteUserProgram : List Instruction :=
  [.movEax (0x20 ||| 0x3), .movSegmentAx .ds, .movSegmentAx .es, .movSegmentAx .fs,
    .movSegmentAx .gs, .movEcxStack 4, .pushEax, .movEaxEcx, .addEax (0x400000 - 4), .pushEax,
    .pushf, .movEax (0x18 ||| 0x3), .pushEax, .movEaxEcx, .pushEax, .iret]

end KajijOSta.Interrupts
