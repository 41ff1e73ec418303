import KajijOSta.Fat32.Refinement
import KajijOSta.Fat32.Replies
import KajijOSta.Keyboard.Driver
import KajijOSta.Interrupts.UserProgram

/-! # System calls

`main_interrupt_handler` and `syscall` of `interrupt.c`: the call is in `eax`, its
arguments in `ebx`, `ecx` and `edx`, and pointers lead into memory. The kernel's own data is
a state of its own (`Kernel`) and no part of that memory. -/
namespace KajijOSta.Interrupts
open KajijOSta.WordStack KajijOSta.Fat32 KajijOSta.Keyboard

/-! ## Memory -/

/-- The bytes from an address on. -/
def view (ram : Ram) (a : UInt32) : Memory := fun i => ram (a + UInt32.ofNat i)

/-- The memory whose bytes from an address on are given. -/
def unview (a : UInt32) (m : Memory) : Ram := fun x => m (x - a).toNat

def requestAt (ram : Ram) (a : UInt32) : FAT32DriverRequest where
  buf := view ram (word.get ram a)
  name i := view ram (a + 4) i
  ext i := view ram (a + 12) i
  parentClusterNumber := word.get ram (a + 15)
  bufferSize := word.get ram (a + 19)

def sizeofRequest : Nat := 23

/-! ## The kernel -/

/-- What the kernel works on: the file system, keyboard and screen, and the scancode that
the keyboard's port shows. -/
structure Kernel where
  machine : Machine
  console : Console
  scancode : UInt8

def irqKeyboardVector : UInt32 := 0x20 + 1
def syscallVector : UInt32 := 0x30

/-- The system calls 0 to 3: the file system gets the request at `ebx`, and the result code
is stored at `ecx`. -/
def fileCall (call : FAT32DriverRequest → Call) (registers : GeneralRegisters) (ram : Ram)
    (k : Kernel) : Except Fault (Ram × Kernel) :=
  (Fat32.serve k.machine (call (requestAt ram registers.ebx))).map fun x =>
    (Function.update (unview (word.get ram registers.ebx) x.1.buf) registers.ecx
      x.1.code.toUInt8, { k with machine := x.2 })

/-- `get_keyboard_buffer`, its results stored at `ebx` and `ecx`. -/
def keyboardBufferCall (registers : GeneralRegisters) (ram : Ram) (k : Kernel) : Ram × Kernel :=
  let polled := (getKeyboardBuffer k.console).1
  (Function.update (Function.update ram registers.ebx polled.char) registers.ecx
    (if polled.printMode then 1 else 0), { k with console := (getKeyboardBuffer k.console).2 })

def syscall (frame : InterruptFrame) (ram : Ram) (k : Kernel) : Except Fault (Ram × Kernel) :=
  let registers := frame.cpu.general
  match registers.eax.toNat with
  | 0 => fileCall .read registers ram k
  | 1 => fileCall .readDirectory registers ram k
  | 2 => fileCall .write registers ram k
  | 3 => fileCall .delete registers ram k
  | 4 => .ok (keyboardBufferCall registers ram k)
  | 5 => .ok (ram, { k with
      console := putsChar k.console registers.ebx.toUInt8 registers.ecx.toUInt8 })
  | 6 => .ok (ram, { k with
      console := puts k.console (view ram registers.ebx) registers.ecx.toUInt8
        registers.edx.toUInt8 })
  | 7 => .ok (ram, { k with console := keyboardStateActivate k.console })
  | 8 => .ok (ram, { k with console := putsNewline k.console })
  | 9 => .ok (ram, { k with console := resetKeyboardState k.console })
  | 10 => .ok (ram, { k with console := framebufferClear k.console })
  | _ => .ok (ram, k)

def mainInterruptHandler (frame : InterruptFrame) (ram : Ram) (k : Kernel) :
    Except Fault (Ram × Kernel) :=
  if frame.intNumber = irqKeyboardVector then
    .ok (ram, { k with console := keyboardIsr k.console k.scancode })
  else if frame.intNumber = syscallVector then syscall frame ram k
  else .ok (ram, k)

/-! ## Views of memory -/

section View
variable {ram ram' : Ram} {a : UInt32}

theorem span_index {k : Nat} {x : UInt32} (h : Span a k x) :
    ∃ i < k, x = a + UInt32.ofNat i := by
  refine ⟨(x - a).toNat, h, ?_⟩
  rw [UInt32.ofNat_toNat, UInt32.add_comm, UInt32.sub_add_cancel]

theorem unview_view (ram : Ram) (a : UInt32) : unview a (view ram a) = ram := by
  funext x
  unfold unview view
  rw [UInt32.ofNat_toNat, UInt32.add_comm, UInt32.sub_add_cancel]

/-- The buffer's address is in the first bytes of a request. -/
theorem requestAt_pointer
    (h : ∀ i < sizeofRequest, ram' (a + UInt32.ofNat i) = ram (a + UInt32.ofNat i)) :
    word.get ram' a = word.get ram a := by
  refine word.get_congr fun x hx => ?_
  obtain ⟨i, hi, rfl⟩ := span_index hx
  exact h i (Nat.lt_trans hi (by decide))

/-- A request is read from the 23 bytes at its address; the buffer is that of the memory
it is read from. -/
theorem requestAt_congr
    (h : ∀ i < sizeofRequest, ram' (a + UInt32.ofNat i) = ram (a + UInt32.ofNat i)) :
    requestAt ram' a = { requestAt ram a with buf := view ram' (word.get ram a) } := by
  have hbyte : ∀ j k, j + k < sizeofRequest →
      ram' (a + UInt32.ofNat j + UInt32.ofNat k) = ram (a + UInt32.ofNat j + UInt32.ofNat k) := by
    intro j k hjk
    rw [add_ofNat_add]
    exact h _ hjk
  have hword : ∀ j, j + 4 ≤ sizeofRequest →
      word.get ram' (a + UInt32.ofNat j) = word.get ram (a + UInt32.ofNat j) := by
    intro j hj
    refine word.get_congr fun x hx => ?_
    obtain ⟨i, hi, rfl⟩ := span_index hx
    exact hbyte j i (by omega)
  have hbuf := requestAt_pointer h
  have hparent : word.get ram' (a + 15) = word.get ram (a + 15) := hword 15 (by decide)
  have hsize : word.get ram' (a + 19) = word.get ram (a + 19) := hword 19 (by decide)
  have hname : (fun i : Fin 8 => view ram' (a + 4) i) = fun i : Fin 8 => view ram (a + 4) i :=
    funext fun i => hbyte 4 i (by have := i.isLt; simp only [sizeofRequest]; omega)
  have hext : (fun i : Fin 3 => view ram' (a + 12) i) = fun i : Fin 3 => view ram (a + 12) i :=
    funext fun i => hbyte 12 i (by have := i.isLt; simp only [sizeofRequest]; omega)
  unfold requestAt
  rw [hbuf, hparent, hsize, hname, hext]

end View

/-! ## Calls of the file system -/

inductive FileOperation
  | read
  | readDirectory
  | write
  | delete
deriving DecidableEq

namespace FileOperation

def number : FileOperation → Nat
  | .read => 0
  | .readDirectory => 1
  | .write => 2
  | .delete => 3

def call : FileOperation → FAT32DriverRequest → Call
  | .read => .read
  | .readDirectory => .readDirectory
  | .write => .write
  | .delete => .delete

theorem call_request (op : FileOperation) (r : FAT32DriverRequest) : (op.call r).request = r := by
  cases op <;> rfl

end FileOperation

/-- The interrupt for system calls leads to the file system for the first four numbers. -/
theorem handler_fileCall {frame : InterruptFrame} {ram : Ram} {k : Kernel} (op : FileOperation)
    (hint : frame.intNumber = syscallVector) (hop : frame.cpu.general.eax.toNat = op.number) :
    mainInterruptHandler frame ram k = fileCall op.call frame.cpu.general ram k := by
  have hkeyboard : frame.intNumber ≠ irqKeyboardVector := by
    rw [hint]
    decide
  unfold mainInterruptHandler
  rw [if_neg hkeyboard, if_pos hint]
  simp only [syscall, hop]
  cases op <;> rfl

/-- A program that asks for a folder `a` in the root: the request is at 0, the result wanted
at 0x100. -/
def mkdirState : State Kernel where
  cpu := { startRegisters kernelRegisters 0 with eax := 2, ebx := 0, ecx := 0x100 }
  ram x := if x = 4 then 0x61 else if x = 15 then 2 else readyTssEntry 0xC0100000 0xC0400000 x
  world := ⟨rootedMachine (letterName 'r'), loaded, 0⟩

/-- The request lies apart from the task state segment. -/
theorem mkdirState_ram {a : UInt32} (ha : a = 0xC0100000 + 4 ∨ a = 0xC0100000 + 8) :
    word.get mkdirState.ram a = word.get (readyTssEntry 0xC0100000 0xC0400000) a := by
  refine word.get_congr fun x hx => ?_
  have hne : x ≠ 4 ∧ x ≠ 15 := by
    rcases ha with rfl | rfl
    all_goals
      refine ⟨?_, ?_⟩ <;> rintro rfl <;> exact absurd hx (by decide)
  exact (if_neg hne.1).trans (if_neg hne.2)

theorem mkdirState_running : Running lowLayout mkdirState where
  user := ⟨rfl, rfl, fun r => by cases r <;> rfl⟩
  esp0 := (mkdirState_ram (Or.inl rfl)).trans (readyTssEntry_esp0 _ _)
  ss0 := (congrArg UInt32.toUInt16 (mkdirState_ram (Or.inr rfl))).trans (readyTssEntry_ss0 _ _)

end KajijOSta.Interrupts
