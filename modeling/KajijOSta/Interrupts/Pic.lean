import KajijOSta.Keyboard.Driver

/-! # The interrupt controllers

Two 8259 controllers, the second one behind line 2 of the first, and how `interrupt.c`
programs them. A line that is raised stays requested until the processor takes it or the
device withdraws it. Of the operation words only the plain end of interrupt is modelled;
the kernel sends no other. -/
namespace KajijOSta.Interrupts
open KajijOSta.Keyboard

/-! ## One controller -/

/-- What a controller's data port takes next. -/
inductive Awaits
  | mask
  | icw2
  | icw3
  | icw4
deriving DecidableEq

structure Chip where
  awaits : Awaits
  single : Bool
  needsIcw4 : Bool
  offset : UInt8
  cascade : UInt8
  autoEoi : Bool
  imr : UInt8
  irr : Fin 8 → Bool
  isr : Fin 8 → Bool

namespace Chip
variable (c : Chip)

/-- `ICW1`: the sequence of initialization words begins. -/
def restart (icw1 : UInt8) : Chip :=
  { c with
    awaits := .icw2
    single := icw1 &&& 0x02 ≠ 0
    needsIcw4 := icw1 &&& 0x01 ≠ 0
    autoEoi := false
    imr := 0
    irr := fun _ => false
    isr := fun _ => false }

/-- The end of the interrupt in service with the highest priority. -/
def endOfInterrupt : Chip :=
  match (List.finRange 8).find? c.isr with
  | some i => { c with isr := Function.update c.isr i false }
  | none => c

def command (data : UInt8) : Chip :=
  if data &&& 0x10 ≠ 0 then c.restart data
  else if data = 0x20 then c.endOfInterrupt
  else c

def data (data : UInt8) : Chip :=
  match c.awaits with
  | .mask => { c with imr := data }
  | .icw2 => { c with
      offset := data &&& 0xF8
      awaits := if c.single then (if c.needsIcw4 then .icw4 else .mask) else .icw3 }
  | .icw3 => { c with cascade := data, awaits := if c.needsIcw4 then .icw4 else .mask }
  | .icw4 => { c with autoEoi := data &&& 0x02 ≠ 0, awaits := .mask }

/-- A line is requested and not masked. -/
def requests (i : Fin 8) : Bool := c.irr i && !c.imr.toBitVec.getLsbD i

/-- The line to be served next: the first that is requested, if none before it and not the
line itself is in service. -/
def pending : Option (Fin 8) :=
  ((List.finRange 8).find? fun i => c.requests i || c.isr i).filter fun i => !c.isr i

def take (i : Fin 8) : Chip :=
  { c with
    irr := Function.update c.irr i false
    isr := if c.autoEoi then c.isr else Function.update c.isr i true }

end Chip

/-! ## The pair -/

structure Pic where
  master : Chip
  slave : Chip

def pic1Data : UInt16 := pic1Command + 1
def pic2Data : UInt16 := pic2Command + 1

namespace Pic
variable (p : Pic)

/-- The master as it sees its lines: line 2 is the slave's output. -/
def wired : Chip :=
  { p.master with irr := Function.update p.master.irr 2 p.slave.pending.isSome }

/-- The line to the processor. -/
def signals : Bool := p.wired.pending.isSome

/-- The processor asks for the vector: there is one also when the request has gone in the
meantime, that of line 7. -/
def acknowledge : Pic × UInt8 :=
  match p.wired.pending with
  | none => (p, p.master.offset + 7)
  | some i =>
    if i = 2 then
      match p.slave.pending with
      | none => ({ p with master := p.wired.take i }, p.slave.offset + 7)
      | some j => (⟨p.wired.take i, p.slave.take j⟩, p.slave.offset + UInt8.ofNat j)
    else ({ p with master := p.wired.take i }, p.master.offset + UInt8.ofNat i)

def out (w : PortWrite) : Pic :=
  if w.port = pic1Command then { p with master := p.master.command w.data }
  else if w.port = pic1Data then { p with master := p.master.data w.data }
  else if w.port = pic2Command then { p with slave := p.slave.command w.data }
  else if w.port = pic2Data then { p with slave := p.slave.data w.data }
  else p

/-- A device's line goes up or down; the slave is wired to line 2. -/
def setLine (line : Fin 16) (up : Bool) : Pic :=
  if h : line.val < 8 then
    if line.val = 2 then p
    else { p with master.irr := Function.update p.master.irr ⟨line.val, h⟩ up }
  else { p with slave.irr := Function.update p.slave.irr ⟨line.val - 8, by omega⟩ up }

end Pic

/-! ## `interrupt.c` -/

def icw1Icw4 : UInt8 := 0x01
def icw1Init : UInt8 := 0x10
def icw48086 : UInt8 := 0x01
def pic2Offset : UInt8 := 0x28
def picDisableAllMask : UInt8 := 0xFF

def ioWait : PortWrite := ⟨0x80, 0⟩

def picRemap : List PortWrite :=
  [⟨pic1Command, icw1Init ||| icw1Icw4⟩, ioWait, ⟨pic2Command, icw1Init ||| icw1Icw4⟩, ioWait,
    ⟨pic1Data, pic1Offset⟩, ioWait, ⟨pic2Data, pic2Offset⟩, ioWait,
    ⟨pic1Data, 0x04⟩, ioWait, ⟨pic2Data, 0x02⟩, ioWait,
    ⟨pic1Data, icw48086⟩, ioWait, ⟨pic2Data, icw48086⟩, ioWait,
    ⟨pic1Data, picDisableAllMask⟩, ⟨pic2Data, picDisableAllMask⟩]

/-! ## Code and processor -/

/-- The instructions that matter to the controllers. -/
inductive Op
  | cli
  | sti
  | lidt
  | out (w : PortWrite)
  | inMask
  | outMask
  | iret

/-- `activate_keyboard_interrupt`: read the mask, write it without the keyboard's bit. -/
def activateKeyboardInterrupt : List Op := [.inMask, .outMask]

/-- `kernel_setup`, from `load_gdt` on; `rest` is what it writes to ports afterwards. -/
def kernelSetup (rest : List PortWrite) : List Op :=
  [.cli] ++ (picRemap.map .out ++ ([.lidt, .sti] ++ (activateKeyboardInterrupt ++ rest.map .out)))

def isrWrites (console : Console) (scancode : UInt8) : List PortWrite :=
  (keyboardIsr console scancode).sent.drop console.sent.length

/-- The handler for a vector: only the keyboard's writes to ports. -/
def handlerCode (console : Console) (scancode vector : UInt8) : List Op :=
  if vector = pic1Offset + irqKeyboard then (isrWrites console scancode).map .out ++ [.iret]
  else [.iret]

/-- A vector, and whether the descriptor table was loaded when it came. -/
structure Delivery where
  vector : UInt8
  idtLoaded : Bool

/-- The controllers, the processor and the code it has before it. -/
structure Board where
  pic : Pic
  interruptFlag : Bool
  idtLoaded : Bool
  noticed : Bool
  al : UInt8
  code : List Op
  delivered : List Delivery

namespace Board

def perform (b : Board) : Op → Board
  | .cli => { b with interruptFlag := false }
  | .sti => { b with interruptFlag := true }
  | .lidt => { b with idtLoaded := true }
  | .out w => { b with pic := b.pic.out w }
  | .inMask => { b with al := b.pic.master.imr }
  | .outMask => { b with pic := b.pic.out ⟨pic1Data, b.al &&& ~~~(1 <<< irqKeyboard)⟩ }
  | .iret => { b with interruptFlag := true }

def picPorts : List UInt16 := [pic1Command, pic1Data, pic2Command, pic2Data]

/-- Writes that do not reach the controllers. -/
def Elsewhere (ws : List PortWrite) : Prop := ∀ w ∈ ws, w.port ∉ picPorts

instance (ws : List PortWrite) : Decidable (Elsewhere ws) := List.decidableBAll _ _

inductive Event
  /-- A device's line goes up or down. -/
  | line (line : Fin 16) (up : Bool)
  /-- The processor, between two instructions, finds its interrupt line up. -/
  | notice
  /-- It asks for the vector and enters the handler. -/
  | acknowledge (console : Console) (scancode : UInt8)
  /-- It executes an instruction. -/
  | execute
  /-- A program has a system call done. -/
  | call (writes : List PortWrite)

/-- The board after an event; what cannot happen changes nothing. -/
def step (b : Board) : Event → Board
  | .line line up => { b with pic := b.pic.setLine line up }
  | .notice => if b.interruptFlag && b.pic.signals then { b with noticed := true } else b
  | .acknowledge console scancode =>
    if b.noticed then
      { b with
        pic := b.pic.acknowledge.1
        noticed := false
        interruptFlag := false
        code := handlerCode console scancode b.pic.acknowledge.2 ++ b.code
        delivered := b.delivered ++ [⟨b.pic.acknowledge.2, b.idtLoaded⟩] }
    else b
  | .execute =>
    if b.noticed then b
    else match b.code with
      | [] => b
      | op :: code => { b with code := code }.perform op
  | .call writes =>
    if b.interruptFlag = true ∧ b.noticed = false ∧ b.code = [] ∧ Elsewhere writes then
      { b with interruptFlag := false, code := writes.map .out ++ [.iret] }
    else b

/-- The board when the boot loader hands over: interrupts are off, the controllers are as
they were left. -/
def start (pic : Pic) (rest : List PortWrite) : Board :=
  ⟨pic, false, false, false, 0, kernelSetup rest, []⟩

end Board

end KajijOSta.Interrupts
