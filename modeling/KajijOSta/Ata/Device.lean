import KajijOSta.Fat32.Disk

/-! # An ATA device in PIO mode

The disk as the ports show it: a sector address and a count in registers, a
command, and then the sectors as 16-bit words through one data port. How long the
device is busy is left open (`Timing`), and so are the status bits that say
nothing; while it is busy it takes nothing from its ports. -/
namespace KajijOSta.Ata
open KajijOSta.Fat32

/-! ## Constants -/

def ataStatusBsy : UInt8 := 0x80
def ataStatusRdy : UInt8 := 0x40
def ataStatusDrq : UInt8 := 0x08
def halfBlockSize : Nat := blockSize / 2

theorem halfBlockSize_eq : halfBlockSize = 256 := rfl

theorem halfBlockSize_pos : 0 < halfBlockSize := by decide

/-! ## The device -/

/-- What the device leaves open: for each busy period the number of status reads
it lasts, and for each status read the bits that say nothing. -/
structure Timing where
  busy : Nat → Nat
  bits : Nat → UInt8

/-- What goes on between the device and its data port: in a sector, with so many
sectors left including it, the words read, or the words written so far. -/
inductive Transfer
  | none
  | reading (sector left word : Nat)
  | writing (sector left : Nat) (buffer : List UInt16)

/-- The device. `busy` is the number of status reads that its busy period still
lasts; `periods` and `reads` count the busy periods and the status reads so far. -/
structure Device where
  disk : Disk
  sectorCount : UInt8
  lbaLow : UInt8
  lbaMid : UInt8
  lbaHigh : UInt8
  driveHead : UInt8
  transfer : Transfer
  busy : Nat
  periods : Nat
  reads : Nat
  timing : Timing

namespace Device

def startBusy (d : Device) : Device :=
  { d with busy := d.timing.busy d.periods, periods := d.periods + 1 }

def lba (d : Device) : Nat :=
  d.lbaLow.toNat + 256 * d.lbaMid.toNat + 256 ^ 2 * d.lbaHigh.toNat +
    256 ^ 3 * (d.driveHead &&& 0xF).toNat

/-- The number of sectors asked for: a count of 0 stands for 256. -/
def count (d : Device) : Nat := if d.sectorCount = 0 then 256 else d.sectorCount.toNat

/-- A byte written to the command port: 0x20 reads and 0x30 writes sectors, of
drive 0 by sector address. -/
def command (d : Device) (c : UInt8) : Device :=
  if d.driveHead &&& 0xF0 ≠ 0xE0 then d
  else if c = 0x20 then startBusy { d with transfer := .reading d.lba d.count 0 }
  else if c = 0x30 then startBusy { d with transfer := .writing d.lba d.count [] }
  else d

/-- The status: busy, or ready with data where a transfer goes on. -/
def status (d : Device) : UInt8 :=
  let bits := d.timing.bits d.reads
  if 0 < d.busy then bits ||| ataStatusBsy
  else match d.transfer with
    | .none => bits &&& ~~~ataStatusBsy
    | _ => (bits ||| ataStatusRdy ||| ataStatusDrq) &&& ~~~ataStatusBsy

def in8 (d : Device) (port : UInt16) : UInt8 × Device :=
  if port = 0x1F7 then (d.status, { d with busy := d.busy - 1, reads := d.reads + 1 })
  else (d.timing.bits d.reads, d)

def out8 (d : Device) (port : UInt16) (data : UInt8) : Device :=
  if 0 < d.busy then d
  else if port = 0x1F2 then { d with sectorCount := data }
  else if port = 0x1F3 then { d with lbaLow := data }
  else if port = 0x1F4 then { d with lbaMid := data }
  else if port = 0x1F5 then { d with lbaHigh := data }
  else if port = 0x1F6 then { d with driveHead := data }
  else if port = 0x1F7 then d.command data
  else d

/-- A sector is through; `next` is the transfer of the one behind it. -/
def endSector (d : Device) (left : Nat) (next : Transfer) : Device :=
  startBusy { d with transfer := if left ≤ 1 then .none else next }

def storeSector (disk : Disk) (sector : Nat) (words : List UInt16) : Disk := fun a =>
  if blockSize * sector ≤ a ∧ a < blockSize * sector + blockSize then
    byte16 (words.getD ((a - blockSize * sector) / 2) 0) ((a - blockSize * sector) % 2)
  else disk a

def in16 (d : Device) (port : UInt16) : UInt16 × Device :=
  if port = 0x1F0 ∧ d.busy = 0 then
    match d.transfer with
    | .reading sector left word =>
      (word16 (Memory.from d.disk (blockSize * sector + 2 * word)),
        if word + 1 < halfBlockSize then { d with transfer := .reading sector left (word + 1) }
        else d.endSector left (.reading (sector + 1) (left - 1) 0))
    | _ => (0, d)
  else (0, d)

def out16 (d : Device) (port : UInt16) (data : UInt16) : Device :=
  if port = 0x1F0 ∧ d.busy = 0 then
    match d.transfer with
    | .writing sector left buffer =>
      let buffer := buffer ++ [data]
      if buffer.length < halfBlockSize then { d with transfer := .writing sector left buffer }
      else endSector { d with disk := storeSector d.disk sector buffer } left
        (.writing (sector + 1) (left - 1) [])
    | _ => d
  else d

end Device

/-! ## What the status says -/

/-- A property of all bytes, from their bits. -/
theorem byte_of_bits {P : UInt8 → Prop} (h : ∀ v : BitVec 8, P (UInt8.ofBitVec v)) (b : UInt8) :
    P b := h b.toBitVec

theorem status_busy {d : Device} (hb : 0 < d.busy) : d.status &&& ataStatusBsy ≠ 0 := by
  unfold Device.status
  rw [if_pos hb]
  exact byte_of_bits (P := fun b => (b ||| ataStatusBsy) &&& ataStatusBsy ≠ 0) (by decide) _

theorem status_not_busy {d : Device} (hb : d.busy = 0) : d.status &&& ataStatusBsy = 0 := by
  unfold Device.status
  rw [if_neg (by omega)]
  cases d.transfer with
  | none =>
    exact byte_of_bits (P := fun b => (b &&& ~~~ataStatusBsy) &&& ataStatusBsy = 0) (by decide) _
  | _ =>
    exact byte_of_bits (P := fun b =>
      ((b ||| ataStatusRdy ||| ataStatusDrq) &&& ~~~ataStatusBsy) &&& ataStatusBsy = 0)
      (by decide) _

theorem status_ready {d : Device} (hb : d.busy = 0) (ht : d.transfer ≠ .none) :
    d.status &&& ataStatusRdy ≠ 0 := by
  unfold Device.status
  rw [if_neg (by omega)]
  cases hd : d.transfer with
  | none => exact absurd hd ht
  | _ =>
    exact byte_of_bits (P := fun b =>
      ((b ||| ataStatusRdy ||| ataStatusDrq) &&& ~~~ataStatusBsy) &&& ataStatusRdy ≠ 0)
      (by decide) _

end KajijOSta.Ata
