import KajijOSta.Ata.Device
import KajijOSta.Lib.Program

/-! # The disk driver

`disk.c`, and the cluster transfers of `fat32.c` over it. The driver runs on the
device and on the memory from `ptr` on; `target` is the pointer of `read_blocks`,
in words from `ptr`, and `ports` the ports that were written to, in order. -/
namespace KajijOSta.Ata
open KajijOSta.Fat32 KajijOSta.Program

structure Cpu where
  device : Device
  memory : Memory
  target : Nat
  ports : List UInt16

/-! ## Ports -/

def in8 (port : UInt16) : Prog Cpu UInt8 := Prog.step fun s =>
  ((s.device.in8 port).1, { s with device := (s.device.in8 port).2 })

def out (port : UInt16) (data : UInt8) : Prog Cpu Unit := Prog.step fun s =>
  ((), { s with device := s.device.out8 port data, ports := s.ports ++ [port] })

def in16 (port : UInt16) : Prog Cpu UInt16 := Prog.step fun s =>
  ((s.device.in16 port).1, { s with device := (s.device.in16 port).2 })

def out16 (port : UInt16) (data : UInt16) : Prog Cpu Unit := Prog.step fun s =>
  ((), { s with device := s.device.out16 port data, ports := s.ports ++ [port] })

/-! ## Memory -/

/-- Store a word, the low byte first. -/
def storeWord (m : Memory) (k : Nat) (w : UInt16) : Memory :=
  Function.update (Function.update m (2 * k) (byte16 w 0)) (2 * k + 1) (byte16 w 1)

/-- The word `k` words behind `ptr`. -/
def loadWord (k : Nat) : Prog Cpu UInt16 := Prog.step fun s => (word16 (s.memory.from (2 * k)), s)

def storeTarget (j : Nat) (data : UInt16) : Prog Cpu Unit := Prog.step fun s =>
  ((), { s with memory := storeWord s.memory (s.target + j) data })

/-- `target = k`, or `target += k` with `target` given. -/
def setTarget (f : Nat → Nat) : Prog Cpu Unit := Prog.step fun s =>
  ((), { s with target := f s.target })

/-! ## The driver -/

def ataBusyWait : Prog Cpu Unit := Prog.wait do
  let status ← in8 0x1F7
  return decide (status &&& ataStatusBsy ≠ 0)

def ataDrqWait : Prog Cpu Unit := Prog.wait do
  let status ← in8 0x1F7
  return decide (status &&& ataStatusRdy = 0)

/-- The lines that begin `read_blocks` and `write_blocks`, up to the command. -/
def ataCommand (logicalBlockAddress : UInt32) (blockCount c : UInt8) : Prog Cpu Unit := do
  ataBusyWait
  out 0x1F6 ((0xE0 : UInt8) ||| ((logicalBlockAddress >>> 24) &&& 0xF).toUInt8)
  out 0x1F2 blockCount
  out 0x1F3 logicalBlockAddress.toUInt8
  out 0x1F4 (logicalBlockAddress >>> 8).toUInt8
  out 0x1F5 (logicalBlockAddress >>> 16).toUInt8
  out 0x1F7 c

def readWords : Prog Cpu Unit := Prog.times (fun j => do
  let data ← in16 0x1F0
  storeTarget j data) halfBlockSize

def readBlocks (logicalBlockAddress : UInt32) (blockCount : UInt8) : Prog Cpu Unit := do
  ataCommand logicalBlockAddress blockCount 0x20
  setTarget fun _ => 0
  Prog.times (fun _ => do
    ataBusyWait
    ataDrqWait
    readWords
    setTarget fun target => target + halfBlockSize) blockCount.toNat

/-- The inner loop of `write_blocks`, for block `i`. -/
def writeWords (i : Nat) : Prog Cpu Unit := Prog.times (fun j => do
  let data ← loadWord (halfBlockSize * i + j)
  out16 0x1F0 data) halfBlockSize

def writeBlocks (logicalBlockAddress : UInt32) (blockCount : UInt8) : Prog Cpu Unit := do
  ataCommand logicalBlockAddress blockCount 0x30
  Prog.times (fun i => do
    ataBusyWait
    ataDrqWait
    writeWords i) blockCount.toNat

def writeClusters (clusterNumber : UInt32) (clusterCount : UInt8) : Prog Cpu Unit :=
  writeBlocks (clusterToLba clusterNumber) (clusterToLba clusterCount.toUInt32).toUInt8

def readClusters (clusterNumber : UInt32) (clusterCount : UInt8) : Prog Cpu Unit :=
  readBlocks (clusterToLba clusterNumber) (clusterToLba clusterCount.toUInt32).toUInt8

/-! ## The ports it writes to -/

def ataPorts : List UInt16 := [0x1F0, 0x1F2, 0x1F3, 0x1F4, 0x1F5, 0x1F6, 0x1F7]

/-- Only the device was written to. -/
def OwnPorts (s s' : Cpu) : Prop := ∃ ps, s'.ports = s.ports ++ ps ∧ ∀ p ∈ ps, p ∈ ataPorts

theorem ownPorts_same {s s' : Cpu} (h : s'.ports = s.ports) : OwnPorts s s' :=
  ⟨[], by rw [h, List.append_nil], fun _ hp => absurd hp List.not_mem_nil⟩

instance : IsPreorder Cpu OwnPorts where
  refl _ := ownPorts_same rfl
  trans := by
    rintro s s' s'' ⟨ps, hs', hps⟩ ⟨ps', hs'', hps'⟩
    exact ⟨ps ++ ps', by rw [hs'', hs', List.append_assoc],
      fun p hp => (List.mem_append.mp hp).elim (hps p) (hps' p)⟩

theorem ownPorts_one {s s' : Cpu} {port : UInt16} (hport : port ∈ ataPorts)
    (h : s'.ports = s.ports ++ [port]) : OwnPorts s s' :=
  ⟨[port], h, fun _ hp => List.mem_singleton.mp hp ▸ hport⟩

/-- A step that writes to no port. -/
theorem step_ports {A : Type} {f : Cpu → A × Cpu} (h : ∀ s, (f s).2.ports = s.ports) :
    Keeps OwnPorts (Prog.step f) := Keeps.step fun s => ownPorts_same (h s)

theorem out_ports {port : UInt16} (hport : port ∈ ataPorts) (data : UInt8) :
    Keeps OwnPorts (out port data) := Keeps.step fun _ => ownPorts_one hport rfl

theorem ataBusyWait_ports : Keeps OwnPorts ataBusyWait :=
  Keeps.wait ((step_ports fun _ => rfl).bind fun _ => Keeps.pure _)

theorem ataDrqWait_ports : Keeps OwnPorts ataDrqWait :=
  Keeps.wait ((step_ports fun _ => rfl).bind fun _ => Keeps.pure _)

theorem ataCommand_ports (logicalBlockAddress : UInt32) (blockCount c : UInt8) :
    Keeps OwnPorts (ataCommand logicalBlockAddress blockCount c) :=
  ataBusyWait_ports.bind fun _ => (out_ports (by decide) _).bind fun _ =>
    (out_ports (by decide) _).bind fun _ => (out_ports (by decide) _).bind fun _ =>
      (out_ports (by decide) _).bind fun _ => (out_ports (by decide) _).bind fun _ =>
        out_ports (by decide) _

/-- **The driver writes to the ports of its device only.** -/
theorem blocks_ports (logicalBlockAddress : UInt32) (blockCount : UInt8) :
    Keeps OwnPorts (readBlocks logicalBlockAddress blockCount) ∧
      Keeps OwnPorts (writeBlocks logicalBlockAddress blockCount) := by
  constructor
  · have hword : ∀ j, Keeps OwnPorts (do let data ← in16 0x1F0; storeTarget j data) := fun _ =>
      (step_ports fun _ => rfl).bind fun _ => step_ports fun _ => rfl
    refine (ataCommand_ports _ _ _).bind fun _ => (step_ports fun _ => rfl).bind fun _ =>
      Keeps.times (fun _ => ?_) _
    exact ataBusyWait_ports.bind fun _ => ataDrqWait_ports.bind fun _ =>
      (Keeps.times hword _).bind fun _ => step_ports fun _ => rfl
  · have hword : ∀ i j, Keeps OwnPorts
        (do let data ← loadWord (halfBlockSize * i + j); out16 0x1F0 data) := fun _ _ =>
      (step_ports fun _ => rfl).bind fun _ => Keeps.step fun _ => ownPorts_one (by decide) rfl
    refine (ataCommand_ports _ _ _).bind fun _ => Keeps.times (fun i => ?_) _
    exact ataBusyWait_ports.bind fun _ => ataDrqWait_ports.bind fun _ => Keeps.times (hword i) _

/-! ## The waits -/

/-- The memory, the disk and the transfer are as they were. -/
structure Held (s s' : Cpu) : Prop where
  memory : s'.memory = s.memory
  target : s'.target = s.target
  disk : s'.device.disk = s.device.disk
  transfer : s'.device.transfer = s.device.transfer

theorem Held.trans {s s' s'' : Cpu} (h : Held s s') (h' : Held s' s'') : Held s s'' :=
  ⟨h'.memory.trans h.memory, h'.target.trans h.target, h'.disk.trans h.disk,
    h'.transfer.trans h.transfer⟩

/-- A read of the status port. -/
theorem in8_ends (s : Cpu) : Ends (in8 0x1F7) s fun status s' =>
    status = s.device.status ∧ Held s s' ∧ s'.device.busy = s.device.busy - 1 :=
  Ends.step ⟨rfl, ⟨rfl, rfl, rfl, rfl⟩, rfl⟩

/-- The device is busy for a while only. -/
theorem ataBusyWait_ends (s : Cpu) : Ends ataBusyWait s fun _ s' =>
    Held s s' ∧ s'.device.busy = 0 := by
  refine Ends.wait (Held s) (fun s' => s'.device.busy) (fun s₁ hinv => ?_) ⟨rfl, rfl, rfl, rfl⟩
  refine (in8_ends s₁).bind fun status s₂ hread => Ends.pure ?_
  obtain ⟨rfl, hheld, hbusy⟩ := hread
  constructor
  · intro htest
    have hpos : 0 < s₁.device.busy := by
      by_contra h0
      exact of_decide_eq_true htest (status_not_busy (Nat.eq_zero_of_not_pos h0))
    exact ⟨hinv.trans hheld, by omega⟩
  · intro htest
    have h0 : s₁.device.busy = 0 := by
      by_contra hpos
      exact of_decide_eq_false htest (status_busy (Nat.pos_of_ne_zero hpos))
    exact ⟨hinv.trans hheld, by omega⟩

/-- A transfer has its data ready once the device is not busy. -/
theorem ataDrqWait_ends (s : Cpu) (hb : s.device.busy = 0) (ht : s.device.transfer ≠ .none) :
    Ends ataDrqWait s fun _ s' => Held s s' ∧ s'.device.busy = 0 := by
  refine Ends.wait (fun s' => s' = s) (fun _ => 0) (fun s₁ hinv => ?_) rfl
  subst hinv
  refine (in8_ends s₁).bind fun status s₂ hread => Ends.pure ?_
  obtain ⟨rfl, hheld, hbusy⟩ := hread
  refine ⟨fun htest => absurd (of_decide_eq_true htest) (status_ready hb ht), fun _ => ?_⟩
  exact ⟨hheld, by omega⟩

/-- The two waits before each sector of a transfer. -/
theorem ready_ends {s : Cpu} (ht : s.device.transfer ≠ .none) {p : Prog Cpu Unit}
    {Q : Unit → Cpu → Prop} (hp : ∀ s', Held s s' → s'.device.busy = 0 → Ends p s' Q) :
    Ends (do ataBusyWait; ataDrqWait; p) s Q := by
  refine (ataBusyWait_ends s).bind fun _ s₁ hbusy => ?_
  obtain ⟨hheld₁, hb₁⟩ := hbusy
  refine (ataDrqWait_ends s₁ hb₁ (by rw [hheld₁.transfer]; exact ht)).bind fun _ s₂ hdrq => ?_
  obtain ⟨hheld₂, hb₂⟩ := hdrq
  exact hp s₂ (hheld₁.trans hheld₂) hb₂

/-! ## The command -/

/-- The six bytes for the registers of a device that is not busy. -/
theorem out8_command {d : Device} (hb : d.busy = 0) (h n a b c cmd : UInt8) :
    (((((d.out8 0x1F6 h).out8 0x1F2 n).out8 0x1F3 a).out8 0x1F4 b).out8 0x1F5 c).out8 0x1F7 cmd =
      Device.command { d with
        driveHead := h, sectorCount := n, lbaLow := a, lbaMid := b, lbaHigh := c } cmd := by
  simp [Device.out8, hb]

theorem and_15 (n : Nat) : n &&& 15 = n % 16 := by
  simpa using Nat.and_two_pow_sub_one_eq_mod n 4

/-- The byte for the drive register: the drive, and four bits of the address. -/
theorem driveHead_bits {x : UInt32} (hx : x.toNat < 2 ^ 28) :
    (((0xE0 : UInt8) ||| ((x >>> 24) &&& 0xF).toUInt8) &&& 0xF).toNat = x.toNat / 2 ^ 24 ∧
      ((0xE0 : UInt8) ||| ((x >>> 24) &&& 0xF).toUInt8) &&& 0xF0 = 0xE0 := by
  have hlow : ((x >>> 24) &&& 0xF).toUInt8.toNat = x.toNat / 2 ^ 24 := by
    simp only [UInt32.toNat_toUInt8, UInt32.toNat_and, UInt32.toNat_shiftRight,
      UInt32.reduceToNat, Nat.reduceMod, Nat.shiftRight_eq_div_pow, and_15]
    omega
  have hnibble : ((x >>> 24) &&& 0xF).toUInt8 < 16 := by
    rw [UInt8.lt_iff_toNat_lt, hlow]
    have h16 : (16 : UInt8).toNat = 16 := rfl
    omega
  have hbits := byte_of_bits (P := fun b => b < 16 →
    ((0xE0 : UInt8) ||| b) &&& 0xF = b ∧ ((0xE0 : UInt8) ||| b) &&& 0xF0 = 0xE0)
    (by decide) _ hnibble
  rw [hbits.1]
  exact ⟨hlow, hbits.2⟩

/-- The registers hold the address that was split over them. -/
theorem lba_bytes {d : Device} {x : UInt32} (hx : x.toNat < 2 ^ 28)
    (ha : d.lbaLow = x.toUInt8) (hb : d.lbaMid = (x >>> 8).toUInt8)
    (hc : d.lbaHigh = (x >>> 16).toUInt8)
    (hh : d.driveHead = (0xE0 : UInt8) ||| ((x >>> 24) &&& 0xF).toUInt8) : d.lba = x.toNat := by
  unfold Device.lba
  rw [ha, hb, hc, hh, (driveHead_bits hx).1]
  simp only [UInt32.toNat_toUInt8, UInt32.toNat_shiftRight, UInt32.reduceToNat, Nat.reduceMod,
    Nat.shiftRight_eq_div_pow]
  omega

theorem out_ends (s : Cpu) (port : UInt16) (data : UInt8) : Ends (out port data) s
    fun _ s' => s' = { s with device := s.device.out8 port data, ports := s.ports ++ [port] } :=
  Ends.step rfl

/-- The command, given to a device that may still be busy: it begins the transfer
at the address and with the count of the call. -/
theorem ataCommand_ends (s : Cpu) {x : UInt32} (hx : x.toNat < 2 ^ 28) {n c : UInt8} (hn : n ≠ 0)
    (hc : c = 0x20 ∨ c = 0x30) : Ends (ataCommand x n c) s fun _ s' =>
      s'.memory = s.memory ∧ s'.device.disk = s.device.disk ∧
      s'.device.transfer = if c = 0x20 then .reading x.toNat n.toNat 0
        else .writing x.toNat n.toNat [] := by
  refine (ataBusyWait_ends s).bind fun _ s₁ hwait => ?_
  obtain ⟨hheld, hb⟩ := hwait
  refine (out_ends s₁ _ _).bind fun _ s₂ h₂ => ?_
  refine (out_ends s₂ _ _).bind fun _ s₃ h₃ => ?_
  refine (out_ends s₃ _ _).bind fun _ s₄ h₄ => ?_
  refine (out_ends s₄ _ _).bind fun _ s₅ h₅ => ?_
  refine (out_ends s₅ _ _).bind fun _ s₆ h₆ => ?_
  refine (out_ends s₆ _ _).mono fun _ s₇ h₇ => ?_
  subst h₂ h₃ h₄ h₅ h₆ h₇
  dsimp only
  rw [out8_command hb]
  refine ⟨hheld.memory, ?_⟩
  have hhead := (driveHead_bits hx).2
  have hcount : ∀ d : Device, d.sectorCount = n → d.count = n.toNat := by
    intro d hd
    unfold Device.count
    rw [hd, if_neg hn]
  unfold Device.command
  rw [if_neg (not_not.mpr hhead), lba_bytes hx rfl rfl rfl rfl, hcount _ rfl]
  rcases hc with rfl | rfl
  · exact ⟨hheld.disk, rfl⟩
  · exact ⟨hheld.disk, rfl⟩

end KajijOSta.Ata
