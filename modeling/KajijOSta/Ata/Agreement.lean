import KajijOSta.Ata.Driver

/-! # The two disks agree

The kernel moves blocks word by word through the ports of the device; the image
inserter copies them byte by byte in memory. Block by block both do the same
(`readBlock_ends`, `writeBlock_ends`), whatever the device is in when the driver
starts and however long it takes. -/
namespace KajijOSta.Ata
open KajijOSta.Fat32 KajijOSta.Program

/-! ## Reading a block -/

/-- Within a sector that is read: `j` words have gone to the memory, which now is
`memory`. -/
structure Reading (disk : Disk) (target sector left j : Nat) (memory : Memory) (s : Cpu) :
    Prop where
  memory : s.memory = memory
  target : s.target = target
  disk : s.device.disk = disk
  going : j < halfBlockSize → s.device.busy = 0 ∧ s.device.transfer = .reading sector left j
  done : ¬ j < halfBlockSize → s.device.transfer =
    if left ≤ 1 then .none else .reading (sector + 1) (left - 1) 0

section Read
variable {disk : Disk} {target sector left j : Nat} {memory : Memory} {s : Cpu}

/-- One word through the port. -/
theorem in16_ends (h : Reading disk target sector left j memory s) (hj : j < halfBlockSize) :
    Ends (in16 0x1F0) s fun data s' =>
      data = word16 (Memory.from disk (blockSize * sector + 2 * j)) ∧
      Reading disk target sector left (j + 1) memory s' := by
  obtain ⟨hb, ht⟩ := h.going hj
  have hread : s.device.in16 0x1F0 =
      (word16 (Memory.from s.device.disk (blockSize * sector + 2 * j)),
        if j + 1 < halfBlockSize then { s.device with transfer := .reading sector left (j + 1) }
        else s.device.endSector left (.reading (sector + 1) (left - 1) 0)) := by
    unfold Device.in16
    rw [if_pos ⟨rfl, hb⟩, ht]
  refine Ends.step ?_
  rw [hread, h.disk]
  refine ⟨rfl, ?_⟩
  by_cases hnext : j + 1 < halfBlockSize
  · rw [if_pos hnext]
    exact ⟨h.memory, h.target, h.disk, fun _ => ⟨hb, rfl⟩, fun hn => absurd hnext hn⟩
  · rw [if_neg hnext]
    exact ⟨h.memory, h.target, h.disk, fun hn => absurd hn hnext, fun _ => rfl⟩

/-- Two bytes of `memcpy` are one word. -/
theorem memcpy_word (m : Memory) (disk : Disk) (target a j : Nat) :
    storeWord (memcpy m (2 * target) disk a (2 * j)) (target + j)
        (word16 (Memory.from disk (a + 2 * j))) =
      memcpy m (2 * target) disk a (2 * (j + 1)) := by
  have h0 := byte16_word16 (Memory.from disk (a + 2 * j)) (show 0 < 2 by omega)
  have h1 := byte16_word16 (Memory.from disk (a + 2 * j)) (show 1 < 2 by omega)
  rw [storeWord, h0, h1, show 2 * (j + 1) = 2 * j + 1 + 1 by omega, memcpy, memcpy,
    show 2 * (target + j) = 2 * target + 2 * j by omega]
  rfl

theorem readWord_ends (m : Memory)
    (h : Reading disk target sector left j
      (memcpy m (2 * target) disk (blockSize * sector) (2 * j)) s) (hj : j < halfBlockSize) :
    Ends (do let data ← in16 0x1F0; storeTarget j data) s fun _ s' =>
      Reading disk target sector left (j + 1)
        (memcpy m (2 * target) disk (blockSize * sector) (2 * (j + 1))) s' := by
  refine (in16_ends h hj).bind fun data s₁ hread => Ends.step ?_
  obtain ⟨rfl, h₁⟩ := hread
  refine ⟨?_, h₁.target, h₁.disk, h₁.going, h₁.done⟩
  rw [← memcpy_word m disk target (blockSize * sector) j]
  show storeWord s₁.memory (s₁.target + j) _ = _
  rw [h₁.memory, h₁.target]

/-- A block is read as `memcpy` copies it. -/
theorem readBlock_ends (ht : s.device.transfer = .reading sector left 0) :
    Ends (do ataBusyWait; ataDrqWait; readWords; setTarget fun target => target + halfBlockSize) s
      fun _ s' =>
        s'.memory = memcpy s.memory (2 * s.target) s.device.disk (blockSize * sector) blockSize ∧
        s'.target = s.target + halfBlockSize ∧ s'.device.disk = s.device.disk ∧
        s'.device.transfer = if left ≤ 1 then .none else .reading (sector + 1) (left - 1) 0 := by
  refine ready_ends (by rw [ht]; exact Transfer.noConfusion) fun s₁ hheld hb => ?_
  have hwords : Ends readWords s₁ fun _ s' => Reading s.device.disk s.target sector left
      halfBlockSize (memcpy s.memory (2 * s.target) s.device.disk (blockSize * sector)
        (2 * halfBlockSize)) s' := by
    refine Ends.times (fun j s' => Reading s.device.disk s.target sector left j
      (memcpy s.memory (2 * s.target) s.device.disk (blockSize * sector) (2 * j)) s')
      (fun j s' hj hinv => readWord_ends s.memory hinv hj) ?_
    exact ⟨hheld.memory, hheld.target, hheld.disk, fun _ => ⟨hb, hheld.transfer.trans ht⟩,
      fun h0 => absurd halfBlockSize_pos h0⟩
  refine hwords.bind fun _ s₂ hread => Ends.step ⟨hread.memory, ?_, hread.disk, ?_⟩
  · show s₂.target + halfBlockSize = _
    rw [hread.target]
  · exact hread.done (lt_irrefl _)

end Read

/-! ## Writing a block -/

/-- The first `j` words of a block behind `ptr`. -/
def blockWords (buf : Memory) (block j : Nat) : List UInt16 :=
  (List.range j).map fun k => word16 (buf.from (2 * (halfBlockSize * block + k)))

theorem blockWords_length (buf : Memory) (block j : Nat) : (blockWords buf block j).length = j := by
  unfold blockWords
  rw [List.length_map, List.length_range]

theorem blockWords_succ (buf : Memory) (block j : Nat) : blockWords buf block (j + 1) =
    blockWords buf block j ++ [word16 (buf.from (2 * (halfBlockSize * block + j)))] := by
  unfold blockWords
  rw [List.range_succ, List.map_append, List.map_singleton]

/-- Within a sector that is written: the first `j` words of the block behind
`ptr` have gone to the device. -/
structure Writing (disk : Disk) (buf : Memory) (block sector left j : Nat) (s : Cpu) : Prop where
  memory : s.memory = buf
  going : j < halfBlockSize → s.device.busy = 0 ∧ s.device.disk = disk ∧
    s.device.transfer = .writing sector left (blockWords buf block j)
  done : ¬ j < halfBlockSize →
    s.device.disk = memcpy disk (blockSize * sector) buf (blockSize * block) blockSize ∧
    s.device.transfer = if left ≤ 1 then .none else .writing (sector + 1) (left - 1) []

section Write
variable {disk : Disk} {buf : Memory} {block sector left j : Nat} {s : Cpu}

/-- The words of a block in memory, stored as a sector. -/
theorem storeSector_block (disk : Disk) (buf : Memory) (block sector : Nat) :
    Device.storeSector disk sector (blockWords buf block halfBlockSize) =
      memcpy disk (blockSize * sector) buf (blockSize * block) blockSize := by
  funext a
  rw [memcpy_apply, Device.storeSector]
  by_cases ha : blockSize * sector ≤ a ∧ a < blockSize * sector + blockSize
  · rw [if_pos ha, if_pos ha]
    obtain ⟨q, hq⟩ : ∃ q, q = a - blockSize * sector := ⟨_, rfl⟩
    have hlt : q / 2 < halfBlockSize := by
      simp only [blockSize_eq, halfBlockSize_eq] at ha hq ⊢
      omega
    rw [← hq, blockWords, List.getD_eq_getElem?_getD, List.getElem?_map, List.getElem?_range hlt,
      Option.map_some, Option.getD_some, byte16_word16 _ (Nat.mod_lt _ (by decide)),
      Memory.from_apply]
    congr 1
    simp only [blockSize_eq, halfBlockSize_eq]
    omega
  · rw [if_neg ha, if_neg ha]

/-- One word through the port. -/
theorem writeWord_ends (h : Writing disk buf block sector left j s) (hj : j < halfBlockSize) :
    Ends (do let data ← loadWord (halfBlockSize * block + j); out16 0x1F0 data) s fun _ s' =>
      Writing disk buf block sector left (j + 1) s' := by
  obtain ⟨hb, hd, ht⟩ := h.going hj
  have hwrite : s.device.out16 0x1F0 (word16 (s.memory.from (2 * (halfBlockSize * block + j)))) =
      if j + 1 < halfBlockSize then
        { s.device with transfer := .writing sector left (blockWords buf block (j + 1)) }
      else Device.endSector
        { s.device with disk := Device.storeSector disk sector (blockWords buf block (j + 1)) }
        left (.writing (sector + 1) (left - 1) []) := by
    unfold Device.out16
    rw [if_pos ⟨rfl, hb⟩, ht, h.memory]
    dsimp only
    rw [← blockWords_succ, blockWords_length, hd, ht]
  refine (Ends.step (Q := fun data s' =>
    data = word16 (s.memory.from (2 * (halfBlockSize * block + j))) ∧ s' = s) ⟨rfl, rfl⟩).bind
    fun data s₁ hload => Ends.step ?_
  obtain ⟨rfl, rfl⟩ := hload
  rw [hwrite]
  by_cases hnext : j + 1 < halfBlockSize
  · rw [if_pos hnext]
    exact ⟨h.memory, fun _ => ⟨hb, hd, rfl⟩, fun hn => absurd hnext hn⟩
  · have hall : j + 1 = halfBlockSize := by omega
    rw [if_neg hnext]
    refine ⟨h.memory, fun hn => absurd hn hnext, fun _ => ⟨?_, rfl⟩⟩
    rw [← storeSector_block, hall]
    rfl

/-- A block is written as `memcpy` copies it. -/
theorem writeBlock_ends (ht : s.device.transfer = .writing sector left []) :
    Ends (do ataBusyWait; ataDrqWait; writeWords block) s fun _ s' =>
      s'.memory = s.memory ∧
      s'.device.disk =
        memcpy s.device.disk (blockSize * sector) s.memory (blockSize * block) blockSize ∧
      s'.device.transfer = if left ≤ 1 then .none else .writing (sector + 1) (left - 1) [] := by
  refine ready_ends (by rw [ht]; exact Transfer.noConfusion) fun s₁ hheld hb => ?_
  have hwords : Ends (writeWords block) s₁ fun _ s' =>
      Writing s.device.disk s.memory block sector left halfBlockSize s' := by
    refine Ends.times (fun j s' => Writing s.device.disk s.memory block sector left j s')
      (fun j s' hj hinv => writeWord_ends hinv hj) ?_
    exact ⟨hheld.memory, fun _ => ⟨hb, hheld.disk, hheld.transfer.trans ht⟩,
      fun h0 => absurd halfBlockSize_pos h0⟩
  refine hwords.mono fun _ s₂ hwritten => ⟨hwritten.memory, ?_⟩
  exact hwritten.done (lt_irrefl _)

end Write

/-! ## The block transfers -/

section Blocks
variable {s : Cpu} {x : UInt32} {n : UInt8} (hx : x.toNat < 2 ^ 28) (hn : n ≠ 0)

include hx hn in
theorem readBlocks_ends : Ends (readBlocks x n) s fun _ s' =>
    s'.memory = Fat32.readBlocks s.device.disk s.memory x n.toNat ∧
    s'.device.disk = s.device.disk := by
  refine (ataCommand_ends s hx hn (Or.inl rfl)).bind fun _ s₁ hcmd => ?_
  obtain ⟨hm, hd, ht⟩ := hcmd
  refine (Ends.step (Q := fun _ s' => s' = { s₁ with target := 0 }) rfl).bind fun _ s₂ h₂ => ?_
  subst h₂
  refine (Ends.times (fun i s' =>
    s'.memory = Fat32.readBlocks s.device.disk s.memory x i ∧ s'.target = halfBlockSize * i ∧
    s'.device.disk = s.device.disk ∧
    (i < n.toNat → s'.device.transfer = .reading (x.toNat + i) (n.toNat - i) 0))
    (fun i s' hi hinv => ?_) ?_).mono fun _ s' hall => ⟨hall.1, hall.2.2.1⟩
  · obtain ⟨hm', htarget, hd', ht'⟩ := hinv
    refine (readBlock_ends (ht' hi)).mono fun _ s'' hblock => ?_
    obtain ⟨hm'', htarget'', hd'', ht''⟩ := hblock
    refine ⟨?_, ?_, hd''.trans hd', fun hnext => ?_⟩
    · rw [hm'', hm', htarget, hd', Fat32.readBlocks,
        show 2 * (halfBlockSize * i) = blockSize * i by
          simp only [halfBlockSize_eq, blockSize_eq]; omega]
    · rw [htarget'', htarget, Nat.mul_succ]
    · rw [ht'', if_neg (by omega)]
      congr 1
  · exact ⟨hm, rfl, hd, fun _ => ht⟩

include hx hn in
theorem writeBlocks_ends : Ends (writeBlocks x n) s fun _ s' =>
    s'.memory = s.memory ∧
    s'.device.disk = Fat32.writeBlocks s.device.disk s.memory x n.toNat := by
  refine (ataCommand_ends s hx hn (Or.inr rfl)).bind fun _ s₁ hcmd => ?_
  obtain ⟨hm, hd, ht⟩ := hcmd
  refine (Ends.times (fun i s' => s'.memory = s.memory ∧
    s'.device.disk = Fat32.writeBlocks s.device.disk s.memory x i ∧
    (i < n.toNat → s'.device.transfer = .writing (x.toNat + i) (n.toNat - i) []))
    (fun i s' hi hinv => ?_) ?_).mono fun _ s' hall => ⟨hall.1, hall.2.1⟩
  · obtain ⟨hm', hd', ht'⟩ := hinv
    have hwrite := @writeBlock_ends i _ _ _ (ht' hi)
    refine hwrite.mono fun _ s'' hblock => ?_
    obtain ⟨hm'', hd'', ht''⟩ := hblock
    refine ⟨hm''.trans hm', ?_, fun hnext => ?_⟩
    · rw [hd'', hd', hm', Fat32.writeBlocks]
    · rw [ht'', if_neg (by omega)]
      congr 1
  · exact ⟨hm, hd, fun _ => ht⟩

end Blocks

/-! ## The cluster transfers -/

/-- The clusters of the 4 MiB image. -/
def imageClusters : Nat := 4 * 1024 * 1024 / clusterSize

/-- A range of 1 to 63 clusters of the image. -/
structure InImage (c : UInt32) (n : UInt8) : Prop where
  pos : 1 ≤ n.toNat
  le : n.toNat ≤ 63
  fits : c.toNat + n.toNat ≤ imageClusters

def Apart (c : UInt32) (n : UInt8) (c' : UInt32) (n' : UInt8) : Prop :=
  c'.toNat + n'.toNat ≤ c.toNat ∨ c.toNat + n.toNat ≤ c'.toNat

section Clusters
variable {c : UInt32} {n : UInt8} (h : InImage c n)

theorem imageClusters_eq : imageClusters = 2048 := rfl

include h in
theorem InImage.lba : (clusterToLba c).toNat = clusterBlockCount * c.toNat := by
  have hfits := h.fits
  simp only [imageClusters_eq] at hfits
  simp only [clusterToLba, clusterBlockCount_eq, UInt32.toNat_mul, UInt32.toNat_ofNat',
    Nat.reduceMod, Nat.reducePow]
  omega

include h in
theorem InImage.blocks : (clusterToLba n.toUInt32).toUInt8.toNat = clusterBlockCount * n.toNat := by
  have hle := h.le
  simp only [clusterToLba, clusterBlockCount_eq, UInt32.toNat_toUInt8, UInt32.toNat_mul,
    UInt8.toNat_toUInt32, UInt32.toNat_ofNat', Nat.reduceMod, Nat.reducePow]
  omega

include h in
theorem InImage.lba_lt : (clusterToLba c).toNat < 2 ^ 28 := by
  have hfits := h.fits
  rw [h.lba]
  simp only [imageClusters_eq, clusterBlockCount_eq] at hfits ⊢
  omega

include h in
theorem InImage.blocks_ne_zero : (clusterToLba n.toUInt32).toUInt8 ≠ 0 := by
  intro h0
  have hb := h.blocks
  have hpos := h.pos
  rw [h0] at hb
  simp only [clusterBlockCount_eq] at hb
  have hz : (0 : UInt8).toNat = 0 := rfl
  omega

include h in
/-- What `write_clusters` leaves at an address of the image. -/
theorem writeClusters_range (disk : Disk) (buf : Memory) (a : Nat) :
    Fat32.writeClusters disk buf c n a =
      if clusterSize * c.toNat ≤ a ∧ a < clusterSize * (c.toNat + n.toNat) then
        buf (a - clusterSize * c.toNat) else disk a := by
  simp only [Fat32.writeClusters, writeBlocks_apply, h.lba, h.blocks, blockSize_eq, clusterSize_eq,
    clusterBlockCount_eq, ← Nat.mul_assoc, Nat.mul_add, Nat.reduceMul]

include h in
/-- What `read_clusters` leaves in the memory. -/
theorem readClusters_range (disk : Disk) (buf : Memory) (i : Nat) :
    Fat32.readClusters disk buf c n i =
      if i < clusterSize * n.toNat then disk (clusterSize * c.toNat + i) else buf i := by
  simp only [Fat32.readClusters, readBlocks_apply, h.lba, h.blocks, blockSize_eq, clusterSize_eq,
    clusterBlockCount_eq, ← Nat.mul_assoc, Nat.reduceMul]
  rfl

include h in
/-- In memory, a read after a write of the same clusters returns what was written. -/
theorem read_written (disk : Disk) (buf mem : Memory) {i : Nat} (hi : i < clusterSize * n.toNat) :
    Fat32.readClusters (Fat32.writeClusters disk buf c n) mem c n i = buf i := by
  rw [readClusters_range h, if_pos hi, writeClusters_range h, if_pos, Nat.add_sub_cancel_left]
  simp only [clusterSize_eq] at hi ⊢
  omega

include h in
/-- In memory, clusters outside the range written are read as before. -/
theorem read_apart (disk : Disk) (buf mem : Memory) {c' : UInt32} {n' : UInt8} (h' : InImage c' n')
    (ha : Apart c n c' n') : Fat32.readClusters (Fat32.writeClusters disk buf c n) mem c' n' =
      Fat32.readClusters disk mem c' n' := by
  funext i
  rw [readClusters_range h', readClusters_range h']
  by_cases hi : i < clusterSize * n'.toNat
  · rw [if_pos hi, if_pos hi, writeClusters_range h, if_neg]
    unfold Apart at ha
    simp only [clusterSize_eq] at hi ⊢
    omega
  · rw [if_neg hi, if_neg hi]

include h in
theorem writeClusters_ends (s : Cpu) : Ends (writeClusters c n) s fun _ s' =>
    s'.memory = s.memory ∧
    s'.device.disk = Fat32.writeClusters s.device.disk s.memory c n :=
  writeBlocks_ends h.lba_lt h.blocks_ne_zero

include h in
theorem readClusters_ends (s : Cpu) : Ends (readClusters c n) s fun _ s' =>
    s'.memory = Fat32.readClusters s.device.disk s.memory c n ∧
    s'.device.disk = s.device.disk :=
  readBlocks_ends h.lba_lt h.blocks_ne_zero

end Clusters

/-- **The two disks agree.** For any range of 1 to 63 clusters of the image, any
state of the device and any timing, the transfers through the ports end with the
disk and the memory that the transfers in memory leave. With either, a read after
a write of the same range returns the bytes written, and the bytes outside the
range, and so the reads of other clusters, are as before. -/
theorem disks_agree (s : Cpu) {c : UInt32} {n : UInt8} (h : InImage c n) :
    Ends (readClusters c n) s (fun _ s' =>
      s'.memory = Fat32.readClusters s.device.disk s.memory c n ∧
      s'.device.disk = s.device.disk) ∧
    Ends (writeClusters c n) s (fun _ s' =>
      s'.memory = s.memory ∧
      s'.device.disk = Fat32.writeClusters s.device.disk s.memory c n ∧
      (∀ mem, Ends (readClusters c n) { s' with memory := mem } fun _ s'' =>
        ∀ i, i < clusterSize * n.toNat → s''.memory i = s.memory i) ∧
      ∀ c' n' mem, InImage c' n' → Apart c n c' n' →
        Ends (readClusters c' n') { s' with memory := mem } fun _ s'' =>
          s''.memory = Fat32.readClusters s.device.disk mem c' n') ∧
    (∀ mem i, i < clusterSize * n.toNat → Fat32.readClusters
      (Fat32.writeClusters s.device.disk s.memory c n) mem c n i = s.memory i) ∧
    (∀ a, a < clusterSize * c.toNat ∨ clusterSize * (c.toNat + n.toNat) ≤ a →
      Fat32.writeClusters s.device.disk s.memory c n a = s.device.disk a) ∧
    ∀ c' n' mem, InImage c' n' → Apart c n c' n' →
      Fat32.readClusters (Fat32.writeClusters s.device.disk s.memory c n) mem c' n' =
        Fat32.readClusters s.device.disk mem c' n' := by
  refine ⟨readClusters_ends h s, (writeClusters_ends h s).mono fun _ s' hwritten => ?_,
    fun mem i hi => read_written h _ _ mem hi, fun a ha => ?_,
    fun c' n' mem h' ha => read_apart h _ _ mem h' ha⟩
  · obtain ⟨hm, hd⟩ := hwritten
    refine ⟨hm, hd, fun mem => ?_, fun c' n' mem h' ha => ?_⟩
    · refine (readClusters_ends h _).mono fun _ s'' hread i hi => ?_
      rw [hread.1]
      dsimp only
      rw [hd, read_written h _ _ mem hi]
    · refine (readClusters_ends h' _).mono fun _ s'' hread => ?_
      rw [hread.1]
      dsimp only
      rw [hd, read_apart h _ _ mem h' ha]
  · rw [writeClusters_range h, if_neg]
    omega

/-- A device that is busy for three status reads each time. -/
def slowDevice : Device where
  disk := fun a => UInt8.ofNat a
  sectorCount := 0
  lbaLow := 0
  lbaMid := 0
  lbaHigh := 0
  driveHead := 0
  transfer := .none
  busy := 3
  periods := 0
  reads := 0
  timing := ⟨fun _ => 3, fun _ => 0⟩

theorem disks_agree_slow : Ends (readClusters 5 63) ⟨slowDevice, fun _ => 0, 0, []⟩ fun _ s' =>
    s'.memory = Fat32.readClusters slowDevice.disk (fun _ => 0) 5 63 ∧
      s'.device.disk = slowDevice.disk :=
  (disks_agree ⟨slowDevice, fun _ => 0, 0, []⟩ ⟨by decide, by decide, by decide⟩).1

end KajijOSta.Ata
