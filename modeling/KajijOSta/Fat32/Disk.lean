import KajijOSta.Fat32.Layout

/-! # The disk, by blocks and by clusters

`memcpy` (`stdlib/string.c`), the block transfers over a memory-backed image
(`external-inserter.c`) and the cluster transfers of `fat32.c` over them. The
driver moves one cluster at a time, so what the other modules use is
`Disk.cluster`: the 2048 bytes of a cluster, and what one transfer does to
them. -/
namespace KajijOSta.Fat32

abbrev Disk := Nat → UInt8

/-! ## Transfers -/

def memcpy (dest : Memory) (d : Nat) (src : Memory) (s : Nat) : Nat → Memory
  | 0 => dest
  | n + 1 => Function.update (memcpy dest d src s n) (d + n) (src (s + n))

theorem memcpy_apply (dest : Memory) (d : Nat) (src : Memory) (s n a : Nat) :
    memcpy dest d src s n a = if d ≤ a ∧ a < d + n then src (s + (a - d)) else dest a := by
  induction n with
  | zero => simp only [memcpy]; rw [if_neg (by omega)]
  | succ n ih =>
    simp only [memcpy, Function.update_apply, ih]
    by_cases ha : a = d + n
    · simp [ha]
    · simp only [ha, if_false]
      congr 1
      simp only [eq_iff_iff]
      omega

def readBlocks (disk : Disk) (ptr : Memory) (logicalBlockAddress : UInt32) : Nat → Memory
  | 0 => ptr
  | i + 1 => memcpy (readBlocks disk ptr logicalBlockAddress i) (blockSize * i)
      disk (blockSize * (logicalBlockAddress.toNat + i)) blockSize

def writeBlocks (disk : Disk) (ptr : Memory) (logicalBlockAddress : UInt32) : Nat → Disk
  | 0 => disk
  | i + 1 => memcpy (writeBlocks disk ptr logicalBlockAddress i)
      (blockSize * (logicalBlockAddress.toNat + i)) ptr (blockSize * i) blockSize

theorem readBlocks_apply (disk : Disk) (ptr : Memory) (lba : UInt32) (n a : Nat) :
    readBlocks disk ptr lba n a =
      if a < blockSize * n then disk (blockSize * lba.toNat + a) else ptr a := by
  induction n with
  | zero => simp [readBlocks]
  | succ n ih =>
    rw [readBlocks, memcpy_apply, ih]
    by_cases h1 : blockSize * n ≤ a ∧ a < blockSize * n + blockSize
    · have h2 : a < blockSize * (n + 1) := by simp only [blockSize_eq] at h1 ⊢; omega
      rw [if_pos h1, if_pos h2]
      congr 1
      simp only [blockSize_eq] at h1 ⊢
      omega
    · have h2 : a < blockSize * n ↔ a < blockSize * (n + 1) := by
        simp only [blockSize_eq] at h1 ⊢; omega
      rw [if_neg h1, ite_cond_congr (eq_iff_iff.mpr h2)]

theorem writeBlocks_apply (disk : Disk) (ptr : Memory) (lba : UInt32) (n a : Nat) :
    writeBlocks disk ptr lba n a =
      if blockSize * lba.toNat ≤ a ∧ a < blockSize * lba.toNat + blockSize * n then
        ptr (a - blockSize * lba.toNat) else disk a := by
  induction n with
  | zero => rw [writeBlocks, if_neg (by omega)]
  | succ n ih =>
    rw [writeBlocks, memcpy_apply, ih]
    by_cases h1 : blockSize * (lba.toNat + n) ≤ a ∧ a < blockSize * (lba.toNat + n) + blockSize
    · have h2 : blockSize * lba.toNat ≤ a ∧ a < blockSize * lba.toNat + blockSize * (n + 1) := by
        simp only [blockSize_eq] at h1 ⊢; omega
      rw [if_pos h1, if_pos h2]
      congr 1
      simp only [blockSize_eq] at h1 ⊢
      omega
    · have h2 : (blockSize * lba.toNat ≤ a ∧ a < blockSize * lba.toNat + blockSize * n) ↔
          (blockSize * lba.toNat ≤ a ∧ a < blockSize * lba.toNat + blockSize * (n + 1)) := by
        simp only [blockSize_eq] at h1 ⊢; omega
      rw [if_neg h1, ite_cond_congr (eq_iff_iff.mpr h2)]

def clusterToLba (cluster : UInt32) : UInt32 := cluster * UInt32.ofNat clusterBlockCount

def writeClusters (disk : Disk) (ptr : Memory) (clusterNumber : UInt32) (clusterCount : UInt8) :
    Disk :=
  let blockNumber := clusterToLba clusterNumber
  let blockCount : UInt8 := (clusterToLba clusterCount.toUInt32).toUInt8
  writeBlocks disk ptr blockNumber blockCount.toNat

def readClusters (disk : Disk) (ptr : Memory) (clusterNumber : UInt32) (clusterCount : UInt8) :
    Memory :=
  let blockNumber := clusterToLba clusterNumber
  let blockCount : UInt8 := (clusterToLba clusterCount.toUInt32).toUInt8
  readBlocks disk ptr blockNumber blockCount.toNat

/-! ## One cluster -/

/-- Where the bytes of a cluster begin. -/
def clusterBase (c : UInt32) : Nat := blockSize * (clusterToLba c).toNat

theorem clusterBase_eq {c : UInt32} (h : c.toNat < clusterMapSize) :
    clusterBase c = clusterSize * c.toNat := by
  simp only [clusterMapSize_eq] at h
  simp [clusterBase, clusterToLba, UInt32.toNat_mul, clusterSize_eq, blockSize_eq,
    clusterBlockCount_eq]
  omega

def Disk.cluster (disk : Disk) (c : UInt32) : Memory := fun i => disk (clusterBase c + i)

theorem readClusters_apply (disk : Disk) (ptr : Memory) (c : UInt32) (i : Nat) :
    readClusters disk ptr c 1 i = if i < clusterSize then disk.cluster c i else ptr i := by
  simp only [readClusters, readBlocks_apply]
  rfl

theorem readClusters_lt (disk : Disk) (ptr : Memory) (c : UInt32) {i : Nat}
    (h : i < clusterSize) : readClusters disk ptr c 1 i = disk.cluster c i := by
  rw [readClusters_apply, if_pos h]

theorem writeClusters_apply (disk : Disk) (ptr : Memory) (c : UInt32) (a : Nat) :
    writeClusters disk ptr c 1 a =
      if clusterBase c ≤ a ∧ a < clusterBase c + clusterSize then ptr (a - clusterBase c)
      else disk a := by
  simp only [writeClusters, writeBlocks_apply]
  rfl

/-- A cluster just written holds what was written. -/
theorem cluster_write_same (disk : Disk) (ptr : Memory) (c : UInt32) {i : Nat}
    (h : i < clusterSize) : (writeClusters disk ptr c 1).cluster c i = ptr i := by
  simp only [Disk.cluster, writeClusters_apply]
  rw [if_pos (by omega)]
  congr 1
  omega

/-- Other clusters are untouched. -/
theorem cluster_write_other (disk : Disk) (ptr : Memory) {c x : UInt32}
    (hc : c.toNat < clusterMapSize) (hx : x.toNat < clusterMapSize) (hne : x ≠ c) {i : Nat}
    (h : i < clusterSize) : (writeClusters disk ptr c 1).cluster x i = disk.cluster x i := by
  have hn : x.toNat ≠ c.toNat := fun he => hne (UInt32.toNat_inj.mp he)
  simp only [Disk.cluster, writeClusters_apply, clusterBase_eq hc, clusterBase_eq hx,
    clusterSize_eq] at h ⊢
  rw [if_neg (by omega)]

def Disk.table (disk : Disk) (c : UInt32) : FAT32DirectoryTable :=
  FAT32DirectoryTable.ofBytes (disk.cluster c)

def Disk.fatTable (disk : Disk) : FAT32FileAllocationTable :=
  FAT32FileAllocationTable.ofBytes (disk.cluster fatClusterNumber)

theorem table_read (disk : Disk) (ptr : Memory) (c : UInt32) :
    FAT32DirectoryTable.ofBytes (readClusters disk ptr c 1) = disk.table c :=
  FAT32DirectoryTable.ofBytes_congr fun _ h => readClusters_lt disk ptr c h

theorem fatTable_read (disk : Disk) (ptr : Memory) :
    FAT32FileAllocationTable.ofBytes (readClusters disk ptr fatClusterNumber 1) = disk.fatTable :=
  FAT32FileAllocationTable.ofBytes_congr fun _ h => readClusters_lt disk ptr _ h

theorem table_write_same (disk : Disk) (t : FAT32DirectoryTable) (c : UInt32) :
    (writeClusters disk t.bytes c 1).table c = t := by
  rw [Disk.table, FAT32DirectoryTable.ofBytes_congr fun i h => cluster_write_same disk t.bytes c h]
  exact FAT32DirectoryTable.ofBytes_bytes t

theorem fatTable_write_same (disk : Disk) (t : FAT32FileAllocationTable) :
    (writeClusters disk t.bytes fatClusterNumber 1).fatTable = t := by
  rw [Disk.fatTable,
    FAT32FileAllocationTable.ofBytes_congr fun i h => cluster_write_same disk t.bytes _ h]
  exact FAT32FileAllocationTable.ofBytes_bytes t

end KajijOSta.Fat32
