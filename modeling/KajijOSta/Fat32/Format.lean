import KajijOSta.Fat32.Crash
import KajijOSta.Shell.Commands

/-! # Formatting

`create_fat32` clears every FAT entry from 2 on, the root's included, and names
the root "ROOT". What the driver and the shell rely on is `Established`; a disk
just formatted misses it (`format_not_established`): its root is no valid
parent, is the first cluster to be handed out, and is not found by the shell. -/
namespace KajijOSta.Fat32
open KajijOSta.Runs

/-- What the driver and the shell rely on after mounting. -/
structure Established (m : Machine) : Prop where
  fat0 : m.fat.get? 0 = some cluster0Value
  fat1 : m.fat.get? 1 = some cluster1Value
  rootMarked : m.fat.get? rootClusterNumber = some fat32FatEndOfFile
  othersFree : ∀ c : UInt32, 3 ≤ c.toNat → c.toNat < clusterMapSize →
    m.fat.get? c = some fat32FatEmptyEntry
  coherent : m.disk.fatTable = m.fat
  /-- Writes into the root succeed, and what they wrote is there. -/
  writable : ∀ r : FAT32DriverRequest, r.parentClusterNumber = rootClusterNumber → r.key ≠ 0 →
    r.key ≠ m.disk.ownKey rootClusterNumber → r.bufferSize.toNat ≤ 255 * clusterSize →
    ∃ m', write m r = .ok (0, m') ∧ m'.disk.lookup rootClusterNumber r.key ≠ none
  /-- No run of writes finds the root's cluster free. -/
  rootKept : ∀ (rs : List FAT32DriverRequest) (m' : Machine), run step m (rs.map .write) = .ok m' →
    m'.fat.get? rootClusterNumber ≠ some fat32FatEmptyEntry
  /-- The shell's first READ_DIR returns the root's table. -/
  shellRoot : ∀ r : FAT32DriverRequest, r.parentClusterNumber = rootClusterNumber →
    r.name = Shell.rootName → r.bufferSize = UInt32.ofNat clusterSize →
    readDirectory m r = (0, readClusters m.disk r.buf rootClusterNumber 1)

section Format
variable (beyond : Fin 3 → UInt8) {m : Machine} (he : isEmptyStorage m.disk = true)

include he in
theorem format_fat (c : UInt32) : (initializeFilesystemFat32 beyond m).fat.get? c =
    if c.toNat = 0 then some cluster0Value
    else if c.toNat = 1 then some cluster1Value
    else if c.toNat < clusterMapSize then some fat32FatEmptyEntry
    else none := by
  rw [initializeFilesystemFat32, if_pos he]
  simp only [createFat32, Machine.writeClusters, Machine.fat, FAT32FileAllocationTable.get?]
  by_cases h0 : c.toNat = 0
  · simp [h0, clusterMapSize_eq]
  · by_cases h1 : c.toNat = 1
    · simp [h1, clusterMapSize_eq]
    · simp [h0, h1, fat32FatEmptyEntry]

include he in
theorem format_coherent : (initializeFilesystemFat32 beyond m).disk.fatTable =
    (initializeFilesystemFat32 beyond m).fat := by
  rw [initializeFilesystemFat32, if_pos he]
  simp only [createFat32, Machine.writeClusters, Machine.fat]
  rw [Disk.fatTable_write_other _ root_lt two_le_root, fatTable_write_same]

include he in
theorem format_root : (initializeFilesystemFat32 beyond m).disk.table rootClusterNumber =
    initDirectoryTable (rootName beyond) rootClusterNumber := by
  rw [initializeFilesystemFat32, if_pos he]
  exact table_write_same _ _ _

include he in
/-- The FAT, taken for a directory table, has only empty slots from slot 2 on. -/
theorem format_fat_slot {i : Fin 64} (hi : 2 ≤ i) :
    ((initializeFilesystemFat32 beyond m).disk.table fatClusterNumber).table i = 0 := by
  have hi2 : 2 ≤ i.val := hi
  have hlt := i.isLt
  refine Disk.fat_slot_zero fun c hc hc' => ?_
  unfold Disk.next
  rw [format_coherent beyond he, format_fat beyond he, if_neg (by omega),
    if_neg (by omega), if_pos (by simp only [clusterMapSize_eq]; omega)]
  rfl

include he in
theorem format_space {n : Nat} (hn : n ≤ 255) :
    n ≤ (freeClusters (initializeFilesystemFat32 beyond m).fat).length := by
  have hval : ∀ k, k < n → (UInt32.ofNat (k + 2)).toNat = k + 2 := fun k hk => by
    rw [UInt32.toNat_ofNat']; omega
  have hnodup : ((List.range n).map fun k => UInt32.ofNat (k + 2)).Nodup := by
    refine List.Nodup.map_on (fun a ha b hb hab => ?_) List.nodup_range
    have hab := congrArg UInt32.toNat hab
    rw [hval a (List.mem_range.mp ha), hval b (List.mem_range.mp hb)] at hab
    omega
  have hlen := @length_le_freeClusters (initializeFilesystemFat32 beyond m).fat _ hnodup ?_
  · simpa using hlen
  · intro x hx
    obtain ⟨k, hk, rfl⟩ := List.mem_map.mp hx
    have hk := List.mem_range.mp hk
    rw [format_fat beyond he, hval k hk, if_neg (by omega), if_neg (by omega),
      if_pos (by simp only [clusterMapSize_eq]; omega)]

include he in
/-- The first free cluster of a disk just formatted is the root's. -/
theorem format_allocates_root {r : FAT32DriverRequest} (hr : required r ≠ 0) :
    (allocated (initializeFilesystemFat32 beyond m) r).head? = some rootClusterNumber := by
  rw [head?_allocated hr]
  refine head?_freeClusters (format_fat beyond he _) fun y hy => ?_
  have hy : y.toNat < 2 := hy
  rw [format_fat beyond he]
  by_cases h0 : y.toNat = 0
  · rw [if_pos h0]
    decide
  · rw [if_neg h0, if_pos (by omega)]
    decide

include he in
/-- The FAT's own cluster, taken for a directory, has room. -/
theorem format_storable {r : FAT32DriverRequest} (hr : r.parentClusterNumber = fatClusterNumber)
    (hk : r.key ≠ 0) (hs : r.bufferSize.toNat ≤ 255 * clusterSize) :
    Storable (initializeFilesystemFat32 beyond m) r 2 := by
  have hslot : ∀ j : Fin 64, 2 ≤ j → ((initializeFilesystemFat32 beyond m).disk.table
      r.parentClusterNumber).table j = 0 := by
    intro j hj
    rw [hr]
    exact format_fat_slot beyond he hj
  refine ⟨fun j hj => ?_, vacantSlot_eq_some.mpr ⟨le_refl _, ?_, fun j hj hlt => ?_⟩,
    format_space beyond he ?_⟩
  · rw [hslot j hj, key_zero]
    exact hk.symm
  · rw [hslot 2 (le_refl _)]
    exact not_live_zero
  · exact absurd hlt (not_lt.mpr hj)
  · rw [required_eq hs]
    simp only [clusterSize_eq] at hs
    split
    · omega
    · simp only [clusterCount, clusterSize_eq]
      omega

end Format

/-- "ROOT" is not "root". -/
theorem rootName_ne (beyond : Fin 3 → UInt8) : rootName beyond ≠ Shell.rootName := by
  intro h
  have h0 := congrFun h 0
  simp [rootName, Shell.rootName] at h0

/-- **Formatting does not mark the root.** On every disk without the signature,
mounting leaves FAT entries 0 and 1, the other free entries and the FAT on the
disk as they should be, but none of what concerns the root: its FAT entry is
free, every request with parent 2 is turned down, the shell's READ_DIR does not
find it, and a write into the one marked cluster, 1, is given the root's cluster. -/
theorem format_not_established (beyond : Fin 3 → UInt8) (m : Machine)
    (he : isEmptyStorage m.disk = true) :
    ¬ Established (initializeFilesystemFat32 beyond m) ∧
    (initializeFilesystemFat32 beyond m).fat.get? 0 = some cluster0Value ∧
    (initializeFilesystemFat32 beyond m).fat.get? 1 = some cluster1Value ∧
    (∀ c : UInt32, 2 ≤ c.toNat → c.toNat < clusterMapSize →
      (initializeFilesystemFat32 beyond m).fat.get? c = some fat32FatEmptyEntry) ∧
    (initializeFilesystemFat32 beyond m).disk.fatTable =
      (initializeFilesystemFat32 beyond m).fat ∧
    (∀ r : FAT32DriverRequest, r.parentClusterNumber = rootClusterNumber →
      write (initializeFilesystemFat32 beyond m) r =
        .ok (2, initializeFilesystemFat32 beyond m) ∧
      read (initializeFilesystemFat32 beyond m) r = .ok (2, r.buf) ∧
      (r.name = Shell.rootName →
        readDirectory (initializeFilesystemFat32 beyond m) r = (2, r.buf))) ∧
    (∀ r : FAT32DriverRequest, r.parentClusterNumber = fatClusterNumber → r.key ≠ 0 →
      r.bufferSize.toNat ≤ 255 * clusterSize →
      write (initializeFilesystemFat32 beyond m) r =
        .ok (0, stored (initializeFilesystemFat32 beyond m) r 2) ∧
      (allocated (initializeFilesystemFat32 beyond m) r).head? = some rootClusterNumber) := by
  have hfat := format_fat beyond he
  have hroot : (initializeFilesystemFat32 beyond m).fat.get? rootClusterNumber =
      some fat32FatEmptyEntry := hfat rootClusterNumber
  refine ⟨fun h => ?_, hfat 0, hfat 1, fun c h2 hc => ?_, format_coherent beyond he,
    fun r hr => ⟨?_, ?_, fun hn => ?_⟩, fun r hr hk hs => ⟨?_, ?_⟩⟩
  · exact free_ne_end (Option.some.inj (hroot.symm.trans h.rootMarked))
  · rw [hfat, if_neg (by omega), if_neg (by omega), if_pos hc]
  · exact write_unmarked (hr ▸ hroot) free_ne_end
  · simp only [read, hr, hroot, ne_eq, free_ne_end, not_false_eq_true, if_true]
  · -- slot 0 is named "ROOT", the others are empty
    refine readDirectory_missing fun i => ?_
    rw [hr, hn, format_root beyond he]
    by_cases hi : i = 0
    · rw [hi, initDirectoryTable, FAT32DirectoryTable.set_same]
      exact rootName_ne beyond
    · rw [initDirectoryTable_slot _ hi]
      decide
  · have hst := format_storable beyond he hr hk hs
    exact write_stores (hr ▸ hfat 1) hst.free hst.vacant (required_pos hs) hst.space
  · exact format_allocates_root beyond he (required_pos hs)

/-- A disk of zeros. -/
theorem zero_isEmptyStorage : isEmptyStorage (fun _ => 0) = true := by
  by_contra h
  have h := isEmptyStorage_eq_false.mp (Bool.eq_false_iff.mpr h) 0 (by decide)
  exact absurd h (by decide)

theorem format_zero_disk : isEmptyStorage (fun _ => 0) = true ∧
    (initializeFilesystemFat32 (fun _ => 0) ⟨⟨0, 0⟩, fun _ => 0, []⟩).fat.get? rootClusterNumber =
      some fat32FatEmptyEntry ∧
    ¬ Established (initializeFilesystemFat32 (fun _ => 0) ⟨⟨0, 0⟩, fun _ => 0, []⟩) := by
  have h := format_fat (fun _ => 0) (m := ⟨⟨0, 0⟩, fun _ => 0, []⟩) zero_isEmptyStorage
    rootClusterNumber
  refine ⟨zero_isEmptyStorage, h, fun hest => ?_⟩
  exact free_ne_end (Option.some.inj (h.symm.trans hest.rootMarked))

theorem format_not_established_zero :
    ¬ Established (initializeFilesystemFat32 (fun _ => 1) ⟨⟨0, 0⟩, fun _ => 0, []⟩) :=
  (format_not_established (fun _ => 1) ⟨⟨0, 0⟩, fun _ => 0, []⟩ zero_isEmptyStorage).1

end KajijOSta.Fat32
