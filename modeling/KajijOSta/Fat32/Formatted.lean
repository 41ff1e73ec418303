import KajijOSta.Fat32.Requests

/-! # A formatted image with its root marked

The least image the driver's requests need: the signature, the FAT with its
three first entries marked, and a root directory that holds its own entry
under some name. -/
namespace KajijOSta.Fat32
open KajijOSta.LinkedChain KajijOSta.NamedTree

/-- The FAT of an empty file system: the reserved entries and the root. -/
def rootedFat : FAT32FileAllocationTable where
  clusterMap i :=
    if i.val = 0 then cluster0Value
    else if i.val = 1 then cluster1Value
    else if i.val = 2 then fat32FatEndOfFile
    else fat32FatEmptyEntry

/-- The image of an empty file system, its root directory named `name`. -/
def rootedDisk (name : Fin 8 → UInt8) : Disk :=
  let disk := writeBlocks (fun _ => 0) fsSignature bootSector 1
  let disk := writeClusters disk rootedFat.bytes fatClusterNumber 1
  writeClusters disk (initDirectoryTable name rootClusterNumber).bytes rootClusterNumber 1

def rootedMachine (name : Fin 8 → UInt8) : Machine := ⟨⟨rootedFat, 0⟩, rootedDisk name, []⟩

theorem rootedFat_free {c : UInt32} (h : 3 ≤ c.toNat) (hc : c.toNat < clusterMapSize) :
    rootedFat.get? c = some fat32FatEmptyEntry := by
  refine FAT32FileAllocationTable.get?_eq_some.mpr ⟨hc, ?_⟩
  simp only [rootedFat]
  rw [if_neg (by omega), if_neg (by omega), if_neg (by omega)]

/-! ## Images whose root holds its own entry only -/

namespace Disk
variable {d : Disk} (hz : ∀ i, i ≠ 0 → (d.table rootClusterNumber).table i = 0)

include hz in
theorem emptyRoot_lookup (k : Key) : d.lookup rootClusterNumber k = none := by
  refine lookup_none.mpr fun i hi hl => ?_
  rw [hz i (ne_zero_of_slot hi)] at hl
  exact absurd hl not_live_zero

include hz in
/-- The root is the only directory. -/
theorem emptyRoot_reachable {c : UInt32} (h : d.Reachable c) : c = rootClusterNumber := by
  obtain ⟨p, hp⟩ := h
  have hdir : ∀ p c, d.dirAt p = some c → c = rootClusterNumber := by
    intro p
    induction p with
    | nil =>
      intro c hc
      simp only [Graph.dirAt_nil, graph_root, Option.some.injEq] at hc
      exact hc.symm
    | cons k p ih =>
      intro c hc
      obtain ⟨b, e, hb, he, _⟩ := Graph.dirAt_cons_eq_some.mp hc
      rw [ih b hb, graph_lookup, emptyRoot_lookup hz] at he
      cases he
  exact hdir p c hp

include hz in
theorem emptyRoot_not_live {c : UInt32} {i : Fin 64} : ¬ d.LiveAt c i := by
  intro hx
  obtain ⟨hc, hi, hl⟩ := hx
  rw [emptyRoot_reachable hz hc, hz i (ne_zero_of_slot hi)] at hl
  exact absurd hl not_live_zero

include hz in
/-- The reserved entries, the signature and the root's own slot are all there is to
such an image. -/
theorem emptyRoot_wellFormed (fat0 : d.next 0 = some cluster0Value)
    (fat1 : d.next 1 = some cluster1Value)
    (fat2 : d.next rootClusterNumber = some fat32FatEndOfFile)
    (signature : ∀ i, i < blockSize → d i = fsSignature i)
    (hfolder : ((d.table rootClusterNumber).table 0).IsFolder)
    (hcluster : ((d.table rootClusterNumber).table 0).cluster = rootClusterNumber) :
    d.WellFormed := by
  refine WellFormed.of_disjoint fat0 fat1 signature (fun c hc => ?_)
    (fun c i hl => absurd hl (emptyRoot_not_live hz))
    fun c i _ _ hl => absurd hl (emptyRoot_not_live hz)
  rw [emptyRoot_reachable hz hc]
  refine ⟨fat2, hfolder, hcluster, hz 1 (by decide), fun i hi => Or.inl (hz i (ne_zero_of_slot hi)),
    fun i j hi _ hl _ _ => ?_⟩
  rw [hz i (ne_zero_of_slot hi)] at hl
  exact absurd hl not_live_zero

end Disk

section Rooted
variable (name : Fin 8 → UInt8)

theorem rootedDisk_table :
    (rootedDisk name).table rootClusterNumber = initDirectoryTable name rootClusterNumber :=
  table_write_same _ _ _

theorem rootedDisk_fatTable : (rootedDisk name).fatTable = rootedFat := by
  unfold rootedDisk
  rw [Disk.fatTable_write_other _ root_lt two_le_root, fatTable_write_same]

theorem rootedDisk_next : (rootedDisk name).next = rootedFat.get? := by
  funext x
  unfold Disk.next
  rw [rootedDisk_fatTable]

theorem rootedDisk_boot {i : Nat} (hi : i < blockSize) : rootedDisk name i = fsSignature i := by
  unfold rootedDisk
  have h0 : blockSize * bootSector.toNat = 0 := rfl
  rw [Disk.boot_write_other _ root_lt (by decide) hi,
    Disk.boot_write_other _ fat_lt (by decide) hi, writeBlocks_apply, h0,
    if_pos ⟨Nat.zero_le _, by omega⟩, Nat.sub_zero]

theorem initDirectoryTable_slot {c : UInt32} {i : Fin 64} (hi : i ≠ 0) :
    (initDirectoryTable name c).table i = 0 := by
  unfold initDirectoryTable
  rw [FAT32DirectoryTable.set_other _ _ hi]
  rfl

theorem rootedDisk_empty : ∀ i, i ≠ 0 →
    ((rootedDisk name).table rootClusterNumber).table i = 0 := by
  intro i hi
  rw [rootedDisk_table, initDirectoryTable_slot name hi]

theorem rootedDisk_lookup (k : Key) : (rootedDisk name).lookup rootClusterNumber k = none :=
  Disk.emptyRoot_lookup (rootedDisk_empty name) k

theorem rootedDisk_not_live {c : UInt32} {i : Fin 64} : ¬ (rootedDisk name).LiveAt c i :=
  Disk.emptyRoot_not_live (rootedDisk_empty name)

/-- The empty file system is well-formed. -/
theorem rootedDisk_wellFormed : (rootedDisk name).WellFormed := by
  refine Disk.emptyRoot_wellFormed (rootedDisk_empty name) ?_ ?_ ?_
    (fun i hi => rootedDisk_boot name hi) ?_ ?_
  · rw [rootedDisk_next]; rfl
  · rw [rootedDisk_next]; rfl
  · rw [rootedDisk_next]; rfl
  · rw [rootedDisk_table, initDirectoryTable, FAT32DirectoryTable.set_same]
    rfl
  · rw [rootedDisk_table, initDirectoryTable, FAT32DirectoryTable.set_same]
    exact halves_cluster rootClusterNumber

theorem rootedMachine_wellFormed : (rootedMachine name).WellFormed :=
  ⟨rootedDisk_fatTable name, rootedDisk_wellFormed name⟩

theorem rooted_ownKey : (rootedDisk name).ownKey rootClusterNumber = ⟨name, fun _ => 0⟩ := by
  rw [Disk.ownKey, rootedDisk_table, initDirectoryTable, FAT32DirectoryTable.set_same]
  rfl

end Rooted

/-! ## The FAT, taken for a directory -/

theorem entry_of_zeros {mem : Memory} (h : ∀ i, i < 32 → mem i = 0) :
    FAT32DirectoryEntry.ofBytes mem = 0 := by
  have h0 : ∀ i, i < 32 → mem i = (fun _ => 0 : Memory) i := h
  rw [FAT32DirectoryEntry.ofBytes_congr h0]
  rfl

/-- A slot of the table at cluster 1 is empty when the eight FAT entries it
covers are zero. -/
theorem Disk.fat_slot_zero {d : Disk} {i : Fin 64} (h : ∀ c : UInt32, 8 * i.val ≤ c.toNat →
    c.toNat < 8 * i.val + 8 → d.next c = some 0) : (d.table fatClusterNumber).table i = 0 := by
  refine entry_of_zeros fun j hj => ?_
  have hlt := i.isLt
  have hb : 32 * i.val + j < clusterSize := by simp only [clusterSize_eq]; omega
  have hbytes : d.cluster fatClusterNumber (32 * i.val + j) =
      d.fatTable.bytes (32 * i.val + j) :=
    (FAT32FileAllocationTable.bytes_ofBytes _ hb).symm
  have hk : (Fin.ofNat clusterMapSize ((32 * i.val + j) / 4)).val = (32 * i.val + j) / 4 :=
    Nat.mod_eq_of_lt (by simp only [clusterMapSize_eq]; omega)
  have hn : (UInt32.ofNat ((32 * i.val + j) / 4)).toNat = (32 * i.val + j) / 4 := by
    rw [UInt32.toNat_ofNat']; omega
  have hfree := h (UInt32.ofNat ((32 * i.val + j) / 4)) (by omega) (by omega)
  obtain ⟨hlt', hval⟩ := FAT32FileAllocationTable.get?_eq_some.mp hfree
  have hidx : Fin.ofNat clusterMapSize ((32 * i.val + j) / 4) =
      ⟨(UInt32.ofNat ((32 * i.val + j) / 4)).toNat, hlt'⟩ := Fin.ext (hk.trans hn.symm)
  rw [Memory.from_apply, hbytes, FAT32FileAllocationTable.bytes, hidx, hval]
  simp [byte32]

/-! ## Writing into the empty file system -/

/-- An empty file system has the free clusters for any count in a `uint8_t`. -/
theorem rooted_space (name : Fin 8 → UInt8) {n : Nat} (hn : n ≤ 255) :
    n ≤ (freeClusters (rootedMachine name).fat).length := by
  have hval : ∀ k, k < n → (UInt32.ofNat (k + 3)).toNat = k + 3 := fun k hk => by
    rw [UInt32.toNat_ofNat']; omega
  have hnodup : ((List.range n).map fun k => UInt32.ofNat (k + 3)).Nodup := by
    refine List.Nodup.map_on (fun a ha b hb hab => ?_) List.nodup_range
    have hab := congrArg UInt32.toNat hab
    rw [hval a (List.mem_range.mp ha), hval b (List.mem_range.mp hb)] at hab
    omega
  have hlen := @length_le_freeClusters (rootedMachine name).fat _ hnodup fun x hx => ?_
  · simpa using hlen
  · obtain ⟨k, hk, rfl⟩ := List.mem_map.mp hx
    have hk := List.mem_range.mp hk
    exact rootedFat_free (by rw [hval k hk]; omega)
      (by rw [hval k hk]; simp only [clusterMapSize_eq]; omega)

/-- In the root of an empty file system there is room for any new name. -/
theorem rooted_storable {name : Fin 8 → UInt8} {r : FAT32DriverRequest}
    (hp : r.parentClusterNumber = rootClusterNumber) (hk : r.key ≠ 0) :
    Storable (rootedMachine name) r 2 := by
  have hz : ∀ i : Fin 64, 2 ≤ i →
      ((rootedMachine name).disk.table r.parentClusterNumber).table i = 0 := by
    intro i hi
    rw [hp, rootedMachine, rootedDisk_table, initDirectoryTable_slot name (ne_zero_of_slot hi)]
  refine ⟨fun j hj => ?_, vacantSlot_eq_some.mpr ⟨le_refl _, ?_, fun j hj hlt => ?_⟩, ?_⟩
  · rw [hz j hj, key_zero]
    exact hk.symm
  · rw [hz 2 (le_refl _)]
    exact not_live_zero
  · exact absurd hlt (not_lt.mpr hj)
  · exact rooted_space name (required_le r)

theorem rooted_own (name : Fin 8 → UInt8) :
    (((rootedMachine name).disk.table rootClusterNumber).table 0).name = name ∧
      (((rootedMachine name).disk.table rootClusterNumber).table 0).filesize.toNat ≤
        clusterSize := by
  unfold rootedMachine
  rw [rootedDisk_table, initDirectoryTable, FAT32DirectoryTable.set_same]
  exact ⟨rfl, Nat.zero_le _⟩

/-- A new folder in the root goes to slot 2. -/
theorem rooted_mkdir {name : Fin 8 → UInt8} {r : FAT32DriverRequest}
    (hp : r.parentClusterNumber = rootClusterNumber) (h0 : r.bufferSize = 0) (hk : r.key ≠ 0) :
    write (rootedMachine name) r = .ok (0, stored (rootedMachine name) r 2) ∧
    ∀ j, ((stored (rootedMachine name) r 2).disk.table rootClusterNumber).table j =
      if j = 2 then addedEntry (rootedMachine name) r
      else (initDirectoryTable name rootClusterNumber).table j := by
  have h := rootedMachine_wellFormed name
  have hs : r.bufferSize.toNat ≤ 255 * clusterSize := folder_size h0
  have hst : Storable (rootedMachine name) r 2 := rooted_storable hp hk
  have hdir : (rootedMachine name).disk.dirAt [] = some r.parentClusterNumber :=
    Disk.dirAt_root _ hp
  refine ⟨write_stores (parent_marked h ⟨[], hdir⟩) hst.free hst.vacant (required_pos hs) hst.space,
    fun j => ?_⟩
  have htable := stored_table (i := 2) h hs hst.space hdir
  have hold : (rootedMachine name).disk.table rootClusterNumber =
      initDirectoryTable name rootClusterNumber := rootedDisk_table name
  rw [hp, hold] at htable
  rw [htable]
  by_cases hj : j = 2
  · rw [if_pos hj, hj, FAT32DirectoryTable.set_same]
  · rw [if_neg hj, FAT32DirectoryTable.set_other _ _ hj]

/-! ### Two entries in the root -/

def twoEntries (name : Fin 8 → UInt8) (r r' : FAT32DriverRequest) : Machine :=
  stored (stored (rootedMachine name) r 2) r' 3

/-- Two requests for entries of the root under two names, one cluster each. -/
structure TwoNames (r r' : FAT32DriverRequest) : Prop where
  parent : r.parentClusterNumber = rootClusterNumber
  parent' : r'.parentClusterNumber = rootClusterNumber
  size : r.bufferSize.toNat ≤ clusterSize
  size' : r'.bufferSize.toNat ≤ clusterSize
  key : r.key ≠ 0
  key' : r'.key ≠ 0
  differ : r.key ≠ r'.key

section Two
variable {name : Fin 8 → UInt8} {r r' : FAT32DriverRequest}

theorem single_size (hs : r.bufferSize.toNat ≤ clusterSize) :
    r.bufferSize.toNat ≤ 255 * clusterSize := by
  simp only [clusterSize_eq] at hs ⊢
  omega

/-- Up to one cluster of bytes takes one cluster. -/
theorem required_single (hs : r.bufferSize.toNat ≤ clusterSize) : required r = 1 := by
  rw [required_eq (single_size hs)]
  split
  · rfl
  · have hpos := clusterCount_pos ‹_›
    simp only [clusterCount, clusterSize_eq] at hs hpos ⊢
    omega

variable (h2 : TwoNames r r')

include h2 in
theorem two_first : Storable (rootedMachine name) r 2 :=
  rooted_storable h2.parent h2.key

include h2 in
theorem first_table {c : UInt32} (hc : c = rootClusterNumber) :
    (stored (rootedMachine name) r 2).disk.table c =
      (initDirectoryTable name rootClusterNumber).set 2 (addedEntry (rootedMachine name) r) := by
  have hdir : (rootedMachine name).disk.dirAt [] = some r.parentClusterNumber :=
    Disk.dirAt_root _ h2.parent
  have ht := stored_table (i := 2) (rootedMachine_wellFormed name) (single_size h2.size)
    (two_first h2).space hdir
  rw [h2.parent] at ht
  rw [hc, ht]
  exact congrArg (fun t => t.set 2 (addedEntry (rootedMachine name) r)) (rootedDisk_table name)

include h2 in
/-- After a first entry of one cluster there is room for another one under any
other name. -/
theorem two_second : Storable (stored (rootedMachine name) r 2) r' 3 := by
  have htable := @first_table name r r' h2 _ h2.parent'
  have hz : ∀ i : Fin 64, 2 ≤ i → i ≠ 2 →
      ((stored (rootedMachine name) r 2).disk.table r'.parentClusterNumber).table i = 0 := by
    intro i hi hi2
    rw [htable, FAT32DirectoryTable.set_other _ _ hi2,
      initDirectoryTable_slot name (ne_zero_of_slot hi)]
  refine ⟨fun j hj => ?_, vacantSlot_eq_some.mpr ⟨by decide, ?_, fun j hj hlt => ?_⟩,
    (required_single h2.size').le.trans ?_⟩
  · by_cases hj2 : j = 2
    · rw [htable, hj2, FAT32DirectoryTable.set_same, addedEntry_key]
      exact h2.differ
    · rw [hz j hj hj2, key_zero]
      exact h2.key'.symm
  · rw [hz 3 (by decide) (by decide)]
    exact not_live_zero
  · have hj2 : j = 2 := by omega
    rw [htable, hj2, FAT32DirectoryTable.set_same]
    exact newEntry_live
  · -- one of the clusters 3 and 4 is still free
    have hspace := (@two_first name r r' h2).space
    have hlen := allocated_length hspace
    rw [required_single h2.size] at hlen
    obtain ⟨c, hc⟩ := List.length_eq_one_iff.mp hlen
    have hfree : ∀ x : UInt32, 3 ≤ x.toNat → x.toNat < clusterMapSize → x ≠ c →
        x ∈ freeClusters (stored (rootedMachine name) r 2).fat := by
      intro x h3 hx hxc
      rw [mem_freeClusters, stored_fat hspace, hc,
        get?_linkFat_other (fun hm => hxc (List.mem_singleton.mp hm))]
      exact rootedFat_free h3 hx
    by_cases h3 : (3 : UInt32) = c
    · exact List.length_pos_of_mem (hfree 4 (by decide) (by decide) (by rw [← h3]; decide))
    · exact List.length_pos_of_mem (hfree 3 (by decide) (by decide) h3)

include h2 in
theorem first_wellFormed : (stored (rootedMachine name) r 2).WellFormed := by
  exact (two_first h2).wellFormed (rootedMachine_wellFormed name)
    (Disk.reachable_of_root _ h2.parent) (single_size h2.size)

include h2 in
theorem twoEntries_wellFormed : (twoEntries name r r').WellFormed := by
  exact (two_second h2).wellFormed (first_wellFormed h2)
    (Disk.reachable_of_root _ h2.parent') (single_size h2.size')

include h2 in
theorem twoEntries_table : (twoEntries name r r').disk.table rootClusterNumber =
    ((initDirectoryTable name rootClusterNumber).set 2 (addedEntry (rootedMachine name) r)).set 3
      (addedEntry (stored (rootedMachine name) r 2) r') := by
  have hdir : (stored (rootedMachine name) r 2).disk.dirAt [] = some r'.parentClusterNumber :=
    Disk.dirAt_root _ h2.parent'
  have ht := stored_table (i := 3) (@first_wellFormed name r r' h2) (single_size h2.size')
    (two_second h2).space hdir
  rw [@first_table name r r' h2 _ h2.parent', h2.parent'] at ht
  exact ht

end Two

end KajijOSta.Fat32
