import KajijOSta.Fat32.Outcome

/-! # A delete undoes a write

`write` links free clusters into a chain and fills a vacant slot; `delete` of
the same name finds that slot, walks that chain to its end and clears both.
What is left differs from the disk before the write in clusters that are free
there. -/
namespace KajijOSta.Fat32
open KajijOSta.LinkedChain KajijOSta.NamedTree

/-- The cluster `x` holds on `d'`, byte for byte, what it holds on `d`. -/
def Disk.SameAt (d d' : Disk) (x : UInt32) : Prop :=
  ∀ b, b < clusterSize → d'.cluster x b = d.cluster x b

/-- The FAT and every cluster in use, the directory at `c` among them, are as
they were. -/
structure Restored (m m' : Machine) (c : UInt32) : Prop where
  cachedFat : m'.fat = m.fat
  diskFat : m.disk.SameAt m'.disk fatClusterNumber
  parent : m.disk.SameAt m'.disk c
  directories : ∀ x, m.disk.Reachable x → m.disk.SameAt m'.disk x
  entries : ∀ x, m.disk.Used x → m.disk.SameAt m'.disk x

/-! ## The links -/

theorem FAT32FileAllocationTable.ext_get? {t t' : FAT32FileAllocationTable}
    (h : ∀ x, t.get? x = t'.get? x) : t = t' := by
  ext1
  funext k
  have hk := k.isLt
  simp only [clusterMapSize_eq] at hk
  have hn : (UInt32.ofNat k.val).toNat = k.val := by
    rw [UInt32.toNat_ofNat']
    omega
  have hlt : (UInt32.ofNat k.val).toNat < clusterMapSize := by
    rw [hn]
    exact k.isLt
  obtain ⟨_, hv⟩ := get?_eq_some.mp ((h (UInt32.ofNat k.val)).trans (dif_pos hlt))
  simpa only [hn] using hv

/-- Clearing the links just made gives the FAT back. -/
theorem clear_linkFat {fat : FAT32FileAllocationTable} {l : List UInt32}
    (hl : ∀ x ∈ l, fat.get? x = some fat32FatEmptyEntry) : (linkFat fat l).clear l = fat := by
  refine FAT32FileAllocationTable.ext_get? fun x => ?_
  rw [FAT32FileAllocationTable.get?_clear]
  by_cases hx : x ∈ l
  · obtain ⟨hlt, _⟩ := FAT32FileAllocationTable.get?_eq_some.mp (hl x hx)
    rw [if_pos ⟨hx, hlt⟩, hl x hx]
    rfl
  · rw [if_neg (fun hm => hx hm.1), get?_linkFat_other hx]

theorem FAT32DirectoryTable.set_back {t : FAT32DirectoryTable} {i : Fin 64}
    (hz : t.table i = 0) (e : FAT32DirectoryEntry) : (t.set i e).set i 0 = t := by
  ext1
  funext j
  by_cases hj : j = i
  · rw [hj, set_same, hz]
  · rw [set_other _ _ hj, set_other _ _ hj]

/-! ## The clusters of a deleted state -/

section Deleted
variable {m : Machine} {r : FAT32DriverRequest} {i : Fin 64} {x : UInt32} {b : Nat}

/-- A delete writes the FAT and the parent. -/
theorem deleted_cluster_other (hp : r.parentClusterNumber.toNat < clusterMapSize)
    (hx : x.toNat < clusterMapSize) (h1 : x ≠ fatClusterNumber) (hxp : x ≠ r.parentClusterNumber)
    (hb : b < clusterSize) : (deleted m r i).disk.cluster x b = m.disk.cluster x b := by
  rw [deleted_disk, cluster_write_other _ _ fat_lt hx h1 hb, Disk.putEntry,
    cluster_write_other _ _ hp hx hxp hb]

theorem deleted_cluster_fat (hb : b < clusterSize) :
    (deleted m r i).disk.cluster fatClusterNumber b = (deleted m r i).fat.bytes b := by
  rw [deleted_disk, cluster_write_same _ _ _ hb]

theorem deleted_cluster_parent (hp : r.parentClusterNumber.toNat < clusterMapSize)
    (h1 : r.parentClusterNumber ≠ fatClusterNumber) (hb : b < clusterSize) :
    (deleted m r i).disk.cluster r.parentClusterNumber b =
      ((m.disk.table r.parentClusterNumber).set i 0).bytes b := by
  rw [deleted_disk, cluster_write_other _ _ fat_lt hp h1 hb, Disk.putEntry,
    cluster_write_same _ _ _ hb]

theorem deleted_table (hp : r.parentClusterNumber.toNat < clusterMapSize)
    (h1 : r.parentClusterNumber ≠ fatClusterNumber) :
    (deleted m r i).disk.table r.parentClusterNumber =
      (m.disk.table r.parentClusterNumber).set i 0 := by
  rw [Disk.table, FAT32DirectoryTable.ofBytes_congr fun b hb => deleted_cluster_parent hp h1 hb]
  exact FAT32DirectoryTable.ofBytes_bytes _

end Deleted

/-! ## Deleting what was stored -/

section Undo
variable {m : Machine} {r : FAT32DriverRequest} {i : Fin 64} (h : m.WellFormed)
  (hc : m.disk.Reachable r.parentClusterNumber)
  (hs : r.bufferSize.toNat ≤ 255 * clusterSize) (hst : Storable m r i)

include h hc hs hst in
/-- On the disk after the write too, the new entry stands on what was allocated. -/
theorem stored_clusters : (stored m r i).disk.clustersOf
    (((stored m r i).disk.table r.parentClusterNumber).table i) = allocated m r := by
  have hr := h.image.reachable_range hc
  obtain ⟨p, hp⟩ := hc
  rw [stored_parent_table, FAT32DirectoryTable.set_same, stored_disk h hs hst.space hp,
    Disk.clustersOf_of_next (Disk.putEntry_next hr.2 hr.1), addedEntry_clusters h hs hst.space]

include h hc hs hst in
theorem undone_fat : (deleted (stored m r i) r i).fat = m.fat := by
  rw [deleted_fat, stored_clusters h hc hs hst, stored_fat hst.space]
  exact clear_linkFat fun x hx => mem_freeClusters.mp (List.mem_of_mem_take hx)

include h hc hs hst in
/-- A cluster that was in use before the write is as it was then. -/
theorem undone_sameAt {x : UInt32} (hx : x.toNat < clusterMapSize)
    (hf : m.fat.get? x ≠ some fat32FatEmptyEntry) :
    m.disk.SameAt (deleted (stored m r i) r i).disk x := by
  intro b hb
  have hr := h.image.reachable_range hc
  by_cases h1 : x = fatClusterNumber
  · subst h1
    rw [deleted_cluster_fat hb, undone_fat h hc hs hst, ← h.coherent]
    exact FAT32FileAllocationTable.bytes_ofBytes _ hb
  · by_cases hxp : x = r.parentClusterNumber
    · subst hxp
      -- a vacant slot of a directory is zero
      have hz : (m.disk.table r.parentClusterNumber).table i = 0 := by
        obtain ⟨hi, hl, _⟩ := vacantSlot_eq_some.mp hst.vacant
        rcases (h.image.directory _ hc).slots i hi with hz | hlive
        · exact hz
        · exact absurd hlive.1 hl
      rw [deleted_cluster_parent hr.2 h1 hb, stored_parent_table, FAT32DirectoryTable.set_back hz]
      exact FAT32DirectoryTable.bytes_ofBytes _ hb
    · have hxa : x ∉ allocated m r :=
        fun hm => hf (mem_freeClusters.mp (List.mem_of_mem_take hm))
      rw [deleted_cluster_other hr.2 hx h1 hxp hb,
        stored_cluster_other h hst.space (required_pos hs) hr.2 hx h1 hxp hxa hb]

include h hc hs hst in
theorem undone_restored :
    Restored m (deleted (stored m r i) r i) r.parentClusterNumber := by
  have hdir : ∀ x, m.disk.Reachable x → m.disk.SameAt (deleted (stored m r i) r i).disk x := by
    intro x hx
    refine undone_sameAt h hc hs hst (h.image.reachable_range hx).2 ?_
    rw [fat_eq h]
    exact h.image.reachable_not_free hx
  refine ⟨undone_fat h hc hs hst, undone_sameAt h hc hs hst fat_lt ?_, hdir _ hc, hdir,
    fun x hx => undone_sameAt h hc hs hst (h.image.used_range hx).2 ?_⟩
  · rw [fat_eq h, show fatClusterNumber = 1 from rfl, h.image.fat1]
    decide
  · obtain ⟨v, hv, hne⟩ := h.image.used_not_free hx
    rw [fat_eq h, hv]
    exact fun he => hne (Option.some.inj he)

include h hc hs hst in
/-- The slot the write filled is the one a delete of the name finds. -/
theorem stored_delete {r' : FAT32DriverRequest}
    (hp : r'.parentClusterNumber = r.parentClusterNumber) (hk : r'.key = r.key)
    (ho : r.key ≠ m.disk.ownKey r.parentClusterNumber) :
    delete (stored m r i) r' = .ok (0, deleted (stored m r i) r i) := by
  have hw := hst.wellFormed h hc hs
  have hk0 := hst.named h hc
  have hact := stored_actOn h hc hk0 ho hst (required_pos hs) hp hk
  obtain ⟨p, hpath⟩ := hc
  obtain ⟨hl, _⟩ := stored_added h hs hst.space hpath hk0 hst.vacant hst.lookup
  rw [← hp] at hl
  have hsame : deleted (stored m r i) r' i = deleted (stored m r i) r i := by
    unfold deleted
    rw [hp]
  rw [← hsame]
  exact hact.2.trans (deleteSlot_live hw hl)

end Undo

/-- **A delete undoes a write.** After a write that returned 0, a delete of the
same name in the same directory returns 0 and restores the cached FAT, the FAT on
the disk, the parent's table and every cluster that was in use. -/
theorem delete_undoes_write {m m' : Machine} {r r' : FAT32DriverRequest} (h : m.WellFormed)
    (hc : m.disk.Reachable r.parentClusterNumber) (hs : r.bufferSize.toNat ≤ 255 * clusterSize)
    (ho : r.key ≠ m.disk.ownKey r.parentClusterNumber)
    (hw : write m r = .ok (0, m')) (hp : r'.parentClusterNumber = r.parentClusterNumber)
    (hkey : r'.key = r.key) :
    ∃ m'', delete m' r' = .ok (0, m'') ∧ Restored m m'' r.parentClusterNumber := by
  obtain ⟨i, hst, _, rfl⟩ := write_zero (parent_marked h hc) hw
  exact ⟨_, stored_delete h hc hs hst hp hkey ho, undone_restored h hc hs hst⟩

theorem delete_undoes_write_rooted : ∃ m' m'',
    write (rootedMachine (letterName 'r')) (letterRequest 'a' 100) = .ok (0, m') ∧
      delete m' (letterRequest 'a' 7) = .ok (0, m'') ∧
      Restored (rootedMachine (letterName 'r')) m'' rootClusterNumber := by
  have h := rootedMachine_wellFormed (letterName 'r')
  have hc : (rootedMachine (letterName 'r')).disk.Reachable rootClusterNumber :=
    Disk.reachable_root _
  have hs : (letterRequest 'a' 100).bufferSize.toNat ≤ 255 * clusterSize := by decide
  have hst : Storable (rootedMachine (letterName 'r')) (letterRequest 'a' 100) 2 :=
    letterRequest_storable _
  have hw := write_stores (parent_marked h hc) hst.free hst.vacant (required_pos hs) hst.space
  obtain ⟨m'', hd, hres⟩ := @delete_undoes_write _ _ _ (letterRequest 'a' 7) h hc hs
    (letterRequest_not_own 100) hw rfl rfl
  exact ⟨_, m'', hw, hd, hres⟩

end KajijOSta.Fat32
