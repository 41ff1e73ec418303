import KajijOSta.Fat32.Writing

/-! # What `delete` and the two reads do on a well-formed image

In a directory of the tree the scan over all slots finds the live entry of a
name, as long as the name is neither all zero nor the directory's own
(`find_slotOf`). `delete` is then one cleared slot (`deleted_disk`) and a quiet
rewrite of the FAT. -/
namespace KajijOSta.Fat32
open KajijOSta.LinkedChain KajijOSta.NamedTree KajijOSta.WriteLog

/-! ## The slot a name denotes -/

namespace Disk
variable {d : Disk} {c : UInt32} {i : Fin 64} {r : FAT32DriverRequest}

/-- The name a directory carries in its own slot. -/
def ownKey (d : Disk) (c : UInt32) : Key := ((d.table c).table 0).key

/-- In a directory, a slot with a name that is neither zero nor the directory's
own holds the live entry of that name. -/
theorem DirectoryOk.slot_of_key (h : d.DirectoryOk c) {k : Key} (hk : k ≠ 0)
    (h0 : k ≠ d.ownKey c) (hi : ((d.table c).table i).key = k) :
    2 ≤ i ∧ ((d.table c).table i).Live := by
  have hi2 : 2 ≤ i := by
    by_contra hlt
    rcases slot_lt_two hlt with rfl | rfl
    · exact h0 hi.symm
    · rw [h.second] at hi
      exact hk hi.symm
  refine ⟨hi2, ?_⟩
  rcases h.slots i hi2 with hz | hl
  · rw [hz] at hi
    exact absurd hi.symm hk
  · exact hl.1

/-- The scan of `read` and `delete` finds the live entry of the name. -/
theorem DirectoryOk.find_slotOf (h : d.DirectoryOk c) (hk : r.key ≠ 0)
    (h0 : r.key ≠ d.ownKey c) :
    (List.finRange 64).find? (fun i => sameKey ((d.table c).table i) r) = d.slotOf c r.key := by
  cases hs : d.slotOf c r.key with
  | none =>
    refine find_slot_eq_none.mpr fun i => ?_
    by_contra hsame
    have hkey := sameKey_iff.mp (eq_true_of_ne_false hsame)
    obtain ⟨hi, hl⟩ := h.slot_of_key hk h0 hkey
    exact slotOf_none.mp hs i hi hl hkey
  | some i =>
    obtain ⟨hi, hl, hkey⟩ := slotOf_some hs
    refine find_slot_eq_some.mpr ⟨sameKey_iff.mpr hkey, fun j hj => ?_⟩
    by_contra hsame
    have hkey' := sameKey_iff.mp (eq_true_of_ne_false hsame)
    obtain ⟨hj2, hl'⟩ := h.slot_of_key hk h0 hkey'
    rw [h.unique j i hj2 hi hl' hl (hkey'.trans hkey.symm)] at hj
    exact absurd hj (lt_irrefl i)

/-- Every live entry begins a chain of its clusters. -/
theorem WellFormed.chain (h : d.WellFormed) (hl : d.LiveAt c i) :
    Chain d.next fat32FatEndOfFile ((d.table c).table i).cluster
      (d.clustersOf ((d.table c).table i)) := by
  have he := h.entry c i hl
  by_cases hf : ((d.table c).table i).IsFolder
  · have hd := h.directory _ (hl.reachable (h.directory c hl.dir) hf)
    rw [clustersOf_folder hf]
    have hr := (he.range ((d.table c).table i).cluster (by rw [clustersOf_folder hf]; simp)).2
    exact ⟨rfl, ne_end hr, _, hd.marked, rfl⟩
  · exact he.chain hf

end Disk

/-! ## Deleting -/

/-- The state after a `delete` that cleared slot `i`. -/
def deleted (m : Machine) (r : FAT32DriverRequest) (i : Fin 64) : Machine :=
  let t := m.disk.table r.parentClusterNumber
  let driver : FAT32DriverState := ⟨m.fat.clear (m.disk.clustersOf (t.table i)), t.set i 0⟩
  (Machine.writeClusters { m with driver := driver } (t.set i 0).bytes
    r.parentClusterNumber).flushFat

section Delete
variable {m : Machine} {r : FAT32DriverRequest} {i : Fin 64} {p : List Key} (h : m.WellFormed)

theorem delete_found (hfind : (List.finRange 64).find?
    (fun i => sameKey ((m.disk.table r.parentClusterNumber).table i) r) = some i) :
    delete m r = deleteSlot
      { m with driver.dirTableBuf := m.disk.table r.parentClusterNumber } r i := by
  simp only [delete, readTable_eq, hfind]

theorem delete_missing (hfind : (List.finRange 64).find?
    (fun i => sameKey ((m.disk.table r.parentClusterNumber).table i) r) = none) :
    delete m r =
      .ok (1, { m with driver.dirTableBuf := m.disk.table r.parentClusterNumber }) := by
  simp only [delete, readTable_eq, hfind]

include h in
/-- Deleting a live slot returns, and frees exactly the clusters of its entry. -/
theorem deleteSlot_live (hl : m.disk.LiveAt r.parentClusterNumber i) :
    deleteSlot { m with driver.dirTableBuf := m.disk.table r.parentClusterNumber } r i =
      .ok (0, deleted m r i) := by
  have hc := h.image.chain hl
  have hnext : m.disk.next = m.fat.get? := funext fun x => by rw [Disk.next, h.coherent]
  have hlen := (h.image.entry _ _ hl).length_le
  have hfree := @freeChain_of_chain _ (2 * chainFuel) _ _ (hnext ▸ hc)
    (by simp only [chainFuel]; omega)
  simp only [deleteSlot, hfree, deleted, Machine.fat]
  rfl

theorem deleted_fat : (deleted m r i).fat =
    m.fat.clear (m.disk.clustersOf ((m.disk.table r.parentClusterNumber).table i)) := rfl

theorem deleted_disk : (deleted m r i).disk =
    Fat32.writeClusters (m.disk.putEntry r.parentClusterNumber i 0)
      (deleted m r i).fat.bytes fatClusterNumber 1 := by
  rw [deleted_fat]
  simp only [deleted, Machine.flushFat_disk, Machine.writeClusters_disk, Machine.writeClusters_fat,
    Disk.putEntry]

include h in
/-- A delete frees exactly the clusters of its entry. -/
theorem deleted_freeClusters (hl : m.disk.LiveAt r.parentClusterNumber i) :
    (freeClusters (deleted m r i).fat).length = (freeClusters m.fat).length +
      (m.disk.clustersOf ((m.disk.table r.parentClusterNumber).table i)).length := by
  have he := h.image.entry _ i hl
  have hdisj : List.Disjoint (freeClusters m.fat)
      (m.disk.clustersOf ((m.disk.table r.parentClusterNumber).table i)) := by
    intro x hx hm
    exact (free_unused h (mem_freeClusters.mp hx)).2 ⟨_, i, hl, hm⟩
  have hn := (freeClusters_nodup m.fat).append he.nodup hdisj
  rw [← List.length_append]
  refine ((List.perm_ext_iff_of_nodup (freeClusters_nodup _) hn).mpr fun x => ?_).length_eq
  rw [List.mem_append, mem_freeClusters, mem_freeClusters, deleted_fat,
    FAT32FileAllocationTable.get?_clear]
  by_cases hx : x ∈ m.disk.clustersOf ((m.disk.table r.parentClusterNumber).table i)
  · rw [if_pos ⟨hx, (he.range x hx).2⟩]
    simp only [hx, or_true, iff_true]
    rfl
  · rw [if_neg (fun hm => hx hm.1)]
    simp only [hx, or_false]

theorem deleted_coherent : (deleted m r i).disk.fatTable = (deleted m r i).fat := by
  rw [deleted_disk, fatTable_write_same]

variable (hp : m.disk.dirAt p = some r.parentClusterNumber) (hi : 2 ≤ i)
  (hl : ((m.disk.table r.parentClusterNumber).table i).Live)

include h hp hi hl in
/-- Freeing the clusters of the cleared entry touches nothing the tree uses. -/
theorem deleted_quiet :
    Disk.Quiet (m.disk.putEntry r.parentClusterNumber i 0) (deleted m r i).disk := by
  have hr := h.image.reachable_range ⟨p, hp⟩
  have hw := Disk.unlink_wellFormed h.image hp hi hl
  have he := h.image.entry _ i ⟨⟨p, hp⟩, hi, hl⟩
  rw [deleted_disk]
  refine (Disk.Quiet.refl _).flush hw fun x hx => ?_
  have hx : x ∉ m.disk.clustersOf ((m.disk.table r.parentClusterNumber).table i) := by
    rcases hx with hx | hx
    · intro hm
      have := (he.range x hm).1
      omega
    · exact (Disk.unlink_used h.image hp hi hl hx).2
  rw [Disk.putEntry_next hr.2 hr.1, deleted_fat, FAT32FileAllocationTable.get?_clear,
    if_neg (fun hm => hx hm.1), Disk.next, h.coherent]

include h hp hi hl in
theorem deleted_image : (deleted m r i).disk.WellFormed :=
  (deleted_quiet h hp hi hl).wellFormed (Disk.unlink_wellFormed h.image hp hi hl)

include h hp hi hl in
theorem deleted_wellFormed : (deleted m r i).WellFormed :=
  ⟨deleted_coherent, deleted_image h hp hi hl⟩

include h hp hi hl in
/-- The tree changes with the first of the two writes. -/
theorem deleted_passes : Passes (fun d => d = m.disk ∨
    Disk.Quiet (m.disk.putEntry r.parentClusterNumber i 0) d) m (deleted m r i) := by
  have q := deleted_quiet h hp hi hl
  rw [deleted_disk] at q
  have p0 : Passes (fun d => d = m.disk ∨
      Disk.Quiet (m.disk.putEntry r.parentClusterNumber i 0) d) m
      { m with driver := (deleted m r i).driver } := Passes.of_same rfl rfl (Or.inl rfl)
  refine p0.trans ((Passes.write _ _ (Or.inl rfl) (Or.inr (Disk.Quiet.refl _))).trans
    (Passes.write _ _ (Or.inr (Disk.Quiet.refl _)) (Or.inr ?_)))
  exact q

include h hp hi hl in
/-- A delete takes the entry and what is below it out of the tree. -/
theorem deleted_tree (h' : (deleted m r i).disk.WellFormed) :
    (deleted m r i).disk.tree h' = (m.disk.tree h.image).remove
      ((m.disk.table r.parentClusterNumber).table i).key p := by
  have hw := Disk.unlink_wellFormed h.image hp hi hl
  rw [(deleted_quiet h hp hi hl).tree_eq hw h', Disk.unlink_tree h.image hp hi hl hw]

end Delete

end KajijOSta.Fat32
