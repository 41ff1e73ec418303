import KajijOSta.Fat32.Formatted

/-! # Parents that are no directories

The driver takes a cluster for a directory when its FAT entry is the end mark,
and checks that in `read` and `write` only. The end mark is also in FAT entry 1,
in the last cluster of every file and in folders that are out of the tree, and
`read_directory` and `delete` take any number. `rejected_iff` says for which
requests nothing goes wrong. -/
namespace KajijOSta.Fat32
open KajijOSta.NamedTree

/-- All four operations turn the request down: a nonzero code, and the disk, the
cached FAT and the buffer as they were. -/
structure Rejected (m : Machine) (r : FAT32DriverRequest) : Prop where
  read : ∃ code, code ≠ 0 ∧ read m r = .ok (code, r.buf)
  readDirectory : (readDirectory m r).1 ≠ 0 ∧ (readDirectory m r).2 = r.buf
  write : ∃ code m', code ≠ 0 ∧ write m r = .ok (code, m') ∧ m'.disk = m.disk ∧ m'.fat = m.fat
  delete : ∃ code m', code ≠ 0 ∧ delete m r = .ok (code, m') ∧ m'.disk = m.disk ∧ m'.fat = m.fat

/-- The parent is a cluster number, and the cluster, taken for a table, shows the
request nothing to read, delete or write to. -/
structure Harmless (m : Machine) (r : FAT32DriverRequest) : Prop where
  index : r.parentClusterNumber.toNat < clusterMapSize
  unnamed : ∀ i, ((m.disk.table r.parentClusterNumber).table i).key ≠ r.key
  unshown : ∀ i, ((m.disk.table r.parentClusterNumber).table i).name = r.name →
    (∀ j, j < i → ((m.disk.table r.parentClusterNumber).table j).name ≠ r.name) →
    ((m.disk.table r.parentClusterNumber).table i).attr &&& attrSubdirectory = 0 ∨
      r.bufferSize < ((m.disk.table r.parentClusterNumber).table i).filesize
  closed : m.fat.get? r.parentClusterNumber ≠ some fat32FatEndOfFile ∨ NoRoom m r

section Rejected
variable {m : Machine} {r : FAT32DriverRequest}

theorem find_key_none (h : ∀ i, ((m.disk.table r.parentClusterNumber).table i).key ≠ r.key) :
    (List.finRange 64).find?
      (fun i => sameKey ((m.disk.table r.parentClusterNumber).table i) r) = none :=
  find_slot_eq_none.mpr fun i => Bool.eq_false_iff.mpr fun hs => h i (sameKey_iff.mp hs)

/-- A slot that READ_DIR finds. -/
theorem exists_first_name {i : Fin 64}
    (h : ((m.disk.table r.parentClusterNumber).table i).name = r.name) :
    ∃ j, ((m.disk.table r.parentClusterNumber).table j).name = r.name ∧
      ∀ k, k < j → ((m.disk.table r.parentClusterNumber).table k).name ≠ r.name := by
  obtain ⟨j, hf⟩ := @exists_find_slot
    (fun k => sameName ((m.disk.table r.parentClusterNumber).table k) r) i (sameName_iff.mpr h)
  obtain ⟨hj, hfirst⟩ := find_slot_eq_some.mp hf
  exact ⟨j, sameName_iff.mp hj, fun k hk hn =>
    Bool.eq_false_iff.mp (hfirst k hk) (sameName_iff.mpr hn)⟩

theorem Harmless.rejected (h : Harmless m r) : Rejected m r := by
  obtain ⟨v, hv⟩ : ∃ v, m.fat.get? r.parentClusterNumber = some v := by
    cases hg : m.fat.get? r.parentClusterNumber with
    | some v => exact ⟨v, rfl⟩
    | none => exact absurd (FAT32FileAllocationTable.get?_eq_none.mp hg) (not_le.mpr h.index)
  refine ⟨?_, ?_, ?_, ?_⟩
  · refine ⟨2, by decide, ?_⟩
    by_cases hm : v = fat32FatEndOfFile
    · simp only [read, hv, hm, ne_eq, not_true_eq_false, if_false, readTable_eq,
        find_key_none h.unnamed]
    · simp only [read, hv, ne_eq, hm, not_false_eq_true, if_true]
  · by_cases hs : ∃ i, ((m.disk.table r.parentClusterNumber).table i).name = r.name
    · obtain ⟨i, hi⟩ := hs
      obtain ⟨j, hj, hfirst⟩ := exists_first_name hi
      rw [readDirectory_first hj hfirst]
      by_cases hattr : ((m.disk.table r.parentClusterNumber).table j).attr &&& attrSubdirectory = 0
      · rw [if_pos hattr]
        exact ⟨(by decide : (1 : Int8) ≠ 0), rfl⟩
      · rw [if_neg hattr, if_pos ((h.unshown j hj hfirst).resolve_left hattr)]
        exact ⟨(by decide : (-1 : Int8) ≠ 0), rfl⟩
    · rw [readDirectory_missing (not_exists.mp hs)]
      exact ⟨(by decide : (2 : Int8) ≠ 0), rfl⟩
  · by_cases hm : v = fat32FatEndOfFile
    · subst hm
      have hk : ∀ j, 2 ≤ j → ((m.disk.table r.parentClusterNumber).table j).key ≠ r.key :=
        fun j _ => h.unnamed j
      have hroom : NoRoom m r := h.closed.resolve_left (not_not.mpr hv)
      refine ⟨-1, m, by decide, ?_, rfl, rfl⟩
      cases hvac : vacantSlot (m.disk.table r.parentClusterNumber) with
      | none => exact write_full hv hk hvac
      | some i =>
        refine write_no_space hv hk hvac (hroom.resolve_left ?_)
        rw [hvac]
        exact Option.some_ne_none i
    · exact ⟨2, m, by decide, write_unmarked hv hm, rfl, rfl⟩
  · exact ⟨1, _, by decide, delete_missing (find_key_none h.unnamed), rfl, rfl⟩

theorem Rejected.harmless (h : Rejected m r) : Harmless m r := by
  have hunnamed : ∀ i, ((m.disk.table r.parentClusterNumber).table i).key ≠ r.key := by
    intro i hi
    obtain ⟨j, hj⟩ := @exists_find_slot
      (fun i => sameKey ((m.disk.table r.parentClusterNumber).table i) r) i (sameKey_iff.mpr hi)
    obtain ⟨code, m', hc, hd, _⟩ := h.delete
    rw [delete_found hj] at hd
    exact hc (deleteSlot_inv hd).1
  refine ⟨?_, hunnamed, ?_, ?_⟩
  · by_contra hn
    have hg : m.fat.get? r.parentClusterNumber = none :=
      FAT32FileAllocationTable.get?_eq_none.mpr (not_lt.mp hn)
    obtain ⟨code, _, hread⟩ := h.read
    simp only [Fat32.read, hg] at hread
    cases hread
  · intro i hi hfirst
    by_contra hcon
    obtain ⟨hattr, hsize⟩ := not_or.mp hcon
    have hcode := h.readDirectory.1
    rw [readDirectory_first hi hfirst, if_neg hattr, if_neg hsize] at hcode
    exact hcode rfl
  · by_contra hcon
    obtain ⟨hm, hroom⟩ := not_or.mp hcon
    obtain ⟨hvac, hspace⟩ := not_or.mp hroom
    obtain ⟨i, hi⟩ := Option.ne_none_iff_exists'.mp hvac
    have hk : ∀ j, 2 ≤ j → ((m.disk.table r.parentClusterNumber).table j).key ≠ r.key :=
      fun j _ => hunnamed j
    obtain ⟨code, m', hc, hw, _⟩ := h.write
    by_cases h0 : required r = 0
    · rw [write_overrun (not_not.mp hm) hk hi h0] at hw
      cases hw
    · rw [write_stores (not_not.mp hm) hk hi h0 (not_lt.mp hspace)] at hw
      cases hw
      exact hc rfl

end Rejected

/-- **Which parents are rejected.** For every state and request, all four
operations turn the request down without effect exactly when its parent is
harmless. -/
theorem rejected_iff (m : Machine) (r : FAT32DriverRequest) : Rejected m r ↔ Harmless m r :=
  ⟨Rejected.harmless, Harmless.rejected⟩

/-! ## Who carries the end mark -/

/-- The FAT's own cluster passes for a directory. -/
theorem fat_marked {m : Machine} (h : m.WellFormed) :
    ¬ m.disk.Reachable fatClusterNumber ∧
      m.fat.get? fatClusterNumber = some fat32FatEndOfFile := by
  refine ⟨fun hc => ?_, (fat_eq h _).trans h.image.fat1⟩
  exact absurd (h.image.reachable_range hc).1 (by decide)

def fatRequest : FAT32DriverRequest :=
  ⟨fun _ => 0, fun _ => 97, fun _ => 0, fatClusterNumber, 0⟩

/-- On the empty file system the FAT's cluster is taken for a directory, and
overwritten by a table. -/
theorem fat_not_rejected :
    (rootedMachine fun _ => 114).WellFormed ∧
    ¬ (rootedMachine fun _ => 114).disk.Reachable fatRequest.parentClusterNumber ∧
    ¬ Rejected (rootedMachine fun _ => 114) fatRequest := by
  have h := rootedMachine_wellFormed fun _ => 114
  obtain ⟨hr, hm⟩ := fat_marked h
  refine ⟨h, hr, fun hrej => ?_⟩
  rcases hrej.harmless.closed with hc | hfull | hspace
  · exact hc hm
  · -- slot 2 of the FAT is empty
    have hz : ((rootedMachine fun _ => 114).disk.table fatClusterNumber).table 2 = 0 := by
      refine Disk.fat_slot_zero fun c hc hc' => ?_
      have hc : 16 ≤ c.toNat := hc
      have hc' : c.toNat < 24 := hc'
      rw [← fat_eq h]
      exact rootedFat_free (by omega) (by simp only [clusterMapSize_eq]; omega)
    have hl := vacantSlot_eq_none.mp hfull 2 (le_refl _)
    rw [show fatRequest.parentClusterNumber = fatClusterNumber from rfl, hz] at hl
    exact not_live_zero hl
  · have hfree : (3 : UInt32) ∈ freeClusters (rootedMachine fun _ => 114).fat :=
      mem_freeClusters.mpr rfl
    have hone : required fatRequest = 1 := required_folder rfl
    rw [hone] at hspace
    exact absurd (List.length_pos_of_mem hfree) (by omega)

end KajijOSta.Fat32
