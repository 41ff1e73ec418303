import KajijOSta.Fat32.Parents

/-! # What a name denotes

`write` looks for a name in slots 2 to 63 of a directory; `read` and `delete`
scan all 64, and none of them looks at `user_attribute` when it compares. In a
directory of the tree they agree on all names but two: the all-zero name, which
empty slots carry, and the directory's own, in slot 0. -/
namespace KajijOSta.Fat32
open KajijOSta.NamedTree KajijOSta.LinkedChain

/-- `read` and `delete` act on slot `i`. -/
def ActOn (m : Machine) (r : FAT32DriverRequest) (i : Fin 64) : Prop :=
  read m r = readEntry m r ((m.disk.table r.parentClusterNumber).table i) ∧
    delete m r = deleteSlot { m with driver.dirTableBuf := m.disk.table r.parentClusterNumber } r i

/-- `read` and `delete` report that there is no such entry, without effect. -/
def NotFound (m : Machine) (r : FAT32DriverRequest) : Prop :=
  read m r = .ok (2, r.buf) ∧
    ∃ m', delete m r = .ok (1, m') ∧ m'.disk = m.disk ∧ m'.fat = m.fat

/-- All operations take the name `k` in the directory at `c` for its live entry
of that name: `read` and `delete` act on it or report that there is none,
`write` sees it in its check, and what `write` stores under the name is what
they act on afterwards. -/
structure Agrees (m : Machine) (c : UInt32) (k : Key) : Prop where
  found : ∀ r i, r.parentClusterNumber = c → r.key = k → m.disk.slotOf c k = some i → ActOn m r i
  missing : ∀ r, r.parentClusterNumber = c → r.key = k → m.disk.slotOf c k = none → NotFound m r
  checked : ∀ r i, r.parentClusterNumber = c → r.key = k → m.disk.slotOf c k = some i →
    write m r = .ok (1, m)
  written : ∀ r m', r.parentClusterNumber = c → r.key = k → write m r = .ok (0, m') →
    ∃ i, m'.disk.slotOf c k = some i ∧
      ∀ r', r'.parentClusterNumber = c → r'.key = k → ActOn m' r' i

section Find
variable {m : Machine} {r : FAT32DriverRequest} {i : Fin 64}

/-- The operations act on the slot the scan finds. -/
theorem actOn_of_find (hm : m.fat.get? r.parentClusterNumber = some fat32FatEndOfFile)
    (hf : (List.finRange 64).find?
      (fun j => sameKey ((m.disk.table r.parentClusterNumber).table j) r) = some i) :
    ActOn m r i := by
  refine ⟨?_, delete_found hf⟩
  simp only [read, hm, ne_eq, not_true_eq_false, if_false, readTable_eq, hf]

theorem notFound_of_find (hm : m.fat.get? r.parentClusterNumber = some fat32FatEndOfFile)
    (hf : (List.finRange 64).find?
      (fun j => sameKey ((m.disk.table r.parentClusterNumber).table j) r) = none) :
    NotFound m r := by
  refine ⟨?_, _, delete_missing hf, rfl, rfl⟩
  simp only [read, hm, ne_eq, not_true_eq_false, if_false, readTable_eq, hf]

/-- A `write` that returns has left everything as it was, or stored the entry. -/
theorem write_ok {m' : Machine} {code : Int8}
    (hm : m.fat.get? r.parentClusterNumber = some fat32FatEndOfFile)
    (hw : write m r = .ok (code, m')) :
    (code ≠ 0 ∧ m' = m ∧ (Taken m r ∨ NoRoom m r)) ∨
    (code = 0 ∧ ∃ i, Storable m r i ∧ required r ≠ 0 ∧ m' = stored m r i) := by
  by_cases ht : Taken m r
  · obtain ⟨i, hi, hkey⟩ := ht
    rw [write_taken hm hi hkey] at hw
    cases hw
    exact Or.inl ⟨by decide, rfl, Or.inl ⟨i, hi, hkey⟩⟩
  have hk : ∀ j, 2 ≤ j → ((m.disk.table r.parentClusterNumber).table j).key ≠ r.key :=
    fun j hj hkey => ht ⟨j, hj, hkey⟩
  cases hv : vacantSlot (m.disk.table r.parentClusterNumber) with
  | none =>
    rw [write_full hm hk hv] at hw
    cases hw
    exact Or.inl ⟨by decide, rfl, Or.inr (Or.inl hv)⟩
  | some i =>
    by_cases hf : (freeClusters m.fat).length < required r
    · rw [write_no_space hm hk hv hf] at hw
      cases hw
      exact Or.inl ⟨by decide, rfl, Or.inr (Or.inr hf)⟩
    · by_cases h0 : required r = 0
      · rw [write_overrun hm hk hv h0] at hw
        cases hw
      · rw [write_stores hm hk hv h0 (not_lt.mp hf)] at hw
        cases hw
        exact Or.inr ⟨rfl, i, ⟨hk, hv, not_lt.mp hf⟩, h0, rfl⟩

/-- A name that is taken, or no room: `write` leaves everything as it was. -/
theorem write_turned_down (hm : m.fat.get? r.parentClusterNumber = some fat32FatEndOfFile)
    (hno : Taken m r ∨ NoRoom m r) : ∃ code, write m r = .ok (code, m) := by
  by_cases ht : Taken m r
  · obtain ⟨i, hi, hkey⟩ := ht
    exact ⟨1, write_taken hm hi hkey⟩
  have hk : ∀ j, 2 ≤ j → ((m.disk.table r.parentClusterNumber).table j).key ≠ r.key :=
    fun j hj hkey => ht ⟨j, hj, hkey⟩
  have hroom := hno.resolve_left ht
  cases hv : vacantSlot (m.disk.table r.parentClusterNumber) with
  | none => exact ⟨-1, write_full hm hk hv⟩
  | some i =>
    have hspace := hroom.resolve_left (by rw [hv]; exact Option.some_ne_none i)
    exact ⟨-1, write_no_space hm hk hv hspace⟩

/-- What a `write` that returned 0 has done. -/
theorem write_zero {m' : Machine}
    (hm : m.fat.get? r.parentClusterNumber = some fat32FatEndOfFile)
    (hw : write m r = .ok (0, m')) :
    ∃ i, Storable m r i ∧ required r ≠ 0 ∧ m' = stored m r i := by
  rcases write_ok hm hw with ⟨hne, _⟩ | ⟨_, hst⟩
  · exact absurd rfl hne
  · exact hst

/-- The parent's table after a write of any size. -/
theorem stored_parent_table : (stored m r i).disk.table r.parentClusterNumber =
    (m.disk.table r.parentClusterNumber).set i (addedEntry m r) :=
  table_write_same _ _ _

/-- The parent's mark is not touched. -/
theorem stored_parent_fat (h0 : required r ≠ 0) (hf : required r ≤ (freeClusters m.fat).length)
    (hm : m.fat.get? r.parentClusterNumber = some fat32FatEndOfFile) :
    (stored m r i).fat.get? r.parentClusterNumber = some fat32FatEndOfFile := by
  have hnot : r.parentClusterNumber ∉ allocated m r := by
    intro hmem
    have hfree := mem_freeClusters.mp (List.mem_of_mem_take hmem)
    exact free_ne_end (Option.some.inj (hfree.symm.trans hm))
  have hlen := allocated_length hf
  obtain ⟨c, l, hl⟩ : ∃ c l, allocated m r = c :: l :=
    List.exists_cons_of_ne_nil fun hnil => by rw [hnil] at hlen; exact h0 hlen.symm
  unfold stored
  rw [Machine.writeClusters_fat, prepared]
  split
  · rw [writeFolder_fat, get?_linkFat_other, hm]
    intro hmem
    rw [hl, List.headD_cons, List.mem_singleton] at hmem
    exact hnot (by rw [hl, hmem]; exact List.mem_cons_self)
  · rw [writeFile_fat, get?_linkFat_other hnot, hm]

/-- The scan stops in slot 0 for the name in it. -/
theorem find_own (ho : r.key = m.disk.ownKey r.parentClusterNumber) : (List.finRange 64).find?
    (fun j => sameKey ((m.disk.table r.parentClusterNumber).table j) r) = some 0 :=
  find_slot_eq_some.mpr ⟨sameKey_iff.mpr ho.symm, fun j hj => absurd hj (Fin.not_lt_zero j)⟩

/-- A delete that returns from a slot has cleared it. -/
theorem delete_table {m' : Machine} {code : Int8}
    (hp : 2 ≤ r.parentClusterNumber.toNat ∧ r.parentClusterNumber.toNat < clusterMapSize)
    (hf : (List.finRange 64).find?
      (fun j => sameKey ((m.disk.table r.parentClusterNumber).table j) r) = some i)
    (hd : delete m r = .ok (code, m')) :
    m'.disk.table r.parentClusterNumber = (m.disk.table r.parentClusterNumber).set i 0 := by
  rw [delete_found hf] at hd
  obtain ⟨_, fat, _, hm'⟩ := deleteSlot_inv hd
  rw [hm', Machine.flushFat_disk, Machine.writeClusters_disk, Disk.table,
    FAT32DirectoryTable.ofBytes_congr fun b hb =>
      cluster_write_other _ _ fat_lt hp.2 (ne_fat hp.1) hb]
  exact table_write_same _ _ _

/-- A delete under the name in slot 0 of a directory frees the directory. -/
theorem delete_own {m' : Machine} {code : Int8}
    (hm : m.fat.get? r.parentClusterNumber = some fat32FatEndOfFile)
    (ho : r.key = m.disk.ownKey r.parentClusterNumber)
    (hc : ((m.disk.table r.parentClusterNumber).table 0).cluster = r.parentClusterNumber)
    (hd : delete m r = .ok (code, m')) :
    m'.fat = m.fat.clear [r.parentClusterNumber] := by
  obtain ⟨hlt, _⟩ := FAT32FileAllocationTable.get?_eq_some.mp hm
  rw [delete_found (find_own ho)] at hd
  obtain ⟨_, fat, hfree, hm'⟩ := deleteSlot_inv hd
  have hchain : Chain m.fat.get? fat32FatEndOfFile r.parentClusterNumber
      [r.parentClusterNumber] := ⟨rfl, ne_end hlt, _, hm, rfl⟩
  have hrun : freeChain (2 * chainFuel) ((m.disk.table r.parentClusterNumber).table 0).cluster
      m.fat = .ok (m.fat.clear [r.parentClusterNumber]) := by
    rw [hc]
    exact freeChain_of_chain hchain (by decide : 1 ≤ 2 * chainFuel)
  cases hrun.symm.trans hfree
  rw [hm', Machine.flushFat_fat, Machine.writeClusters_fat]

theorem delete_own_fat {m' : Machine} {code : Int8}
    (hm : m.fat.get? r.parentClusterNumber = some fat32FatEndOfFile)
    (ho : r.key = m.disk.ownKey r.parentClusterNumber)
    (hc : ((m.disk.table r.parentClusterNumber).table 0).cluster = r.parentClusterNumber)
    (hd : delete m r = .ok (code, m')) :
    m'.fat.get? r.parentClusterNumber = some fat32FatEmptyEntry := by
  obtain ⟨hlt, _⟩ := FAT32FileAllocationTable.get?_eq_some.mp hm
  rw [delete_own hm ho hc hd, FAT32FileAllocationTable.get?_clear,
    if_pos ⟨List.mem_singleton_self _, hlt⟩]
  rfl

end Find

section Agrees
variable {m : Machine} {r : FAT32DriverRequest} {c : UInt32} {k : Key} {i : Fin 64}
  (h : m.WellFormed)

section Written
variable (hc : m.disk.Reachable r.parentClusterNumber) (hk : r.key ≠ 0)
  (ho : r.key ≠ m.disk.ownKey r.parentClusterNumber) (hst : Storable m r i)

include h hc hk ho hst in
/-- After a write, the new slot is the only one with the name. -/
theorem stored_key_iff (j : Fin 64) :
    (((stored m r i).disk.table r.parentClusterNumber).table j).key = r.key ↔ j = i := by
  rw [stored_parent_table]
  constructor
  · intro hkey
    by_contra hj
    rw [FAT32DirectoryTable.set_other _ _ hj] at hkey
    by_cases hj2 : 2 ≤ j
    · exact hst.free j hj2 hkey
    · rcases slot_lt_two hj2 with rfl | rfl
      · exact ho hkey.symm
      · rw [(h.image.directory _ hc).second] at hkey
        exact hk hkey.symm
  · intro hj
    rw [hj, FAT32DirectoryTable.set_same, addedEntry_key]

include h hc hk ho hst in
/-- After a write, the name denotes the new slot. -/
theorem stored_slotOf_key : (stored m r i).disk.slotOf r.parentClusterNumber r.key = some i := by
  have honly := stored_key_iff h hc hk ho hst
  cases hs : (stored m r i).disk.slotOf r.parentClusterNumber r.key with
  | none =>
    have hi := (vacantSlot_eq_some.mp hst.vacant).1
    refine absurd ((honly i).mpr rfl) (Disk.slotOf_none.mp hs i hi ?_)
    rw [stored_parent_table, FAT32DirectoryTable.set_same]
    exact addedEntry_live
  | some j =>
    obtain ⟨_, _, hkey⟩ := Disk.slotOf_some hs
    rw [(honly j).mp hkey]

include h hc hk ho hst in
/-- After a write, the operations act on the new slot. -/
theorem stored_actOn (h0 : required r ≠ 0) {r' : FAT32DriverRequest}
    (hp : r'.parentClusterNumber = r.parentClusterNumber) (hkey : r'.key = r.key) :
    ActOn (stored m r i) r' i := by
  have honly := stored_key_iff h hc hk ho hst
  refine actOn_of_find ?_ (find_slot_eq_some.mpr ⟨?_, fun j hj => ?_⟩)
  · rw [hp]
    exact stored_parent_fat h0 hst.space (parent_marked h hc)
  · rw [hp, sameKey_iff, hkey]
    exact (honly i).mpr rfl
  · rw [hp]
    exact Bool.eq_false_iff.mpr fun hs =>
      (ne_of_lt hj) ((honly j).mp ((sameKey_iff.mp hs).trans hkey))

end Written

variable (hc : m.disk.Reachable c)

include h hc in
theorem agrees_of_name (hk : k ≠ 0) (ho : k ≠ m.disk.ownKey c) : Agrees m c k := by
  have hdir := h.image.directory c hc
  have hm := parent_marked h hc
  refine ⟨?_, ?_, ?_, ?_⟩
  · rintro r i rfl rfl hs
    exact actOn_of_find hm ((hdir.find_slotOf hk ho).trans hs)
  · rintro r rfl rfl hs
    exact notFound_of_find hm ((hdir.find_slotOf hk ho).trans hs)
  · rintro r i rfl rfl hs
    obtain ⟨hi, _, hkey⟩ := Disk.slotOf_some hs
    exact write_taken hm hi hkey
  · rintro r m' rfl rfl hw
    obtain ⟨i, hst, h0, rfl⟩ := write_zero hm hw
    exact ⟨i, stored_slotOf_key h hc hk ho hst, fun r' hp hkey =>
      stored_actOn h hc hk ho hst h0 hp hkey⟩

include h in
/-- Where the scan stops in a slot before 2, a delete of a live entry is not the
delete of its slot. -/
theorem deleteSlot_ne {f : Fin 64} (hf : ¬ 2 ≤ f) (hl : m.disk.LiveAt r.parentClusterNumber i) :
    deleteSlot { m with driver.dirTableBuf := m.disk.table r.parentClusterNumber } r f ≠
      deleteSlot { m with driver.dirTableBuf := m.disk.table r.parentClusterNumber } r i := by
  intro he
  have hlive := deleteSlot_live h hl
  obtain ⟨_, _, _, hd⟩ := deleteSlot_inv (he.trans hlive)
  obtain ⟨_, _, _, hlive⟩ := deleteSlot_inv hlive
  -- one of the two cleared slot `i`, the other did not
  have htable : (m.disk.table r.parentClusterNumber).set f 0 =
      (m.disk.table r.parentClusterNumber).set i 0 :=
    congrArg (fun m => m.driver.dirTableBuf) (hd.symm.trans hlive)
  have hslot := congrArg (fun t => t.table i) htable
  have hne : i ≠ f := fun hif => hf (hif ▸ hl.slot)
  simp only [FAT32DirectoryTable.set_same, FAT32DirectoryTable.set_other _ _ hne] at hslot
  have hlive := hl.live
  rw [hslot] at hlive
  exact not_live_zero hlive

include h hc in
theorem name_of_agrees (ha : Agrees m c k) : k ≠ 0 ∧ k ≠ m.disk.ownKey c := by
  have hdir := h.image.directory c hc
  have hcon : ∀ j, ((m.disk.table c).table j).key = k → 2 ≤ j := by
    intro j hj
    by_contra hj2
    obtain ⟨r, rfl, rfl⟩ : ∃ r : FAT32DriverRequest, r.parentClusterNumber = c ∧ r.key = k :=
      ⟨⟨fun _ => 0, k.name, k.ext, c, 0⟩, rfl, rfl⟩
    -- the scan stops in slot 0 or 1
    obtain ⟨f, hf⟩ := @exists_find_slot
      (fun i => sameKey ((m.disk.table r.parentClusterNumber).table i) r) j (sameKey_iff.mpr hj)
    obtain ⟨_, hfirst⟩ := find_slot_eq_some.mp hf
    have hf2 : ¬ 2 ≤ f := fun hf2 => by
      have := hfirst j (lt_of_lt_of_le (not_le.mp hj2) hf2)
      exact Bool.eq_false_iff.mp this (sameKey_iff.mpr hj)
    cases hs : m.disk.slotOf r.parentClusterNumber r.key with
    | none =>
      obtain ⟨_, m', hd, _⟩ := ha.missing r rfl rfl hs
      rw [delete_found hf] at hd
      exact absurd (deleteSlot_inv hd).1 (by decide)
    | some i =>
      obtain ⟨hi, hl, _⟩ := Disk.slotOf_some hs
      have hd := (ha.found r i rfl rfl hs).2
      rw [delete_found hf] at hd
      exact deleteSlot_ne h hf2 ⟨hc, hi, hl⟩ hd
  refine ⟨?_, ?_⟩
  · intro hx
    subst hx
    exact absurd (hcon 1 (by rw [hdir.second]; rfl)) (by decide)
  · intro hx
    subst hx
    exact absurd (hcon 0 rfl) (by decide)

end Agrees

/-- **Where all operations agree on a name.** In a directory of the tree they do
exactly for the names that are neither all zero nor the directory's own. -/
theorem agrees_iff {m : Machine} {c : UInt32} (k : Key) (h : m.WellFormed)
    (hc : m.disk.Reachable c) : Agrees m c k ↔ k ≠ 0 ∧ k ≠ m.disk.ownKey c :=
  ⟨name_of_agrees h hc, fun ⟨hk, ho⟩ => agrees_of_name h hc hk ho⟩

theorem agrees_rooted : Agrees (rootedMachine fun _ => 114) rootClusterNumber
    ⟨fun _ => 97, fun _ => 0⟩ := by
  refine (agrees_iff _ (rootedMachine_wellFormed fun _ => 114) (Disk.reachable_root _)).mpr
    ⟨by decide, ?_⟩
  unfold rootedMachine
  rw [rooted_ownKey]
  decide

/-- A delete under the root's own name frees the root. -/
theorem own_name_not_agrees :
    (rootedMachine fun _ => 114).WellFormed ∧
    (rootedMachine fun _ => 114).disk.Reachable rootClusterNumber ∧
    ¬ Agrees (rootedMachine fun _ => 114) rootClusterNumber ⟨fun _ => 114, fun _ => 0⟩ := by
  have h := rootedMachine_wellFormed fun _ => 114
  refine ⟨h, Disk.reachable_root _, fun ha => ?_⟩
  refine (name_of_agrees h (Disk.reachable_root _) ha).2 ?_
  unfold rootedMachine
  rw [rooted_ownKey]

end KajijOSta.Fat32
