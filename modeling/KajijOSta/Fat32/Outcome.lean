import KajijOSta.Fat32.Invariant
import KajijOSta.Fat32.Names

/-! # What `write` reports, and what it has done then

The return code of `write` in a directory of the tree is a matter of the
parent's slots and of the number of free clusters (`write_outcome`). A code of 0
stands for the whole file up to 255 clusters; above them the cluster count has
wrapped in its `uint8_t` (`reports_iff`). -/
namespace KajijOSta.Fat32
open KajijOSta.LinkedChain KajijOSta.NamedTree

/-! ## The stored state, whatever its size -/

section AnySize
variable {m : Machine} {r : FAT32DriverRequest} {i : Fin 64}

/-- A marked parent is a cluster, and not a free one. -/
theorem marked_range {c : UInt32} (hm : m.fat.get? c = some fat32FatEndOfFile) :
    c.toNat < clusterMapSize ∧ c ∉ allocated m r := by
  obtain ⟨hlt, _⟩ := FAT32FileAllocationTable.get?_eq_some.mp hm
  refine ⟨hlt, fun hmem => ?_⟩
  have hfree := mem_freeClusters.mp (List.mem_of_mem_take hmem)
  exact free_ne_end (Option.some.inj (hfree.symm.trans hm))

theorem writeFolder_cluster_other {c x : UInt32} (hc : c.toNat < clusterMapSize)
    (hx : x.toNat < clusterMapSize) (hxc : x ≠ c) (h1 : x ≠ fatClusterNumber) {b : Nat}
    (hb : b < clusterSize) :
    (writeFolder m r c).disk.cluster x b = m.disk.cluster x b := by
  unfold writeFolder
  rw [Machine.flushFat_disk, cluster_write_other _ _ fat_lt hx h1 hb, Machine.setFat_disk,
    Machine.writeClusters_disk, cluster_write_other _ _ hc hx hxc hb]

variable (h : m.WellFormed) (hf : required r ≤ (freeClusters m.fat).length)
  (h0 : required r ≠ 0)

include hf h0 in
theorem allocated_head_mem : (allocated m r).headD 0 ∈ allocated m r := by
  have hlen := allocated_length hf
  cases hl : allocated m r with
  | nil =>
    rw [hl] at hlen
    exact absurd hlen.symm h0
  | cons c l => exact List.mem_cons_self

include h hf h0 in
/-- A write leaves every cluster alone but the FAT's, the parent's and the ones it takes. -/
theorem stored_cluster_other {x : UInt32} (hp : r.parentClusterNumber.toNat < clusterMapSize)
    (hx : x.toNat < clusterMapSize) (h1 : x ≠ fatClusterNumber) (hxp : x ≠ r.parentClusterNumber)
    (hxa : x ∉ allocated m r) {b : Nat} (hb : b < clusterSize) :
    (stored m r i).disk.cluster x b = m.disk.cluster x b := by
  unfold stored
  rw [Machine.writeClusters_disk, cluster_write_other _ _ hp hx hxp hb]
  unfold prepared
  split
  · have hhead := allocated_head_mem hf h0
    have hne : x ≠ (allocated m r).headD 0 := fun he => hxa (he ▸ hhead)
    exact writeFolder_cluster_other (allocated_unused h hhead).1.2 hx hne h1 hb
  · exact writeFile_cluster_other hx h1 _ _ _ (fun y hy => (allocated_unused h hy).1.2) hxa b hb

include h in
/-- The clusters of a new file hold the buffer, cluster by cluster. -/
theorem stored_data (hm : m.fat.get? r.parentClusterNumber = some fat32FatEndOfFile)
    (hn : r.bufferSize ≠ 0) {j : Nat} {x : UInt32} (hx : (allocated m r)[j]? = some x) {b : Nat}
    (hb : b < clusterSize) :
    (stored m r i).disk.cluster x b = r.buf (clusterSize * j + b) := by
  obtain ⟨hp, hpa⟩ := marked_range (r := r) hm
  have hxa := List.mem_of_getElem? hx
  have hxp : x ≠ r.parentClusterNumber := fun he => hpa (he ▸ hxa)
  unfold stored
  rw [Machine.writeClusters_disk,
    cluster_write_other _ _ hp (allocated_unused h hxa).1.2 hxp hb, prepared, if_neg hn]
  exact writeFile_data _ _ _ allocated_nodup (fun y hy => (allocated_unused h hy).1) _ _ hx b hb

include h hf h0 in
/-- What was allocated is the chain of the new entry. -/
theorem stored_chain : Chain (stored m r i).fat.get? fat32FatEndOfFile (addedEntry m r).cluster
    (allocated m r) := by
  have hc := @chain_linkFat m.fat _ (allocated_nodup (m := m) (r := r))
    fun x hx => (allocated_unused h hx).1.2
  have hlen := allocated_length hf
  rw [stored_fat hf, addedEntry_cluster]
  cases hl : allocated m r with
  | nil =>
    rw [hl] at hlen
    exact absurd hlen.symm h0
  | cons c l =>
    rw [hl] at hc
    exact hc

end AnySize

/-! ## The return code -/

def Present (m : Machine) (r : FAT32DriverRequest) : Prop :=
  ∃ i, 2 ≤ i ∧ ((m.disk.table r.parentClusterNumber).table i).Live ∧
    ((m.disk.table r.parentClusterNumber).table i).key = r.key

def AllLive (m : Machine) (r : FAT32DriverRequest) : Prop :=
  ∀ i, 2 ≤ i → ((m.disk.table r.parentClusterNumber).table i).Live

section Outcome
variable {m : Machine} {r : FAT32DriverRequest} (h : m.WellFormed)
  (hc : m.disk.Reachable r.parentClusterNumber)

include h hc in
/-- A slot under a name that is not zero is a live one. -/
theorem taken_iff_present (hk : r.key ≠ 0) : Taken m r ↔ Present m r := by
  constructor
  · intro ht
    obtain ⟨i, hi, hki⟩ := ht
    refine ⟨i, hi, ?_, hki⟩
    rcases (h.image.directory _ hc).slots i hi with hz | hl
    · rw [hz, key_zero] at hki
      exact absurd hki.symm hk
    · exact hl.1
  · intro hpr
    obtain ⟨i, hi, _, hki⟩ := hpr
    exact ⟨i, hi, hki⟩

theorem noRoom_iff : NoRoom m r ↔
    AllLive m r ∨ (freeClusters m.fat).length < required r := by
  unfold NoRoom AllLive
  rw [vacantSlot_eq_none]

theorem required_max (hs : r.bufferSize.toNat ≤ 255 * clusterSize) :
    required r = max 1 (clusterCount r.bufferSize) := by
  rw [required_eq hs]
  split
  · rename_i h0
    rw [h0]
    simp [clusterCount, clusterSize_eq]
  · rename_i h0
    have := clusterCount_pos h0
    omega

end Outcome

/-- **The outcome of a write.** In a directory of the tree `write` returns 1 when
the name is taken by a live entry, else -1 when the slots or the free clusters do
not suffice, else 0; and a nonzero code leaves the disk and the cached FAT as
they were. -/
theorem write_outcome {m : Machine} {r : FAT32DriverRequest} (h : m.WellFormed)
    (hc : m.disk.Reachable r.parentClusterNumber) (hk : r.key ≠ 0)
    (hs : r.bufferSize.toNat ≤ 255 * clusterSize) :
    ∃ code m', write m r = .ok (code, m') ∧
      (code = 1 ↔ Present m r) ∧
      (code = -1 ↔ ¬ Present m r ∧ (AllLive m r ∨
        (freeClusters m.fat).length < max 1 (clusterCount r.bufferSize))) ∧
      (code = 0 ↔ ¬ Present m r ∧ ¬ (AllLive m r ∨
        (freeClusters m.fat).length < max 1 (clusterCount r.bufferSize))) ∧
      (code ≠ 0 → m'.disk = m.disk ∧ m'.fat = m.fat) := by
  have hpr := taken_iff_present h hc hk
  have hroom : NoRoom m r ↔ AllLive m r ∨
      (freeClusters m.fat).length < max 1 (clusterCount r.bufferSize) := by
    rw [noRoom_iff, required_max hs]
  rw [← hpr, ← hroom]
  rcases write_cases h hc hs with ⟨ht, hw⟩ | ⟨ht, hn, hw⟩ | ⟨i, hst, hw⟩
  · exact ⟨1, m, hw, by simp [ht], by simp [ht], by simp [ht], fun _ => ⟨rfl, rfl⟩⟩
  · exact ⟨-1, m, hw, by simp [ht], by simp [ht, hn], by simp [hn], fun _ => ⟨rfl, rfl⟩⟩
  · have ht : ¬ Taken m r := fun ⟨j, hj, hkj⟩ => hst.free j hj hkj
    have hn : ¬ NoRoom m r := by
      intro hn
      rcases hn with hn | hn
      · rw [hst.vacant] at hn
        cases hn
      · exact absurd hst.space (not_le.mpr hn)
    exact ⟨0, _, hw, by simp [ht], by simp [hn], by simp [ht, hn], fun h0 => absurd rfl h0⟩

theorem write_outcome_rooted : ∃ m',
    write (rootedMachine (letterName 'r')) (letterRequest 'a' 5000) = .ok (0, m') ∧
      ¬ Present (rootedMachine (letterName 'r')) (letterRequest 'a' 5000) ∧
      ¬ (AllLive (rootedMachine (letterName 'r')) (letterRequest 'a' 5000) ∨
        (freeClusters (rootedMachine (letterName 'r')).fat).length < 3) := by
  obtain ⟨code, m', hw, _, _, hzero, _⟩ := write_outcome (r := letterRequest 'a' 5000)
    (rootedMachine_wellFormed (letterName 'r')) (Disk.reachable_root _) (by decide) (by decide)
  have hcode : code = 0 :=
    (Prod.mk.inj (Except.ok.inj (hw.symm.trans (letterRequest_written (by decide))))).1
  have hcount : max 1 (clusterCount (letterRequest 'a' 5000).bufferSize) = 3 := by decide
  subst hcode
  rw [hcount] at hzero
  exact ⟨m', hw, hzero.mp rfl⟩

/-! ## What a return of 0 stands for -/

/-- Slot `i` of the parent holds the file of the request, on the clusters `l`:
as many as it takes, all of them free before. -/
structure HoldsFile (m m' : Machine) (r : FAT32DriverRequest) (i : Fin 64) (l : List UInt32) :
    Prop where
  slot : 2 ≤ i
  live : ((m'.disk.table r.parentClusterNumber).table i).Live
  named : ((m'.disk.table r.parentClusterNumber).table i).key = r.key
  filesize : ((m'.disk.table r.parentClusterNumber).table i).filesize = r.bufferSize
  chain : Chain m'.fat.get? fat32FatEndOfFile
    ((m'.disk.table r.parentClusterNumber).table i).cluster l
  length : l.length = clusterCount r.bufferSize
  range : ∀ x ∈ l, 3 ≤ x.toNat ∧ x.toNat < clusterMapSize
  fresh : ∀ x ∈ l, m.fat.get? x = some fat32FatEmptyEntry
  bytes : ∀ j, j < r.bufferSize.toNat → m'.disk.byteAlong l j = r.buf j

/-- `write` returns; a code of 0 stands for the whole file, and without the free
clusters for it the code is not 0 and nothing has changed. -/
def Reports (m : Machine) (r : FAT32DriverRequest) : Prop :=
  ∃ code m', write m r = .ok (code, m') ∧ (code = 0 → ∃ i l, HoldsFile m m' r i l) ∧
    ((freeClusters m.fat).length < clusterCount r.bufferSize →
      code ≠ 0 ∧ m'.disk = m.disk ∧ m'.fat = m.fat)

/-- The file takes at most 255 clusters, or is turned down for its name or the
slots, or for the free clusters, by the count in its `uint8_t`. -/
def Countable (m : Machine) (r : FAT32DriverRequest) : Prop :=
  r.bufferSize.toNat ≤ 255 * clusterSize ∨ Present m r ∨ AllLive m r ∨
    ((clustersFor r.bufferSize).toNat ≠ 0 ∧
      (freeClusters m.fat).length < (clustersFor r.bufferSize).toNat)

section Reports
variable {m : Machine} {r : FAT32DriverRequest} {i : Fin 64} (h : m.WellFormed)
  (hc : m.disk.Reachable r.parentClusterNumber) (hn : r.bufferSize ≠ 0)

include hn in
theorem required_file : required r = (clustersFor r.bufferSize).toNat := by
  simp [required, hn]

include h hc hn in
theorem stored_holdsFile (hs : r.bufferSize.toNat ≤ 255 * clusterSize) (hst : Storable m r i) :
    HoldsFile m (stored m r i) r i (allocated m r) := by
  have hm := parent_marked h hc
  have hlen : (allocated m r).length = clusterCount r.bufferSize := by
    rw [allocated_length hst.space, required_eq hs, if_neg hn]
  have hnew : ((stored m r i).disk.table r.parentClusterNumber).table i = addedEntry m r := by
    rw [stored_parent_table, FAT32DirectoryTable.set_same]
  refine ⟨(vacantSlot_eq_some.mp hst.vacant).1, ?_, ?_, ?_, ?_, hlen,
    fun x hx => (allocated_unused h hx).1,
    fun x hx => mem_freeClusters.mp (List.mem_of_mem_take hx),
    fun j hj => ?_⟩
  · rw [hnew]; exact newEntry_live
  · rw [hnew, addedEntry_key]
  · rw [hnew, addedEntry_filesize]
  · rw [hnew]
    exact stored_chain h hst.space (required_pos hs)
  · have hdiv : j / clusterSize < (allocated m r).length := by
      rw [hlen]
      simp only [clusterCount, clusterSize_eq]
      omega
    have hx := List.getElem?_eq_getElem hdiv
    rw [Disk.byteAlong, hx]
    show (stored m r i).disk.cluster _ _ = _
    rw [stored_data h hm hn hx (Nat.mod_lt _ clusterSize_pos), Nat.div_add_mod]

include h hc hn in
theorem Countable.reports (hk : r.key ≠ 0) (hok : Countable m r) : Reports m r := by
  have hm := parent_marked h hc
  -- turned down: the state is as it was
  have hrefused : ∀ code, write m r = .ok (code, m) → code ≠ 0 → Reports m r :=
    fun code hw hcode => ⟨code, m, hw, fun h0 => absurd h0 hcode, fun _ => ⟨hcode, rfl, rfl⟩⟩
  by_cases ht : Taken m r
  · obtain ⟨i, hi, hki⟩ := ht
    exact hrefused 1 (write_taken hm hi hki) (by decide)
  have hfree : ∀ j, 2 ≤ j → ((m.disk.table r.parentClusterNumber).table j).key ≠ r.key :=
    fun j hj hkj => ht ⟨j, hj, hkj⟩
  cases hv : vacantSlot (m.disk.table r.parentClusterNumber) with
  | none => exact hrefused (-1) (write_full hm hfree hv) (by decide)
  | some i =>
    by_cases hf : required r ≤ (freeClusters m.fat).length
    · rcases hok with hs | hpr | hall | ⟨_, hlt⟩
      · have hst : Storable m r i := ⟨hfree, hv, hf⟩
        refine ⟨0, stored m r i, write_stores hm hfree hv (required_pos hs) hf,
          fun _ => ⟨i, _, stored_holdsFile h hc hn hs hst⟩, fun hlt => ?_⟩
        rw [required_eq hs, if_neg hn] at hf
        exact absurd hf (not_le.mpr hlt)
      · exact absurd ((taken_iff_present h hc hk).mpr hpr) ht
      · rw [vacantSlot_eq_none.mpr hall] at hv
        cases hv
      · rw [required_file hn] at hf
        exact absurd hf (not_le.mpr hlt)
    · exact hrefused (-1) (write_no_space hm hfree hv (not_le.mp hf)) (by decide)

include h hc hn in
theorem Reports.countable (hk : r.key ≠ 0) (hrep : Reports m r) : Countable m r := by
  have hm := parent_marked h hc
  by_contra hbad
  obtain ⟨hlarge, hbad⟩ := not_or.mp hbad
  obtain ⟨hpr, hbad⟩ := not_or.mp hbad
  obtain ⟨hall, hbad⟩ := not_or.mp hbad
  have ht : ¬ Taken m r := fun ht => hpr ((taken_iff_present h hc hk).mp ht)
  have hfree : ∀ j, 2 ≤ j → ((m.disk.table r.parentClusterNumber).table j).key ≠ r.key :=
    fun j hj hkj => ht ⟨j, hj, hkj⟩
  obtain ⟨i, hv⟩ := Option.ne_none_iff_exists'.mp fun hnone => hall (vacantSlot_eq_none.mp hnone)
  obtain ⟨code, m', hw, hzero, _⟩ := hrep
  by_cases h0 : required r = 0
  · rw [write_overrun hm hfree hv h0] at hw
    cases hw
  have hf : required r ≤ (freeClusters m.fat).length := by
    by_contra hlt
    exact hbad ⟨required_file hn ▸ h0, required_file hn ▸ not_le.mp hlt⟩
  rw [write_stores hm hfree hv h0 hf] at hw
  cases hw
  obtain ⟨j, l, hl⟩ := hzero rfl
  -- the entry of the name is the one just added, and its chain what was allocated
  have hji : j = i := by
    by_contra hne
    have hkey := hl.named
    rw [stored_parent_table, FAT32DirectoryTable.set_other _ _ hne] at hkey
    exact hfree j hl.slot hkey
  subst hji
  have hchain := hl.chain
  rw [stored_parent_table, FAT32DirectoryTable.set_same] at hchain
  have hlen := hl.length
  rw [hchain.det (stored_chain h hf h0), allocated_length hf, required_file hn] at hlen
  have hbyte := (clustersFor r.bufferSize).toNat_lt
  simp only [clusterCount, clusterSize_eq] at hlen hlarge
  omega

end Reports

/-- **When a write stores what it reports.** For a file in a directory of the tree,
exactly when the number of its clusters fits the counter, or `write` turns the
request down. -/
theorem reports_iff {m : Machine} {r : FAT32DriverRequest} (h : m.WellFormed)
    (hc : m.disk.Reachable r.parentClusterNumber) (hk : r.key ≠ 0) (hn : r.bufferSize ≠ 0) :
    Reports m r ↔ Countable m r :=
  ⟨Reports.countable h hc hn hk, Countable.reports h hc hn hk⟩

theorem reports_rooted : Reports (rootedMachine (letterName 'r')) (letterRequest 'a' 5000) :=
  (reports_iff (rootedMachine_wellFormed _) (Disk.reachable_root _) (letterRequest_named _)
    (by decide)).mpr
    (Or.inl (by decide))

/-- A file of 257 clusters is reported stored, on one. -/
theorem oversize_not_reports :
    (rootedMachine (letterName 'r')).WellFormed ∧ (letterRequest 'a' 524289).key ≠ 0 ∧
    (rootedMachine (letterName 'r')).disk.Reachable
      (letterRequest 'a' 524289).parentClusterNumber ∧
    ¬ Reports (rootedMachine (letterName 'r')) (letterRequest 'a' 524289) := by
  have h := rootedMachine_wellFormed (letterName 'r')
  have hc : (rootedMachine (letterName 'r')).disk.Reachable rootClusterNumber :=
    Disk.reachable_root _
  refine ⟨h, letterRequest_named _, hc, fun hrep => ?_⟩
  have hst : Storable (rootedMachine (letterName 'r')) (letterRequest 'a' 524289) 2 :=
    letterRequest_storable _
  rcases hrep.countable h hc (by decide) (by decide) with hs | ⟨i, hi, _, hk⟩ | hall | ⟨_, hlt⟩
  · exact absurd hs (by decide)
  · exact hst.free i hi hk
  · exact (vacantSlot_eq_some.mp hst.vacant).2.1 (hall 2 (le_refl _))
  · rw [← required_file (by decide)] at hlt
    exact absurd hst.space (not_le.mpr hlt)

end KajijOSta.Fat32
