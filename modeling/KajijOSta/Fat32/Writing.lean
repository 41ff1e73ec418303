import KajijOSta.Fat32.Change
import KajijOSta.Fat32.Specs

/-! # What `write` and `delete` do on a well-formed state

The two operations that change the disk, in the terms of the tree: `write`
first prepares clusters nobody uses (`Stored.quiet`) and then fills one slot of
the parent; `delete` clears one slot and then frees the clusters of its entry.
`Passes P m m'` says that `P` holds of the disk after each of the cluster
writes that lead from `m` to `m'`. -/
namespace KajijOSta.Fat32
open KajijOSta.LinkedChain KajijOSta.NamedTree KajijOSta.WriteLog

/-! ## Cluster writes of a machine -/

def diskStep (d : Disk) (w : DiskWrite) : Disk := writeClusters d w.data w.clusterNumber 1

/-- `m'` comes from `m` by cluster writes with `P` at every crash point. -/
def Passes (P : Disk → Prop) (m m' : Machine) : Prop :=
  ∃ ws, m'.issued = m.issued ++ ws ∧ m'.disk = replay diskStep m.disk ws ∧
    Along diskStep P m.disk ws

namespace Passes
variable {P Q : Disk → Prop} {m m' m'' : Machine}

/-- The driver's own state changed, the disk did not. -/
theorem of_same (hd : m'.disk = m.disk) (hi : m'.issued = m.issued) (h : P m.disk) :
    Passes P m m' := ⟨[], by simp [hi], by simp [hd], h⟩

theorem write (ptr : Memory) (c : UInt32) (h : P m.disk) (h' : P (writeClusters m.disk ptr c 1)) :
    Passes P m (m.writeClusters ptr c) :=
  ⟨[⟨c, ptr⟩], rfl, rfl, along_single.mpr ⟨h, h'⟩⟩

theorem trans (h : Passes P m m') (h' : Passes P m' m'') : Passes P m m'' := by
  obtain ⟨ws, hi, hd, ha⟩ := h
  obtain ⟨vs, hi', hd', ha'⟩ := h'
  refine ⟨ws ++ vs, by rw [hi', hi, List.append_assoc], ?_, ?_⟩
  · rw [hd', hd, replay_append]
  · exact ha.append (hd ▸ ha')

theorem last (h : Passes P m m') : P m'.disk := by
  obtain ⟨ws, _, hd, ha⟩ := h
  exact hd ▸ ha.last

theorem mono (h : Passes P m m') (hPQ : ∀ d, P d → Q d) : Passes Q m m' := by
  obtain ⟨ws, hi, hd, ha⟩ := h
  exact ⟨ws, hi, hd, ha.mono hPQ⟩

end Passes

namespace Machine

@[simp] theorem writeClusters_disk (m : Machine) (ptr : Memory) (c : UInt32) :
    (m.writeClusters ptr c).disk = Fat32.writeClusters m.disk ptr c 1 := rfl

@[simp] theorem writeClusters_fat (m : Machine) (ptr : Memory) (c : UInt32) :
    (m.writeClusters ptr c).fat = m.fat := rfl

@[simp] theorem setFat_disk (m : Machine) (c v : UInt32) : (m.setFat c v).disk = m.disk := rfl

@[simp] theorem flushFat_disk (m : Machine) :
    m.flushFat.disk = Fat32.writeClusters m.disk m.fat.bytes fatClusterNumber 1 := rfl

@[simp] theorem flushFat_fat (m : Machine) : m.flushFat.fat = m.fat := rfl

end Machine

/-! ## Quiet writes -/

namespace Disk
variable {d₀ d : Disk}

theorem fatTable_write_other (ptr : Memory) {c : UInt32} (hc : c.toNat < clusterMapSize)
    (h1 : 2 ≤ c.toNat) : (writeClusters d ptr c 1).fatTable = d.fatTable := by
  exact FAT32FileAllocationTable.ofBytes_congr fun i hi =>
    cluster_write_other d ptr hc fat_lt (ne_fat h1).symm hi

theorem boot_write_other (ptr : Memory) {c : UInt32} (hc : c.toNat < clusterMapSize)
    (h1 : 1 ≤ c.toNat) {i : Nat} (hi : i < blockSize) : writeClusters d ptr c 1 i = d i := by
  simp only [blockSize_eq] at hi
  have hn : ¬ (clusterBase c ≤ i ∧ i < clusterBase c + clusterSize) := by
    simp only [clusterBase_eq hc, clusterSize_eq]; omega
  rw [writeClusters_apply, if_neg hn]

/-- Writing a FAT that agrees on what the tree uses is quiet. -/
theorem Quiet.flush (h : d₀.WellFormed) (q : Quiet d₀ d) {fat : FAT32FileAllocationTable}
    (hfat : ∀ x : UInt32, x.toNat < 3 ∨ d₀.Used x → fat.get? x = d₀.next x) :
    Quiet d₀ (writeClusters d fat.bytes fatClusterNumber 1) := by
  have hnext : (writeClusters d fat.bytes fatClusterNumber 1).next = fat.get? := by
    funext x
    unfold next
    rw [fatTable_write_same]
  refine ⟨fun i hi => ?_, fun x hx => ?_, fun x hx => ?_, fun i hi => ?_, fun x hx i hi => ?_⟩
  · rw [boot_write_other _ fat_lt (by decide) hi, q.boot i hi]
  · rw [hnext, hfat x (Or.inl hx)]
  · rw [hnext, hfat x (Or.inr hx)]
  · rw [cluster_write_other _ _ fat_lt root_lt (ne_fat two_le_root) hi, q.root i hi]
  · have hr := h.used_range hx
    have hne : x ≠ fatClusterNumber := ne_fat (by omega)
    rw [cluster_write_other _ _ fat_lt hr.2 hne hi, q.data x hx i hi]

/-- Writing a cluster the tree does not use is quiet. -/
theorem Quiet.unused (h : d₀.WellFormed) (q : Quiet d₀ d) (ptr : Memory) {c : UInt32}
    (hc : 3 ≤ c.toNat ∧ c.toNat < clusterMapSize) (hu : ¬ d₀.Used c) :
    Quiet d₀ (writeClusters d ptr c 1) := by
  have hnext : (writeClusters d ptr c 1).next = d.next := by
    funext x
    unfold next
    rw [fatTable_write_other ptr hc.2 (by omega)]
  have hroot : rootClusterNumber ≠ c := (ne_root hc.1).symm
  refine ⟨fun i hi => ?_, fun x hx => ?_, fun x hx => ?_, fun i hi => ?_, fun x hx i hi => ?_⟩
  · rw [boot_write_other _ hc.2 (by omega) hi, q.boot i hi]
  · rw [hnext, q.reserved x hx]
  · rw [hnext, q.links x hx]
  · rw [cluster_write_other _ _ hc.2 root_lt hroot hi, q.root i hi]
  · have hne : x ≠ c := by
      intro he
      subst he
      exact hu hx
    rw [cluster_write_other _ _ hc.2 (h.used_range hx).2 hne hi, q.data x hx i hi]

end Disk

/-! ## Linking a list of clusters -/

/-- The FAT with the clusters of a list linked one to the next. -/
def linkFat (fat : FAT32FileAllocationTable) : List UInt32 → FAT32FileAllocationTable
  | [] => fat
  | c :: rest => linkFat (fat.set c (rest.headD fat32FatEndOfFile)) rest

theorem get?_linkFat_other {x : UInt32} : ∀ {l : List UInt32} {fat : FAT32FileAllocationTable},
    x ∉ l → (linkFat fat l).get? x = fat.get? x
  | [], _, _ => rfl
  | c :: l, fat, hx => by
    obtain ⟨hc, hl⟩ := not_or.mp (mt List.mem_cons.mpr hx)
    rw [linkFat, get?_linkFat_other hl, FAT32FileAllocationTable.get?_set, if_neg (hc ·.1)]

theorem get?_linkFat_mem {x : UInt32} {t : List UInt32} (hx : x.toNat < clusterMapSize) :
    ∀ {s : List UInt32} {fat : FAT32FileAllocationTable}, (s ++ x :: t).Nodup →
      (linkFat fat (s ++ x :: t)).get? x = some (t.headD fat32FatEndOfFile)
  | [], fat, hn => by
    obtain ⟨hxt, _⟩ := List.nodup_cons.mp hn
    rw [List.nil_append, linkFat, get?_linkFat_other hxt, FAT32FileAllocationTable.get?_set,
      if_pos ⟨rfl, hx⟩]
  | y :: s, fat, hn => by
    rw [List.cons_append, linkFat]
    exact get?_linkFat_mem hx (List.nodup_cons.mp hn).2

/-- The linked clusters are a chain. -/
theorem chain_linkFat {fat : FAT32FileAllocationTable} {l : List UInt32} (hn : l.Nodup)
    (hr : ∀ x ∈ l, x.toNat < clusterMapSize) :
    Chain (linkFat fat l).get? fat32FatEndOfFile (l.headD fat32FatEndOfFile) l := by
  refine chain_of_linked (fun he => ne_end (hr _ he) rfl) fun s x t hl => ?_
  subst hl
  exact get?_linkFat_mem (hr x (by simp)) hn

section WriteFile

theorem writeFile_fat : ∀ (l : List UInt32) (m : Machine) (buf : Memory),
    (writeFile m buf l).fat = linkFat m.fat l
  | [], _, _ => rfl
  | c :: l, m, buf => by
    rw [writeFile, writeFile_fat l, linkFat]
    rfl

theorem writeFile_cluster_other {x : UInt32} (hx : x.toNat < clusterMapSize)
    (h1 : x ≠ fatClusterNumber) : ∀ (l : List UInt32) (m : Machine) (buf : Memory),
      (∀ y ∈ l, y.toNat < clusterMapSize) → x ∉ l → ∀ i, i < clusterSize →
      (writeFile m buf l).disk.cluster x i = m.disk.cluster x i
  | [], _, _, _, _, _, _ => rfl
  | c :: l, m, buf, hr, hxl, i, hi => by
    obtain ⟨hxc, hxl⟩ := not_or.mp (mt List.mem_cons.mpr hxl)
    rw [writeFile, writeFile_cluster_other hx h1 l _ _
      (fun y hy => hr y (List.mem_cons_of_mem _ hy)) hxl i hi, Machine.writeClusters_disk,
      cluster_write_other _ _ (hr c List.mem_cons_self) hx hxc hi, Machine.flushFat_disk,
      cluster_write_other _ _ fat_lt hx h1 hi, Machine.setFat_disk]

/-- The data of the file goes to its clusters in order. -/
theorem writeFile_data : ∀ (l : List UInt32) (m : Machine) (buf : Memory), l.Nodup →
    (∀ y ∈ l, 3 ≤ y.toNat ∧ y.toNat < clusterMapSize) → ∀ (j : Nat) (x : UInt32),
      l[j]? = some x → ∀ i, i < clusterSize →
      (writeFile m buf l).disk.cluster x i = buf (clusterSize * j + i)
  | [], _, _, _, _, _, _, h, _, _ => by simp at h
  | c :: l, m, buf, hn, hr, j, x, h, i, hi => by
    obtain ⟨hcl, hl⟩ := List.nodup_cons.mp hn
    have hc := hr c List.mem_cons_self
    have hr' := fun y hy => hr y (List.mem_cons_of_mem c hy)
    rw [writeFile]
    cases j with
    | zero =>
      obtain rfl : c = x := by simpa using h
      have h1 : c ≠ fatClusterNumber := ne_fat (by omega)
      rw [writeFile_cluster_other hc.2 h1 l _ _ (fun y hy => (hr' y hy).2) hcl i hi,
        Machine.writeClusters_disk, cluster_write_same _ _ _ hi]
      simp
    | succ j =>
      rw [writeFile_data l _ _ hl hr' j x (by simpa using h) i hi, Memory.from_apply]
      congr 1
      simp only [clusterSize_eq]
      omega

theorem writeFile_coherent : ∀ (l : List UInt32) (m : Machine) (buf : Memory), l ≠ [] →
    (∀ y ∈ l, 3 ≤ y.toNat ∧ y.toNat < clusterMapSize) →
    (writeFile m buf l).disk.fatTable = (writeFile m buf l).fat
  | [], _, _, h, _ => absurd rfl h
  | [c], m, buf, _, hr => by
    have hc := hr c List.mem_cons_self
    simp only [writeFile, Machine.writeClusters_disk, Machine.writeClusters_fat]
    rw [Disk.fatTable_write_other _ hc.2 (by omega), Machine.flushFat_disk, fatTable_write_same]
    rfl
  | c :: c' :: l, m, buf, _, hr => by
    rw [writeFile]
    exact writeFile_coherent (c' :: l) _ _ (by simp) fun y hy => hr y (List.mem_cons_of_mem _ hy)

/-- Writing a file to clusters nobody uses passes through quiet states only. -/
theorem writeFile_quiet {d₀ : Disk} (h : d₀.WellFormed) :
    ∀ (l : List UInt32) (m : Machine) (buf : Memory), Disk.Quiet d₀ m.disk →
      (∀ x : UInt32, x.toNat < 3 ∨ d₀.Used x → m.fat.get? x = d₀.next x) →
      (∀ y ∈ l, (3 ≤ y.toNat ∧ y.toNat < clusterMapSize) ∧ ¬ d₀.Used y) →
      Passes (Disk.Quiet d₀) m (writeFile m buf l)
  | [], _, _, q, _, _ => Passes.of_same rfl rfl q
  | c :: l, m, buf, q, hfat, hl => by
    obtain ⟨hc, hu⟩ := hl c List.mem_cons_self
    rw [writeFile]
    -- the link of a cluster nobody uses
    have hfat' : ∀ x : UInt32, x.toNat < 3 ∨ d₀.Used x →
        (m.fat.set c (l.headD fat32FatEndOfFile)).get? x = d₀.next x := by
      intro x hx
      rw [FAT32FileAllocationTable.get?_set, if_neg, hfat x hx]
      intro hcase
      obtain ⟨rfl, _⟩ := hcase
      rcases hx with hx | hx
      · omega
      · exact hu hx
    have q1 : Disk.Quiet d₀ (m.setFat c (l.headD fat32FatEndOfFile)).flushFat.disk :=
      q.flush h hfat'
    have q2 := q1.unused h buf hc hu
    have p1 : Passes (Disk.Quiet d₀) m (m.setFat c (l.headD fat32FatEndOfFile)) :=
      Passes.of_same rfl rfl q
    have p2 : Passes (Disk.Quiet d₀) (m.setFat c (l.headD fat32FatEndOfFile))
        (m.setFat c (l.headD fat32FatEndOfFile)).flushFat := Passes.write _ _ q q1
    exact ((p1.trans p2).trans (Passes.write buf c q1 q2)).trans
      (writeFile_quiet h l _ _ q2 hfat' fun y hy => hl y (List.mem_cons_of_mem _ hy))

end WriteFile

/-! ## Writing a folder -/

section WriteFolder
variable {m : Machine} {r : FAT32DriverRequest} {c : UInt32}

theorem writeFolder_fat : (writeFolder m r c).fat = linkFat m.fat [c] := rfl

theorem writeFolder_coherent :
    (writeFolder m r c).disk.fatTable = (writeFolder m r c).fat := by
  unfold writeFolder
  rw [Machine.flushFat_disk, fatTable_write_same, Machine.flushFat_fat]

/-- The table of a new folder: its own entry, and nothing else. -/
theorem writeFolder_table (hc : 3 ≤ c.toNat ∧ c.toNat < clusterMapSize) :
    let t := (writeFolder m r c).disk.table c
    (t.table 0).IsFolder ∧ (t.table 0).cluster = c ∧ (t.table 0).name = r.name ∧
      (t.table 0).filesize = 0 ∧ ∀ j, j ≠ 0 → t.table j = 0 := by
  have hne : c ≠ fatClusterNumber := ne_fat (by omega)
  have ht : (writeFolder m r c).disk.table c =
      (initDirectoryTable r.name r.parentClusterNumber).set 0
        { (initDirectoryTable r.name r.parentClusterNumber).table 0 with
          clusterLow := low16 c
          clusterHigh := high16 c } := by
    unfold writeFolder
    rw [Machine.flushFat_disk, Disk.table,
      FAT32DirectoryTable.ofBytes_congr fun i hi =>
        cluster_write_other _ _ fat_lt hc.2 hne hi]
    exact table_write_same _ _ _
  intro t
  rw [show t = _ from ht, FAT32DirectoryTable.set_same, initDirectoryTable,
    FAT32DirectoryTable.set_same]
  refine ⟨rfl, halves_cluster c, rfl, rfl, fun j hj => ?_⟩
  rw [FAT32DirectoryTable.set_other _ _ hj, FAT32DirectoryTable.set_other _ _ hj]
  rfl

theorem writeFolder_quiet {d₀ : Disk} (h : d₀.WellFormed) (q : Disk.Quiet d₀ m.disk)
    (hfat : ∀ x : UInt32, x.toNat < 3 ∨ d₀.Used x → m.fat.get? x = d₀.next x)
    (hc : 3 ≤ c.toNat ∧ c.toNat < clusterMapSize) (hu : ¬ d₀.Used c) :
    Passes (Disk.Quiet d₀) m (writeFolder m r c) := by
  have hfat' : ∀ x : UInt32, x.toNat < 3 ∨ d₀.Used x →
      (m.fat.set c fat32FatEndOfFile).get? x = d₀.next x := by
    intro x hx
    rw [FAT32FileAllocationTable.get?_set, if_neg, hfat x hx]
    intro hcase
    obtain ⟨rfl, _⟩ := hcase
    rcases hx with hx | hx
    · omega
    · exact hu hx
  obtain ⟨ptr, hptr⟩ : ∃ ptr, writeFolder m r c =
      ((m.writeClusters ptr c).setFat c fat32FatEndOfFile).flushFat := ⟨_, rfl⟩
  have q1 := q.unused h ptr hc hu
  have p2 : Passes (Disk.Quiet d₀) (m.writeClusters ptr c)
      ((m.writeClusters ptr c).setFat c fat32FatEndOfFile) := Passes.of_same rfl rfl q1
  rw [hptr]
  exact ((Passes.write ptr c q q1).trans p2).trans (Passes.write _ _ q1 (q1.flush h hfat'))

end WriteFolder

/-! ## The entry a write adds -/

section NewEntry
variable {r : FAT32DriverRequest} {b : Bool} {c : UInt32}

theorem newEntry_live : (newEntry r b c).Live := rfl

@[simp] theorem newEntry_key : (newEntry r b c).key = r.key := rfl

@[simp] theorem newEntry_cluster : (newEntry r b c).cluster = c := halves_cluster c

@[simp] theorem newEntry_filesize : (newEntry r b c).filesize = r.bufferSize := rfl

theorem newEntry_folder : (newEntry r b c).IsFolder ↔ b = true := by
  cases b <;> simp [newEntry, FAT32DirectoryEntry.IsFolder, attrSubdirectory]

end NewEntry

/-- Up to 255 clusters `write` looks for as many as the file takes, and for one
for a folder. -/
theorem required_eq {r : FAT32DriverRequest} (hs : r.bufferSize.toNat ≤ 255 * clusterSize) :
    required r = if r.bufferSize = 0 then 1 else clusterCount r.bufferSize := by
  have h := clustersFor_toNat hs
  by_cases h0 : r.bufferSize = 0
  · have hz : clustersFor 0 = 0 := by
      rw [h0] at h
      exact UInt8.toNat_inj.mp h
    simp [required, h0, hz]
  · simp [required, h0, h]

theorem clusterCount_pos {size : UInt32} (h : size ≠ 0) : 0 < clusterCount size := by
  have h0 : size.toNat ≠ 0 := fun h0 => h (UInt32.toNat_inj.mp h0)
  simp only [clusterCount, clusterSize_eq]
  omega

/-- A request for a folder is never too large, and takes one cluster. -/
theorem folder_size {r : FAT32DriverRequest} (h0 : r.bufferSize = 0) :
    r.bufferSize.toNat ≤ 255 * clusterSize := by
  rw [h0]
  exact Nat.zero_le _

theorem required_folder {r : FAT32DriverRequest} (h0 : r.bufferSize = 0) : required r = 1 := by
  rw [required_eq (folder_size h0), if_pos h0]

theorem required_pos {r : FAT32DriverRequest} (hs : r.bufferSize.toNat ≤ 255 * clusterSize) :
    required r ≠ 0 := by
  rw [required_eq hs]
  split
  · exact Nat.one_ne_zero
  · exact (clusterCount_pos ‹_›).ne'

/-! ## Clusters for a new entry -/

section Allocated
variable {m : Machine} {r : FAT32DriverRequest}

theorem allocated_nodup : (allocated m r).Nodup :=
  (freeClusters_nodup m.fat).sublist (List.take_sublist _ _)

theorem fat_eq (h : m.WellFormed) (x : UInt32) : m.fat.get? x = m.disk.next x := by
  unfold Disk.next
  rw [h.coherent]

/-- A free cluster is outside the reserved ones and used by nobody. -/
theorem free_unused (h : m.WellFormed) {x : UInt32} (hx : m.fat.get? x = some fat32FatEmptyEntry) :
    (3 ≤ x.toNat ∧ x.toNat < clusterMapSize) ∧ ¬ m.disk.Used x := by
  have hfree : m.disk.next x = some fat32FatEmptyEntry := (fat_eq h x).symm.trans hx
  obtain ⟨hlt, _⟩ := FAT32FileAllocationTable.get?_eq_some.mp hfree
  have h0 : x ≠ 0 := by
    intro hh
    subst hh
    exact absurd (h.image.fat0.symm.trans hfree) (by decide)
  have h1 : x ≠ 1 := by
    intro hh
    subst hh
    exact absurd (h.image.fat1.symm.trans hfree) (by decide)
  have h2 : x ≠ 2 := by
    intro hh
    subst hh
    exact h.image.reachable_not_free (Disk.reachable_root _) hfree
  refine ⟨⟨?_, hlt⟩, fun hu => ?_⟩
  · have h0' : x.toNat ≠ 0 := fun he => h0 (UInt32.toNat_inj.mp he)
    have h1' : x.toNat ≠ 1 := fun he => h1 (UInt32.toNat_inj.mp he)
    have h2' : x.toNat ≠ 2 := fun he => h2 (UInt32.toNat_inj.mp he)
    omega
  · obtain ⟨v, hv, hne⟩ := h.image.used_not_free hu
    exact hne (Option.some.inj (hv.symm.trans hfree))

theorem allocated_unused (h : m.WellFormed) {x : UInt32} (hx : x ∈ allocated m r) :
    (3 ≤ x.toNat ∧ x.toNat < clusterMapSize) ∧ ¬ m.disk.Used x :=
  free_unused h (mem_freeClusters.mp (List.mem_of_mem_take hx))

/-- The clusters of the new file or folder are prepared out of sight. -/
theorem prepared_quiet (h : m.WellFormed) (h0 : allocated m r ≠ []) :
    Passes (Disk.Quiet m.disk) m (prepared m r) := by
  have hfat : ∀ x : UInt32, x.toNat < 3 ∨ m.disk.Used x → m.fat.get? x = m.disk.next x :=
    fun x _ => fat_eq h x
  obtain ⟨c, l, hl⟩ := List.exists_cons_of_ne_nil h0
  have hc := allocated_unused h (r := r) (x := c) (by simp [hl])
  unfold prepared
  split
  · simp only [hl, List.headD_cons]
    exact writeFolder_quiet h.image (Disk.Quiet.refl _) hfat hc.1 hc.2
  · exact writeFile_quiet h.image _ _ _ (Disk.Quiet.refl _) hfat fun y hy => allocated_unused h hy

theorem prepared_coherent (h : m.WellFormed) (h0 : allocated m r ≠ []) :
    (prepared m r).disk.fatTable = (prepared m r).fat := by
  unfold prepared
  split
  · exact writeFolder_coherent
  · exact writeFile_coherent _ _ _ h0 fun y hy => (allocated_unused h hy).1

theorem prepared_fat (hf : required r ≤ (freeClusters m.fat).length) :
    (prepared m r).fat = linkFat m.fat (allocated m r) := by
  unfold prepared
  split
  · have hlen := allocated_length hf
    rw [required_folder ‹_›] at hlen
    obtain ⟨c, hc⟩ := List.length_eq_one_iff.mp hlen
    rw [writeFolder_fat, hc, List.headD_cons]
  · exact writeFile_fat _ _ _

end Allocated

end KajijOSta.Fat32
