import KajijOSta.Fat32.Writing

/-! # What a successful write leaves

The clusters `write` prepares are ready for a new entry (`addedEntry_fresh`),
and the table it writes back last is the parent's table of that moment with one
slot filled, so that a successful write is a quiet preparation followed by one
link (`stored_disk`). -/
namespace KajijOSta.Fat32
open KajijOSta.LinkedChain KajijOSta.NamedTree KajijOSta.WriteLog

/-- What a write request asks to put into the tree. -/
def FAT32DriverRequest.node (r : FAT32DriverRequest) : Node (List UInt8) :=
  if r.bufferSize = 0 then .folder else .file ((List.range r.bufferSize.toNat).map r.buf)

section Prepared
variable {m : Machine} {r : FAT32DriverRequest} (h : m.WellFormed)
  (hs : r.bufferSize.toNat ≤ 255 * clusterSize)
  (hf : required r ≤ (freeClusters m.fat).length)

theorem addedEntry_folder : (addedEntry m r).IsFolder ↔ r.bufferSize = 0 := by
  unfold addedEntry
  rw [newEntry_folder, decide_eq_true_eq]

@[simp] theorem addedEntry_key : (addedEntry m r).key = r.key := newEntry_key

theorem addedEntry_live : (addedEntry m r).Live := newEntry_live

@[simp] theorem addedEntry_filesize : (addedEntry m r).filesize = r.bufferSize := newEntry_filesize

theorem addedEntry_cluster : (addedEntry m r).cluster = (allocated m r).headD 0 := newEntry_cluster

include hs hf in
theorem allocated_ne_nil : allocated m r ≠ [] := by
  intro hnil
  have hlen := allocated_length hf
  rw [hnil] at hlen
  exact required_pos hs hlen.symm

include hs hf in
theorem allocated_cons : ∃ l, allocated m r = (allocated m r).headD 0 :: l := by
  obtain ⟨c, l, hl⟩ := List.exists_cons_of_ne_nil (allocated_ne_nil hs hf)
  exact ⟨l, by simp [hl]⟩

include hf in
/-- A new folder takes one cluster. -/
theorem allocated_folder (h0 : r.bufferSize = 0) :
    allocated m r = [(allocated m r).headD 0] := by
  have hlen := allocated_length hf
  rw [required_folder h0] at hlen
  obtain ⟨c, hc⟩ := List.length_eq_one_iff.mp hlen
  rw [hc, List.headD_cons]

include h hs hf in
theorem prepared_next : (prepared m r).disk.next = (linkFat m.fat (allocated m r)).get? := by
  funext x
  unfold Disk.next
  rw [prepared_coherent h (allocated_ne_nil hs hf), prepared_fat hf]

include h hs hf in
theorem prepared_chain : Chain (prepared m r).disk.next fat32FatEndOfFile
    (addedEntry m r).cluster (allocated m r) := by
  have hc := @chain_linkFat m.fat _ (allocated_nodup (m := m) (r := r))
    fun x hx => (allocated_unused h hx).1.2
  obtain ⟨l, hl⟩ := allocated_cons hs hf
  have hhead : (allocated m r).headD fat32FatEndOfFile = (allocated m r).headD 0 := by
    rw [hl]; rfl
  rw [prepared_next h hs hf, addedEntry_cluster, ← hhead]
  exact hc

include h hs hf in
/-- The new entry stands on the clusters that were allocated. -/
theorem addedEntry_clusters : (prepared m r).disk.clustersOf (addedEntry m r) = allocated m r := by
  by_cases h0 : r.bufferSize = 0
  · rw [Disk.clustersOf_folder (addedEntry_folder.mpr h0), addedEntry_cluster,
      ← allocated_folder hf h0]
  · exact Disk.clustersOf_chain (mt addedEntry_folder.mp h0) (prepared_chain h hs hf)
      (Disk.chain_length_le allocated_nodup fun x hx => (allocated_unused h hx).1.2)

include h hs hf in
theorem addedEntry_ok : (prepared m r).disk.EntryOk (addedEntry m r) := by
  have hcl := addedEntry_clusters h hs hf
  refine ⟨?_, ?_, ?_, ?_, ?_⟩
  · rw [hcl]
    exact fun x hx => (allocated_unused h hx).1
  · intro hfo
    have h0 : r.bufferSize ≠ 0 := mt addedEntry_folder.mpr hfo
    have : r.bufferSize.toNat ≠ 0 := fun he => h0 (UInt32.toNat_inj.mp he)
    rw [addedEntry_filesize]
    omega
  · intro _
    rw [hcl]
    exact prepared_chain h hs hf
  · intro hfo
    rw [hcl, allocated_length hf, required_eq hs, if_neg (mt addedEntry_folder.mpr hfo),
      addedEntry_filesize]
  · rw [hcl]
    exact allocated_nodup

include h hs hf in
/-- The table of a new folder. -/
theorem prepared_table (h0 : r.bufferSize = 0) :
    let t := (prepared m r).disk.table (addedEntry m r).cluster
    (t.table 0).IsFolder ∧ (t.table 0).cluster = (addedEntry m r).cluster ∧
      (t.table 0).name = r.name ∧ (t.table 0).filesize = 0 ∧ ∀ j, j ≠ 0 → t.table j = 0 := by
  obtain ⟨l, hl⟩ := allocated_cons hs hf
  have hc := (allocated_unused h (r := r) (x := (allocated m r).headD 0) (by rw [hl]; simp)).1
  unfold prepared
  rw [if_pos h0, addedEntry_cluster]
  exact writeFolder_table hc

include h hs hf in
theorem prepared_directory (h0 : r.bufferSize = 0) :
    (prepared m r).disk.DirectoryOk (addedEntry m r).cluster := by
  obtain ⟨hfo, hcl, _, _, hz⟩ := prepared_table h hs hf h0
  refine ⟨?_, hfo, hcl, hz 1 (by decide), fun j hj => Or.inl (hz j (ne_zero_of_slot hj)),
    ?_⟩
  · have hch := prepared_chain h hs hf
    rw [allocated_folder hf h0] at hch
    obtain ⟨_, _, b, hb, hstop⟩ := hch
    rw [hb, show b = fat32FatEndOfFile from hstop]
  · intro j j' hj _ hl _ _
    rw [hz j (ne_zero_of_slot hj)] at hl
    exact absurd hl not_live_zero

include h hs hf in
theorem prepared_quietly : Disk.Quiet m.disk (prepared m r).disk :=
  (prepared_quiet h (allocated_ne_nil hs hf)).last

include h hs hf in
/-- The prepared entry can be linked. -/
theorem addedEntry_fresh (hk : r.key ≠ 0) : (prepared m r).disk.Fresh (addedEntry m r) := by
  have hcl := addedEntry_clusters h hs hf
  refine ⟨newEntry_live, hk, addedEntry_ok h hs hf, ?_, ?_, ?_⟩
  · intro x hx hu
    rw [hcl] at hx
    exact (allocated_unused h hx).2 (((prepared_quietly h hs hf).used_iff h.image).mp hu)
  · exact fun hfo => prepared_directory h hs hf (addedEntry_folder.mp hfo)
  · intro hfo j hj
    exact (prepared_table h hs hf (addedEntry_folder.mp hfo)).2.2.2.2 j (ne_zero_of_slot hj)

include h hs hf in
/-- The clusters of a new file hold the bytes of the request's buffer. -/
theorem addedEntry_content (h0 : r.bufferSize ≠ 0) :
    (prepared m r).disk.content (addedEntry m r) =
      (List.range r.bufferSize.toNat).map r.buf := by
  unfold Disk.content
  rw [addedEntry_clusters h hs hf, addedEntry_filesize]
  refine List.map_congr_left fun i hi => ?_
  have hi : i < r.bufferSize.toNat := List.mem_range.mp hi
  have hlen := allocated_length hf
  rw [required_eq hs, if_neg h0] at hlen
  have hj : i / clusterSize < (allocated m r).length := by
    rw [hlen]
    simp only [clusterCount, clusterSize_eq]
    omega
  have hx := List.getElem?_eq_getElem hj
  rw [Disk.byteAlong, hx, prepared, if_neg h0]
  show (writeFile m r.buf (allocated m r)).disk.cluster _ _ = _
  rw [writeFile_data _ _ _ allocated_nodup (fun y hy => (allocated_unused h hy).1) _ _ hx _
    (Nat.mod_lt _ clusterSize_pos), Nat.div_add_mod]

include h hs hf in
/-- The new entry stands for what the request asks to store. -/
theorem addedEntry_node : (prepared m r).disk.nodeOf (addedEntry m r) = r.node := by
  by_cases h0 : r.bufferSize = 0
  · unfold Disk.nodeOf
    rw [if_pos (addedEntry_folder.mpr h0), FAT32DriverRequest.node, if_pos h0]
  · unfold Disk.nodeOf
    rw [if_neg (mt addedEntry_folder.mp h0), addedEntry_content h hs hf h0,
      FAT32DriverRequest.node, if_neg h0]

end Prepared

/-! ## The stored state -/

section Stored
variable {m : Machine} {r : FAT32DriverRequest} {i : Fin 64} {p : List Key} (h : m.WellFormed)
  (hs : r.bufferSize.toNat ≤ 255 * clusterSize)
  (hf : required r ≤ (freeClusters m.fat).length)
  (hp : m.disk.dirAt p = some r.parentClusterNumber)

include h hs hf hp in
/-- The table written back is the parent's current one: no update is lost. -/
theorem stored_disk : (stored m r i).disk =
    (prepared m r).disk.putEntry r.parentClusterNumber i (addedEntry m r) := by
  unfold stored
  rw [Machine.writeClusters_disk, Disk.putEntry,
    (prepared_quietly h hs hf).table_eq ⟨p, hp⟩]

include h hs hf hp in
theorem stored_table : (stored m r i).disk.table r.parentClusterNumber =
    (m.disk.table r.parentClusterNumber).set i (addedEntry m r) := by
  rw [stored_disk h hs hf hp, Disk.putEntry_table_same,
    (prepared_quietly h hs hf).table_eq ⟨p, hp⟩]

include h hs hf hp in
/-- The tables of the other directories are as they were. -/
theorem stored_table_other {c : UInt32} (hc : m.disk.Reachable c)
    (hne : c ≠ r.parentClusterNumber) : (stored m r i).disk.table c = m.disk.table c := by
  rw [stored_disk h hs hf hp, Disk.putEntry_table (h.image.reachable_range ⟨p, hp⟩).2
    (h.image.reachable_range hc).2 hne, (prepared_quietly h hs hf).table_eq hc]

include h hs hf hp in
/-- Directories keep their own entries. -/
theorem stored_own (hi : 2 ≤ i) {c : UInt32} (hc : m.disk.Reachable c) :
    ((stored m r i).disk.table c).table 0 = (m.disk.table c).table 0 := by
  have hi0 : 0 ≠ i := (ne_zero_of_slot hi).symm
  by_cases hcp : c = r.parentClusterNumber
  · rw [hcp, stored_table h hs hf hp, FAT32DirectoryTable.set_other _ _ hi0]
  · rw [stored_table_other h hs hf hp hc hcp]

include hf in
theorem stored_fat : (stored m r i).fat = linkFat m.fat (allocated m r) := prepared_fat hf

include hf in
/-- The clusters that were free and not taken still are. -/
theorem stored_free : (freeClusters m.fat).length ≤
    (freeClusters (stored m r i).fat).length + required r := by
  have hsplit := List.nodup_append.mp
    ((List.take_append_drop (required r) (freeClusters m.fat)).symm ▸ freeClusters_nodup m.fat)
  have hsub : (freeClusters m.fat).drop (required r) ⊆ freeClusters (stored m r i).fat := by
    intro x hx
    have hfree := mem_freeClusters.mp (List.mem_of_mem_drop hx)
    have hnot : x ∉ allocated m r := fun hm => hsplit.2.2 x hm x hx rfl
    rw [mem_freeClusters, stored_fat hf, get?_linkFat_other hnot]
    exact hfree
  have hlen := (hsplit.2.1.subperm hsub).length_le
  rw [List.length_drop] at hlen
  omega

variable (hk : r.key ≠ 0) (hv : vacantSlot (m.disk.table r.parentClusterNumber) = some i)
  (hn : m.disk.lookup r.parentClusterNumber r.key = none)

include h hs hf hp in
theorem prepared_dirAt : (prepared m r).disk.dirAt p = some r.parentClusterNumber :=
  ((prepared_quietly h hs hf).dirAt_eq p).trans hp

include h hs hf hp hv in
theorem prepared_vacant : 2 ≤ i ∧
    ¬ (((prepared m r).disk.table r.parentClusterNumber).table i).Live := by
  obtain ⟨hi, hl, _⟩ := vacantSlot_eq_some.mp hv
  rw [(prepared_quietly h hs hf).table_eq ⟨p, hp⟩]
  exact ⟨hi, hl⟩

include h hs hf hp hn in
theorem prepared_lookup : (prepared m r).disk.lookup r.parentClusterNumber
    (addedEntry m r).key = none := by
  rw [addedEntry_key, Disk.lookup_congr ((prepared_quietly h hs hf).table_eq ⟨p, hp⟩)]
  exact hn

include h hs hf hp hk hv hn in
theorem stored_image : (stored m r i).disk.WellFormed := by
  obtain ⟨hi, hl⟩ := prepared_vacant h hs hf hp hv
  rw [stored_disk h hs hf hp]
  exact Disk.link_wellFormed ((prepared_quietly h hs hf).wellFormed h.image)
    (prepared_dirAt h hs hf hp) hi hl (prepared_lookup h hs hf hp hn)
    (addedEntry_fresh h hs hf hk)

include h hs hf hp hk hv hn in
/-- The new entry is in the tree. -/
theorem stored_added : (stored m r i).disk.LiveAt r.parentClusterNumber i ∧
    ((stored m r i).disk.table r.parentClusterNumber).table i = addedEntry m r := by
  obtain ⟨hi, hl⟩ := prepared_vacant h hs hf hp hv
  rw [stored_disk h hs hf hp]
  exact Disk.link_added ((prepared_quietly h hs hf).wellFormed h.image)
    (prepared_dirAt h hs hf hp) hi hl (prepared_lookup h hs hf hp hn)
    (addedEntry_fresh h hs hf hk)

include h hs hf hp hk hv hn in
/-- Directories stay where they are. -/
theorem stored_dirAt {q : List Key} {x : UInt32} (hq : m.disk.dirAt q = some x) :
    (stored m r i).disk.dirAt q = some x := by
  have quiet := prepared_quietly h hs hf
  obtain ⟨hi, hl⟩ := prepared_vacant h hs hf hp hv
  rw [stored_disk h hs hf hp]
  exact Disk.link_dirAt (quiet.wellFormed h.image) (prepared_dirAt h hs hf hp) hi hl
    (prepared_lookup h hs hf hp hn) (addedEntry_fresh h hs hf hk) ((quiet.dirAt_eq q).trans hq)

include h hs hf hp hk hv hn in
/-- The entries of the tree stay in it. -/
theorem stored_liveAt {c : UInt32} {j : Fin 64} (hlj : m.disk.LiveAt c j) :
    (stored m r i).disk.LiveAt c j ∧
      ((stored m r i).disk.table c).table j = (m.disk.table c).table j := by
  have q := prepared_quietly h hs hf
  obtain ⟨hi, hl⟩ := prepared_vacant h hs hf hp hv
  rw [stored_disk h hs hf hp, ← q.table_eq hlj.dir]
  exact Disk.link_liveAt (q.wellFormed h.image) (prepared_dirAt h hs hf hp) hi hl
    (prepared_lookup h hs hf hp hn) (addedEntry_fresh h hs hf hk) (q.liveAt_iff.mpr hlj)

include h hs hf hp in
/-- The table of a new folder is not written again. -/
theorem stored_folder_table (h0 : r.bufferSize = 0) (hk : r.key ≠ 0) :
    (stored m r i).disk.table (addedEntry m r).cluster =
      (prepared m r).disk.table (addedEntry m r).cluster := by
  rw [stored_disk h hs hf hp]
  exact (Disk.link_folder ((prepared_quietly h hs hf).wellFormed h.image)
    (prepared_dirAt h hs hf hp) (addedEntry_fresh h hs hf hk) (addedEntry_folder.mpr h0)).1

include h hs hf hp in
/-- A new folder has no entries. -/
theorem stored_folder (h0 : r.bufferSize = 0) (hk : r.key ≠ 0) {j : Fin 64} (hj : j ≠ 0) :
    ((stored m r i).disk.table (addedEntry m r).cluster).table j = 0 := by
  rw [stored_folder_table h hs hf hp h0 hk]
  exact (prepared_table h hs hf h0).2.2.2.2 j hj

include h hs hf hp in
/-- A new folder carries its name. -/
theorem stored_folder_name (h0 : r.bufferSize = 0) (hk : r.key ≠ 0) :
    (((stored m r i).disk.table (addedEntry m r).cluster).table 0).name = r.name := by
  rw [stored_folder_table h hs hf hp h0 hk]
  exact (prepared_table h hs hf h0).2.2.1

include h hs hf hp in
theorem stored_coherent : (stored m r i).disk.fatTable = (stored m r i).fat := by
  have hr := h.image.reachable_range ⟨p, hp⟩
  unfold stored
  rw [Machine.writeClusters_disk, Disk.fatTable_write_other _ hr.2 hr.1,
    prepared_coherent h (allocated_ne_nil hs hf), Machine.writeClusters_fat]

include h hs hf hp hk hv hn in
theorem stored_wellFormed : (stored m r i).WellFormed :=
  ⟨stored_coherent h hs hf hp, stored_image h hs hf hp hk hv hn⟩

include h hs hf in
/-- All writes but the last leave the tree alone. -/
theorem stored_passes : Passes (fun d => Disk.Quiet m.disk d ∨ d = (stored m r i).disk)
    m (stored m r i) := by
  have hq := prepared_quiet h (allocated_ne_nil hs hf)
  exact (hq.mono fun _ q => Or.inl q).trans (Passes.write _ _ (Or.inl hq.last) (Or.inr rfl))

include h hs hf hp hv hn hk in
/-- A successful write adds the new file or folder to the tree, and nothing else. -/
theorem stored_tree (h' : (stored m r i).disk.WellFormed)
    (hpf : (m.disk.tree h.image).node p = some .folder)
    (hkn : (m.disk.tree h.image).node (r.key :: p) = none) :
    (stored m r i).disk.tree h' = (m.disk.tree h.image).insert r.key p r.node hpf hkn := by
  obtain ⟨hi, hl⟩ := prepared_vacant h hs hf hp hv
  have q := prepared_quietly h hs hf
  have hw := q.wellFormed h.image
  have hnode : ∀ x, ((prepared m r).disk.graph.node (prepared m r).disk.content x) =
      (m.disk.tree h.image).node x := fun x =>
    congrArg (fun t => t.node x) (q.tree_eq h.image hw)
  ext1
  funext x
  have hx := Disk.link_node hw (prepared_dirAt h hs hf hp) hi hl (prepared_lookup h hs hf hp hn)
    (addedEntry_fresh h hs hf hk) x
  rw [addedEntry_key, addedEntry_node h hs hf, hnode, ← stored_disk h hs hf hp] at hx
  exact hx

end Stored

end KajijOSta.Fat32
