import KajijOSta.Fat32.Invariant
import KajijOSta.Fat32.Names

/-! # Which folder `read_directory` finds

`write` keeps pairs of name and extension apart; `read_directory` looks at the
name only, and at the first slot that has it. Whether it finds the folder of a
name is a matter of what stands in that slot (`findsFolder_iff`). -/
namespace KajijOSta.Fat32
open KajijOSta.NamedTree

/-- Slot `i` of the parent is live under the request's name, whatever its extension. -/
structure NamedSlot (m : Machine) (r : FAT32DriverRequest) (i : Fin 64) : Prop where
  slot : 2 ≤ i
  live : ((m.disk.table r.parentClusterNumber).table i).Live
  named : ((m.disk.table r.parentClusterNumber).table i).name = r.name

def NamedFolder (m : Machine) (r : FAT32DriverRequest) (i : Fin 64) : Prop :=
  NamedSlot m r i ∧ ((m.disk.table r.parentClusterNumber).table i).IsFolder

/-- `buf` holds the bytes of the cluster `c`. -/
def HoldsTable (m : Machine) (c : UInt32) (buf : Memory) : Prop :=
  ∀ b, b < clusterSize → buf b = m.disk.cluster c b

/-- `read_directory` tells folders, files and missing names apart: 0 with the
table of a folder of the name when there is one, 1 when only files have the
name, 2 when nothing has it. -/
structure FindsFolder (m : Machine) (r : FAT32DriverRequest) : Prop where
  found : ((readDirectory m r).1 = 0 ∧ ∃ i, NamedFolder m r i ∧
    HoldsTable m ((m.disk.table r.parentClusterNumber).table i).cluster (readDirectory m r).2) ↔
      ∃ i, NamedFolder m r i
  notFolder : (readDirectory m r).1 = 1 ↔ (∃ i, NamedSlot m r i) ∧ ¬ ∃ i, NamedFolder m r i
  missing : (readDirectory m r).1 = 2 ↔ ¬ ∃ i, NamedSlot m r i

/-- The first slot of the name says what the name is: without the directory bit,
there is no folder of the name; with it, the table it points to is that of a
folder of the name, and the buffer is large enough for its `filesize`. -/
def FirstDecides (m : Machine) (r : FAT32DriverRequest) : Prop :=
  ∀ i, ((m.disk.table r.parentClusterNumber).table i).name = r.name →
    (∀ j, j < i → ((m.disk.table r.parentClusterNumber).table j).name ≠ r.name) →
    let entry := (m.disk.table r.parentClusterNumber).table i
    (entry.attr &&& attrSubdirectory = 0 ∧ ¬ ∃ j, NamedFolder m r j) ∨
    (entry.attr &&& attrSubdirectory ≠ 0 ∧ entry.filesize ≤ r.bufferSize ∧ ∃ j, NamedFolder m r j ∧
      HoldsTable m ((m.disk.table r.parentClusterNumber).table j).cluster
        (m.disk.cluster entry.cluster))

theorem folder_bit {e : FAT32DirectoryEntry} (h : e.IsFolder) :
    e.attr &&& attrSubdirectory ≠ 0 := by
  rw [show e.attr = attrSubdirectory from h]
  decide

section Slots
variable {m : Machine} {r : FAT32DriverRequest} {i : Fin 64}
  (h : m.disk.DirectoryOk r.parentClusterNumber) (hz : r.name ≠ fun _ => 0)
  (ho : r.name ≠ ((m.disk.table r.parentClusterNumber).table 0).name)

include h hz ho in
/-- A slot with the name is a live one. -/
theorem namedSlot_of_name (hi : ((m.disk.table r.parentClusterNumber).table i).name = r.name) :
    NamedSlot m r i := by
  have hne : (m.disk.table r.parentClusterNumber).table i ≠ 0 := by
    intro h0
    rw [h0] at hi
    exact hz hi.symm
  have hi2 : 2 ≤ i := by
    by_contra hlt
    rcases slot_lt_two hlt with rfl | rfl
    · exact ho hi.symm
    · exact hne h.second
  refine ⟨hi2, ?_, hi⟩
  rcases h.slots i hi2 with h0 | hl
  · exact absurd h0 hne
  · exact hl.1

/-! ## What the first slot leads to -/

variable (hi : ((m.disk.table r.parentClusterNumber).table i).name = r.name)
  (hfirst : ∀ j, j < i → ((m.disk.table r.parentClusterNumber).table j).name ≠ r.name)

include hi hfirst in
/-- Only the first slot of the name counts. -/
theorem firstDecides_iff : FirstDecides m r ↔
    let entry := (m.disk.table r.parentClusterNumber).table i
    (entry.attr &&& attrSubdirectory = 0 ∧ ¬ ∃ j, NamedFolder m r j) ∨
    (entry.attr &&& attrSubdirectory ≠ 0 ∧ entry.filesize ≤ r.bufferSize ∧ ∃ j, NamedFolder m r j ∧
      HoldsTable m ((m.disk.table r.parentClusterNumber).table j).cluster
        (m.disk.cluster entry.cluster)) := by
  constructor
  · intro hd
    exact hd i hi hfirst
  · intro hd j hj hjfirst
    have hij : j = i := by
      rcases lt_trichotomy j i with hlt | heq | hlt
      · exact absurd hj (hfirst j hlt)
      · exact heq
      · exact absurd hi (hjfirst i hlt)
    rw [hij]
    exact hd

include h hz ho hi hfirst in
/-- A file in the first slot hides any folder behind it. -/
theorem finds_first_file
    (hbit : ((m.disk.table r.parentClusterNumber).table i).attr &&& attrSubdirectory = 0) :
    FindsFolder m r ↔ ¬ ∃ j, NamedFolder m r j := by
  have hread := (readDirectory_first hi hfirst).trans (if_pos hbit)
  have hcode : (readDirectory m r).1 = 1 := by rw [hread]
  have hslot := namedSlot_of_name h hz ho hi
  constructor
  · intro hf
    exact (hf.notFolder.mp hcode).2
  · intro hno
    refine ⟨?_, ?_, ?_⟩
    · rw [hcode]
      exact ⟨fun hx => absurd hx.1 (by decide), fun hx => absurd hx hno⟩
    · exact ⟨fun _ => ⟨⟨i, hslot⟩, hno⟩, fun _ => hcode⟩
    · rw [hcode]
      exact ⟨fun hx => absurd hx (by decide), fun hx => absurd ⟨i, hslot⟩ hx⟩

include h hz ho hi hfirst in
/-- A code of -1 is none of the three answers. -/
theorem finds_first_large
    (hbit : ((m.disk.table r.parentClusterNumber).table i).attr &&& attrSubdirectory ≠ 0)
    (hsize : r.bufferSize < ((m.disk.table r.parentClusterNumber).table i).filesize) :
    ¬ FindsFolder m r := by
  have hread := (readDirectory_first hi hfirst).trans ((if_neg hbit).trans (if_pos hsize))
  have hcode : (readDirectory m r).1 = -1 := by rw [hread]
  have hslot := namedSlot_of_name h hz ho hi
  intro hf
  by_cases hex : ∃ j, NamedFolder m r j
  · have h0 := (hf.found.mpr hex).1
    rw [hcode] at h0
    exact absurd h0 (by decide)
  · have h1 := hf.notFolder.mpr ⟨⟨i, hslot⟩, hex⟩
    rw [hcode] at h1
    exact absurd h1 (by decide)

include h hz ho hi hfirst in
theorem finds_first_folder
    (hbit : ((m.disk.table r.parentClusterNumber).table i).attr &&& attrSubdirectory ≠ 0)
    (hsize : ¬ r.bufferSize < ((m.disk.table r.parentClusterNumber).table i).filesize) :
    FindsFolder m r ↔ ∃ j, NamedFolder m r j ∧
      HoldsTable m ((m.disk.table r.parentClusterNumber).table j).cluster
        (m.disk.cluster ((m.disk.table r.parentClusterNumber).table i).cluster) := by
  have hread := (readDirectory_first hi hfirst).trans ((if_neg hbit).trans (if_neg hsize))
  have hcode : (readDirectory m r).1 = 0 := by rw [hread]
  have hslot := namedSlot_of_name h hz ho hi
  have hbuf : ∀ b, b < clusterSize → (readDirectory m r).2 b =
      m.disk.cluster ((m.disk.table r.parentClusterNumber).table i).cluster b := by
    intro b hb
    rw [hread]
    exact readClusters_lt _ _ _ hb
  constructor
  · intro hf
    have hex : ∃ j, NamedFolder m r j := by
      by_contra hno
      have h1 := hf.notFolder.mpr ⟨⟨i, hslot⟩, hno⟩
      rw [hcode] at h1
      exact absurd h1 (by decide)
    obtain ⟨_, j, hj, hj'⟩ := hf.found.mpr hex
    exact ⟨j, hj, fun b hb => (hbuf b hb).symm.trans (hj' b hb)⟩
  · intro hex
    obtain ⟨j, hj, hj'⟩ := hex
    refine ⟨⟨fun hx => ?_, fun _ => ?_⟩, ?_, ?_⟩
    · obtain ⟨_, k, hk, _⟩ := hx
      exact ⟨k, hk⟩
    · exact ⟨hcode, j, hj, fun b hb => (hbuf b hb).trans (hj' b hb)⟩
    · rw [hcode]
      exact ⟨fun hx => absurd hx (by decide), fun hx => absurd ⟨j, hj⟩ hx.2⟩
    · rw [hcode]
      exact ⟨fun hx => absurd hx (by decide), fun hx => absurd ⟨i, hslot⟩ hx⟩

end Slots

theorem finds_missing {m : Machine} {r : FAT32DriverRequest}
    (hno : ∀ i, ((m.disk.table r.parentClusterNumber).table i).name ≠ r.name) :
    FindsFolder m r := by
  have hcode : (readDirectory m r).1 = 2 := by rw [readDirectory_missing hno]
  have hslot : ¬ ∃ i, NamedSlot m r i := by
    intro hx
    obtain ⟨i, hi⟩ := hx
    exact hno i hi.named
  have hfolder : ¬ ∃ i, NamedFolder m r i := fun ⟨i, hi⟩ => hslot ⟨i, hi.1⟩
  refine ⟨?_, ?_, ?_⟩
  · rw [hcode]
    exact ⟨fun hx => absurd hx.1 (by decide), fun hx => absurd hx hfolder⟩
  · rw [hcode]
    exact ⟨fun hx => absurd hx (by decide), fun hx => absurd hx.1 hslot⟩
  · exact ⟨fun _ => hslot, fun _ => hcode⟩

/-- **When `read_directory` finds the folder of a name.** In a directory of the
tree, exactly when the first slot of the name decides. -/
theorem findsFolder_iff {m : Machine} {r : FAT32DriverRequest} (h : m.WellFormed)
    (hc : m.disk.Reachable r.parentClusterNumber) (hz : r.name ≠ fun _ => 0)
    (ho : r.name ≠ ((m.disk.table r.parentClusterNumber).table 0).name) :
    FindsFolder m r ↔ FirstDecides m r := by
  have hd := h.image.directory _ hc
  by_cases hex : ∃ i, ((m.disk.table r.parentClusterNumber).table i).name = r.name
  · obtain ⟨i, hi⟩ := hex
    obtain ⟨i, hi, hfirst⟩ := exists_first_name hi
    rw [firstDecides_iff hi hfirst]
    by_cases hbit : ((m.disk.table r.parentClusterNumber).table i).attr &&& attrSubdirectory = 0
    · rw [finds_first_file hd hz ho hi hfirst hbit]
      simp only [hbit, true_and, ne_eq, not_true_eq_false, false_and, or_false]
    · by_cases hsize : r.bufferSize < ((m.disk.table r.parentClusterNumber).table i).filesize
      · have hno := finds_first_large hd hz ho hi hfirst hbit hsize
        simp only [hno, hbit, UInt32.not_le.mpr hsize, false_and, and_false, or_false]
      · rw [finds_first_folder hd hz ho hi hfirst hbit hsize]
        simp only [hbit, UInt32.not_lt.mp hsize, false_and, ne_eq, not_false_eq_true, true_and,
          false_or]
  · have hno : ∀ i, ((m.disk.table r.parentClusterNumber).table i).name ≠ r.name :=
      fun i hi => hex ⟨i, hi⟩
    exact ⟨fun _ i hi => absurd hi (hno i), fun _ => finds_missing hno⟩

/-! ## A file and a folder of one name -/

theorem addedEntry_file_attr {m : Machine} {r : FAT32DriverRequest} (hn : r.bufferSize ≠ 0) :
    (addedEntry m r).attr = 0 := by
  simp [addedEntry, newEntry, hn]

def extRequest (c e : Char) (size : UInt32) : FAT32DriverRequest :=
  { letterRequest c size with ext := fun i => if i.val = 0 then UInt8.ofNat e.toNat else 0 }

/-- The root with a file and a folder of one name. -/
def fileAndFolder : Machine :=
  twoEntries (letterName 'r') (extRequest 'a' 'x' 1) (letterRequest 'a' 0)

theorem fileAndFolder_names : TwoNames (extRequest 'a' 'x' 1) (letterRequest 'a' 0) :=
  ⟨rfl, rfl, by decide, by decide, by decide, by decide, by decide⟩

/-- Slot 2 is the file, slot 3 the folder. -/
theorem fileAndFolder_slots :
    ((fileAndFolder.disk.table rootClusterNumber).table 0).name = letterName 'r' ∧
    (fileAndFolder.disk.table rootClusterNumber).table 1 = 0 ∧
    (fileAndFolder.disk.table rootClusterNumber).table 2 =
      addedEntry (rootedMachine (letterName 'r')) (extRequest 'a' 'x' 1) ∧
    (fileAndFolder.disk.table rootClusterNumber).table 3 =
      addedEntry (stored (rootedMachine (letterName 'r')) (extRequest 'a' 'x' 1) 2)
        (letterRequest 'a' 0) := by
  have ht : fileAndFolder.disk.table rootClusterNumber = _ := twoEntries_table fileAndFolder_names
  rw [ht]
  exact ⟨rfl, rfl, rfl, rfl⟩

/-- The slot of a folder that was written. -/
theorem namedFolder_of_added {m m' : Machine} {r r' : FAT32DriverRequest} {i : Fin 64} (hi : 2 ≤ i)
    (hslot : (m.disk.table r.parentClusterNumber).table i = addedEntry m' r')
    (hname : r'.name = r.name) (h0 : r'.bufferSize = 0) : NamedFolder m r i := by
  refine ⟨⟨hi, ?_, ?_⟩, ?_⟩
  · rw [hslot]
    exact addedEntry_live
  · exact (congrArg FAT32DirectoryEntry.name hslot).trans hname
  · rw [hslot]
    exact addedEntry_folder.mpr h0

theorem fileAndFolder_folder : NamedFolder fileAndFolder (letterRequest 'a' 2048) 3 := by
  obtain ⟨_, _, _, h3⟩ := fileAndFolder_slots
  exact namedFolder_of_added (by decide) h3 rfl rfl

/-- The folder `a` is not found behind the file `a.x`. -/
theorem fileAndFolder_not_findsFolder :
    fileAndFolder.WellFormed ∧ (∃ i, NamedFolder fileAndFolder (letterRequest 'a' 2048) i) ∧
    ¬ FindsFolder fileAndFolder (letterRequest 'a' 2048) := by
  have h : fileAndFolder.WellFormed := twoEntries_wellFormed fileAndFolder_names
  refine ⟨h, ⟨3, fileAndFolder_folder⟩, fun hf => ?_⟩
  obtain ⟨h0, h1, h2, _⟩ := fileAndFolder_slots
  have hroot := h.image.directory _ (Disk.reachable_root fileAndFolder.disk)
  have hno := (@finds_first_file fileAndFolder (letterRequest 'a' 2048) 2 hroot
    (by decide) (fun he => ?_) ?_ ?_ ?_).mp hf
  · exact hno ⟨3, fileAndFolder_folder⟩
  · exact absurd (he.trans h0) (by decide)
  · exact (congrArg FAT32DirectoryEntry.name h2).trans rfl
  · intro j hj hn
    rcases slot_lt_two (not_le.mpr hj) with rfl | rfl
    · exact absurd (h0.symm.trans hn) (by decide)
    · exact absurd ((congrArg FAT32DirectoryEntry.name h1).symm.trans hn) (by decide)
  · have hattr := (congrArg FAT32DirectoryEntry.attr h2).trans (addedEntry_file_attr (by decide))
    rw [show ((fileAndFolder.disk.table (letterRequest 'a' 2048).parentClusterNumber).table 2).attr
      = 0 from hattr]
    rfl

theorem findsFolder_rooted :
    FindsFolder (stored (rootedMachine (letterName 'r')) (letterRequest 'a' 0) 2)
      (letterRequest 'a' 2048) := by
  have h := rootedMachine_wellFormed (letterName 'r')
  have hst : Storable (rootedMachine (letterName 'r')) (letterRequest 'a' 0) 2 :=
    letterRequest_storable _
  have hw := hst.wellFormed h (Disk.reachable_root _) (folder_size rfl)
  obtain ⟨_, htable⟩ := @rooted_mkdir (letterName 'r') (letterRequest 'a' 0) rfl rfl
    (letterRequest_named 0)
  have hnew := htable 2
  rw [if_pos rfl] at hnew
  have hfolder : NamedFolder (stored (rootedMachine (letterName 'r')) (letterRequest 'a' 0) 2)
      (letterRequest 'a' 2048) 2 := namedFolder_of_added (le_refl _) hnew rfl rfl
  refine (findsFolder_iff hw (Disk.reachable_root _) (by decide) ?_).mpr ?_
  · intro he
    have h0 := htable 0
    rw [if_neg (by decide)] at h0
    exact absurd (he.trans (congrArg FAT32DirectoryEntry.name h0)) (by decide)
  · intro i hi _
    have hi2 : i = 2 := by
      by_contra hne
      have hslot := htable i
      rw [if_neg hne] at hslot
      have hname := (congrArg FAT32DirectoryEntry.name hslot).symm.trans hi
      by_cases hi0 : i = 0
      · rw [hi0] at hname
        exact absurd hname (by decide)
      · rw [initDirectoryTable_slot _ hi0] at hname
        exact absurd hname (by decide)
    subst hi2
    refine Or.inr ⟨folder_bit hfolder.2, ?_, 2, hfolder, fun _ _ => rfl⟩
    exact (congrArg FAT32DirectoryEntry.filesize hnew).trans addedEntry_filesize ▸ UInt32.zero_le

end KajijOSta.Fat32
