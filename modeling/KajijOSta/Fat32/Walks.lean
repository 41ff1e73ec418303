import KajijOSta.Fat32.Invariant

/-! # The walks along the chains

`readVisits` and `freeVisits` are the loops of `read` and `delete` with nothing
kept but the clusters they visit. On a well-formed state both walk the chain of
a file from end to end. The check of `read` against the buffer is another
matter: it counts the clusters in a `uint8_t`, and does what it is there for in
every state of a run exactly when no file of the first one has more than 255 of
them (`walksFit_iff`). -/
namespace KajijOSta.Fat32
open KajijOSta.LinkedChain KajijOSta.NamedTree KajijOSta.Runs

/-! ## What is to hold of a file -/

/-- Both loops end, on the same clusters of the data area, each visited once, as
many as the size says. -/
def WalksSafely (m : Machine) (e : FAT32DirectoryEntry) : Prop :=
  ∃ l, readVisits m chainFuel e.cluster = .ok l ∧
    freeVisits (2 * chainFuel) e.cluster m.fat = .ok l ∧
    (∀ x ∈ l, 3 ≤ x.toNat ∧ x.toNat < clusterMapSize) ∧ l.Nodup ∧
    l.length = clusterCount e.filesize

/-- `read` of the entry: 0 with the clusters of the file and nothing else in a
buffer they fit in, or -1 with the buffer untouched, for the buffers that hold
fewer clusters. -/
structure ReadFits (m : Machine) (r : FAT32DriverRequest) (e : FAT32DirectoryEntry) : Prop where
  answers : (∃ buf, read m r = .ok (0, buf)) ∨ read m r = .ok (-1, r.buf)
  copies : ∀ buf, read m r = .ok (0, buf) →
    clusterSize * clusterCount e.filesize ≤ r.bufferSize.toNat ∧
    ∀ j, buf j = if j < clusterSize * clusterCount e.filesize then
      m.disk.byteAlong (m.disk.clustersOf e) j else r.buf j
  refuses : read m r = .ok (-1, r.buf) ↔
    r.bufferSize.toNat / clusterSize < clusterCount e.filesize

/-- A live file, under a name that is not its directory's own. -/
structure NamedFile (m : Machine) (c : UInt32) (i : Fin 64) : Prop where
  live : m.disk.LiveAt c i
  file : ¬ ((m.disk.table c).table i).IsFolder
  named : ((m.disk.table c).table i).key ≠ m.disk.ownKey c

/-- The walks of `read` and `delete` are safe for every file, and `read` stays
within the buffer. -/
def WalksFit (m : Machine) : Prop :=
  ∀ c i, NamedFile m c i → WalksSafely m ((m.disk.table c).table i) ∧
    ∀ r : FAT32DriverRequest, r.parentClusterNumber = c → r.key = ((m.disk.table c).table i).key →
      ReadFits m r ((m.disk.table c).table i)

/-- Every file has a number of clusters that a `uint8_t` holds. -/
def CountableFiles (m : Machine) : Prop :=
  ∀ c i, NamedFile m c i → clusterCount ((m.disk.table c).table i).filesize ≤ 255

section File
variable {m : Machine} {c : UInt32} {i : Fin 64} (h : m.WellFormed) (hf : NamedFile m c i)

include h in
theorem fat_chain (hl : m.disk.LiveAt c i) : Chain m.fat.get? fat32FatEndOfFile
    ((m.disk.table c).table i).cluster (m.disk.clustersOf ((m.disk.table c).table i)) := by
  have hnext : m.disk.next = m.fat.get? := funext fun x => (fat_eq h x).symm
  exact hnext ▸ h.image.chain hl

include h hf in
theorem walksSafely : WalksSafely m ((m.disk.table c).table i) := by
  have he := h.image.entry c i hf.live
  have hch := fat_chain h hf.live
  have hle := he.length_le
  refine ⟨_, readVisits_of_chain hch ?_, freeVisits_of_chain hch ?_, he.range, he.nodup,
    he.length hf.file⟩
  · simp only [chainFuel]
    omega
  · simp only [chainFuel]
    omega

variable {r : FAT32DriverRequest} (hp : r.parentClusterNumber = c)
  (hk : r.key = ((m.disk.table c).table i).key)

include h hf hp hk in
/-- `read` under the name of a file acts on its entry. -/
theorem read_file : read m r = readEntry m r ((m.disk.table c).table i) := by
  subst hp
  have hd := h.image.directory _ hf.live.dir
  have hk0 : r.key ≠ 0 := by
    rw [hk]
    rcases hd.slots i hf.live.slot with hz | hlive
    · have hlive := hf.live.live
      rw [hz] at hlive
      exact absurd hlive not_live_zero
    · exact hlive.2
  have hlookup : m.disk.lookup r.parentClusterNumber r.key =
      some ((m.disk.table r.parentClusterNumber).table i) := by
    rw [hk]
    exact hd.lookup hf.live.slot hf.live.live
  rw [read_slotOf h hf.live.dir hk0 (hk ▸ hf.named), hlookup]

include h hf hp hk in
/-- The code of `read` goes by the count in its `uint8_t`. -/
theorem read_file_cases :
    (r.bufferSize.toNat / clusterSize < clusterCount ((m.disk.table c).table i).filesize % 256 ∧
      read m r = .ok (-1, r.buf)) ∨
    (¬ r.bufferSize.toNat / clusterSize < clusterCount ((m.disk.table c).table i).filesize % 256 ∧
      ∃ buf, read m r = .ok (0, buf) ∧
        ∀ j, buf j = if j < clusterSize * clusterCount ((m.disk.table c).table i).filesize then
          m.disk.byteAlong (m.disk.clustersOf ((m.disk.table c).table i)) j else r.buf j) := by
  have he := h.image.entry c i hf.live
  have hcount : (clustersFor ((m.disk.table c).table i).filesize).toNat =
      clusterCount ((m.disk.table c).table i).filesize % 256 := by
    rw [clustersFor_eq (filesize_lt h hf.live hf.file), UInt8.toNat_ofNat']
  have hne : ¬ ((m.disk.table c).table i).attr = attrSubdirectory := hf.file
  rw [read_file h hf hp hk, readEntry, if_neg hne, hcount]
  by_cases hb : r.bufferSize.toNat / clusterSize <
      clusterCount ((m.disk.table c).table i).filesize % 256
  · rw [if_pos hb]
    exact Or.inl ⟨hb, rfl⟩
  · rw [if_neg hb]
    have hle : (m.disk.clustersOf ((m.disk.table c).table i)).length ≤ chainFuel :=
      Nat.le_succ_of_le he.length_le
    obtain ⟨buf, hrun, hbuf⟩ := @readChain_of_chain m _ _ _ 0 r.buf (fat_chain h hf.live) hle
    refine Or.inr ⟨hb, buf, by rw [hrun]; rfl, fun j => ?_⟩
    rw [hbuf j, he.length hf.file]
    simp only [Nat.mul_zero, Nat.zero_le, true_and, Nat.zero_add, Nat.sub_zero]

include h hf hp hk in
theorem readFits (hcount : clusterCount ((m.disk.table c).table i).filesize ≤ 255) :
    ReadFits m r ((m.disk.table c).table i) := by
  have hmod : clusterCount ((m.disk.table c).table i).filesize % 256 =
      clusterCount ((m.disk.table c).table i).filesize := Nat.mod_eq_of_lt (by omega)
  have hcases := read_file_cases h hf hp hk
  rw [hmod] at hcases
  rcases hcases with ⟨hb, hr⟩ | ⟨hb, buf, hr, hbuf⟩
  · refine ⟨Or.inr hr, fun buf h0 => ?_, fun _ => hb, fun _ => hr⟩
    rw [hr] at h0
    cases h0
  · refine ⟨Or.inl ⟨buf, hr⟩, fun buf' h0 => ?_, fun h1 => ?_, fun hlt => absurd hlt hb⟩
    · rw [hr] at h0
      cases h0
      refine ⟨?_, hbuf⟩
      simp only [clusterSize_eq] at hb ⊢
      omega
    · rw [hr] at h1
      cases h1

end File

/-- Reading a file of more than 255 clusters into a buffer that holds the
remainder of 256 goes past the buffer. -/
theorem WalksFit.countable {m : Machine} (h : m.WellFormed) (hw : WalksFit m) :
    CountableFiles m := by
  intro c i hf
  by_contra hlarge
  have hlt : m.disk.LiveAt c i := hf.live
  have hsize := filesize_lt h hf.live hf.file
  obtain ⟨r, hp, hk, hr⟩ : ∃ r : FAT32DriverRequest, r.parentClusterNumber = c ∧
      r.key = ((m.disk.table c).table i).key ∧ r.bufferSize.toNat =
        clusterSize * (clusterCount ((m.disk.table c).table i).filesize % 256) := by
    refine ⟨⟨fun _ => 0, _, _, c, UInt32.ofNat (clusterSize *
      (clusterCount ((m.disk.table c).table i).filesize % 256))⟩, rfl, rfl, ?_⟩
    rw [UInt32.toNat_ofNat']
    simp only [clusterSize_eq]
    omega
  have hfits := (hw c i hf).2 r hp hk
  rcases read_file_cases h hf hp hk with ⟨hb, _⟩ | ⟨_, buf, h0, _⟩
  · rw [hr] at hb
    simp only [clusterSize_eq] at hb
    omega
  · have hle := (hfits.copies buf h0).1
    rw [hr] at hle
    simp only [clusterSize_eq] at hle
    omega

theorem CountableFiles.walksFit {m : Machine} (h : m.WellFormed) (hcount : CountableFiles m) :
    WalksFit m :=
  fun c i hf => ⟨walksSafely h hf, fun _ hp hk => readFits h hf hp hk (hcount c i hf)⟩

/-! ## Files of the states of a run -/

section Step
variable {m : Machine} {r : FAT32DriverRequest} {i : Fin 64} (h : m.WellFormed)
  (hc : m.disk.Reachable r.parentClusterNumber)

include h hc in
/-- The live slots after a write: the old ones and the new one. -/
theorem stored_live (hs : r.bufferSize.toNat ≤ 255 * clusterSize) (hst : Storable m r i)
    {c : UInt32} {j : Fin 64} (hl : (stored m r i).disk.LiveAt c j) :
    (c, j) = (r.parentClusterNumber, i) ∧
      ((stored m r i).disk.table c).table j = addedEntry m r ∨
    m.disk.LiveAt c j ∧
      ((stored m r i).disk.table c).table j = (m.disk.table c).table j := by
  obtain ⟨p, hp⟩ := hc
  have q := prepared_quietly h hs hst.space
  obtain ⟨hi, hv⟩ := prepared_vacant h hs hst.space hp hst.vacant
  rw [stored_disk h hs hst.space hp] at hl ⊢
  rcases Disk.link_live (q.wellFormed h.image) (prepared_dirAt h hs hst.space hp) hi hv
    (prepared_lookup h hs hst.space hp hst.lookup)
    (addedEntry_fresh h hs hst.space (hst.named h ⟨p, hp⟩)) hl with hadded | ⟨_, hlo, ht⟩
  · exact Or.inl hadded
  · have hlo := q.liveAt_iff.mp hlo
    rw [q.table_eq hlo.dir] at ht
    exact Or.inr ⟨hlo, ht⟩

variable (hl : m.disk.LiveAt r.parentClusterNumber i)

include h hl in
/-- The live slots after a delete are old ones, in directories of the same name. -/
theorem deleted_live {c : UInt32} {j : Fin 64} (hlj : (deleted m r i).disk.LiveAt c j) :
    m.disk.LiveAt c j ∧
      ((deleted m r i).disk.table c).table j = (m.disk.table c).table j ∧
      (deleted m r i).disk.ownKey c = m.disk.ownKey c := by
  obtain ⟨⟨p, hp⟩, hi, hlive⟩ := hl
  have hr := h.image.reachable_range ⟨p, hp⟩
  have q := deleted_quiet h hp hi hlive
  have hlj := q.liveAt_iff.mp hlj
  obtain ⟨_, hlo, ht⟩ := Disk.unlink_live h.image hp hi hlive hlj
  have htable := q.table_eq hlj.dir
  refine ⟨hlo, by rw [htable, ht], ?_⟩
  unfold Disk.ownKey
  rw [htable]
  by_cases hcp : c = r.parentClusterNumber
  · rw [hcp, Disk.putEntry_table_same, FAT32DirectoryTable.set_other _ _ (ne_zero_of_slot hi).symm]
  · rw [Disk.putEntry_table hr.2 (h.image.reachable_range hlo.dir).2 hcp]

include h hc in
theorem stored_countable (hs : r.bufferSize.toNat ≤ 255 * clusterSize) (hst : Storable m r i)
    (hcount : CountableFiles m) : CountableFiles (stored m r i) := by
  intro c j hf
  rcases stored_live h hc hs hst hf.live with ⟨_, ht⟩ | ⟨hlo, ht⟩
  · rw [ht, addedEntry_filesize]
    simp only [clusterCount, clusterSize_eq] at hs ⊢
    omega
  · have hi := (vacantSlot_eq_some.mp hst.vacant).1
    obtain ⟨p, hp⟩ := hc
    have hown : (stored m r i).disk.ownKey c = m.disk.ownKey c :=
      congrArg FAT32DirectoryEntry.key (stored_own h hs hst.space hp hi hlo.dir)
    rw [ht]
    refine hcount c j ⟨hlo, ?_, ?_⟩
    · rw [← ht]
      exact hf.file
    · rw [← ht, ← hown]
      exact hf.named

include h hl in
theorem deleted_countable (hcount : CountableFiles m) : CountableFiles (deleted m r i) := by
  intro c j hf
  obtain ⟨hlo, ht, hown⟩ := deleted_live h hl hf.live
  rw [ht]
  refine hcount c j ⟨hlo, ?_, ?_⟩
  · rw [← ht]
    exact hf.file
  · rw [← ht, ← hown]
    exact hf.named

end Step

theorem CountableFiles.of_same {m m' : Machine} (hcount : CountableFiles m)
    (hd : m'.disk = m.disk) : CountableFiles m' := by
  intro c i hf
  obtain ⟨hl, hfile, hnamed⟩ := hf
  rw [hd] at hl hfile hnamed ⊢
  exact hcount c i ⟨hl, hfile, hnamed⟩

/-- No request adds a file of more than 255 clusters. -/
theorem step_countable (m : Machine) (call : Call) (h : m.WellFormed ∧ CountableFiles m)
    (ha : call.Admissible m.disk) :
    ∃ m', step m call = .ok m' ∧ m'.WellFormed ∧ CountableFiles m' := by
  obtain ⟨hw, hcount⟩ := h
  obtain ⟨m', hm', hw'⟩ := step_wellFormed m call hw ha
  refine ⟨m', hm', hw', ?_⟩
  cases call with
  | write r =>
    obtain ⟨hc, hs⟩ := ha
    rcases write_cases hw hc hs with ⟨_, he⟩ | ⟨_, _, he⟩ | ⟨i, hst, he⟩
    · cases hm'.symm.trans (step_write he)
      exact hcount
    · cases hm'.symm.trans (step_write he)
      exact hcount
    · cases hm'.symm.trans (step_write he)
      exact stored_countable hw hc hs hst hcount
  | delete r =>
    obtain ⟨hc, hk, ho⟩ := ha
    rcases delete_cases hw hc hk ho with ⟨_, he⟩ | ⟨i, _, hl, he⟩
    · cases hm'.symm.trans (step_delete he)
      exact hcount.of_same rfl
    · cases hm'.symm.trans (step_delete he)
      exact deleted_countable hw hl hcount
  | read r =>
    obtain rfl : m = m' := step_read_same hm'
    exact hcount
  | readDirectory r =>
    cases hm'
    exact hcount

/-- **When the walks fit in every state of a run.** From a well-formed state a run
of admissible requests returns and has safe walks and reads that stay within
their buffers in all its states, exactly when no file of the first state has more
than 255 clusters. -/
theorem walksFit_iff {m : Machine} {calls : List Call} (h : m.WellFormed)
    (ha : Meets step (fun m call => call.Admissible m.disk) m calls) :
    Always step WalksFit m calls ↔ CountableFiles m := by
  constructor
  · intro hall
    exact hall.head.countable h
  · intro hcount
    have hrun := always_of_meets step_countable ⟨h, hcount⟩ ha
    exact hrun.mono fun m' hI => hI.2.walksFit hI.1

theorem walksFit_rooted : Always step WalksFit (rootedMachine (letterName 'r'))
    [.delete (letterRequest 'a' 0), .write (letterRequest 'b' 3000)] := by
  have hroot : ∀ d : Disk, d.Reachable rootClusterNumber := fun d => Disk.reachable_root d
  refine (walksFit_iff (rootedMachine_wellFormed _) ?_).mpr fun c i hf => ?_
  · exact ⟨⟨hroot _, letterRequest_named 0, letterRequest_not_own 0⟩,
      fun _ _ => ⟨⟨hroot _, by decide⟩, fun _ _ => trivial⟩⟩
  · exact absurd hf.live (rootedDisk_not_live _)

/-! ## An image with a file of 256 clusters -/

def largeClusters : List UInt32 := (List.range 256).map fun k => UInt32.ofNat (3 + k)

def largeFat : FAT32FileAllocationTable := linkFat rootedFat largeClusters

def largeEntry : FAT32DirectoryEntry := newEntry (letterRequest 'a' 524288) false 3

def linkedDisk : Disk :=
  writeClusters (rootedDisk (letterName 'r')) largeFat.bytes fatClusterNumber 1

def largeMachine : Machine := ⟨⟨largeFat, 0⟩, linkedDisk.putEntry rootClusterNumber 2 largeEntry, []⟩

theorem mem_largeClusters {x : UInt32} (hx : x ∈ largeClusters) :
    3 ≤ x.toNat ∧ x.toNat < clusterMapSize := by
  obtain ⟨k, hk, rfl⟩ := List.mem_map.mp hx
  have hk := List.mem_range.mp hk
  rw [UInt32.toNat_ofNat', clusterMapSize_eq]
  omega

theorem largeClusters_nodup : largeClusters.Nodup := by
  refine List.Nodup.map_on (fun a ha b hb hab => ?_) List.nodup_range
  have ha := List.mem_range.mp ha
  have hb := List.mem_range.mp hb
  have hn := congrArg UInt32.toNat hab
  rw [UInt32.toNat_ofNat', UInt32.toNat_ofNat'] at hn
  omega

theorem largeClusters_length : largeClusters.length = 256 := by
  simp [largeClusters]

theorem linkedDisk_quiet : Disk.Quiet (rootedDisk (letterName 'r')) linkedDisk := by
  refine (Disk.Quiet.refl _).flush (rootedDisk_wellFormed _) fun x hx => ?_
  have hnot : x ∉ largeClusters := by
    intro hm
    rcases hx with hx | ⟨c, i, hl, _⟩
    · have := (mem_largeClusters hm).1
      omega
    · exact rootedDisk_not_live _ hl
  rw [rootedDisk_next, largeFat, get?_linkFat_other hnot]

theorem linkedDisk_next : linkedDisk.next = largeFat.get? := by
  funext x
  unfold Disk.next linkedDisk
  rw [fatTable_write_same]

theorem largeEntry_chain :
    Chain linkedDisk.next fat32FatEndOfFile largeEntry.cluster largeClusters := by
  rw [linkedDisk_next]
  exact chain_linkFat largeClusters_nodup fun x hx => (mem_largeClusters hx).2

theorem largeEntry_clusters : linkedDisk.clustersOf largeEntry = largeClusters := by
  refine Disk.clustersOf_chain (by decide) largeEntry_chain ?_
  rw [largeClusters_length]
  decide

theorem largeEntry_fresh : linkedDisk.Fresh largeEntry := by
  have hcl := largeEntry_clusters
  refine ⟨rfl, by decide, ⟨?_, fun _ => by decide, fun _ => ?_, fun _ => ?_, ?_⟩, fun x _ hu => ?_,
    fun hf => absurd hf (by decide), fun hf => absurd hf (by decide)⟩
  · rw [hcl]
    exact fun x hx => mem_largeClusters hx
  · rw [hcl]
    exact largeEntry_chain
  · rw [hcl, largeClusters_length]
    decide
  · rw [hcl]
    exact largeClusters_nodup
  · obtain ⟨c, i, hl, _⟩ := (linkedDisk_quiet.used_iff (rootedDisk_wellFormed _)).mp hu
    exact rootedDisk_not_live _ hl

theorem linkedDisk_vacant : ¬ ((linkedDisk.table rootClusterNumber).table 2).Live ∧
    linkedDisk.lookup rootClusterNumber largeEntry.key = none := by
  have ht : linkedDisk.table rootClusterNumber = (rootedDisk (letterName 'r')).table _ :=
    linkedDisk_quiet.table_eq (Disk.reachable_root _)
  constructor
  · rw [ht, rootedDisk_table, initDirectoryTable_slot _ (by decide)]
    exact not_live_zero
  · rw [Disk.lookup_congr ht]
    exact rootedDisk_lookup _ _

theorem largeMachine_coherent : largeMachine.disk.fatTable = largeMachine.fat := by
  have hflush : linkedDisk.fatTable = largeFat := by
    unfold linkedDisk
    rw [fatTable_write_same]
  have hput : (linkedDisk.putEntry rootClusterNumber 2 largeEntry).fatTable =
      linkedDisk.fatTable := by
    unfold Disk.putEntry
    rw [Disk.fatTable_write_other _ root_lt two_le_root]
  dsimp only [largeMachine, Machine.fat]
  exact hput.trans hflush

theorem largeMachine_wellFormed : largeMachine.WellFormed := by
  obtain ⟨hv, hn⟩ := linkedDisk_vacant
  have hw := linkedDisk_quiet.wellFormed (rootedDisk_wellFormed _)
  have hp : linkedDisk.dirAt [] = some rootClusterNumber := Graph.dirAt_nil _
  exact ⟨largeMachine_coherent,
    Disk.link_wellFormed hw hp (by decide) hv hn largeEntry_fresh⟩

/-- With a buffer of no bytes at all `read` copies the whole file. -/
theorem largeMachine_not_walksFit :
    largeMachine.WellFormed ∧ ¬ Always step WalksFit largeMachine [] := by
  have h := largeMachine_wellFormed
  refine ⟨h, fun hall => ?_⟩
  have ht : (largeMachine.disk.table rootClusterNumber).table 2 = largeEntry :=
    (congrArg (fun t => t.table 2) (Disk.putEntry_table_same _ _ _ _)).trans
      (FAT32DirectoryTable.set_same _ _ _)
  have h0 : (largeMachine.disk.table rootClusterNumber).table 0 =
      (initDirectoryTable (letterName 'r') rootClusterNumber).table 0 := by
    show ((linkedDisk.putEntry rootClusterNumber 2 largeEntry).table rootClusterNumber).table 0 = _
    rw [Disk.putEntry_table_same, FAT32DirectoryTable.set_other _ _ (by decide),
      linkedDisk_quiet.table_eq (Disk.reachable_root _), rootedDisk_table]
  have hcount := hall.head.countable h rootClusterNumber 2 ⟨⟨Disk.reachable_root _, by decide, ?_⟩,
    ?_, ?_⟩
  · rw [ht] at hcount
    exact absurd hcount (by decide)
  · rw [ht]
    exact newEntry_live
  · rw [ht]
    decide
  · unfold Disk.ownKey
    rw [ht, h0]
    decide

end KajijOSta.Fat32
