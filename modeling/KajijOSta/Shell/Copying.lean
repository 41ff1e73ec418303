import KajijOSta.Fat32.Walks
import KajijOSta.Shell.Move

/-! # Copying a file

`cp` takes the size of the source from the slots it sees and the bytes from a READ that
claims a buffer of 512 clusters for one of a single cluster; it looks at no code, and
a WRITE of size 0 makes a folder. It copies or does nothing, and stays within its buffer,
exactly in the safe states (`cp_works_iff`). -/
namespace KajijOSta.Shell
open KajijOSta.Fat32 KajijOSta.NamedTree KajijOSta.LinkedChain

def FileAt (d : Disk) (k : Key) (e : FAT32DirectoryEntry) : Prop :=
  d.lookup rootClusterNumber k = some e ∧ ¬ e.IsFolder

def HasRoom (m : Machine) (e : FAT32DirectoryEntry) : Prop :=
  vacantSlot (m.disk.table rootClusterNumber) ≠ none ∧
    clusterCount e.filesize ≤ (freeClusters m.fat).length

/-- The file has been copied to the name, and nothing else has changed. -/
structure CopiedTo (m m' : Machine) (k : Key) (e : FAT32DirectoryEntry) : Prop where
  copy : ∃ e', FileAt m'.disk k e' ∧ e'.filesize = e.filesize ∧
    m'.disk.content e' = m.disk.content e
  others : ∀ p, p ≠ [k] →
    m'.disk.graph.node m'.disk.content p = m.disk.graph.node m.disk.content p
  entries : ∀ c i, m.disk.LiveAt c i → m'.disk.LiveAt c i ∧
    (m'.disk.table c).table i = (m.disk.table c).table i

/-- A READ stores at most the first `n` bytes of the buffer, whatever is in it. -/
def StoresWithin (m : Machine) (n : Nat) (r : FAT32DriverRequest) : Prop :=
  ∀ buf code buf', Fat32.read m { r with buf := buf } = .ok (code, buf') →
    ∀ i, n ≤ i → buf' i = buf i

/-- `cp` copies or does nothing, and the kernel stays within its buffer, whatever was
there before. -/
structure CpWorks (m : Machine) (dirGarbage : Memory) (s : ShellState) (w w' : Word) : Prop where
  copies : ∀ garbage e, FileAt m.disk w.key e →
    m.disk.lookup rootClusterNumber w'.key = none → HasRoom m e →
    ∃ m', (cp m dirGarbage garbage s w w').2 = .ok m' ∧ CopiedTo m m' w'.key e
  nothing : ∀ garbage, (∀ e, FileAt m.disk w.key e → ¬ HasRoom m e) →
    ∃ m', (cp m dirGarbage garbage s w w').2 = .ok m' ∧
      m'.disk.graph.node m'.disk.content = m.disk.graph.node m.disk.content
  fits : ∀ garbage r, .read r ∈ (cp m dirGarbage garbage s w w').1 →
    StoresWithin m clusterSize r

/-- What `cp` takes for the size of the source. -/
def SeenSize (m : Machine) (dirGarbage : Memory) (w : Word) (size : UInt32) : Prop :=
  LastNamed (seenTable m dirGarbage) w size ∨
    (∀ i, 2 ≤ i → named (seenTable m dirGarbage) w i = false) ∧ 0 = size

/-- A file that is read fits the buffer; what is to be copied is read, and its size seen;
what is not to be copied is turned down by the WRITE. -/
structure CpSafe (m : Machine) (dirGarbage : Memory) (w w' : Word) : Prop where
  source : ∀ e, FileAt m.disk w.key e → w.key ≠ m.disk.ownKey rootClusterNumber →
    e.filesize.toNat ≤ clusterSize
  destination : ∀ e size, FileAt m.disk w'.key e → w'.key ≠ m.disk.ownKey rootClusterNumber →
    SeenSize m dirGarbage w size → clusterCount e.filesize % 256 ≤ size.toNat / clusterSize →
    e.filesize.toNat ≤ clusterSize
  copied : ∀ e, FileAt m.disk w.key e → m.disk.lookup rootClusterNumber w'.key = none →
    HasRoom m e → w.key ≠ m.disk.ownKey rootClusterNumber ∧ SeenSize m dirGarbage w e.filesize
  refused : (∀ e, FileAt m.disk w.key e → ¬ HasRoom m e) → ∀ size, SeenSize m dirGarbage w size →
    Taken m (request (fun _ => 0) w'.name rootClusterNumber size) ∨
      NoRoom m (request (fun _ => 0) w'.name rootClusterNumber size)

/-! ## The reads -/

/-- A byte has another one beside it. -/
theorem exists_other (b : UInt8) : ∃ v : UInt8, v ≠ b := by
  by_cases hb : b = 0
  · exact ⟨1, by rw [hb]; decide⟩
  · exact ⟨0, Ne.symm hb⟩

section Read
variable {m : Machine} {r : FAT32DriverRequest} (h : m.WellFormed)
  (hr : r.parentClusterNumber = rootClusterNumber) (hk : r.key ≠ 0)

include h hr hk in
/-- A READ in the root stores the clusters of a file, or nothing. -/
theorem root_read_cases :
    (∃ e, FileAt m.disk r.key e ∧ r.key ≠ m.disk.ownKey rootClusterNumber ∧
      clusterCount e.filesize % 256 ≤ r.bufferSize.toNat / clusterSize ∧
      ∃ buf, Fat32.read m r = .ok (0, buf) ∧
        ∀ j, buf j = if j < clusterSize * clusterCount e.filesize then
          m.disk.byteAlong (m.disk.clustersOf e) j else r.buf j) ∨
    ((∀ e, FileAt m.disk r.key e → r.key ≠ m.disk.ownKey rootClusterNumber →
        r.bufferSize.toNat / clusterSize < clusterCount e.filesize % 256) ∧
      ∃ code, Fat32.read m r = .ok (code, r.buf)) := by
  have hc : m.disk.Reachable r.parentClusterNumber := Disk.reachable_of_root _ hr
  by_cases ho : r.key = m.disk.ownKey rootClusterNumber
  · -- the root's own slot comes first, and is a folder
    have hfind := @find_own m r (by rw [ho, hr])
    have hfolder : ((m.disk.table r.parentClusterNumber).table 0).IsFolder :=
      (h.image.directory _ hc).selfFolder
    refine Or.inr ⟨fun e _ hne => absurd ho hne, 1, ?_⟩
    simp only [Fat32.read, parent_marked h hc, ne_eq, not_true_eq_false, if_false, readTable_eq,
      hfind]
    exact if_pos hfolder
  · have hread := read_slotOf h hc hk (by rw [hr]; exact ho)
    rw [hr] at hread
    cases he : m.disk.lookup rootClusterNumber r.key with
    | none =>
      rw [he] at hread
      refine Or.inr ⟨fun e hfile _ => ?_, 2, hread⟩
      cases he.symm.trans hfile.1
    | some e =>
      rw [he] at hread
      obtain ⟨i, _, hi, hl, hkey, rfl⟩ := Disk.lookup_some he
      by_cases hf : ((m.disk.table rootClusterNumber).table i).IsFolder
      · refine Or.inr ⟨fun e' hfile _ => ?_, 1, hread.trans (if_pos hf)⟩
        cases he.symm.trans hfile.1
        exact absurd hf hfile.2
      · have hnamed : NamedFile m rootClusterNumber i :=
          ⟨⟨Disk.reachable_root _, hi, hl⟩, hf, by rw [hkey]; exact ho⟩
        rcases read_file_cases h hnamed hr hkey.symm with ⟨hlt, hsmall⟩ | ⟨hle, hbuf⟩
        · refine Or.inr ⟨fun e' hfile _ => ?_, -1, hsmall⟩
          cases he.symm.trans hfile.1
          exact hlt
        · exact Or.inl ⟨_, ⟨he, hf⟩, ho, not_lt.mp hle, hbuf⟩

include h hr hk in
theorem root_read_ok : ∃ x, Fat32.read m r = .ok x := by
  rcases root_read_cases h hr hk with ⟨_, _, _, _, buf, hread, _⟩ | ⟨_, code, hread⟩
  · exact ⟨_, hread⟩
  · exact ⟨_, hread⟩

include h hr hk in
/-- Without a file that the name denotes for a READ, nothing is stored. -/
theorem root_read_nothing
    (hno : ∀ e, FileAt m.disk r.key e → r.key = m.disk.ownKey rootClusterNumber)
    {x : Int8 × Memory} (hx : Fat32.read m r = .ok x) : x.2 = r.buf := by
  rcases root_read_cases h hr hk with ⟨e, hfile, ho, _⟩ | ⟨_, code, hread⟩
  · exact absurd (hno e hfile) ho
  · rw [hread] at hx
    cases hx
    rfl

include h hr hk in
/-- When a READ in the root stays within one cluster. -/
theorem storesWithin_iff : StoresWithin m clusterSize r ↔
    ∀ e, FileAt m.disk r.key e → r.key ≠ m.disk.ownKey rootClusterNumber →
      clusterCount e.filesize % 256 ≤ r.bufferSize.toNat / clusterSize →
      e.filesize.toNat ≤ clusterSize := by
  constructor
  · intro hwithin e hfile ho hle
    by_contra hlarge
    -- a byte of the second cluster, in a buffer that holds another one there
    have hcount : clusterSize < clusterSize * clusterCount e.filesize := by
      simp only [clusterCount, clusterSize_eq] at hlarge ⊢
      omega
    obtain ⟨v, hv⟩ := exists_other (m.disk.byteAlong (m.disk.clustersOf e) clusterSize)
    have hcases := @root_read_cases m { r with buf := fun _ => v } h hr hk
    rcases hcases with ⟨e', hfile', _, _, buf, hread, hbuf⟩ | ⟨hsmall, _⟩
    · cases hfile.1.symm.trans hfile'.1
      have hsame := hwithin _ _ _ hread clusterSize (le_refl _)
      rw [hbuf, if_pos hcount] at hsame
      exact hv hsame.symm
    · exact absurd (hsmall e hfile ho) (not_lt.mpr hle)
  · intro hsmall buf code buf' hread i hi
    have hcases := @root_read_cases m { r with buf := buf } h hr hk
    rcases hcases with ⟨e, hfile, ho, hle, buf'', hread', hbuf⟩ | ⟨_, code', hread'⟩
    · rw [hread'] at hread
      cases hread
      have hsize := hsmall e hfile ho hle
      have hcount : ¬ i < clusterSize * clusterCount e.filesize := by
        simp only [clusterCount, clusterSize_eq] at hsize hi ⊢
        omega
      rw [hbuf, if_neg hcount]
    · rw [hread'] at hread
      cases hread
      rfl

end Read

/-! ## What is stored -/

section Stored
variable {m : Machine} {r : FAT32DriverRequest} {i : Fin 64} {e : FAT32DirectoryEntry}
  (h : m.WellFormed)

include h in
/-- A file and as many free clusters again are at most what a `uint8_t` counts. -/
theorem HasRoom.size {k : Key} (hfile : FileAt m.disk k e) (hroom : HasRoom m e) :
    e.filesize.toNat ≤ 255 * clusterSize := by
  obtain ⟨i, _, hi, hl, _, rfl⟩ := Disk.lookup_some hfile.1
  have hlive : m.disk.LiveAt rootClusterNumber i := ⟨Disk.reachable_root _, hi, hl⟩
  have he := h.image.entry _ i hlive
  -- cluster 0, the file's own clusters and the free ones are all different
  have hnodup : (0 :: (m.disk.clustersOf ((m.disk.table rootClusterNumber).table i) ++
      freeClusters m.fat)).Nodup := by
    refine List.nodup_cons.mpr ⟨fun hmem => ?_, List.nodup_append.mpr
      ⟨he.nodup, freeClusters_nodup m.fat, fun x hx y hy hxy => ?_⟩⟩
    · rcases List.mem_append.mp hmem with hx | hx
      · exact absurd (he.range 0 hx).1 (by decide)
      · exact absurd (free_unused h (mem_freeClusters.mp hx)).1.1 (by decide)
    · subst hxy
      exact (free_unused h (mem_freeClusters.mp hy)).2 ⟨_, i, hlive, hx⟩
  have hlen := Disk.chain_length_le hnodup fun x hx => by
    rcases List.mem_cons.mp hx with rfl | hx
    · decide
    rcases List.mem_append.mp hx with hx | hx
    · exact (he.range x hx).2
    · exact (free_unused h (mem_freeClusters.mp hx)).1.2
  have hspace := hroom.2
  rw [List.length_cons, List.length_append, he.length hfile.2] at hlen
  simp only [clusterCount, clusterSize_eq, clusterMapSize_eq] at hlen hspace ⊢
  omega

variable (hr : r.parentClusterNumber = rootClusterNumber)
  (hs : r.bufferSize.toNat ≤ 255 * clusterSize) (hst : Storable m r i)

include h hr hs hst in
theorem stored_lookup : (stored m r i).disk.lookup rootClusterNumber r.key =
    some (addedEntry m r) := by
  have hroot : m.disk.Reachable r.parentClusterNumber := Disk.reachable_of_root _ hr
  have hi := (vacantSlot_eq_some.mp hst.vacant).1
  have ht := @stored_parent_table m r i
  rw [hr] at ht
  refine lookup_of_slot (hst.wellFormed h hroot hs) hi ?_ addedEntry_live addedEntry_key
  rw [ht, FAT32DirectoryTable.set_same]

variable (h0 : r.bufferSize ≠ 0)

include h hr hs hst h0 in
theorem stored_content : (stored m r i).disk.content (addedEntry m r) =
    (List.range r.bufferSize.toNat).map r.buf := by
  have hfile : ¬ (addedEntry m r).IsFolder := mt addedEntry_folder.mp h0
  have hnode := stored_root_node h hr hs hst [r.key]
  rw [if_pos rfl, root_node, stored_lookup h hr hs hst, Option.map_some, Disk.nodeOf,
    if_neg hfile, FAT32DriverRequest.node, if_neg h0] at hnode
  exact Node.file.inj (Option.some.inj hnode)

include h hr hst hs h0 in
/-- A WRITE of the bytes of a file copies it. -/
theorem CopiedTo.of_stored (hsize : r.bufferSize = e.filesize)
    (hbytes : ∀ (j : Nat) (hj : j < (m.disk.content e).length), r.buf j = (m.disk.content e)[j]) :
    CopiedTo m (stored m r i) r.key e := by
  have hroot : m.disk.Reachable r.parentClusterNumber := Disk.reachable_of_root _ hr
  refine ⟨⟨addedEntry m r, ⟨stored_lookup h hr hs hst, mt addedEntry_folder.mp h0⟩,
    addedEntry_filesize.trans hsize, ?_⟩, fun p hp => ?_, fun c j hl => ?_⟩
  · rw [stored_content h hr hs hst h0, hsize]
    refine List.ext_getElem ?_ fun j hj hj' => ?_
    · rw [List.length_map, List.length_range, Disk.content_length]
    · rw [List.getElem_map, List.getElem_range]
      exact hbytes j hj'
  · rw [stored_root_node h hr hs hst, if_neg hp]
  · exact stored_liveAt h hs hst.space (Disk.dirAt_root _ hr) (hst.named h hroot) hst.vacant
      hst.lookup hl

end Stored

/-! ## The requests of `cp` -/

section Requests
variable {m m' : Machine} {dirGarbage garbage : Memory} {s : ShellState} {w w' : Word}
  {e : FAT32DirectoryEntry} (h : m.WellFormed)
  (hname : ((m.disk.table rootClusterNumber).table 0).name = rootName)
  (hs : s.currentDirectory = initialShell.currentDirectory)

theorem namedSize_iff_seen {size : UInt32} :
    namedSize (seenTable m dirGarbage) w = size ↔ SeenSize m dirGarbage w size := namedSize_iff

/-- The claimed buffer is never too small. -/
theorem claimed_enough (size : UInt32) : clusterCount size % 256 ≤
    (sourceRequest garbage w).bufferSize.toNat / clusterSize := by
  have hclusters : (sourceRequest garbage w).bufferSize.toNat / clusterSize = 512 :=
    (by decide : (0x100000 : UInt32).toNat / clusterSize = 512)
  omega

include h in
theorem source_read_ok : ∃ x, Fat32.read m (sourceRequest garbage w) = .ok x :=
  root_read_ok h rfl w.key_ne_zero

include h in
theorem destination_read_ok (buf : Memory) :
    ∃ y, Fat32.read m (destinationRequest m dirGarbage buf w w') = .ok y :=
  root_read_ok h rfl w'.key_ne_zero

include h in
/-- The READ of a file under a name that is not the root's own returns its bytes. -/
theorem source_read (hfile : FileAt m.disk w.key e)
    (ho : w.key ≠ m.disk.ownKey rootClusterNumber) {x : Int8 × Memory}
    (hx : Fat32.read m (sourceRequest garbage w) = .ok x) :
    ∀ (j : Nat) (hj : j < (m.disk.content e).length), x.2 j = (m.disk.content e)[j] := by
  have hcases := @root_read_cases m (sourceRequest garbage w) h rfl w.key_ne_zero
  rcases hcases with ⟨e', hfile', _, _, buf, hread, hbuf⟩ | ⟨hsmall, _⟩
  · cases hfile.1.symm.trans hfile'.1
    rw [hread] at hx
    cases hx
    intro j hj
    have hlt : j < e.filesize.toNat := by
      rw [← Disk.content_length]
      exact hj
    have hin : j < clusterSize * clusterCount e.filesize := by
      simp only [clusterCount, clusterSize_eq]
      omega
    refine (hbuf j).trans ((if_pos hin).trans ?_)
    simp [Disk.content]
  · exact absurd (hsmall e hfile ho) (not_lt.mpr (claimed_enough e.filesize))

include h in
/-- A destination without an entry leaves the buffer to the WRITE. -/
theorem destination_read_absent (habsent : m.disk.lookup rootClusterNumber w'.key = none)
    {buf : Memory} {y : Int8 × Memory}
    (hy : Fat32.read m (destinationRequest m dirGarbage buf w w') = .ok y) : y.2 = buf := by
  refine @root_read_nothing m (destinationRequest m dirGarbage buf w w') h rfl w'.key_ne_zero
    (fun e hfile => ?_) y hy
  cases habsent.symm.trans hfile.1

include h hname hs in
/-- The READ requests of `cp`. -/
theorem cp_reads {x : Int8 × Memory} (hx : Fat32.read m (sourceRequest garbage w) = .ok x)
    {r : FAT32DriverRequest} : .read r ∈ (cp m dirGarbage garbage s w w').1 ↔
      r = sourceRequest garbage w ∨ r = destinationRequest m dirGarbage x.2 w w' := by
  obtain ⟨hreq, hcur, hparent⟩ := @root_requests garbage s w hs
  have hseen := readDirectory_seen h hname dirGarbage
  have hdest : request x.2 w'.name rootClusterNumber (namedSize (seenTable m dirGarbage) w) =
      destinationRequest m dirGarbage x.2 w w' := rfl
  simp only [cp, hreq, hcur, hparent, hseen, hx, hdest]
  obtain ⟨y, hy⟩ := @destination_read_ok m dirGarbage w w' h x.2
  simp [hy]

end Requests

/-! ## The two directions -/

section Copy
variable {m : Machine} {dirGarbage : Memory} {s : ShellState} {w w' : Word}
  (h : m.WellFormed) (hname : ((m.disk.table rootClusterNumber).table 0).name = rootName)
  (hs : s.currentDirectory = initialShell.currentDirectory)

section Works
variable (hworks : CpWorks m dirGarbage s w w')

include h hname hs hworks in
/-- The new entry of a copy was written: with the size that `cp` saw, and the bytes of
its buffer. -/
theorem CpWorks.written {garbage : Memory} {e : FAT32DirectoryEntry}
    (hfile : FileAt m.disk w.key e) (habsent : m.disk.lookup rootClusterNumber w'.key = none)
    (hroom : HasRoom m e) {x : Int8 × Memory}
    (hx : Fat32.read m (sourceRequest garbage w) = .ok x) :
    SeenSize m dirGarbage w e.filesize ∧
      (List.range e.filesize.toNat).map x.2 = m.disk.content e := by
  obtain ⟨m', hcp, ⟨e', hfile', hsize, hcontent⟩, _⟩ :=
    hworks.copies garbage e hfile habsent hroom
  obtain ⟨x', hx', y, hy, code, hw⟩ := (cp_ok_iff h hname hs).mp hcp
  cases hx.symm.trans hx'
  have hbuf : y.2 = x.2 := destination_read_absent h habsent hy
  have hmarked := parent_marked h (Disk.reachable_root m.disk)
  rcases write_ok hmarked hw with ⟨_, rfl, _⟩ | ⟨_, i, hst, _, rfl⟩
  · cases habsent.symm.trans hfile'.1
  · have hadded : e' = addedEntry m (destinationRequest m dirGarbage y.2 w w') := by
      obtain ⟨j, _, hj, _, hkey, ht⟩ := Disk.lookup_some hfile'.1
      rw [← ht] at hkey ⊢
      exact stored_slot_eq hst hj hkey
    subst hadded
    have hseen : namedSize (seenTable m dirGarbage) w = e.filesize :=
      addedEntry_filesize.symm.trans hsize
    have hn : (destinationRequest m dirGarbage y.2 w w').bufferSize = e.filesize := hseen
    have h0 : (destinationRequest m dirGarbage y.2 w w').bufferSize ≠ 0 :=
      mt addedEntry_folder.mpr hfile'.2
    have hall :
        (destinationRequest m dirGarbage y.2 w w').bufferSize.toNat ≤ 255 * clusterSize := by
      rw [hn]
      exact hroom.size h hfile
    refine ⟨namedSize_iff_seen.mp hseen, ?_⟩
    rw [stored_content h rfl hall hst h0, hn, destinationRequest_buf, hbuf] at hcontent
    exact hcontent

include h hname hs hworks in
/-- So the source was read. -/
theorem CpWorks.copied {e : FAT32DirectoryEntry} (hfile : FileAt m.disk w.key e)
    (habsent : m.disk.lookup rootClusterNumber w'.key = none) (hroom : HasRoom m e) :
    w.key ≠ m.disk.ownKey rootClusterNumber ∧ SeenSize m dirGarbage w e.filesize := by
  refine ⟨fun ho => ?_, ?_⟩
  · -- a buffer whose first byte is another one
    obtain ⟨v, hv⟩ := exists_other ((m.disk.content e).getD 0 0)
    obtain ⟨x, hx⟩ := @source_read_ok m (fun _ => v) w h
    have hbytes := (CpWorks.written h hname hs hworks hfile habsent hroom hx).2
    have hbuf : x.2 = fun _ => v := @root_read_nothing m (sourceRequest (fun _ => v) w) h rfl
      w.key_ne_zero (fun _ _ => ho) x hx
    rw [hbuf] at hbytes
    obtain ⟨n, hn⟩ : ∃ n, e.filesize.toNat = n + 1 :=
      Nat.exists_eq_succ_of_ne_zero fun h0 =>
        source_filesize h hfile.1 hfile.2 (UInt32.toNat_inj.mp h0)
    rw [← hbytes, hn, List.range_succ_eq_map] at hv
    exact hv rfl
  · obtain ⟨x, hx⟩ := @source_read_ok m (fun _ => 0) w h
    exact (CpWorks.written h hname hs hworks hfile habsent hroom hx).1

include h hname hs hworks in
/-- A WRITE that is not turned down stores an entry. -/
theorem CpWorks.refused (hno : ∀ e, FileAt m.disk w.key e → ¬ HasRoom m e) {size : UInt32}
    (hseen : SeenSize m dirGarbage w size) :
    Taken m (request (fun _ => 0) w'.name rootClusterNumber size) ∨
      NoRoom m (request (fun _ => 0) w'.name rootClusterNumber size) := by
  obtain ⟨m', hcp, hsame⟩ := hworks.nothing (fun _ => 0) hno
  obtain ⟨x, _, y, _, code, hw⟩ := (cp_ok_iff h hname hs).mp hcp
  rw [← namedSize_iff_seen.mpr hseen]
  have hmarked := parent_marked h (Disk.reachable_root m.disk)
  rcases write_ok hmarked hw with ⟨_, _, hno⟩ | ⟨_, i, hst, _, rfl⟩
  · exact hno
  · have hnode := congrFun hsame [w'.key]
    have hnone : m.disk.lookup rootClusterNumber w'.key = none := hst.lookup
    rw [root_node, root_node, hnone, Option.map_none, Option.map_eq_none_iff] at hnode
    -- the slot that was vacant holds the name now
    obtain ⟨hi, _⟩ := vacantSlot_eq_some.mp hst.vacant
    have ht := @stored_parent_table m (destinationRequest m dirGarbage y.2 w w') i
    have hslot : ((stored m (destinationRequest m dirGarbage y.2 w w') i).disk.table
        rootClusterNumber).table i = addedEntry m (destinationRequest m dirGarbage y.2 w w') :=
      (congrArg (fun t => t.table i) ht).trans (FAT32DirectoryTable.set_same _ _ _)
    refine absurd (hslot ▸ addedEntry_key) (Disk.lookup_none.mp hnode i hi ?_)
    rw [hslot]
    exact addedEntry_live

include h hname hs hworks in
theorem CpWorks.safe : CpSafe m dirGarbage w w' := by
  obtain ⟨x, hx⟩ := @source_read_ok m (fun _ => 0) w h
  refine ⟨fun e hfile ho => ?_, fun e size hfile ho hseen hle => ?_,
    fun e => CpWorks.copied h hname hs hworks,
    fun hno size => CpWorks.refused h hname hs hworks hno⟩
  · have hfits := hworks.fits _ _ ((cp_reads h hname hs hx).mpr (Or.inl rfl))
    exact (@storesWithin_iff m (sourceRequest (fun _ => 0) w) h rfl w.key_ne_zero).mp hfits e hfile
      ho (claimed_enough e.filesize)
  · have hfits := hworks.fits _ _ ((cp_reads h hname hs hx).mpr (Or.inr rfl))
    refine (@storesWithin_iff m (destinationRequest m dirGarbage x.2 w w') h rfl
      w'.key_ne_zero).mp hfits e hfile ho ?_
    rw [destinationRequest_size, namedSize_iff_seen.mpr hseen]
    exact hle

end Works

section Safe
variable (hsafe : CpSafe m dirGarbage w w')

include h hname hs hsafe in
theorem CpSafe.copies (garbage : Memory) {e : FAT32DirectoryEntry} (hfile : FileAt m.disk w.key e)
    (habsent : m.disk.lookup rootClusterNumber w'.key = none) (hroom : HasRoom m e) :
    ∃ m', (cp m dirGarbage garbage s w w').2 = .ok m' ∧ CopiedTo m m' w'.key e := by
  obtain ⟨ho, hseen⟩ := hsafe.copied e hfile habsent hroom
  have h0 := source_filesize h hfile.1 hfile.2
  obtain ⟨x, hx⟩ := @source_read_ok m garbage w h
  obtain ⟨y, hy⟩ := @destination_read_ok m dirGarbage w w' h x.2
  have hbuf : y.2 = x.2 := destination_read_absent h habsent hy
  have hn : (destinationRequest m dirGarbage y.2 w w').bufferSize = e.filesize :=
    (destinationRequest_size ..).trans (namedSize_iff_seen.mpr hseen)
  have hall : (destinationRequest m dirGarbage y.2 w w').bufferSize.toNat ≤ 255 * clusterSize := by
    rw [hn]
    exact hroom.size h hfile
  have hreq : required (destinationRequest m dirGarbage y.2 w w') = clusterCount e.filesize := by
    rw [required_eq hall, hn, if_neg h0]
  obtain ⟨i, hst⟩ := @storable_of_absent m h (destinationRequest m dirGarbage y.2 w w') rfl
    w'.key_ne_zero habsent hroom.1 (by rw [hreq]; exact hroom.2)
  have hmarked := parent_marked h (Disk.reachable_root m.disk)
  have hw := write_stores (r := destinationRequest m dirGarbage y.2 w w') hmarked hst.free
    hst.vacant (required_pos hall) hst.space
  refine ⟨_, (cp_ok_iff h hname hs).mpr ⟨x, hx, y, hy, _, hw⟩, ?_⟩
  refine CopiedTo.of_stored h rfl hall hst (hn ▸ h0) hn fun j hj => ?_
  rw [destinationRequest_buf, hbuf]
  exact source_read h hfile ho hx j hj

include h hname hs hsafe in
theorem CpSafe.nothing (garbage : Memory) (hno : ∀ e, FileAt m.disk w.key e → ¬ HasRoom m e) :
    ∃ m', (cp m dirGarbage garbage s w w').2 = .ok m' ∧
      m'.disk.graph.node m'.disk.content = m.disk.graph.node m.disk.content := by
  obtain ⟨x, hx⟩ := @source_read_ok m garbage w h
  obtain ⟨y, hy⟩ := @destination_read_ok m dirGarbage w w' h x.2
  have hmarked := parent_marked h (Disk.reachable_root m.disk)
  obtain ⟨code, hw⟩ := write_turned_down (r := destinationRequest m dirGarbage y.2 w w') hmarked
    (hsafe.refused hno _ (namedSize_iff_seen.mp rfl))
  exact ⟨m, (cp_ok_iff h hname hs).mpr ⟨x, hx, y, hy, code, hw⟩, rfl⟩

include h hname hs hsafe in
theorem CpSafe.works : CpWorks m dirGarbage s w w' := by
  refine ⟨fun garbage e => CpSafe.copies h hname hs hsafe garbage,
    fun garbage => CpSafe.nothing h hname hs hsafe garbage, fun garbage r hr => ?_⟩
  obtain ⟨x, hx⟩ := @source_read_ok m garbage w h
  rcases (cp_reads h hname hs hx).mp hr with rfl | rfl
  · exact (@storesWithin_iff m (sourceRequest garbage w) h rfl w.key_ne_zero).mpr
      fun e hfile ho _ => hsafe.source e hfile ho
  · refine (@storesWithin_iff m (destinationRequest m dirGarbage x.2 w w') h rfl
      w'.key_ne_zero).mpr fun e hfile ho hle => ?_
    exact hsafe.destination e _ hfile ho (namedSize_iff_seen.mp rfl) hle

end Safe

end Copy

/-- **When a copy is one.** In the root, for every two names and whatever the buffers held,
`cp` copies or does nothing within its buffer exactly in the safe states. -/
theorem cp_works_iff {m : Machine} {s : ShellState} (dirGarbage : Memory) (w w' : Word)
    (h : m.WellFormed) (hname : ((m.disk.table rootClusterNumber).table 0).name = rootName)
    (hs : s.currentDirectory = initialShell.currentDirectory) :
    CpWorks m dirGarbage s w w' ↔ CpSafe m dirGarbage w w' :=
  ⟨CpWorks.safe h hname hs, CpSafe.works h hname hs⟩

/-! ## The file `a`, and a root without it -/

theorem cp_works_rooted : CpWorks aMachine (fun _ => 0) initialShell aWord bWord := by
  have hst : Storable aMachine bFolder 3 := two_second aFile_bFolder
  have hown : aMachine.disk.ownKey rootClusterNumber = ⟨rootName, fun _ => 0⟩ := by
    rw [Disk.ownKey, aMachine_table, FAT32DirectoryTable.set_other _ _ (by decide)]
    rfl
  have hfile : ¬ (addedEntry (rootedMachine rootName) aFile).IsFolder :=
    mt addedEntry_folder.mp (by decide)
  have hentry : ∀ e, FileAt aMachine.disk aWord.key e →
      e = addedEntry (rootedMachine rootName) aFile := by
    intro e he
    exact Option.some.inj (he.1.symm.trans aMachine_source)
  have habsent : aMachine.disk.lookup rootClusterNumber bWord.key = none := hst.lookup
  have hroom : HasRoom aMachine (addedEntry (rootedMachine rootName) aFile) := by
    refine ⟨fun hnone => ?_, ?_⟩
    · cases hst.vacant.symm.trans hnone
    · have hspace := hst.space
      rw [required_folder rfl] at hspace
      exact hspace
  refine (cp_works_iff _ _ _ aMachine_wellFormed (congrArg Key.name hown) rfl).mpr
    ⟨fun e he _ => ?_, fun e _ he => ?_, fun e he _ _ => ⟨?_, Or.inl ?_⟩, fun hno => ?_⟩
  · rw [hentry e he]
    exact (by decide : (1 : UInt32).toNat ≤ clusterSize)
  · cases habsent.symm.trans he.1
  · rw [hown]
    decide
  · rw [hentry e he]
    exact aMachine_size _
  · exact absurd hroom (hno _ ⟨aMachine_source, hfile⟩)

/-- Copying a file that is not there makes a folder. -/
theorem cp_missing_stores : (rootedMachine rootName).WellFormed ∧
    (((rootedMachine rootName).disk.table rootClusterNumber).table 0).name = rootName ∧
    (rootedMachine rootName).disk.lookup rootClusterNumber aWord.key = none ∧
    ¬ CpWorks (rootedMachine rootName) (fun _ => 0) initialShell aWord bWord := by
  have h := rootedMachine_wellFormed rootName
  have hname : (((rootedMachine rootName).disk.table rootClusterNumber).table 0).name = rootName :=
    congrArg Key.name (rooted_ownKey rootName)
  have hmissing : (rootedMachine rootName).disk.lookup rootClusterNumber aWord.key = none :=
    rootedDisk_lookup rootName _
  refine ⟨h, hname, hmissing, fun hworks => ?_⟩
  have hseen : SeenSize (rootedMachine rootName) (fun _ => 0) aWord 0 := by
    refine Or.inr ⟨fun i hi => ?_, rfl⟩
    have hzero :
        (((rootedMachine rootName).disk.table rootClusterNumber).table 0).filesize = 0 := by
      show (((rootedDisk rootName).table rootClusterNumber).table 0).filesize = 0
      rw [rootedDisk_table]
      rfl
    have hslot : (FAT32DirectoryTable.ofBytes (seenTable (rootedMachine rootName)
        (fun _ => 0))).table i = 0 := by
      rw [seenTable, if_pos hzero, table_read]
      exact rootedDisk_empty rootName i (ne_zero_of_slot hi)
    unfold named
    rw [hslot]
    rfl
  have hst : Storable (rootedMachine rootName) bFolder 2 :=
    rooted_storable rfl aFile_bFolder.key'
  have hrefused := (CpWorks.safe h hname rfl hworks).refused
    (fun e he => by cases hmissing.symm.trans he.1) 0 hseen
  rcases hrefused with ⟨j, hj, hkey⟩ | hvacant | hspace
  · exact hst.free j hj hkey
  · cases hst.vacant.symm.trans hvacant
  · exact absurd hst.space (not_le.mpr hspace)

end KajijOSta.Shell
