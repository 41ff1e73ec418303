import KajijOSta.Fat32.Refinement
import KajijOSta.Fat32.Names
import KajijOSta.Shell.Navigation

/-! # Moving a file

`mv` reads the source, writes the destination and deletes the source, whatever
came of the write: the `flag` that should tell whether the destination exists
never changes. What is left of the file is then a matter of the state `mv`
started in (`mv_keeps_iff`). -/
namespace KajijOSta.Shell
open KajijOSta.Fat32 KajijOSta.NamedTree KajijOSta.LinkedChain KajijOSta.Runs

def Word.key (w : Word) : Key := ⟨w.name, fun _ => 0⟩

theorem Word.key_ne_zero (w : Word) : w.key ≠ 0 :=
  fun h => w.name_ne_zero (congrArg Key.name h)

/-- The file `bytes` is found under the name `k` in the root: on its path, and by
a `read` into a buffer of one cluster or more. -/
structure Found (m : Machine) (bytes : List UInt8) (k : Key) : Prop where
  node : m.disk.graph.node m.disk.content [k] = some (.file bytes)
  read : ∀ r : FAT32DriverRequest, r.parentClusterNumber = rootClusterNumber → r.key = k →
    clusterSize ≤ r.bufferSize.toNat →
    ∃ buf, Fat32.read m r = .ok (0, buf) ∧ ∀ (i : Nat) (hi : i < bytes.length), buf i = bytes[i]

/-- `mv` returns, the file is found under one of the two names, and where the
source has gone, under the destination. -/
def MvKeeps (m : Machine) (dirGarbage garbage : Memory) (s : ShellState) (w w' : Word)
    (bytes : List UInt8) : Prop :=
  ∃ m', (mv m dirGarbage garbage s w w').2 = .ok m' ∧
    (Found m' bytes w.key ∨ Found m' bytes w'.key) ∧
    (m'.disk.lookup rootClusterNumber w.key = none → Found m' bytes w'.key)

/-- What READ_DIR with a buffer size of 0 leaves in the table of `mv`: the root's
table, if its own entry has size 0, else what was there before. -/
def seenTable (m : Machine) (garbage : Memory) : Memory :=
  if ((m.disk.table rootClusterNumber).table 0).filesize = 0 then
    readClusters m.disk garbage rootClusterNumber 1
  else garbage

/-- The last slot named by the word has this size. -/
def LastNamed (buf : Memory) (w : Word) (size : UInt32) : Prop :=
  ∃ i, 2 ≤ i ∧ named buf w i = true ∧ (∀ j, i < j → named buf w j = false) ∧
    ((FAT32DirectoryTable.ofBytes buf).table i).filesize = size

/-- There is room for the destination and `mv` sees the size of the source. -/
structure MvRoom (m : Machine) (dirGarbage : Memory) (w w' : Word) (e : FAT32DirectoryEntry) :
    Prop where
  absent : m.disk.lookup rootClusterNumber w'.key = none
  slot : vacantSlot (m.disk.table rootClusterNumber) ≠ none
  space : freeClusters m.fat ≠ []
  size : LastNamed (seenTable m dirGarbage) w e.filesize

/-- Neither name is the root's own, and the destination has the bytes already or
can be stored. -/
structure MvSafe (m : Machine) (dirGarbage : Memory) (w w' : Word) (e : FAT32DirectoryEntry) :
    Prop where
  source : w.key ≠ m.disk.ownKey rootClusterNumber
  destination : w'.key ≠ m.disk.ownKey rootClusterNumber
  stays : m.disk.graph.node m.disk.content [w'.key] = some (.file (m.disk.content e)) ∨
    MvRoom m dirGarbage w w' e

/-! ## What is found by a read -/

section Found
variable {m : Machine} {k : Key} {bytes : List UInt8}

/-- The node of a name in the root is its entry. -/
theorem root_node (d : Disk) (k : Key) :
    d.graph.node d.content [k] = (d.lookup rootClusterNumber k).map d.nodeOf := by
  rw [Disk.node_cons, show d.entryAt [k] = d.lookup rootClusterNumber k from
    Graph.entryAt_cons (Graph.dirAt_nil _)]

theorem tree_node_eq {d : Disk} (h : d.WellFormed) (q : List Key) :
    (d.tree h).node q = d.graph.node d.content q := rfl

/-- A file of one cluster under a name that reads do not take for another is
found. -/
theorem found_of_node (h : m.WellFormed) (hk : k ≠ 0)
    (ho : k ≠ m.disk.ownKey rootClusterNumber)
    (hn : m.disk.graph.node m.disk.content [k] = some (.file bytes))
    (hb : bytes.length ≤ clusterSize) : Found m bytes k := by
  refine ⟨hn, fun r hp hr hsize => ?_⟩
  have hdir : m.disk.dirAt [] = some r.parentClusterNumber := Disk.dirAt_root _ hp
  obtain ⟨reply, hserve, ha⟩ := read_answers h hdir 0 (hr ▸ hk) (by rw [hr, hp]; exact ho)
  have hcl : clusterSize * clustersHolding bytes.length ≤ r.bufferSize.toNat := by
    simp only [clustersHolding, clusterSize_eq] at hb hsize ⊢
    omega
  obtain ⟨hcode, hbuf⟩ := ha.read_bytes (hr ▸ hk) (hr ▸ hn) hcl
  cases hread : Fat32.read m r with
  | error f => simp [serve, hread, Except.map] at hserve
  | ok x =>
    simp only [serve, hread, Except.map, Except.ok.injEq, Prod.mk.injEq, and_true] at hserve
    rw [← hserve] at hcode hbuf
    exact ⟨x.2, by rw [← hcode], hbuf⟩

/-- Nothing is found under the name of the root's own slot: a read takes it for
the folder. -/
theorem own_not_found (hslot : ((m.disk.table rootClusterNumber).table 0).IsFolder) :
    ¬ Found m bytes (m.disk.ownKey rootClusterNumber) := by
  intro hf
  obtain ⟨r, hp, hk, hsize⟩ : ∃ r : FAT32DriverRequest, r.parentClusterNumber = rootClusterNumber ∧
      r.key = m.disk.ownKey rootClusterNumber ∧ clusterSize ≤ r.bufferSize.toNat :=
    ⟨⟨fun _ => 0, _, _, _, 2048⟩, rfl, rfl, (by decide : clusterSize ≤ (2048 : UInt32).toNat)⟩
  obtain ⟨buf, hread, _⟩ := hf.read r hp hk hsize
  cases hm : m.fat.get? r.parentClusterNumber with
  | none => simp [Fat32.read, hm] at hread
  | some v =>
    by_cases hv : v = fat32FatEndOfFile
    · have hfind := @find_own m r (hk.trans (by rw [hp]))
      have hentry : Fat32.read m r = .ok (1, r.buf) := by
        simp only [Fat32.read, hm, hv, ne_eq, not_true_eq_false, if_false, readTable_eq, hfind]
        refine if_pos ?_
        rw [hp]
        exact hslot
      rw [hentry] at hread
      cases hread
    · simp [Fat32.read, hm, hv] at hread

/-- Nothing is found where the root is not marked. -/
theorem unmarked_not_found {v : UInt32} (hm : m.fat.get? rootClusterNumber = some v)
    (hv : v ≠ fat32FatEndOfFile) : ¬ Found m bytes k := by
  intro hf
  obtain ⟨buf, hread, _⟩ := hf.read ⟨fun _ => 0, k.name, k.ext, rootClusterNumber, 2048⟩ rfl rfl
    (by decide : clusterSize ≤ (2048 : UInt32).toNat)
  simp [Fat32.read, hm, hv] at hread

/-- Deleting an entry of the root leaves what the other names denote. -/
theorem deleted_root_node {q : FAT32DriverRequest} {i : Fin 64} (h : m.WellFormed)
    (hq : q.parentClusterNumber = rootClusterNumber)
    (hslot : m.disk.slotOf rootClusterNumber q.key = some i) (hne : k ≠ q.key) :
    (deleted m q i).WellFormed ∧
    (deleted m q i).disk.graph.node (deleted m q i).disk.content [k] =
      m.disk.graph.node m.disk.content [k] := by
  obtain ⟨hi, hl, hk⟩ := Disk.slotOf_some hslot
  have hp : m.disk.dirAt [] = some q.parentClusterNumber := Disk.dirAt_root _ hq
  rw [← hq] at hl hk
  have h' := deleted_wellFormed h hp hi hl
  have hnot : ¬ [q.key] <:+ [k] := fun hsuf =>
    hne (List.cons.inj (List.IsSuffix.eq_of_length hsuf rfl)).1.symm
  refine ⟨h', ?_⟩
  rw [← tree_node_eq h'.image, deleted_tree h hp hi hl h'.image, hk]
  exact if_neg hnot

/-- After a write, the slot of the name is the new entry. -/
theorem stored_slot_eq {r : FAT32DriverRequest} {i j : Fin 64} (hst : Storable m r j) (hi : 2 ≤ i)
    (hki : (((stored m r j).disk.table r.parentClusterNumber).table i).key = r.key) :
    ((stored m r j).disk.table r.parentClusterNumber).table i = addedEntry m r := by
  rw [stored_parent_table] at hki ⊢
  by_cases hij : i = j
  · rw [hij, FAT32DirectoryTable.set_same]
  · rw [FAT32DirectoryTable.set_other _ _ hij] at hki
    exact absurd hki (hst.free i hi)

/-- Files of one content have one size. -/
theorem filesize_of_node {d d' : Disk} {e e' : FAT32DirectoryEntry}
    (hn : d'.nodeOf e' = .file (d.content e)) : e'.filesize = e.filesize := by
  have hfile : ¬ e'.IsFolder := by
    intro hf
    rw [Disk.nodeOf, if_pos hf] at hn
    cases hn
  rw [Disk.nodeOf, if_neg hfile, Node.file.injEq] at hn
  have hlen := congrArg List.length hn
  rw [Disk.content_length, Disk.content_length] at hlen
  exact UInt32.toNat_inj.mp hlen

end Found

/-! ## The size `mv` sees -/

section Size
variable {buf : Memory} {w : Word}

/-- The size is that of the last slot of the name, or 0. -/
theorem namedSize_iff {size : UInt32} : namedSize buf w = size ↔ LastNamed buf w size ∨
    (∀ i, 2 ≤ i → named buf w i = false) ∧ 0 = size := by
  unfold namedSize
  rw [Scan.foldl_eq_iff dataSlots_sorted]
  simp only [mem_dataSlots]
  refine or_congr_left ⟨fun hcase => ?_, fun hcase => ?_⟩
  · obtain ⟨i, hi, hn, hlast, hsize⟩ := hcase
    exact ⟨i, hi, hn, fun j hj => hlast j (hi.trans hj.le) hj, hsize⟩
  · obtain ⟨i, hi, hn, hlast, hsize⟩ := hcase
    exact ⟨i, hi, hn, fun j _ hj => hlast j hj, hsize⟩

theorem namedSize_eq_iff {size : UInt32} (h0 : size ≠ 0) :
    namedSize buf w = size ↔ LastNamed buf w size := by
  rw [namedSize_iff]
  exact or_iff_left fun hnone => h0 hnone.2.symm

/-- READ_DIR of the root's name stops at the root's own slot. -/
theorem readDirectory_seen {m : Machine} (h : m.WellFormed)
    (hname : ((m.disk.table rootClusterNumber).table 0).name = rootName) (buf : Memory) :
    (readDirectory m (request buf rootName rootClusterNumber 0)).2 = seenTable m buf := by
  have hdir := h.image.directory _ (Disk.reachable_root m.disk)
  have hfolder := hdir.selfFolder
  have hr := readDirectory_first (m := m) (r := request buf rootName rootClusterNumber 0)
    (i := 0) hname (fun j hj => absurd hj (Fin.not_lt_zero j))
  have hr := hr.trans (if_neg (folder_attr hfolder))
  unfold seenTable
  by_cases h0 : ((m.disk.table rootClusterNumber).table 0).filesize = 0
  · have hle : ¬ (0 : UInt32) < ((m.disk.table rootClusterNumber).table 0).filesize := by
      rw [h0]
      decide
    rw [if_pos h0, hr.trans (if_neg hle)]
    show readClusters m.disk buf ((m.disk.table rootClusterNumber).table 0).cluster 1 = _
    rw [hdir.selfCluster]
  · have hlt : (0 : UInt32) < ((m.disk.table rootClusterNumber).table 0).filesize :=
      UInt32.pos_iff_ne_zero.mpr h0
    rw [if_neg h0, hr.trans (if_pos hlt)]
    rfl

end Size

/-! ## The requests of `mv` -/

def sourceRequest (garbage : Memory) (w : Word) : FAT32DriverRequest :=
  request garbage w.name rootClusterNumber 0x100000

def destinationRequest (m : Machine) (dirGarbage buf : Memory) (w w' : Word) :
    FAT32DriverRequest :=
  request buf w'.name rootClusterNumber (namedSize (seenTable m dirGarbage) w)

theorem destinationRequest_size (m : Machine) (dirGarbage buf : Memory) (w w' : Word) :
    (destinationRequest m dirGarbage buf w w').bufferSize =
      namedSize (seenTable m dirGarbage) w := rfl

theorem destinationRequest_buf (m : Machine) (dirGarbage buf : Memory) (w w' : Word) :
    (destinationRequest m dirGarbage buf w w').buf = buf := rfl

section Requests
variable {m m' : Machine} {dirGarbage garbage : Memory} {s : ShellState} {w w' : Word}
  (h : m.WellFormed) (hname : ((m.disk.table rootClusterNumber).table 0).name = rootName)
  (hs : s.currentDirectory = initialShell.currentDirectory)

include hs in
/-- In the root the requests are those about it. -/
theorem root_requests : fileRequest s garbage w = sourceRequest garbage w ∧
    s.currentDirectory.name = rootName ∧
    s.currentDirectory.parentClusterNumber = rootClusterNumber := by
  unfold fileRequest sourceRequest
  rw [hs]
  exact ⟨rfl, rfl, rfl⟩

include h hname hs in
/-- `cp` in the root: two reads and a write, whatever their codes. -/
theorem cp_eq : (cp m dirGarbage garbage s w w').2 =
    (do let x ← Fat32.read m (sourceRequest garbage w)
        let y ← Fat32.read m (destinationRequest m dirGarbage x.2 w w')
        let z ← write m (destinationRequest m dirGarbage y.2 w w')
        return z.2) := by
  obtain ⟨hreq, hcur, hparent⟩ := @root_requests garbage s w hs
  have hseen := readDirectory_seen h hname dirGarbage
  have hdest : ∀ buf, request buf w'.name rootClusterNumber
      (namedSize (seenTable m dirGarbage) w) = destinationRequest m dirGarbage buf w w' :=
    fun _ => rfl
  simp only [cp, hreq, hcur, hparent, hseen, hdest]
  cases Fat32.read m (sourceRequest garbage w) with
  | error f => rfl
  | ok x =>
    simp only [bind, Except.bind]
    cases Fat32.read m (destinationRequest m dirGarbage x.2 w w') with
    | error f => rfl
    | ok y =>
      have hwr : { destinationRequest m dirGarbage x.2 w w' with buf := y.2 } =
          destinationRequest m dirGarbage y.2 w w' := rfl
      simp only [hwr]
      cases write m (destinationRequest m dirGarbage y.2 w w') <;> rfl

include h hname hs in
theorem cp_ok_iff : (cp m dirGarbage garbage s w w').2 = .ok m' ↔
    ∃ x, Fat32.read m (sourceRequest garbage w) = .ok x ∧
    ∃ y, Fat32.read m (destinationRequest m dirGarbage x.2 w w') = .ok y ∧
    ∃ code, write m (destinationRequest m dirGarbage y.2 w w') = .ok (code, m') := by
  rw [cp_eq h hname hs]
  simp only [bind_eq_ok, pure, Except.pure, Except.ok.injEq, Prod.exists, exists_eq_right]

include h hname hs in
/-- And `mv` then deletes the source. -/
theorem mv_ok_iff : (mv m dirGarbage garbage s w w').2 = .ok m' ↔
    ∃ x, Fat32.read m (sourceRequest garbage w) = .ok x ∧
    ∃ y, Fat32.read m (destinationRequest m dirGarbage x.2 w w') = .ok y ∧
    ∃ z, write m (destinationRequest m dirGarbage y.2 w w') = .ok z ∧
    ∃ code, delete z.2 (sourceRequest garbage w) = .ok (code, m') := by
  have hmv : (mv m dirGarbage garbage s w w').2 = .ok m' ↔
      ∃ m₁, (cp m dirGarbage garbage s w w').2 = .ok m₁ ∧
        ∃ code, delete m₁ (sourceRequest garbage w) = .ok (code, m') := by
    rw [← (@root_requests garbage s w hs).1]
    unfold mv
    rcases cp m dirGarbage garbage s w w' with ⟨calls, f | m₁⟩
    · simp
    · cases hd : delete m₁ (fileRequest s garbage w) with
      | error f => simp [hd, Except.map]
      | ok v => simp [hd, Except.map, Prod.ext_iff]
  rw [hmv]
  constructor
  · rintro ⟨m₁, hcp, hd⟩
    obtain ⟨x, hx, y, hy, code, hz⟩ := (cp_ok_iff h hname hs).mp hcp
    exact ⟨x, hx, y, hy, _, hz, hd⟩
  · rintro ⟨x, hx, y, hy, z, hz, hd⟩
    exact ⟨z.2, (cp_ok_iff h hname hs).mpr ⟨x, hx, y, hy, z.1, hz⟩, hd⟩

end Requests

/-! ## What a move that keeps the file started from -/

/-- The root after a write into it: marked, its own slot, the live slots and the
slots of other names as they were. -/
structure RootKept (m m₁ : Machine) (k : Key) : Prop where
  marked : m₁.fat.get? rootClusterNumber = some fat32FatEndOfFile
  own : (m₁.disk.table rootClusterNumber).table 0 = (m.disk.table rootClusterNumber).table 0
  live : ∀ i, ((m.disk.table rootClusterNumber).table i).Live →
    (m₁.disk.table rootClusterNumber).table i = (m.disk.table rootClusterNumber).table i
  others : ∀ i, ((m₁.disk.table rootClusterNumber).table i).key ≠ k →
    (m₁.disk.table rootClusterNumber).table i = (m.disk.table rootClusterNumber).table i

theorem RootKept.of_write {m m₁ : Machine} {r : FAT32DriverRequest} {code : Int8}
    (h : m.WellFormed) (hr : r.parentClusterNumber = rootClusterNumber)
    (hw : write m r = .ok (code, m₁)) : RootKept m m₁ r.key := by
  have hm : m.fat.get? r.parentClusterNumber = some fat32FatEndOfFile := by
    rw [hr]
    exact parent_marked h (Disk.reachable_root _)
  rcases write_ok hm hw with ⟨_, rfl, _⟩ | ⟨_, j, hst, h0, rfl⟩
  · exact ⟨hr ▸ hm, rfl, fun _ _ => rfl, fun _ _ => rfl⟩
  · obtain ⟨hj, hv, _⟩ := vacantSlot_eq_some.mp hst.vacant
    have hmark := stored_parent_fat (i := j) h0 hst.space hm
    have htable := @stored_parent_table m r j
    rw [hr] at hmark htable hv
    have hslot : ∀ i, i ≠ j → ((stored m r j).disk.table rootClusterNumber).table i =
        (m.disk.table rootClusterNumber).table i := by
      intro i hij
      rw [htable, FAT32DirectoryTable.set_other _ _ hij]
    refine ⟨hmark, hslot 0 (ne_zero_of_slot hj).symm, fun i hl => hslot i ?_,
      fun i hk => hslot i ?_⟩
    · intro he
      exact hv (he ▸ hl)
    · intro he
      rw [he, htable, FAT32DirectoryTable.set_same, addedEntry_key] at hk
      exact hk rfl

section Necessary
variable {m m₁ m' : Machine} {r q : FAT32DriverRequest} {code : Int8} {i : Fin 64}
  (h : m.WellFormed) (hkept : RootKept m m₁ r.key)
  (hq : q.parentClusterNumber = rootClusterNumber) (hd : delete m₁ q = .ok (code, m'))

include h hkept hq hd in
/-- Deleting under the root's own name leaves nothing to be found. -/
theorem source_own_lost (ho : q.key = m.disk.ownKey rootClusterNumber) (bytes : List UInt8)
    (k : Key) : ¬ Found m' bytes k := by
  have hdir := h.image.directory _ (Disk.reachable_root m.disk)
  have hfat := delete_own_fat (hq ▸ hkept.marked) ?_ ?_ hd
  · rw [hq] at hfat
    exact unmarked_not_found hfat free_ne_end
  · rw [hq, ho, Disk.ownKey, Disk.ownKey, hkept.own]
  · rw [hq, hkept.own]
    exact hdir.selfCluster

variable (hslot : m.disk.slotOf rootClusterNumber q.key = some i)
  (ho : q.key ≠ m.disk.ownKey rootClusterNumber) (hne : q.key ≠ r.key)

include h hkept hq hd hslot ho hne in
/-- Under another name, the slot of the source is cleared. -/
theorem source_cleared : m'.disk.table rootClusterNumber =
    (m₁.disk.table rootClusterNumber).set i 0 := by
  have hdir := h.image.directory _ (Disk.reachable_root m.disk)
  obtain ⟨hi, hl, hk⟩ := Disk.slotOf_some hslot
  have hk0 : q.key ≠ 0 := by
    rcases hdir.slots i hi with hz | hlive
    · rw [hz] at hl
      exact absurd hl not_live_zero
    · rw [← hk]
      exact hlive.2
  have hold := find_slot_eq_some.mp ((hdir.find_slotOf hk0 ho).trans hslot)
  have hfind : (List.finRange 64).find?
      (fun j => sameKey ((m₁.disk.table q.parentClusterNumber).table j) q) = some i := by
    rw [hq]
    refine find_slot_eq_some.mpr
      ⟨sameKey_iff.mpr ?_, fun j hj => Bool.eq_false_iff.mpr fun hs => ?_⟩
    · rw [hkept.live i hl]
      exact hk
    · have hkey := sameKey_iff.mp hs
      rw [hkept.others j (by rw [hkey]; exact hne)] at hs
      exact Bool.eq_false_iff.mp (hold.2 j hj) hs
  have htable := delete_table (by rw [hq]; decide) hfind hd
  rw [hq] at htable
  exact htable

include h hkept hq hd hslot ho hne in
/-- So the source is gone. -/
theorem source_gone : m'.disk.lookup rootClusterNumber q.key = none := by
  have hdir := h.image.directory _ (Disk.reachable_root m.disk)
  have hcleared := source_cleared h hkept hq hd hslot ho hne
  obtain ⟨hi, hl, hk⟩ := Disk.slotOf_some hslot
  rw [← hk]
  refine hdir.lookup_gone hi hl ?_ fun j hji hkj => ?_
  · rw [hcleared, FAT32DirectoryTable.set_same]
  · rw [hcleared, FAT32DirectoryTable.set_other _ _ hji] at hkj ⊢
    exact hkept.others j (by rw [hkj, hk]; exact hne)

include h hkept hq hd hslot ho hne in
/-- And nothing is found under the root's own name. -/
theorem destination_own_lost (bytes : List UInt8) :
    ¬ Found m' bytes (m.disk.ownKey rootClusterNumber) := by
  have hi := (Disk.slotOf_some hslot).1
  have hsame : (m'.disk.table rootClusterNumber).table 0 =
      (m.disk.table rootClusterNumber).table 0 := by
    rw [source_cleared h hkept hq hd hslot ho hne,
      FAT32DirectoryTable.set_other _ _ (ne_zero_of_slot hi).symm, hkept.own]
  have hown : m'.disk.ownKey rootClusterNumber = m.disk.ownKey rootClusterNumber :=
    congrArg FAT32DirectoryEntry.key hsame
  rw [← hown]
  refine own_not_found ?_
  rw [hsame]
  exact (h.image.directory _ (Disk.reachable_root _)).selfFolder

end Necessary

/-! ## The two directions -/

theorem content_length_le {d : Disk} {e : FAT32DirectoryEntry}
    (hsize : e.filesize.toNat ≤ clusterSize) : (d.content e).length ≤ clusterSize := by
  rw [Disk.content_length]
  exact hsize

/-- Deleting the source leaves the other files of the root where they are found. -/
theorem found_after_delete {m₁ : Machine} {w : Word} {k : Key} {bytes : List UInt8}
    (garbage : Memory) (h : m₁.WellFormed) (hw : w.key ≠ m₁.disk.ownKey rootClusterNumber)
    (hk : k ≠ 0) (ho : k ≠ m₁.disk.ownKey rootClusterNumber) (hne : k ≠ w.key)
    (hn : m₁.disk.graph.node m₁.disk.content [k] = some (.file bytes))
    (hb : bytes.length ≤ clusterSize) :
    ∃ code m', delete m₁ (sourceRequest garbage w) = .ok (code, m') ∧ Found m' bytes k := by
  have hroot : m₁.disk.Reachable (sourceRequest garbage w).parentClusterNumber :=
    Disk.reachable_root _
  have hkey : (sourceRequest garbage w).key ≠ 0 := w.key_ne_zero
  have hdir := h.image.directory _ hroot
  rcases delete_cases h hroot hkey hw with ⟨_, hd⟩ | ⟨i, hi, ⟨_, hi2, _⟩, hd⟩
  · exact ⟨_, _, hd, found_of_node (h.of_same rfl rfl) hk ho hn hb⟩
  · have htable := delete_table (r := sourceRequest garbage w) ⟨two_le_root, root_lt⟩
      ((hdir.find_slotOf hkey hw).trans hi) hd
    obtain ⟨h', hnode⟩ := deleted_root_node h rfl hi hne
    refine ⟨_, _, hd, found_of_node h' hk ?_ (hnode.trans hn) hb⟩
    intro he
    refine ho (he.trans (congrArg FAT32DirectoryEntry.key ?_))
    exact (congrArg (fun t => t.table 0) htable).trans
      (FAT32DirectoryTable.set_other _ _ (ne_zero_of_slot hi2).symm)

section Move
variable {m : Machine} {dirGarbage garbage : Memory} {s : ShellState} {w w' : Word}
  {e : FAT32DirectoryEntry} (h : m.WellFormed)
  (hname : ((m.disk.table rootClusterNumber).table 0).name = rootName)
  (hs : s.currentDirectory = initialShell.currentDirectory)
  (hsrc : m.disk.lookup rootClusterNumber w.key = some e) (hfile : ¬ e.IsFolder)
  (hsize : e.filesize.toNat ≤ clusterSize) (hne : w'.name ≠ w.name)

include hne in
theorem key_ne : w'.key ≠ w.key := fun he => hne (congrArg Key.name he)

include h hsrc hfile in
theorem source_filesize : e.filesize ≠ 0 := by
  obtain ⟨i, _, hi, hl, _, rfl⟩ := Disk.lookup_some hsrc
  intro h0
  have hpos := (h.image.entry _ i ⟨Disk.reachable_root _, hi, hl⟩).size hfile
  rw [h0] at hpos
  exact absurd hpos (lt_irrefl 0)

include h hsrc hfile hne in
/-- Where the destination found is a new entry, there was room for it and `mv` saw
the size of the source. -/
theorem MvRoom.of_stored {buf : Memory} {m' : Machine} {code : Int8} {j : Fin 64}
    (hst : Storable m (destinationRequest m dirGarbage buf w w') j)
    (hreq : required (destinationRequest m dirGarbage buf w w') ≠ 0)
    (hkept : RootKept m (stored m (destinationRequest m dirGarbage buf w w') j) w'.key)
    (hd : delete (stored m (destinationRequest m dirGarbage buf w w') j)
      (sourceRequest garbage w) = .ok (code, m'))
    (hsource : w.key ≠ m.disk.ownKey rootClusterNumber)
    (hfound : Found m' (m.disk.content e) w'.key) : MvRoom m dirGarbage w w' e := by
  obtain ⟨i, hslot, _⟩ := Disk.lookup_some hsrc
  have hnode := hfound.node
  rw [root_node, Option.map_eq_some_iff] at hnode
  obtain ⟨e', he', hnode⟩ := hnode
  obtain ⟨k, _, hk2, hlk, hkk, htk⟩ := Disk.lookup_some he'
  have hcleared := @source_cleared m _ m' (destinationRequest m dirGarbage buf w w')
    (sourceRequest garbage w) code i h hkept rfl hd hslot hsource (key_ne hne).symm
  rw [hcleared] at htk
  have hki : k ≠ i := by
    intro hki
    rw [hki, FAT32DirectoryTable.set_same] at htk
    rw [← htk] at hlk
    exact not_live_zero hlk
  rw [FAT32DirectoryTable.set_other _ _ hki] at htk
  have hadd : e' = addedEntry m (destinationRequest m dirGarbage buf w w') :=
    htk.symm.trans (stored_slot_eq hst hk2 ((congrArg FAT32DirectoryEntry.key htk).trans hkk))
  have hsee : namedSize (seenTable m dirGarbage) w = e.filesize := by
    have hsize := filesize_of_node hnode
    rw [hadd, addedEntry_filesize] at hsize
    exact hsize
  refine ⟨hst.lookup, fun hnone => ?_, fun hnil => ?_,
    (namedSize_eq_iff (source_filesize h hsrc hfile)).mp hsee⟩
  · cases hst.vacant.symm.trans hnone
  · have hspace := hst.space
    rw [hnil] at hspace
    exact hreq (Nat.le_zero.mp hspace)

include h hname hs hsrc hfile hne in
/-- A move that keeps the file started from a safe state. -/
theorem MvKeeps.safe (hkeeps : MvKeeps m dirGarbage garbage s w w' (m.disk.content e)) :
    MvSafe m dirGarbage w w' e := by
  obtain ⟨m', hmv, hfound, hgone⟩ := hkeeps
  obtain ⟨x, _, y, _, ⟨code, m₁⟩, hw, code', hd⟩ := (mv_ok_iff h hname hs).mp hmv
  have hkept := RootKept.of_write h rfl hw
  have hsource : w.key ≠ m.disk.ownKey rootClusterNumber := by
    intro ho
    have hlost := source_own_lost h hkept rfl hd ho (m.disk.content e)
    rcases hfound with hf | hf
    · exact hlost _ hf
    · exact hlost _ hf
  obtain ⟨i, hslot, _⟩ := Disk.lookup_some hsrc
  have hkne : w.key ≠ w'.key := (key_ne hne).symm
  have hfound := hgone (source_gone h hkept rfl hd hslot hsource hkne)
  refine ⟨hsource, fun ho => ?_, ?_⟩
  · have hlost := destination_own_lost h hkept rfl hd hslot hsource hkne
    exact hlost _ (ho ▸ hfound)
  have hroot : m.disk.Reachable rootClusterNumber := Disk.reachable_root _
  rcases write_ok (parent_marked h hroot) hw with ⟨_, hsame, _⟩ | ⟨_, j, hst, hreq, hstored⟩
  · -- nothing was written: what is found now was there before
    have hsame : m₁ = m := hsame
    subst hsame
    left
    rcases delete_cases (r := sourceRequest garbage w) h hroot w.key_ne_zero hsource with
      ⟨hnone, _⟩ | ⟨k, hk', _, hdel⟩
    · cases hslot.symm.trans hnone
    · cases hdel.symm.trans hd
      exact (deleted_root_node h rfl hk' hkne.symm).2.symm.trans hfound.node
  · -- the destination is the new entry
    right
    have hstored : m₁ = stored m (destinationRequest m dirGarbage y.2 w w') j := hstored
    subst hstored
    exact MvRoom.of_stored h hsrc hfile hne hst hreq hkept hd hsource hfound

include h in
/-- A name without an entry can be stored where there is room. -/
theorem storable_of_absent {r : FAT32DriverRequest}
    (hr : r.parentClusterNumber = rootClusterNumber) (hk : r.key ≠ 0)
    (habsent : m.disk.lookup rootClusterNumber r.key = none)
    (hvacant : vacantSlot (m.disk.table rootClusterNumber) ≠ none)
    (hspace : required r ≤ (freeClusters m.fat).length) : ∃ j, Storable m r j := by
  rw [← hr] at habsent hvacant
  obtain ⟨j, hv⟩ := Option.ne_none_iff_exists'.mp hvacant
  refine ⟨j, fun k hk2 hkk => ?_, hv, hspace⟩
  -- a slot of the name would be a live one
  rcases (h.image.directory _ (Disk.reachable_of_root _ hr)).slots k hk2 with hz | hl
  · rw [hz] at hkk
    exact hk hkk.symm
  · exact Disk.lookup_none.mp habsent k hk2 hl.1 hkk

include h in
/-- The nodes after a write into the root. -/
theorem stored_root_node {r : FAT32DriverRequest} {j : Fin 64}
    (hr : r.parentClusterNumber = rootClusterNumber) (hs : r.bufferSize.toNat ≤ 255 * clusterSize)
    (hst : Storable m r j) (q : List Key) :
    (stored m r j).disk.graph.node (stored m r j).disk.content q =
      if q = [r.key] then some r.node else m.disk.graph.node m.disk.content q := by
  have hroot : m.disk.Reachable r.parentClusterNumber := Disk.reachable_of_root _ hr
  have hp : m.disk.dirAt [] = some r.parentClusterNumber := Disk.dirAt_root _ hr
  have hk := hst.named h hroot
  have h' := hst.wellFormed h hroot hs
  have hpf := Disk.tree_folder h.image hp
  have hkn : (m.disk.tree h.image).node [r.key] = none := by
    rw [Disk.tree_node h.image hp, hst.lookup, Option.map_none]
  rw [← tree_node_eq h'.image,
    stored_tree h hs hst.space hp hk hst.vacant hst.lookup h'.image hpf hkn]
  rfl

include h in
/-- With a vacant slot and a free cluster, a file of one cluster is stored under a
new name. -/
theorem store_destination {r : FAT32DriverRequest}
    (hr : r.parentClusterNumber = rootClusterNumber) (hk : r.key ≠ 0)
    (hn : r.bufferSize ≠ 0) (hb : r.bufferSize.toNat ≤ clusterSize)
    (habsent : m.disk.lookup rootClusterNumber r.key = none)
    (hvacant : vacantSlot (m.disk.table rootClusterNumber) ≠ none)
    (hspace : freeClusters m.fat ≠ []) :
    ∃ m₁, write m r = .ok (0, m₁) ∧ m₁.WellFormed ∧
      m₁.disk.graph.node m₁.disk.content [r.key] =
        some (.file ((List.range r.bufferSize.toNat).map r.buf)) := by
  have hroot : m.disk.Reachable r.parentClusterNumber := Disk.reachable_of_root _ hr
  have hs := single_size hb
  have hreq := required_single hb
  obtain ⟨j, hst⟩ := storable_of_absent h hr hk habsent hvacant
    (by rw [hreq]; exact List.length_pos_iff.mpr hspace)
  refine ⟨_, write_stores (parent_marked h hroot) hst.free hst.vacant
    (by rw [hreq]; exact Nat.one_ne_zero) hst.space, hst.wellFormed h hroot hs, ?_⟩
  rw [stored_root_node h hr hs hst, if_pos rfl, FAT32DriverRequest.node, if_neg hn]

section Kept
variable (hsource : w.key ≠ m.disk.ownKey rootClusterNumber)
  (hdest : w'.key ≠ m.disk.ownKey rootClusterNumber) {x : Int8 × Memory}
  (hread : Fat32.read m (sourceRequest garbage w) = .ok x)

include h hname hs hsize hne hsource hdest hread in
/-- It is enough to have the file in the root when the source is deleted. -/
theorem MvKeeps.of_written {y : Int8 × Memory} {code : Int8} {m₁ : Machine}
    (hy : Fat32.read m (destinationRequest m dirGarbage x.2 w w') = .ok y)
    (hw : write m (destinationRequest m dirGarbage y.2 w w') = .ok (code, m₁))
    (h₁ : m₁.WellFormed)
    (hn : m₁.disk.graph.node m₁.disk.content [w'.key] = some (.file (m.disk.content e))) :
    MvKeeps m dirGarbage garbage s w w' (m.disk.content e) := by
  have hown : m₁.disk.ownKey rootClusterNumber = m.disk.ownKey rootClusterNumber :=
    congrArg FAT32DirectoryEntry.key (RootKept.of_write h rfl hw).own
  obtain ⟨code', m', hd, hfound⟩ := found_after_delete garbage h₁ (hown ▸ hsource)
    w'.key_ne_zero (hown ▸ hdest) (key_ne hne) hn (content_length_le hsize)
  exact ⟨m', (mv_ok_iff h hname hs).mpr ⟨_, hread, y, hy, _, hw, code', hd⟩, Or.inr hfound,
    fun _ => hfound⟩

include h hname hs hsize hne hsource hdest hread in
/-- The destination has the bytes: the write is refused. -/
theorem keeps_present
    (hn : m.disk.graph.node m.disk.content [w'.key] = some (.file (m.disk.content e))) :
    MvKeeps m dirGarbage garbage s w w' (m.disk.content e) := by
  have hp : m.disk.dirAt [] = some rootClusterNumber := Graph.dirAt_nil _
  obtain ⟨reply, hserve, _⟩ := @read_answers m (destinationRequest m dirGarbage x.2 w w') _ h hp
    0 w'.key_ne_zero hdest
  cases hy : Fat32.read m (destinationRequest m dirGarbage x.2 w w') with
  | error f => simp [serve, hy, Except.map] at hserve
  | ok y =>
    have hnode := hn
    rw [root_node, Option.map_eq_some_iff] at hnode
    obtain ⟨e', he', _⟩ := hnode
    obtain ⟨k, _, hk2, _, hkk, hte⟩ := Disk.lookup_some he'
    have hw := @write_taken m (destinationRequest m dirGarbage y.2 w w')
      (parent_marked h (Disk.reachable_root _)) k hk2
      ((congrArg FAT32DirectoryEntry.key hte).trans hkk)
    exact MvKeeps.of_written h hname hs hsize hne hsource hdest hread hy hw h hn

include h hname hs hsrc hfile hsize hne hsource hdest hread in
/-- The destination is new: the write stores what was read. -/
theorem keeps_absent
    (hbuf : ∀ (i : Nat) (hi : i < (m.disk.content e).length), x.2 i = (m.disk.content e)[i])
    (hroom : MvRoom m dirGarbage w w' e) :
    MvKeeps m dirGarbage garbage s w w' (m.disk.content e) := by
  have h0 := source_filesize h hsrc hfile
  obtain ⟨habsent, hvacant, hspace, hlast⟩ := hroom
  have hy : Fat32.read m (destinationRequest m dirGarbage x.2 w w') = .ok (2, x.2) := by
    have hr := @read_slotOf m (destinationRequest m dirGarbage x.2 w w') h
      (Disk.reachable_root _) w'.key_ne_zero hdest
    rw [show m.disk.lookup (destinationRequest m dirGarbage x.2 w w').parentClusterNumber
      (destinationRequest m dirGarbage x.2 w w').key = none from habsent] at hr
    exact hr
  have hsize' : (destinationRequest m dirGarbage x.2 w w').bufferSize = e.filesize :=
    (destinationRequest_size ..).trans ((namedSize_eq_iff h0).mpr hlast)
  obtain ⟨m₁, hw, h₁, hn⟩ := @store_destination m h (destinationRequest m dirGarbage x.2 w w')
    rfl w'.key_ne_zero (hsize' ▸ h0) (hsize' ▸ hsize) habsent hvacant hspace
  have hbytes : (List.range (destinationRequest m dirGarbage x.2 w w').bufferSize.toNat).map x.2 =
      m.disk.content e := by
    rw [hsize']
    refine List.ext_getElem ?_ fun i hi hi' => ?_
    · rw [List.length_map, List.length_range, Disk.content_length]
    · rw [List.getElem_map, List.getElem_range]
      exact hbuf i hi'
  refine MvKeeps.of_written h hname hs hsize hne hsource hdest hread hy hw h₁ (hn.trans ?_)
  rw [destinationRequest_buf, hbytes]

end Kept

include h hname hs hsrc hfile hsize hne in
/-- From a safe state a move keeps the file. -/
theorem MvSafe.keeps (hsafe : MvSafe m dirGarbage w w' e) :
    MvKeeps m dirGarbage garbage s w w' (m.disk.content e) := by
  obtain ⟨hsource, hdest, hstays⟩ := hsafe
  have hnode : m.disk.graph.node m.disk.content [w.key] = some (.file (m.disk.content e)) := by
    rw [root_node, hsrc]
    simp [Disk.nodeOf, hfile]
  have hfound := found_of_node h w.key_ne_zero hsource hnode (content_length_le hsize)
  obtain ⟨buf, hread, hbuf⟩ := hfound.read (sourceRequest garbage w) rfl rfl
    (by decide : clusterSize ≤ (0x100000 : UInt32).toNat)
  rcases hstays with hn | hroom
  · exact keeps_present h hname hs hsize hne hsource hdest hread hn
  · exact keeps_absent h hname hs hsrc hfile hsize hne hsource hdest hread hbuf hroom

end Move

/-- **When a move keeps the file.** In the root, for a source of at most one
cluster and another name for the destination, exactly in the safe states. -/
theorem mv_keeps_iff {m : Machine} {s : ShellState} {w w' : Word} {e : FAT32DirectoryEntry}
    (dirGarbage garbage : Memory) (h : m.WellFormed)
    (hname : ((m.disk.table rootClusterNumber).table 0).name = rootName)
    (hs : s.currentDirectory = initialShell.currentDirectory)
    (hsrc : m.disk.lookup rootClusterNumber w.key = some e) (hfile : ¬ e.IsFolder)
    (hsize : e.filesize.toNat ≤ clusterSize) (hne : w'.name ≠ w.name) :
    MvKeeps m dirGarbage garbage s w w' (m.disk.content e) ↔ MvSafe m dirGarbage w w' e :=
  ⟨MvKeeps.safe h hname hs hsrc hfile hne, MvSafe.keeps h hname hs hsrc hfile hsize hne⟩

/-! ## A file and a folder in the root -/

def bWord : Word where
  chars := [UInt8.ofNat 'b'.toNat]
  nonempty := by decide
  short := by decide
  nonzero := by simp

def aFile : FAT32DriverRequest := request (fun _ => 7) aWord.name rootClusterNumber 1

def bFolder : FAT32DriverRequest := request (fun _ => 7) bWord.name rootClusterNumber 0

theorem aFile_bFolder : TwoNames aFile bFolder :=
  ⟨rfl, rfl, by decide, by decide, by decide, by decide, by decide⟩

def aMachine : Machine := stored (rootedMachine rootName) aFile 2

theorem aMachine_table : aMachine.disk.table rootClusterNumber =
    (initDirectoryTable rootName rootClusterNumber).set 2
      (addedEntry (rootedMachine rootName) aFile) :=
  first_table aFile_bFolder rfl

/-- A live slot of the root is what its name denotes. -/
theorem lookup_of_slot {m : Machine} {i : Fin 64} {e : FAT32DirectoryEntry} {k : Key}
    (h : m.WellFormed) (hi : 2 ≤ i) (ht : (m.disk.table rootClusterNumber).table i = e)
    (hl : e.Live) (hk : e.key = k) : m.disk.lookup rootClusterNumber k = some e := by
  subst ht hk
  exact (h.image.directory _ (Disk.reachable_root _)).lookup hi hl

theorem aMachine_wellFormed : aMachine.WellFormed := first_wellFormed aFile_bFolder

theorem aMachine_source : aMachine.disk.lookup rootClusterNumber aWord.key =
    some (addedEntry (rootedMachine rootName) aFile) := by
  refine lookup_of_slot aMachine_wellFormed (by decide : (2 : Fin 64) ≤ 2) ?_ addedEntry_live
    addedEntry_key
  rw [aMachine_table, FAT32DirectoryTable.set_same]

/-- `mv` sees the one byte of `a`. -/
theorem aMachine_size (garbage : Memory) :
    LastNamed (seenTable aMachine garbage) aWord 1 := by
  have htable : FAT32DirectoryTable.ofBytes (seenTable aMachine garbage) =
      (initDirectoryTable rootName rootClusterNumber).set 2
        (addedEntry (rootedMachine rootName) aFile) := by
    have h0 : ((aMachine.disk.table rootClusterNumber).table 0).filesize = 0 := by
      rw [aMachine_table, FAT32DirectoryTable.set_other _ _ (by decide)]
      rfl
    rw [seenTable, if_pos h0, table_read, aMachine_table]
  refine ⟨2, le_refl _, ?_, fun j hj => ?_, ?_⟩
  · unfold named
    rw [strcmp_slot aWord.short, htable, FAT32DirectoryTable.set_same, Bool.and_eq_true]
    exact ⟨decide_eq_true addedEntry_live, by decide⟩
  · unfold named
    rw [htable, FAT32DirectoryTable.set_other _ _ hj.ne',
      initDirectoryTable_slot _ (ne_zero_of_slot hj.le)]
    rfl
  · rw [htable, FAT32DirectoryTable.set_same, addedEntry_filesize]
    rfl

theorem mv_keeps_rooted : MvKeeps aMachine (fun _ => 0) (fun _ => 0) initialShell aWord bWord
    (aMachine.disk.content (addedEntry (rootedMachine rootName) aFile)) := by
  have hst : Storable aMachine bFolder 3 := two_second aFile_bFolder
  have hown : aMachine.disk.ownKey rootClusterNumber = ⟨rootName, fun _ => 0⟩ := by
    rw [Disk.ownKey, aMachine_table, FAT32DirectoryTable.set_other _ _ (by decide)]
    rfl
  have hname : ((aMachine.disk.table rootClusterNumber).table 0).name = rootName :=
    congrArg Key.name hown
  refine (mv_keeps_iff _ _ aMachine_wellFormed hname rfl aMachine_source
    (mt addedEntry_folder.mp (by decide)) (by decide : (1 : UInt32).toNat ≤ clusterSize)
    (by decide)).mpr ⟨by rw [hown]; decide, by rw [hown]; decide, Or.inr ⟨hst.lookup, ?_, ?_,
      aMachine_size _⟩⟩
  · intro hnone
    cases hst.vacant.symm.trans hnone
  · intro hnil
    have hspace := hst.space
    rw [hnil, required_folder rfl] at hspace
    exact absurd hspace (by decide)

/-- Moving the file `a` onto the folder `b` loses it. -/
theorem mv_onto_folder_loses :
    (twoEntries rootName aFile bFolder).WellFormed ∧
    (((twoEntries rootName aFile bFolder).disk.table rootClusterNumber).table 0).name = rootName ∧
    ∃ e, (twoEntries rootName aFile bFolder).disk.lookup rootClusterNumber aWord.key = some e ∧
      ¬ e.IsFolder ∧ e.filesize.toNat ≤ clusterSize ∧ bWord.name ≠ aWord.name ∧
      ¬ MvKeeps (twoEntries rootName aFile bFolder) (fun _ => 0) (fun _ => 0) initialShell
        aWord bWord ((twoEntries rootName aFile bFolder).disk.content e) := by
  have h : (twoEntries rootName aFile bFolder).WellFormed := twoEntries_wellFormed aFile_bFolder
  have htable := @twoEntries_table rootName _ _ aFile_bFolder
  have hname : (((twoEntries rootName aFile bFolder).disk.table rootClusterNumber).table 0).name =
      rootName := by
    rw [htable]
    rfl
  have ha : (twoEntries rootName aFile bFolder).disk.lookup rootClusterNumber aWord.key =
      some (addedEntry (rootedMachine rootName) aFile) := by
    refine lookup_of_slot h (by decide : (2 : Fin 64) ≤ 2) ?_ addedEntry_live addedEntry_key
    rw [htable]
    rfl
  have hb : (twoEntries rootName aFile bFolder).disk.lookup rootClusterNumber bWord.key =
      some (addedEntry (stored (rootedMachine rootName) aFile 2) bFolder) := by
    refine lookup_of_slot h (by decide : (2 : Fin 64) ≤ 3) ?_ addedEntry_live addedEntry_key
    rw [htable]
    rfl
  have hfile : ¬ (addedEntry (rootedMachine rootName) aFile).IsFolder :=
    mt addedEntry_folder.mp (by decide)
  have hne : bWord.name ≠ aWord.name := by decide
  refine ⟨h, hname, _, ha, hfile, (by decide : (1 : UInt32).toNat ≤ clusterSize), hne,
    fun hk => ?_⟩
  rcases (MvKeeps.safe h hname rfl ha hfile hne hk).stays with hn | hroom
  · -- a folder holds no bytes
    rw [root_node, hb, Option.map_some, Disk.nodeOf, if_pos (addedEntry_folder.mpr rfl)] at hn
    cases hn
  · cases hb.symm.trans hroom.absent

end KajijOSta.Shell
