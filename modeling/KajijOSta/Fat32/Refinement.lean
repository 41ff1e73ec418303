import KajijOSta.Fat32.Folders

/-! # The driver refines a tree file system

`Answers t own p call reply t'` is the file system a user sees: a request about a
name in the folder at path `p` of the tree `t` is answered by `reply` and leaves
the tree `t'`. There are no clusters or chains in it; of the tables there is the
name `own` that the folder carries in its own, as the reads look at it first.
`serve_answers` is the simulation: on a well-formed state the driver answers
every request about its tree as `Answers` says. -/
namespace KajijOSta.Fat32
open KajijOSta.NamedTree KajijOSta.Runs

/-! ## Listings -/

def FAT32DirectoryTable.lookup (t : FAT32DirectoryTable) (k : Key) :
    Option FAT32DirectoryEntry :=
  (dataSlots.find? fun i => (t.table i).Live ∧ (t.table i).key = k).map t.table

/-- What an entry says of a node: a folder, or the size of a file. -/
def FAT32DirectoryEntry.Describes (e : FAT32DirectoryEntry) : Node (List UInt8) → Prop
  | .folder => e.IsFolder
  | .file bytes => ¬ e.IsFolder ∧ e.filesize.toNat = bytes.length

/-- A buffer lists the folder at `q`: it has an entry for each name that lies there, and
for no other. -/
def Lists (t : Tree Key (List UInt8)) (q : List Key) (buf : Memory) : Prop :=
  ∀ k, Option.Rel FAT32DirectoryEntry.Describes ((FAT32DirectoryTable.ofBytes buf).lookup k)
    (t.node (k :: q))

/-- What `read_directory` may take for a name in the folder at `p`: the folder itself
under its own name, else something in it, with any extension. -/
inductive Called (t : Tree Key (List UInt8)) (own : Key) (p : List Key)
    (name : Fin 8 → UInt8) : List Key → Prop
  | itself (h : name = own.name) : Called t own p name p
  | inside (h : name ≠ own.name) (k : Key) (hk : k.name = name)
      (hn : t.node (k :: p) ≠ none) : Called t own p name (k :: p)

/-! ## The tree file system -/

def clustersHolding (n : Nat) : Nat := (n + (clusterSize - 1)) / clusterSize

/-- How a request about the folder at `p` is answered, and the tree after it. -/
inductive Answers (t : Tree Key (List UInt8)) (own : Key) (p : List Key) :
    Call → Reply → Tree Key (List UInt8) → Prop
  | writeUnnamed (r : FAT32DriverRequest) (h : r.key = 0) :
      Answers t own p (.write r) ⟨1, r.buf⟩ t
  | writeTaken (r : FAT32DriverRequest) (h : t.node (r.key :: p) ≠ none) :
      Answers t own p (.write r) ⟨1, r.buf⟩ t
  | writeRefused (r : FAT32DriverRequest) : Answers t own p (.write r) ⟨-1, r.buf⟩ t
  | writeDone (r : FAT32DriverRequest) (hp : t.node p = some .folder)
      (hk : t.node (r.key :: p) = none) :
      Answers t own p (.write r) ⟨0, r.buf⟩ (t.insert r.key p r.node hp hk)
  | deleteMissing (r : FAT32DriverRequest) (h : t.node (r.key :: p) = none) :
      Answers t own p (.delete r) ⟨1, r.buf⟩ t
  | deleteDone (r : FAT32DriverRequest) (h : t.node (r.key :: p) ≠ none) :
      Answers t own p (.delete r) ⟨0, r.buf⟩ (t.remove r.key p)
  | readOwn (r : FAT32DriverRequest) (h : r.key = own) :
      Answers t own p (.read r) ⟨1, r.buf⟩ t
  | readMissing (r : FAT32DriverRequest) (h : t.node (r.key :: p) = none) :
      Answers t own p (.read r) ⟨2, r.buf⟩ t
  | readFolder (r : FAT32DriverRequest) (h : t.node (r.key :: p) = some .folder) :
      Answers t own p (.read r) ⟨1, r.buf⟩ t
  | readShort (r : FAT32DriverRequest) (bytes : List UInt8)
      (h : t.node (r.key :: p) = some (.file bytes))
      (hs : r.bufferSize.toNat < clusterSize * clustersHolding bytes.length) :
      Answers t own p (.read r) ⟨-1, r.buf⟩ t
  | readFile (r : FAT32DriverRequest) (bytes : List UInt8) (buf : Memory)
      (h : t.node (r.key :: p) = some (.file bytes))
      (hb : ∀ (i : Nat) (hi : i < bytes.length), buf i = bytes[i]) :
      Answers t own p (.read r) ⟨0, buf⟩ t
  | readDirectoryUnnamed (r : FAT32DriverRequest) (h : r.name = fun _ => 0)
      (ho : r.name ≠ own.name) : Answers t own p (.readDirectory r) ⟨1, r.buf⟩ t
  | readDirectoryMissing (r : FAT32DriverRequest) (h0 : r.name ≠ fun _ => 0)
      (h : ∀ q, ¬ Called t own p r.name q) : Answers t own p (.readDirectory r) ⟨2, r.buf⟩ t
  | readDirectoryFile (r : FAT32DriverRequest) (q : List Key) (bytes : List UInt8)
      (hq : Called t own p r.name q) (h : t.node q = some (.file bytes)) :
      Answers t own p (.readDirectory r) ⟨1, r.buf⟩ t
  -- the size that the entry has is larger than the buffer; the tree knows it of files only
  | readDirectoryShort (r : FAT32DriverRequest) (q : List Key) (hq : Called t own p r.name q)
      (h : ∀ bytes, t.node q = some (.file bytes) → r.bufferSize.toNat < bytes.length) :
      Answers t own p (.readDirectory r) ⟨-1, r.buf⟩ t
  | readDirectoryFolder (r : FAT32DriverRequest) (q : List Key) (buf : Memory)
      (hq : Called t own p r.name q) (h : t.node q = some .folder) (hl : Lists t q buf)
      (hb : ∀ i, clusterSize ≤ i → buf i = r.buf i) :
      Answers t own p (.readDirectory r) ⟨0, buf⟩ t
  -- a file whose attribute has the bit of a folder among others
  | readDirectoryMarked (r : FAT32DriverRequest) (q : List Key) (bytes : List UInt8)
      (buf : Memory) (hq : Called t own p r.name q) (h : t.node q = some (.file bytes))
      (hl : ∀ (i : Nat) (hi : i < bytes.length), i < clusterSize → buf i = bytes[i])
      (hb : ∀ i, clusterSize ≤ i → buf i = r.buf i) :
      Answers t own p (.readDirectory r) ⟨0, buf⟩ t

/-! ## The tree of an image -/

namespace Disk
variable {d : Disk} {c : UInt32} {p : List Key} {k : Key}

theorem tree_folder (h : d.WellFormed) (hp : d.dirAt p = some c) :
    (d.tree h).node p = some .folder :=
  d.graph.node_of_dirAt d.content hp

theorem tree_node (h : d.WellFormed) (hp : d.dirAt p = some c) :
    (d.tree h).node (k :: p) = (d.lookup c k).map d.nodeOf := by
  have he : d.entryAt (k :: p) = d.lookup c k := Graph.entryAt_cons hp
  rw [← he]
  exact node_cons d k p

theorem content_length (d : Disk) (e : FAT32DirectoryEntry) :
    (d.content e).length = e.filesize.toNat := by
  unfold content
  rw [List.length_map, List.length_range]

/-- The bytes of a directory list what is in it. -/
theorem lists_cluster (h : d.WellFormed) (hp : d.dirAt p = some c) {buf : Memory}
    (hbuf : ∀ b, b < clusterSize → buf b = d.cluster c b) : Lists (d.tree h) p buf := by
  intro k
  have htable : FAT32DirectoryTable.ofBytes buf = d.table c :=
    FAT32DirectoryTable.ofBytes_congr hbuf
  have hlookup : (d.table c).lookup k = d.lookup c k := rfl
  rw [htable, hlookup, tree_node h hp]
  cases d.lookup c k with
  | none => exact .none
  | some e =>
    refine .some ?_
    unfold nodeOf
    by_cases hf : e.IsFolder
    · rw [if_pos hf]
      exact hf
    · rw [if_neg hf]
      exact ⟨hf, (d.content_length e).symm⟩

/-- The first cluster of a file holds its first bytes. -/
theorem content_first {e : FAT32DirectoryEntry} (h : d.EntryOk e) (hf : ¬ e.IsFolder) {i : Nat}
    (hi : i < (d.content e).length) (hlt : i < clusterSize) :
    d.cluster e.cluster i = (d.content e)[i] := by
  have hne : d.clustersOf e ≠ [] := by
    intro hnil
    have hlength := h.length hf
    have hsize := h.size hf
    rw [hnil, List.length_nil, clusterCount] at hlength
    have hpos := Nat.div_pos (a := e.filesize.toNat + (clusterSize - 1))
      (show clusterSize ≤ _ by omega) clusterSize_pos
    omega
  obtain ⟨x, l, hl⟩ := List.exists_cons_of_ne_nil hne
  have hx : e.cluster = x := by
    have hchain := h.chain hf
    rw [hl] at hchain
    exact hchain.1
  simp only [content, List.getElem_map, List.getElem_range, byteAlong, hl,
    Nat.div_eq_of_lt hlt, Nat.mod_eq_of_lt hlt, List.getElem?_cons_zero, hx]

end Disk

/-! ## The simulation -/

section Simulation
variable {m : Machine} {r : FAT32DriverRequest} {p : List Key} (h : m.WellFormed)
  (hp : m.disk.dirAt p = some r.parentClusterNumber)

include hp in
theorem write_answers (own : Key) (hs : r.bufferSize.toNat ≤ 255 * clusterSize) :
    ∃ reply m', ∃ h' : m'.WellFormed, serve m (.write r) = .ok (reply, m') ∧
      Answers (m.disk.tree h.image) own p (.write r) reply (m'.disk.tree h'.image) := by
  have hc : m.disk.Reachable r.parentClusterNumber := ⟨p, hp⟩
  rcases write_cases h hc hs with ⟨⟨i, hi, hik⟩, hw⟩ | ⟨_, _, hw⟩ | ⟨i, hst, hw⟩
  · by_cases hk : r.key = 0
    · exact ⟨⟨1, r.buf⟩, m, h, by simp [serve, hw, Except.map], .writeUnnamed r hk⟩
    refine ⟨⟨1, r.buf⟩, m, h, by simp [serve, hw, Except.map], .writeTaken r ?_⟩
    -- a slot under a name that is not zero is a live one
    have hl : ((m.disk.table r.parentClusterNumber).table i).Live := by
      rcases (h.image.directory _ hc).slots i hi with hz | hl
      · rw [hz, key_zero] at hik
        exact absurd hik.symm hk
      · exact hl.1
    rw [Disk.tree_node h.image hp, ← hik, (h.image.directory _ hc).lookup hi hl]
    simp
  · exact ⟨⟨-1, r.buf⟩, m, h, by simp [serve, hw, Except.map], .writeRefused r⟩
  · have h' := hst.wellFormed h hc hs
    have hk := hst.named h hc
    have hpf := Disk.tree_folder h.image hp
    have hkn : (m.disk.tree h.image).node (r.key :: p) = none := by
      rw [Disk.tree_node h.image hp, hst.lookup, Option.map_none]
    refine ⟨⟨0, r.buf⟩, stored m r i, h', by simp [serve, hw, Except.map], ?_⟩
    rw [stored_tree h hs hst.space hp hk hst.vacant hst.lookup h'.image hpf hkn]
    exact .writeDone r hpf hkn

include hp in
theorem delete_answers (own : Key) (hk : r.key ≠ 0)
    (ho : r.key ≠ m.disk.ownKey r.parentClusterNumber) :
    ∃ reply m', ∃ h' : m'.WellFormed, serve m (.delete r) = .ok (reply, m') ∧
      Answers (m.disk.tree h.image) own p (.delete r) reply (m'.disk.tree h'.image) := by
  rcases delete_cases h ⟨p, hp⟩ hk ho with ⟨hs, hd⟩ | ⟨i, hs, ⟨_, hi, hl⟩, hd⟩
  · refine ⟨⟨1, r.buf⟩, { m with driver.dirTableBuf := m.disk.table r.parentClusterNumber },
      h.of_same rfl rfl, by simp only [serve, hd, Except.map], .deleteMissing r ?_⟩
    rw [Disk.tree_node h.image hp, Disk.lookup, hs, Option.map_none, Option.map_none]
  · have h' := deleted_wellFormed h hp hi hl
    refine ⟨⟨0, r.buf⟩, deleted m r i, h', by simp [serve, hd, Except.map], ?_⟩
    rw [deleted_tree h hp hi hl h'.image, (Disk.slotOf_some hs).2.2]
    refine .deleteDone r ?_
    rw [Disk.tree_node h.image hp, Disk.lookup, hs]
    simp

include hp in
theorem read_answers (own : Key) (hk : r.key ≠ 0)
    (ho : r.key ≠ m.disk.ownKey r.parentClusterNumber) :
    ∃ reply, serve m (.read r) = .ok (reply, m) ∧
      Answers (m.disk.tree h.image) own p (.read r) reply (m.disk.tree h.image) := by
  have hread := read_slotOf h ⟨p, hp⟩ hk ho
  have hnode := Disk.tree_node (k := r.key) h.image hp
  cases he : m.disk.lookup r.parentClusterNumber r.key with
  | none =>
    simp only [he] at hread hnode
    exact ⟨⟨2, r.buf⟩, by simp [serve, hread, Except.map], .readMissing r hnode⟩
  | some e =>
    obtain ⟨i, _, hi, hl, _, rfl⟩ := Disk.lookup_some he
    simp only [he, Option.map_some, Disk.nodeOf] at hread hnode
    have hcount : clusterCount ((m.disk.table r.parentClusterNumber).table i).filesize =
        clustersHolding (m.disk.content ((m.disk.table r.parentClusterNumber).table i)).length := by
      rw [Disk.content_length]
      rfl
    rcases readEntry_cases (r := r) h ⟨⟨p, hp⟩, hi, hl⟩ with
      ⟨hf, hr⟩ | ⟨hf, hb, hr⟩ | ⟨hf, buf, hr, hbuf⟩
    · rw [if_pos hf] at hnode
      exact ⟨⟨1, r.buf⟩, by simp [serve, hread, hr, Except.map], .readFolder r hnode⟩
    · rw [if_neg hf] at hnode
      exact ⟨⟨-1, r.buf⟩, by simp [serve, hread, hr, Except.map],
        .readShort r _ hnode (hcount ▸ hb)⟩
    · rw [if_neg hf] at hnode
      exact ⟨⟨0, buf⟩, by simp [serve, hread, hr, Except.map], .readFile r _ buf hnode hbuf⟩

/-- A name that the folder's own entry has is answered as a folder's. -/
theorem read_own {c : UInt32} (h : m.WellFormed) (hc : m.disk.Reachable c)
    (hr : r.parentClusterNumber = c) (ho : r.key = m.disk.ownKey c) :
    read m r = .ok (1, r.buf) := by
  subst hr
  have hd := h.image.directory _ hc
  have hfind : (List.finRange 64).find?
      (fun i => sameKey ((m.disk.table r.parentClusterNumber).table i) r) = some 0 :=
    find_slot_eq_some.mpr ⟨sameKey_iff.mpr ho.symm, fun j hj => absurd hj (Fin.not_lt_zero j)⟩
  simp only [read, parent_marked h hc, readTable_eq, ne_eq, not_true_eq_false, if_false, hfind]
  exact if_pos hd.selfFolder

/-- The table of a folder in the buffer. -/
theorem lists_read {q : List Key} {c : UInt32} (hq : m.disk.dirAt q = some c) (buf : Memory) :
    Lists (m.disk.tree h.image) q (readClusters m.disk buf c 1) ∧
      ∀ i, clusterSize ≤ i → readClusters m.disk buf c 1 i = buf i :=
  ⟨Disk.lists_cluster h.image hq fun _ hb => readClusters_lt _ _ _ hb, fun _ hi =>
    (readClusters_apply _ _ _ _).trans (if_neg (Nat.not_lt.mpr hi))⟩

include hp in
/-- READ_DIR of a slot that is live, the first of its name. -/
theorem readDirectory_live {i : Fin 64} (hslot : NamedSlot m r i)
    (ho : r.name ≠ (m.disk.ownKey r.parentClusterNumber).name)
    (hfirst : ∀ j, j < i → ((m.disk.table r.parentClusterNumber).table j).name ≠ r.name) :
    Answers (m.disk.tree h.image) (m.disk.ownKey r.parentClusterNumber) p (.readDirectory r)
      ⟨(readDirectory m r).1, (readDirectory m r).2⟩ (m.disk.tree h.image) := by
  have hd := h.image.directory _ ⟨p, hp⟩
  obtain ⟨hi, hl, hname⟩ := hslot
  have hread := readDirectory_first hname hfirst
  have hlookup := hd.lookup hi hl
  have hnode : (m.disk.tree h.image).node
      (((m.disk.table r.parentClusterNumber).table i).key :: p) =
      some (m.disk.nodeOf ((m.disk.table r.parentClusterNumber).table i)) := by
    rw [Disk.tree_node h.image hp, hlookup, Option.map_some]
  have hcalled : Called (m.disk.tree h.image) (m.disk.ownKey r.parentClusterNumber) p r.name
      (((m.disk.table r.parentClusterNumber).table i).key :: p) :=
    .inside ho _ hname (by rw [hnode]; simp)
  have hentry := h.image.entry _ _ ⟨⟨p, hp⟩, hi, hl⟩
  generalize (m.disk.table r.parentClusterNumber).table i = e at *
  rw [hread]
  unfold Disk.nodeOf at hnode
  by_cases hbit : e.attr &&& attrSubdirectory = 0
  · have hf : ¬ e.IsFolder := fun hf => folder_bit hf hbit
    rw [if_pos hbit]
    rw [if_neg hf] at hnode
    exact .readDirectoryFile r _ _ hcalled hnode
  rw [if_neg hbit]
  by_cases hsize : r.bufferSize < e.filesize
  · rw [if_pos hsize]
    refine .readDirectoryShort r _ hcalled fun bytes hbytes => ?_
    by_cases hf : e.IsFolder
    · rw [hnode, if_pos hf] at hbytes
      cases hbytes
    · rw [hnode, if_neg hf] at hbytes
      cases hbytes
      rw [Disk.content_length]
      exact UInt32.lt_iff_toNat_lt.mp hsize
  rw [if_neg hsize]
  by_cases hf : e.IsFolder
  · rw [if_pos hf] at hnode
    have hdir : m.disk.dirAt (e.key :: p) = some e.cluster :=
      Graph.dirAt_cons_eq_some.mpr
        ⟨_, e, hp, hlookup, Disk.folderOf_eq_some.mpr ⟨hf, rfl⟩⟩
    obtain ⟨hlists, hrest⟩ := lists_read h hdir r.buf
    exact .readDirectoryFolder r _ _ hcalled hnode hlists hrest
  · rw [if_neg hf] at hnode
    refine .readDirectoryMarked r _ _ _ hcalled hnode (fun j hj hlt => ?_) fun j hj => ?_
    · exact (readClusters_lt _ _ _ hlt).trans (Disk.content_first hentry hf hj hlt)
    · exact (readClusters_apply _ _ _ _).trans (if_neg (Nat.not_lt.mpr hj))

include hp in
theorem readDirectory_answers :
    Answers (m.disk.tree h.image) (m.disk.ownKey r.parentClusterNumber) p (.readDirectory r)
      ⟨(readDirectory m r).1, (readDirectory m r).2⟩ (m.disk.tree h.image) := by
  have hd := h.image.directory _ ⟨p, hp⟩
  by_cases ho : r.name = (m.disk.ownKey r.parentClusterNumber).name
  · -- slot 0 comes first
    have hread := readDirectory_first (m := m) (i := 0) ho.symm
      fun j hj => absurd hj (Fin.not_lt_zero j)
    rw [hread, if_neg (folder_bit hd.selfFolder)]
    by_cases hsize : r.bufferSize < ((m.disk.table r.parentClusterNumber).table 0).filesize
    · rw [if_pos hsize]
      refine .readDirectoryShort r _ (.itself ho) fun bytes hbytes => ?_
      cases (Disk.tree_folder h.image hp).symm.trans hbytes
    · rw [if_neg hsize, hd.selfCluster]
      obtain ⟨hlists, hrest⟩ := lists_read h hp r.buf
      exact .readDirectoryFolder r _ _ (.itself ho) (Disk.tree_folder h.image hp) hlists hrest
  by_cases h0 : r.name = fun _ => 0
  · -- slot 1 is empty, and comes first
    have hread := readDirectory_first (m := m) (r := r) (i := 1) (by rw [hd.second, h0]; rfl)
      fun j hj hn => ho (by
        obtain rfl : j = 0 := by omega
        exact hn.symm)
    rw [hread, hd.second]
    exact .readDirectoryUnnamed r h0 ho
  by_cases hex : ∃ i, ((m.disk.table r.parentClusterNumber).table i).name = r.name
  · obtain ⟨j, hj⟩ := hex
    obtain ⟨i, hi, hfirst⟩ := exists_first_name hj
    exact readDirectory_live h hp (namedSlot_of_name hd h0 ho hi) ho hfirst
  · have hno := not_exists.mp hex
    rw [readDirectory_missing hno]
    refine .readDirectoryMissing r h0 fun q hq => ?_
    cases hq with
    | itself hself => exact ho hself
    | inside _ k hk hn =>
      refine hn ?_
      rw [Disk.tree_node h.image hp, Disk.lookup_none.mpr, Option.map_none]
      intro i _ _ hkey
      exact hno i ((congrArg Key.name hkey).trans hk)

end Simulation

/-- The driver answers a request about a folder of its tree as the tree file
system does: a write for at most 255 clusters, a read under a name that is not zero,
a delete under one that is also not the folder's own, and any READ_DIR. -/
theorem serve_answers {m : Machine} (call : Call) {p : List Key} (h : m.WellFormed)
    (hp : m.disk.dirAt p = some call.request.parentClusterNumber)
    (ha : call.Admissible m.disk) :
    ∃ reply m', ∃ h' : m'.WellFormed, serve m call = .ok (reply, m') ∧
      Answers (m.disk.tree h.image) (m.disk.ownKey call.request.parentClusterNumber) p call
        reply (m'.disk.tree h'.image) := by
  cases call with
  | write r => exact write_answers h hp _ ha.2
  | delete r => exact delete_answers h hp _ ha.2.1 ha.2.2
  | read r =>
    by_cases ho : r.key = m.disk.ownKey r.parentClusterNumber
    · have hread : read m r = .ok (1, r.buf) := read_own h ⟨p, hp⟩ rfl ho
      exact ⟨⟨1, r.buf⟩, m, h, by simp [serve, hread, Except.map], .readOwn r ho⟩
    · obtain ⟨reply, hr, hanswers⟩ := read_answers h hp _ ha.2 ho
      exact ⟨reply, m, h, hr, hanswers⟩
  | readDirectory r => exact ⟨_, m, h, rfl, readDirectory_answers h hp⟩

/-! ## What the answers say -/

namespace Answers
variable {t t' : Tree Key (List UInt8)} {own : Key} {p : List Key} {r : FAT32DriverRequest}
  {reply : Reply}

/-- A write changes the tree only when it returns 0, and then by its one node. -/
theorem write_tree (h : Answers t own p (.write r) reply t') :
    (reply.code = 0 → ∃ hp hk, t' = t.insert r.key p r.node hp hk) ∧
      (reply.code ≠ 0 → t' = t) := by
  cases h with
  | writeUnnamed => exact ⟨fun h0 => absurd h0 (by simp), fun _ => rfl⟩
  | writeTaken => exact ⟨fun h0 => absurd h0 (by simp), fun _ => rfl⟩
  | writeRefused => exact ⟨fun h0 => absurd h0 (by simp), fun _ => rfl⟩
  | writeDone _ hp hk => exact ⟨fun _ => ⟨hp, hk, rfl⟩, fun h0 => absurd rfl h0⟩

/-- A delete changes the tree only when it returns 0, and then at its one path. -/
theorem delete_tree (h : Answers t own p (.delete r) reply t') :
    (reply.code = 0 → t.node (r.key :: p) ≠ none ∧ t' = t.remove r.key p) ∧
      (reply.code ≠ 0 → t' = t) := by
  cases h with
  | deleteMissing => exact ⟨fun h0 => absurd h0 (by simp), fun _ => rfl⟩
  | deleteDone _ hn => exact ⟨fun _ => ⟨hn, rfl⟩, fun h0 => absurd rfl h0⟩

/-- A buffer for all clusters of a file gets its bytes. -/
theorem read_bytes (h : Answers t own p (.read r) reply t') (ho : r.key ≠ own)
    {bytes : List UInt8}
    (hn : t.node (r.key :: p) = some (.file bytes))
    (hb : clusterSize * clustersHolding bytes.length ≤ r.bufferSize.toNat) :
    reply.code = 0 ∧ ∀ (i : Nat) (hi : i < bytes.length), reply.buf i = bytes[i] := by
  cases h with
  | readOwn _ hn' => exact absurd hn' ho
  | readMissing _ hn' => rw [hn'] at hn; cases hn
  | readFolder _ hn' => rw [hn'] at hn; cases hn
  | readShort _ bytes' hn' hs =>
    rw [hn'] at hn
    cases hn
    omega
  | readFile _ bytes' buf hn' hbuf =>
    rw [hn'] at hn
    cases hn
    exact ⟨rfl, hbuf⟩

end Answers

/-- **The driver refines the tree file system.** For a request about a folder of
the tree: a write that returns 0 adds exactly its one file or folder, a delete
that returns 0 removes exactly its one entry and what is below it, other codes
and the two reads leave the tree as it was, and reading a file into a buffer for
all its clusters returns 0 with its bytes. -/
theorem driver_refines_tree {m : Machine} {r : FAT32DriverRequest} {p : List Key}
    (h : m.WellFormed) (hp : m.disk.dirAt p = some r.parentClusterNumber) (hk : r.key ≠ 0)
    (ho : r.key ≠ m.disk.ownKey r.parentClusterNumber) :
    (r.bufferSize.toNat ≤ 255 * clusterSize →
      ∃ reply m', ∃ h' : m'.WellFormed, serve m (.write r) = .ok (reply, m') ∧
        (reply.code = 0 → ∃ hpf hkn, m'.disk.tree h'.image =
          (m.disk.tree h.image).insert r.key p r.node hpf hkn) ∧
        (reply.code ≠ 0 → m'.disk.tree h'.image = m.disk.tree h.image)) ∧
    (∃ reply m', ∃ h' : m'.WellFormed, serve m (.delete r) = .ok (reply, m') ∧
      (reply.code = 0 → (m.disk.tree h.image).node (r.key :: p) ≠ none ∧
        m'.disk.tree h'.image = (m.disk.tree h.image).remove r.key p) ∧
      (reply.code ≠ 0 → m'.disk.tree h'.image = m.disk.tree h.image)) ∧
    (∃ reply, serve m (.read r) = .ok (reply, m) ∧
      ∀ bytes, (m.disk.tree h.image).node (r.key :: p) = some (.file bytes) →
        clusterSize * clustersHolding bytes.length ≤ r.bufferSize.toNat →
        reply.code = 0 ∧ ∀ (i : Nat) (hi : i < bytes.length), reply.buf i = bytes[i]) ∧
    ∃ reply, serve m (.readDirectory r) = .ok (reply, m) := by
  refine ⟨fun hs => ?_, ?_, ?_, ⟨_, rfl⟩⟩
  · obtain ⟨reply, m', h', hserve, ha⟩ := write_answers h hp 0 hs
    exact ⟨reply, m', h', hserve, ha.write_tree⟩
  · obtain ⟨reply, m', h', hserve, ha⟩ := delete_answers h hp 0 hk ho
    exact ⟨reply, m', h', hserve, ha.delete_tree⟩
  · obtain ⟨reply, hserve, ha⟩ := read_answers h hp 0 hk ho
    exact ⟨reply, hserve, fun bytes hn hb => ha.read_bytes hk hn hb⟩

theorem driver_refines_tree_rooted :
    ∃ reply m', ∃ h' : m'.WellFormed,
      serve (rootedMachine (letterName 'r')) (.write (letterRequest 'a' 5000)) =
        .ok (reply, m') ∧ reply.code = 0 ∧
      ∃ hpf hkn, m'.disk.tree h'.image =
        ((rootedDisk (letterName 'r')).tree (rootedDisk_wellFormed _)).insert
          (letterRequest 'a' 5000).key [] (letterRequest 'a' 5000).node hpf hkn := by
  have hs : (letterRequest 'a' 5000).bufferSize.toNat ≤ 255 * clusterSize := by decide
  obtain ⟨reply, m', h', hserve, hw, _⟩ := (driver_refines_tree (r := letterRequest 'a' 5000)
    (p := []) (rootedMachine_wellFormed (letterName 'r')) (Graph.dirAt_nil _) (by decide)
    (letterRequest_not_own 5000)).1 hs
  have hwritten := serve_write (letterRequest_written hs)
  obtain rfl := (Prod.mk.inj (Except.ok.inj (hserve.symm.trans hwritten))).1
  exact ⟨_, m', h', hserve, rfl, hw rfl⟩

end KajijOSta.Fat32
