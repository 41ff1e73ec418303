import KajijOSta.Fat32.Driver
import KajijOSta.Lib.LinkedChain
import KajijOSta.Lib.NamedTree
import Mathlib.Data.FinEnum
import Mathlib.Data.Finite.Prod
import Mathlib.Data.Fintype.Pi

/-! # Well-formed images and the tree on them

What the driver keeps true of a disk: the reserved FAT entries and the
signature, directories that carry their own entry, files whose chains are as
long as their sizes say, and no cluster in two places. The tree of an image is
read off by following live entries from the root; its existence as a finite
tree is part of being well-formed. -/
namespace KajijOSta.Fat32
open KajijOSta.LinkedChain KajijOSta.NamedTree

def clusterCount (size : UInt32) : Nat := (size.toNat + (clusterSize - 1)) / clusterSize

namespace Disk
variable (d : Disk)

def next (c : UInt32) : Option UInt32 := d.fatTable.get? c

def slotOf (c : UInt32) (k : Key) : Option (Fin 64) :=
  dataSlots.find? fun i => ((d.table c).table i).Live ∧ ((d.table c).table i).key = k

def lookup (c : UInt32) (k : Key) : Option FAT32DirectoryEntry :=
  (d.slotOf c k).map (d.table c).table

def folderOf (e : FAT32DirectoryEntry) : Option UInt32 :=
  if e.IsFolder then some e.cluster else none

/-- Directories, their entries and the directories below, from cluster 2. -/
def graph : Graph UInt32 Key FAT32DirectoryEntry := ⟨rootClusterNumber, d.lookup, folderOf⟩

abbrev dirAt (p : List Key) : Option UInt32 := d.graph.dirAt p

abbrev entryAt (p : List Key) : Option FAT32DirectoryEntry := d.graph.entryAt p

abbrev Reachable (c : UInt32) : Prop := d.graph.Reachable c

/-- The clusters an entry occupies: its chain, or the one cluster of a folder. -/
def clustersOf (e : FAT32DirectoryEntry) : List UInt32 :=
  if e.IsFolder then [e.cluster]
  else (follow d.next fat32FatEndOfFile clusterMapSize e.cluster).getD []

/-- Byte `i` along a list of clusters. -/
def byteAlong (l : List UInt32) (i : Nat) : UInt8 :=
  match l[i / clusterSize]? with
  | some c => d.cluster c (i % clusterSize)
  | none => 0

/-- The bytes of a file: the first `filesize` along its chain. -/
def content (e : FAT32DirectoryEntry) : List UInt8 :=
  (List.range e.filesize.toNat).map (d.byteAlong (d.clustersOf e))

def nodeOf (e : FAT32DirectoryEntry) : Node (List UInt8) :=
  if e.IsFolder then .folder else .file (d.content e)

/-- Slot `i` of a directory of the tree holds a file or a folder. -/
structure LiveAt (c : UInt32) (i : Fin 64) : Prop where
  dir : d.Reachable c
  slot : 2 ≤ i
  live : ((d.table c).table i).Live

/-- A cluster of some entry of the tree. -/
def Used (x : UInt32) : Prop :=
  ∃ c i, d.LiveAt c i ∧ x ∈ d.clustersOf ((d.table c).table i)

/-- The cluster `c` holds a directory: one cluster, its own entry in slot 0,
slot 1 empty, and each other slot empty or live under a name of its own. -/
structure DirectoryOk (c : UInt32) : Prop where
  marked : d.next c = some fat32FatEndOfFile
  selfFolder : ((d.table c).table 0).IsFolder
  selfCluster : ((d.table c).table 0).cluster = c
  second : (d.table c).table 1 = 0
  slots : ∀ i, 2 ≤ i → (d.table c).table i = 0 ∨
    (((d.table c).table i).Live ∧ ((d.table c).table i).key ≠ 0)
  unique : ∀ i j, 2 ≤ i → 2 ≤ j → ((d.table c).table i).Live → ((d.table c).table j).Live →
    ((d.table c).table i).key = ((d.table c).table j).key → i = j

/-- A live entry is backed by its clusters: a folder by the one it names, a
file by a chain as long as its size says. -/
structure EntryOk (e : FAT32DirectoryEntry) : Prop where
  range : ∀ x ∈ d.clustersOf e, 3 ≤ x.toNat ∧ x.toNat < clusterMapSize
  size : ¬ e.IsFolder → 0 < e.filesize.toNat
  chain : ¬ e.IsFolder → Chain d.next fat32FatEndOfFile e.cluster (d.clustersOf e)
  length : ¬ e.IsFolder → (d.clustersOf e).length = clusterCount e.filesize
  nodup : (d.clustersOf e).Nodup

/-- A well-formed image. -/
structure WellFormed : Prop where
  fat0 : d.next 0 = some cluster0Value
  fat1 : d.next 1 = some cluster1Value
  signature : ∀ i, i < blockSize → d i = fsSignature i
  onePath : ∀ p q c, d.dirAt p = some c → d.dirAt q = some c → p = q
  finite : {p | d.dirAt p ≠ none}.Finite
  directory : ∀ c, d.Reachable c → d.DirectoryOk c
  entry : ∀ c i, d.LiveAt c i → d.EntryOk ((d.table c).table i)
  disjoint : ∀ c i c' i', d.LiveAt c i → d.LiveAt c' i' → (c, i) ≠ (c', i') →
    List.Disjoint (d.clustersOf ((d.table c).table i)) (d.clustersOf ((d.table c').table i'))

end Disk

/-- A well-formed state: the cached FAT is the one on the disk, and the image
is well-formed. -/
structure Machine.WellFormed (m : Machine) : Prop where
  coherent : m.disk.fatTable = m.fat
  image : m.disk.WellFormed

/-! ## Entries of a directory -/

@[simp] theorem mem_dataSlots {i : Fin 64} : i ∈ dataSlots ↔ 2 ≤ i := by
  revert i
  decide

theorem ne_zero_of_slot {i : Fin 64} (hi : 2 ≤ i) : i ≠ 0 := by
  intro h
  subst h
  exact absurd hi (by decide)

theorem ne_one_of_slot {i : Fin 64} (hi : 2 ≤ i) : i ≠ 1 := by
  intro h
  subst h
  exact absurd hi (by decide)

theorem slot_lt_two : ∀ {i : Fin 64}, ¬ 2 ≤ i → i = 0 ∨ i = 1 := by decide

instance finiteKey : Finite Key :=
  Finite.of_injective (fun k : Key => (k.name, k.ext)) fun a b h => by
    cases a; cases b; simpa using h

@[simp] theorem not_live_zero : ¬ (0 : FAT32DirectoryEntry).Live := by decide

@[simp] theorem key_zero : (0 : FAT32DirectoryEntry).key = 0 := rfl

namespace Disk
variable {d : Disk} {c : UInt32} {k : Key} {e : FAT32DirectoryEntry} {i : Fin 64}

theorem slotOf_some (h : d.slotOf c k = some i) :
    2 ≤ i ∧ ((d.table c).table i).Live ∧ ((d.table c).table i).key = k := by
  have h1 := List.find?_some h
  have h2 := List.mem_of_find?_eq_some h
  exact ⟨mem_dataSlots.mp h2, by simpa using h1⟩

theorem slotOf_none : d.slotOf c k = none ↔
    ∀ i, 2 ≤ i → ((d.table c).table i).Live → ((d.table c).table i).key ≠ k := by
  simp only [slotOf, List.find?_eq_none, mem_dataSlots, decide_eq_true_eq, not_and]

theorem lookup_some (h : d.lookup c k = some e) :
    ∃ i, d.slotOf c k = some i ∧ 2 ≤ i ∧ e.Live ∧ e.key = k ∧ (d.table c).table i = e := by
  simp only [lookup, Option.map_eq_some_iff] at h
  obtain ⟨i, hi, rfl⟩ := h
  obtain ⟨h1, h2, h3⟩ := slotOf_some hi
  exact ⟨i, hi, h1, h2, h3, rfl⟩

theorem lookup_none : d.lookup c k = none ↔
    ∀ i, 2 ≤ i → ((d.table c).table i).Live → ((d.table c).table i).key ≠ k := by
  simp only [lookup, Option.map_eq_none_iff, slotOf_none]

/-- In a directory, a live slot is the one its name denotes. -/
theorem DirectoryOk.slotOf (h : d.DirectoryOk c) (hi : 2 ≤ i)
    (hl : ((d.table c).table i).Live) : d.slotOf c ((d.table c).table i).key = some i := by
  cases hs : d.slotOf c ((d.table c).table i).key with
  | none => exact absurd rfl (slotOf_none.mp hs i hi hl)
  | some j =>
    obtain ⟨hj, hlj, hkj⟩ := slotOf_some hs
    rw [h.unique j i hj hi hlj hl hkj]

theorem DirectoryOk.lookup (h : d.DirectoryOk c) (hi : 2 ≤ i)
    (hl : ((d.table c).table i).Live) :
    d.lookup c ((d.table c).table i).key = some ((d.table c).table i) := by
  simp [Disk.lookup, h.slotOf hi hl]

/-- Where the slot of a name is empty and no other slot was given the name, there is
no entry of the name. -/
theorem DirectoryOk.lookup_gone {d' : Disk} (h : d.DirectoryOk c) (hi : 2 ≤ i)
    (hl : ((d.table c).table i).Live) (hgone : (d'.table c).table i = 0)
    (hothers : ∀ j, j ≠ i → ((d'.table c).table j).key = ((d.table c).table i).key →
      (d'.table c).table j = (d.table c).table j) :
    d'.lookup c ((d.table c).table i).key = none := by
  refine lookup_none.mpr fun j hj hlj hkj => ?_
  by_cases hji : j = i
  · rw [hji, hgone] at hlj
    exact not_live_zero hlj
  · rw [hothers j hji hkj] at hlj hkj
    exact hji (h.unique j i hj hi hlj hl hkj)

/-- The lookup reads the table of its directory only. -/
theorem lookup_congr {d' : Disk} (h : d'.table c = d.table c) : d'.lookup c k = d.lookup c k := by
  simp [Disk.lookup, Disk.slotOf, h]

@[simp] theorem graph_root : d.graph.root = rootClusterNumber := rfl

@[simp] theorem graph_lookup : d.graph.lookup = d.lookup := rfl

@[simp] theorem graph_child : d.graph.child = folderOf := rfl

theorem reachable_root (d : Disk) : d.Reachable rootClusterNumber := Graph.reachable_root d.graph

theorem dirAt_root (d : Disk) (hc : c = rootClusterNumber) : d.dirAt [] = some c := by
  rw [hc]
  exact Graph.dirAt_nil _

theorem reachable_of_root (d : Disk) (hc : c = rootClusterNumber) : d.Reachable c :=
  ⟨[], d.dirAt_root hc⟩

theorem node_nil (d : Disk) : d.graph.node d.content [] = some .folder := by
  simp only [Graph.node]

theorem node_cons (d : Disk) (k : Key) (p : List Key) :
    d.graph.node d.content (k :: p) = (d.entryAt (k :: p)).map d.nodeOf := by
  have he : ∀ e, (if (d.graph.child e).isSome then Node.folder else Node.file (d.content e)) =
      d.nodeOf e := fun e => by
    by_cases hf : e.IsFolder <;> simp [folderOf, nodeOf, hf]
  simp only [Graph.node, he]

theorem clustersOf_folder (h : e.IsFolder) : d.clustersOf e = [e.cluster] := by
  simp [clustersOf, h]

theorem folderOf_eq_some {n : UInt32} : folderOf e = some n ↔ e.IsFolder ∧ e.cluster = n := by
  unfold folderOf
  split <;> simp_all

/-- A folder of the tree is a directory of the tree. -/
theorem LiveAt.reachable (h : d.LiveAt c i) (hd : d.DirectoryOk c)
    (hf : ((d.table c).table i).IsFolder) : d.Reachable ((d.table c).table i).cluster :=
  h.dir.child (hd.lookup h.slot h.live) (folderOf_eq_some.mpr ⟨hf, rfl⟩)

/-! ## Chains and contents depend on the clusters they are made of -/

/-- The clusters of a file, from its chain. -/
theorem clustersOf_chain {l : List UInt32} (hf : ¬ e.IsFolder)
    (h : Chain d.next fat32FatEndOfFile e.cluster l) (hl : l.length ≤ clusterMapSize) :
    d.clustersOf e = l := by
  simp [clustersOf, hf, follow_of_chain h hl]

theorem chain_length_le {l : List UInt32} (hn : l.Nodup)
    (hr : ∀ x ∈ l, x.toNat < clusterMapSize) : l.length ≤ clusterMapSize := by
  have hmap : (l.map UInt32.toNat).Nodup := hn.map fun _ _ h => UInt32.toNat_inj.mp h
  have hsub : l.map UInt32.toNat ⊆ List.range clusterMapSize := fun y hy => by
    obtain ⟨x, hx, rfl⟩ := List.mem_map.mp hy
    exact List.mem_range.mpr (hr x hx)
  simpa using (hmap.subperm hsub).length_le

theorem EntryOk.length_le (h : d.EntryOk e) : (d.clustersOf e).length ≤ clusterMapSize :=
  chain_length_le h.nodup fun x hx => (h.range x hx).2

/-- An entry occupies the same clusters on a disk that links them the same way. -/
theorem EntryOk.clustersOf_congr {d' : Disk} (h : d.EntryOk e)
    (hn : ∀ x ∈ d.clustersOf e, d'.next x = d.next x) : d'.clustersOf e = d.clustersOf e := by
  by_cases hf : e.IsFolder
  · simp [clustersOf_folder hf]
  · exact clustersOf_chain hf ((h.chain hf).congr hn) h.length_le

theorem EntryOk.congr {d' : Disk} (h : d.EntryOk e)
    (hn : ∀ x ∈ d.clustersOf e, d'.next x = d.next x) : d'.EntryOk e := by
  have hc := h.clustersOf_congr hn
  refine ⟨?_, h.size, fun hf => ?_, fun hf => ?_, ?_⟩
  · rw [hc]; exact h.range
  · rw [hc]; exact (h.chain hf).congr hn
  · rw [hc]; exact h.length hf
  · rw [hc]; exact h.nodup

theorem byteAlong_congr {d' : Disk} {l : List UInt32}
    (h : ∀ c ∈ l, ∀ i, i < clusterSize → d'.cluster c i = d.cluster c i) (i : Nat) :
    d'.byteAlong l i = d.byteAlong l i := by
  unfold byteAlong
  cases hc : l[i / clusterSize]? with
  | none => rfl
  | some c => exact h c (List.mem_of_getElem? hc) _ (Nat.mod_lt _ clusterSize_pos)

/-- A file keeps its bytes when its chain and its clusters are kept. -/
theorem EntryOk.content_congr {d' : Disk} (h : d.EntryOk e)
    (hn : ∀ x ∈ d.clustersOf e, d'.next x = d.next x)
    (hb : ∀ x ∈ d.clustersOf e, ∀ i, i < clusterSize → d'.cluster x i = d.cluster x i) :
    d'.content e = d.content e := by
  unfold content
  rw [h.clustersOf_congr hn]
  exact List.map_congr_left fun i _ => byteAlong_congr hb i

/-! ## The tree of a well-formed image -/

/-- No directory in two places, and none that leads back to the root: what
makes the unfolding a finite tree. -/
theorem onePath_of_disjoint
    (hentry : ∀ c i, d.LiveAt c i → d.EntryOk ((d.table c).table i))
    (hdisj : ∀ c i c' i', d.LiveAt c i → d.LiveAt c' i' → (c, i) ≠ (c', i') →
      List.Disjoint (d.clustersOf ((d.table c).table i)) (d.clustersOf ((d.table c').table i'))) :
    ∀ p q c, d.dirAt p = some c → d.dirAt q = some c → p = q := by
  refine Graph.path_unique ?_ ?_
  · intro c k e hc he hroot
    obtain ⟨i, _, hi, hl, _, rfl⟩ := lookup_some he
    obtain ⟨hf, hn⟩ := folderOf_eq_some.mp hroot
    have hmem : rootClusterNumber ∈ d.clustersOf ((d.table c).table i) := by
      rw [clustersOf_folder hf, hn]; exact List.mem_singleton_self _
    exact ne_root ((hentry c i ⟨hc, hi, hl⟩).range _ hmem).1 rfl
  · intro c k e c' k' e' n hc he hn hc' he' hn'
    obtain ⟨i, _, hi, hl, rfl, rfl⟩ := lookup_some he
    obtain ⟨i', _, hi', hl', rfl, rfl⟩ := lookup_some he'
    obtain ⟨hf, rfl⟩ := folderOf_eq_some.mp hn
    obtain ⟨hf', hcc⟩ := folderOf_eq_some.mp hn'
    have heq : (c, i) = (c', i') := by
      by_contra hne
      refine hdisj c i c' i' ⟨hc, hi, hl⟩ ⟨hc', hi', hl'⟩ hne (a := ((d.table c).table i).cluster)
        ?_ ?_
      · rw [clustersOf_folder hf]; exact List.mem_singleton_self _
      · rw [clustersOf_folder hf', hcc]; exact List.mem_singleton_self _
    cases heq
    exact ⟨rfl, rfl⟩

/-- A well-formed image from its parts; that the directories form a finite
tree follows from the rest. -/
theorem WellFormed.of_disjoint (fat0 : d.next 0 = some cluster0Value)
    (fat1 : d.next 1 = some cluster1Value) (signature : ∀ i, i < blockSize → d i = fsSignature i)
    (hdir : ∀ c, d.Reachable c → d.DirectoryOk c)
    (hentry : ∀ c i, d.LiveAt c i → d.EntryOk ((d.table c).table i))
    (hdisj : ∀ c i c' i', d.LiveAt c i → d.LiveAt c' i' → (c, i) ≠ (c', i') →
      List.Disjoint (d.clustersOf ((d.table c).table i)) (d.clustersOf ((d.table c').table i'))) :
    d.WellFormed :=
  have one := onePath_of_disjoint hentry hdisj
  ⟨fat0, fat1, signature, one, Graph.finite_dirs one, hdir, hentry, hdisj⟩

/-- The tree file system of a well-formed image: folders, and files with their
bytes, by paths (innermost name first). -/
def tree (d : Disk) (h : d.WellFormed) : Tree Key (List UInt8) :=
  d.graph.toTree d.content h.finite fun _ => Set.toFinite _

theorem tree_congr {d d' : Disk} (hd : d' = d) (h : d.WellFormed) (h' : d'.WellFormed) :
    d'.tree h' = d.tree h := by
  subst hd
  rfl

/-- Where a reachable directory lies: the root, or a cluster of a folder entry. -/
theorem reachable_cases (h : d.Reachable c) :
    c = rootClusterNumber ∨ d.Used c := by
  obtain ⟨p, hp⟩ := h
  cases p with
  | nil => exact Or.inl (Option.some.inj hp).symm
  | cons k p =>
    obtain ⟨b, e, hb, he, hc⟩ := Graph.dirAt_cons_eq_some.mp hp
    obtain ⟨i, _, hi, hl, _, rfl⟩ := lookup_some he
    obtain ⟨hf, rfl⟩ := folderOf_eq_some.mp hc
    refine Or.inr ⟨b, i, ⟨⟨p, hb⟩, hi, hl⟩, ?_⟩
    rw [clustersOf_folder hf]
    exact List.mem_singleton_self _

namespace WellFormed

theorem used_range (h : d.WellFormed) {x : UInt32} (hx : d.Used x) :
    3 ≤ x.toNat ∧ x.toNat < clusterMapSize := by
  obtain ⟨c, i, hl, hm⟩ := hx
  exact (h.entry c i hl).range x hm

theorem reachable_range (h : d.WellFormed) (hc : d.Reachable c) :
    2 ≤ c.toNat ∧ c.toNat < clusterMapSize := by
  rcases reachable_cases hc with rfl | hu
  · decide
  · have := h.used_range hu
    omega

/-- The link of a used cluster is not the free mark. -/
theorem used_not_free (h : d.WellFormed) {x : UInt32} (hx : d.Used x) :
    ∃ v, d.next x = some v ∧ v ≠ fat32FatEmptyEntry := by
  obtain ⟨c, i, hl, hm⟩ := hx
  have he := h.entry c i hl
  by_cases hf : ((d.table c).table i).IsFolder
  · rw [clustersOf_folder hf, List.mem_singleton] at hm
    have hd := h.directory _ (hl.reachable (h.directory c hl.dir) hf)
    exact ⟨_, hm ▸ hd.marked, free_ne_end.symm⟩
  · obtain ⟨b, hb, hcase⟩ := (he.chain hf).next_mem hm
    refine ⟨b, hb, ?_⟩
    rcases hcase with hbm | rfl
    · have := (he.range b hbm).1
      intro hh
      rw [hh] at this
      exact absurd this (by decide)
    · exact free_ne_end.symm

theorem reachable_not_free (h : d.WellFormed) (hc : d.Reachable c) :
    d.next c ≠ some fat32FatEmptyEntry := by
  rw [(h.directory c hc).marked]
  decide

/-- A folder lies elsewhere than the directory it is in. -/
theorem child_ne (h : d.WellFormed) (hl : d.LiveAt c i) (hf : ((d.table c).table i).IsFolder) :
    ((d.table c).table i).cluster ≠ c := by
  obtain ⟨⟨p, hp⟩, hi, hlive⟩ := hl
  have hchild : d.dirAt (((d.table c).table i).key :: p) =
      some ((d.table c).table i).cluster :=
    Graph.dirAt_cons_eq_some.mpr ⟨_, _, hp, (h.directory c ⟨p, hp⟩).lookup hi hlive,
      folderOf_eq_some.mpr ⟨hf, rfl⟩⟩
  intro he
  rw [he] at hchild
  exact absurd (congrArg List.length (h.onePath _ _ _ hchild hp)) (by simp)

end WellFormed

end Disk

end KajijOSta.Fat32
