import KajijOSta.Fat32.Image

/-! # How a change of the disk changes the tree

The driver's operations are built from three kinds of disk change, and each
has one theorem here: writes that touch nothing the tree uses (`Quiet`), one
slot of a directory filled with an entry whose clusters are ready (`link`),
and one slot cleared (`unlink`). Each keeps the image well-formed; the first
leaves the tree alone, the second adds one node, the third removes one node
and what is below it. -/
namespace KajijOSta.Fat32
open KajijOSta.LinkedChain KajijOSta.NamedTree

namespace Disk
variable {d d' : Disk} {c : UInt32} {k : Key} {e : FAT32DirectoryEntry} {i : Fin 64}
  {p : List Key}

theorem entryAt_live (h : d.entryAt p = some e) :
    ∃ c i, d.LiveAt c i ∧ (d.table c).table i = e := by
  cases p with
  | nil => cases h
  | cons k p =>
    simp only [entryAt, Graph.entryAt, Option.bind_eq_some_iff] at h
    obtain ⟨c, hc, he⟩ := h
    obtain ⟨i, _, hi, hl, _, rfl⟩ := lookup_some he
    exact ⟨c, i, ⟨⟨p, hc⟩, hi, hl⟩, rfl⟩

/-- The tree is determined by the entries at the paths and the bytes of the files. -/
theorem node_congr {q : List Key} (he : d'.entryAt q = d.entryAt q)
    (hb : ∀ e, d.entryAt q = some e → ¬ e.IsFolder → d'.content e = d.content e) :
    d'.graph.node d'.content q = d.graph.node d.content q := by
  cases q with
  | nil => rw [node_nil, node_nil]
  | cons k q =>
    rw [node_cons, node_cons, he]
    cases hq : d.entryAt (k :: q) with
    | none => simp
    | some e =>
      by_cases hf : e.IsFolder
      · simp [nodeOf, hf]
      · simp [nodeOf, hf, hb e hq hf]

theorem DirectoryOk.congr (h : d.DirectoryOk c) (ht : d'.table c = d.table c)
    (hn : d'.next c = d.next c) : d'.DirectoryOk c := by
  refine ⟨?_, ?_, ?_, ?_, ?_, ?_⟩
  · rw [hn]; exact h.marked
  · rw [ht]; exact h.selfFolder
  · rw [ht]; exact h.selfCluster
  · rw [ht]; exact h.second
  · rw [ht]; exact h.slots
  · rw [ht]; exact h.unique

/-! ## Writes that touch nothing the tree uses -/

/-- The boot block, the reserved FAT entries, the root directory and the links
and contents of all used clusters are on `d'` as on `d`. -/
structure Quiet (d d' : Disk) : Prop where
  boot : ∀ i, i < blockSize → d' i = d i
  reserved : ∀ x : UInt32, x.toNat < 3 → d'.next x = d.next x
  links : ∀ x, d.Used x → d'.next x = d.next x
  root : ∀ i, i < clusterSize → d'.cluster rootClusterNumber i = d.cluster rootClusterNumber i
  data : ∀ x, d.Used x → ∀ i, i < clusterSize → d'.cluster x i = d.cluster x i

namespace Quiet

theorem refl (d : Disk) : Quiet d d :=
  ⟨fun _ _ => rfl, fun _ _ => rfl, fun _ _ => rfl, fun _ _ => rfl, fun _ _ _ _ => rfl⟩

theorem table_eq (q : Quiet d d') (hc : d.Reachable c) : d'.table c = d.table c := by
  refine FAT32DirectoryTable.ofBytes_congr fun i hi => ?_
  rcases reachable_cases hc with rfl | hu
  · exact q.root i hi
  · exact q.data c hu i hi

theorem lookup_eq (q : Quiet d d') (c : UInt32) (k : Key) (hc : d.graph.Reachable c) :
    d'.graph.lookup c k = d.graph.lookup c k := lookup_congr (q.table_eq hc)

theorem dirAt_eq (q : Quiet d d') (p : List Key) : d'.dirAt p = d.dirAt p :=
  have hr : d'.graph.root = d.graph.root := rfl
  have hc : d'.graph.child = d.graph.child := rfl
  Graph.dirAt_congr hr hc q.lookup_eq p

theorem entryAt_eq (q : Quiet d d') (p : List Key) : d'.entryAt p = d.entryAt p :=
  have hr : d'.graph.root = d.graph.root := rfl
  have hc : d'.graph.child = d.graph.child := rfl
  Graph.entryAt_congr hr hc q.lookup_eq p

theorem reachable_iff (q : Quiet d d') : d'.Reachable c ↔ d.Reachable c := by
  simp only [Reachable, Graph.Reachable,
    show ∀ p, d'.graph.dirAt p = d.graph.dirAt p from q.dirAt_eq]

theorem liveAt_iff (q : Quiet d d') : d'.LiveAt c i ↔ d.LiveAt c i := by
  constructor
  · intro hx
    obtain ⟨hc, hi, hl⟩ := hx
    have hc := q.reachable_iff.mp hc
    exact ⟨hc, hi, q.table_eq hc ▸ hl⟩
  · intro hx
    obtain ⟨hc, hi, hl⟩ := hx
    exact ⟨q.reachable_iff.mpr hc, hi, (q.table_eq hc).symm ▸ hl⟩

theorem clustersOf_eq (h : d.WellFormed) (q : Quiet d d') (hl : d.LiveAt c i) :
    d'.clustersOf ((d'.table c).table i) = d.clustersOf ((d.table c).table i) := by
  rw [q.table_eq hl.dir]
  exact (h.entry c i hl).clustersOf_congr fun x hx => q.links x ⟨c, i, hl, hx⟩

theorem wellFormed (h : d.WellFormed) (q : Quiet d d') : d'.WellFormed := by
  refine WellFormed.of_disjoint ?_ ?_ ?_ ?_ ?_ ?_
  · rw [q.reserved 0 (by decide)]; exact h.fat0
  · rw [q.reserved 1 (by decide)]; exact h.fat1
  · intro i hi
    rw [q.boot i hi]; exact h.signature i hi
  · intro c hc
    have hc := q.reachable_iff.mp hc
    refine (h.directory c hc).congr (q.table_eq hc) ?_
    rcases reachable_cases hc with rfl | hu
    · exact q.reserved _ (by decide)
    · exact q.links c hu
  · intro c i hl
    have hl := q.liveAt_iff.mp hl
    rw [q.table_eq hl.dir]
    exact (h.entry c i hl).congr fun x hx => q.links x ⟨c, i, hl, hx⟩
  · intro c i c' i' hl hl' hne
    have hl := q.liveAt_iff.mp hl
    have hl' := q.liveAt_iff.mp hl'
    rw [q.clustersOf_eq h hl, q.clustersOf_eq h hl']
    exact h.disjoint c i c' i' hl hl' hne

theorem used_iff (h : d.WellFormed) (q : Quiet d d') {x : UInt32} : d'.Used x ↔ d.Used x := by
  constructor
  · intro hcase
    obtain ⟨c, i, hl, hx⟩ := hcase
    have hl := q.liveAt_iff.mp hl
    exact ⟨c, i, hl, q.clustersOf_eq h hl ▸ hx⟩
  · intro hcase
    obtain ⟨c, i, hl, hx⟩ := hcase
    exact ⟨c, i, q.liveAt_iff.mpr hl, (q.clustersOf_eq h hl).symm ▸ hx⟩

theorem content_eq (h : d.WellFormed) (q : Quiet d d') (hl : d.LiveAt c i) :
    d'.content ((d.table c).table i) = d.content ((d.table c).table i) :=
  (h.entry c i hl).content_congr (fun x hx => q.links x ⟨c, i, hl, hx⟩)
    fun x hx => q.data x ⟨c, i, hl, hx⟩

/-- The tree does not see a quiet change. -/
theorem tree_eq (h : d.WellFormed) (q : Quiet d d') (h' : d'.WellFormed) :
    d'.tree h' = d.tree h := by
  ext1
  funext p
  refine node_congr (q.entryAt_eq p) fun e he _ => ?_
  obtain ⟨c, i, hl, rfl⟩ := entryAt_live he
  exact q.content_eq h hl

theorem trans {d'' : Disk} (h : d.WellFormed) (q : Quiet d d') (q' : Quiet d' d'') :
    Quiet d d'' := by
  refine ⟨?_, ?_, ?_, ?_, ?_⟩
  · intro i hi; rw [q'.boot i hi, q.boot i hi]
  · intro x hx; rw [q'.reserved x hx, q.reserved x hx]
  · intro x hx; rw [q'.links x ((q.used_iff h).mpr hx), q.links x hx]
  · intro i hi; rw [q'.root i hi, q.root i hi]
  · intro x hx i hi; rw [q'.data x ((q.used_iff h).mpr hx) i hi, q.data x hx i hi]

end Quiet

/-! ## Rewriting one slot of a directory -/

/-- Write the table of the directory at `c` back with slot `i` changed. -/
def putEntry (d : Disk) (c : UInt32) (i : Fin 64) (e : FAT32DirectoryEntry) : Disk :=
  writeClusters d ((d.table c).set i e).bytes c 1

section PutEntry

@[simp] theorem putEntry_table_same (d : Disk) (c : UInt32) (i : Fin 64)
    (e : FAT32DirectoryEntry) : (d.putEntry c i e).table c = (d.table c).set i e :=
  table_write_same _ _ _

theorem putEntry_cluster (hc : c.toNat < clusterMapSize) {x : UInt32}
    (hx : x.toNat < clusterMapSize) (hne : x ≠ c) {j : Nat} (hj : j < clusterSize) :
    (d.putEntry c i e).cluster x j = d.cluster x j :=
  cluster_write_other _ _ hc hx hne hj

theorem putEntry_table (hc : c.toNat < clusterMapSize) {x : UInt32}
    (hx : x.toNat < clusterMapSize) (hne : x ≠ c) :
    (d.putEntry c i e).table x = d.table x :=
  FAT32DirectoryTable.ofBytes_congr fun _ hj => putEntry_cluster hc hx hne hj

theorem putEntry_next (hc : c.toNat < clusterMapSize) (h1 : 2 ≤ c.toNat) :
    (d.putEntry c i e).next = d.next := by
  have ht : (d.putEntry c i e).fatTable = d.fatTable :=
    FAT32FileAllocationTable.ofBytes_congr fun _ hj =>
      putEntry_cluster hc fat_lt (ne_fat h1).symm hj
  funext x
  simp only [next, ht]

theorem putEntry_boot (hc : c.toNat < clusterMapSize) (h1 : 2 ≤ c.toNat) {j : Nat}
    (hj : j < blockSize) : d.putEntry c i e j = d j := by
  simp only [blockSize_eq] at hj
  simp only [putEntry, writeClusters_apply, clusterBase_eq hc, clusterSize_eq]
  rw [if_neg (by omega)]

/-- Names other than those of the old and the new entry of the slot denote what
they did. -/
theorem lookup_putEntry_other (d : Disk)
    (hold : ((d.table c).table i).Live → ((d.table c).table i).key ≠ k)
    (hnew : e.Live → e.key ≠ k) : (d.putEntry c i e).lookup c k = d.lookup c k := by
  have hslot : (d.putEntry c i e).slotOf c k = d.slotOf c k := by
    unfold slotOf
    rw [putEntry_table_same]
    congr 1
    funext j
    by_cases hj : j = i
    · subst hj
      simp only [FAT32DirectoryTable.set_same, decide_eq_decide]
      exact ⟨fun h => absurd h.2 (hnew h.1), fun h => absurd h.2 (hold h.1)⟩
    · rw [FAT32DirectoryTable.set_other _ _ hj]
  simp only [lookup, hslot, putEntry_table_same]
  cases hs : d.slotOf c k with
  | none => rfl
  | some j =>
    obtain ⟨_, hl, hk⟩ := slotOf_some hs
    have hj : j ≠ i := by
      intro he
      subst he
      exact hold hl hk
    simp [FAT32DirectoryTable.set_other _ _ hj]

end PutEntry

theorem clustersOf_of_next (hn : d'.next = d.next) : d'.clustersOf = d.clustersOf := by
  funext e
  simp only [clustersOf, hn]

/-- A cluster of a file is no directory. -/
theorem WellFormed.file_not_dir (h : d.WellFormed) (hl : d.LiveAt c i)
    (hf : ¬ ((d.table c).table i).IsFolder) {x : UInt32}
    (hx : x ∈ d.clustersOf ((d.table c).table i)) : ¬ d.Reachable x := by
  intro hcase
  obtain ⟨q, hq⟩ := hcase
  cases q with
  | nil =>
    obtain rfl : rootClusterNumber = x := Option.some.inj hq
    exact ne_root ((h.entry c i hl).range _ hx).1 rfl
  | cons k q =>
    obtain ⟨b, e, hb, he, hn⟩ := Graph.dirAt_cons_eq_some.mp hq
    obtain ⟨j, _, hj, hlj, _, rfl⟩ := lookup_some he
    obtain ⟨hfj, rfl⟩ := folderOf_eq_some.mp hn
    refine h.disjoint c i b j hl ⟨⟨q, hb⟩, hj, hlj⟩ ?_ hx ?_
    · rintro he
      cases he
      exact hf hfj
    · rw [clustersOf_folder hfj]; exact List.mem_singleton_self _

/-! ## Linking a new entry -/

/-- An entry that can be linked: its clusters are in order and used by nobody,
and a folder is an empty directory. -/
structure Fresh (d : Disk) (e : FAT32DirectoryEntry) : Prop where
  live : e.Live
  named : e.key ≠ 0
  ok : d.EntryOk e
  unused : ∀ x ∈ d.clustersOf e, ¬ d.Used x
  folder : e.IsFolder → d.DirectoryOk e.cluster
  empty : e.IsFolder → ∀ j, 2 ≤ j → (d.table e.cluster).table j = 0

section Link
variable (h : d.WellFormed) (hp : d.dirAt p = some c) (hi : 2 ≤ i)
  (hold : ¬ ((d.table c).table i).Live) (hnone : d.lookup c e.key = none) (hf : d.Fresh e)

include h hp in
theorem link_range : 2 ≤ c.toNat ∧ c.toNat < clusterMapSize := h.reachable_range ⟨p, hp⟩

include hp hf in
theorem link_cluster_ne {x : UInt32} (hx : x ∈ d.clustersOf e) : x ≠ c := by
  intro he
  subst he
  rcases reachable_cases (d := d) ⟨p, hp⟩ with rfl | hu
  · exact ne_root (hf.ok.range _ hx).1 rfl
  · exact hf.unused _ hx hu

include h hp hi hnone hf in
theorem link_directory : (d.putEntry c i e).DirectoryOk c := by
  have hd := h.directory c ⟨p, hp⟩
  obtain ⟨hc2, hc⟩ := link_range h hp
  have hkey : ∀ j, 2 ≤ j → ((d.table c).table j).Live → ((d.table c).table j).key ≠ e.key :=
    lookup_none.mp hnone
  have h0 : 0 ≠ i := (ne_zero_of_slot hi).symm
  have h1 : 1 ≠ i := (ne_one_of_slot hi).symm
  refine ⟨?_, ?_, ?_, ?_, ?_, ?_⟩
  · rw [putEntry_next hc hc2]; exact hd.marked
  · rw [putEntry_table_same, FAT32DirectoryTable.set_other _ _ h0]; exact hd.selfFolder
  · rw [putEntry_table_same, FAT32DirectoryTable.set_other _ _ h0]; exact hd.selfCluster
  · rw [putEntry_table_same, FAT32DirectoryTable.set_other _ _ h1]; exact hd.second
  · intro j hj
    rw [putEntry_table_same]
    by_cases hji : j = i
    · subst hji
      simp [hf.live, hf.named]
    · rw [FAT32DirectoryTable.set_other _ _ hji]
      exact hd.slots j hj
  · intro j j' hj hj' hl hl' hk
    rw [putEntry_table_same] at hl hl' hk
    by_cases hji : j = i <;> by_cases hji' : j' = i
    · rw [hji, hji']
    · subst hji
      rw [FAT32DirectoryTable.set_same, FAT32DirectoryTable.set_other _ _ hji'] at hk
      rw [FAT32DirectoryTable.set_other _ _ hji'] at hl'
      exact absurd hk.symm (hkey j' hj' hl')
    · subst hji'
      rw [FAT32DirectoryTable.set_same, FAT32DirectoryTable.set_other _ _ hji] at hk
      rw [FAT32DirectoryTable.set_other _ _ hji] at hl
      exact absurd hk (hkey j hj hl)
    · rw [FAT32DirectoryTable.set_other _ _ hji, FAT32DirectoryTable.set_other _ _ hji'] at hk
      rw [FAT32DirectoryTable.set_other _ _ hji] at hl
      rw [FAT32DirectoryTable.set_other _ _ hji'] at hl'
      exact hd.unique j j' hj hj' hl hl' hk

include h hp hf in
theorem link_folder (hfo : e.IsFolder) :
    (d.putEntry c i e).table e.cluster = d.table e.cluster ∧
      (d.putEntry c i e).DirectoryOk e.cluster := by
  obtain ⟨hc2, hc⟩ := link_range h hp
  have hmem : e.cluster ∈ d.clustersOf e := by
    rw [clustersOf_folder hfo]; exact List.mem_singleton_self _
  have ht := putEntry_table (e := e) (i := i) (d := d) hc (hf.ok.range _ hmem).2
    (link_cluster_ne hp hf hmem)
  exact ⟨ht, (hf.folder hfo).congr ht (by rw [putEntry_next hc hc2])⟩

include h hp hi hold hnone hf in
/-- The paths after linking: one new entry, at `e.key` below `p`. -/
theorem link_paths (q : List Key) :
    ((q = e.key :: p → (d.putEntry c i e).dirAt q = folderOf e) ∧
      (q ≠ e.key :: p → (d.putEntry c i e).dirAt q = d.dirAt q)) ∧
    ((q = e.key :: p → (d.putEntry c i e).entryAt q = some e) ∧
      (q ≠ e.key :: p → (d.putEntry c i e).entryAt q = d.entryAt q)) := by
  obtain ⟨hc2, hc⟩ := link_range h hp
  have hu : ∀ q, d.dirAt q = some c → q = p := fun q hq => h.onePath q p c hq hp
  have hnew : (d.putEntry c i e).graph.lookup c e.key = some e := by
    have hl := (link_directory h hp hi hnone hf).lookup (i := i) hi
    simp only [putEntry_table_same, FAT32DirectoryTable.set_same] at hl
    exact hl hf.live
  have hempty : ∀ n, d.graph.child e = some n →
      ∀ k, (d.putEntry c i e).graph.lookup n k = none := by
    intro n hn k
    obtain ⟨hfo, rfl⟩ := folderOf_eq_some.mp hn
    refine lookup_none.mpr fun j hj hl => ?_
    rw [(link_folder h hp hf hfo).1, hf.empty hfo j hj] at hl
    exact absurd hl not_live_zero
  have hl : ∀ x k, d.graph.Reachable x → (x, k) ≠ (c, e.key) →
      (d.putEntry c i e).graph.lookup x k = d.graph.lookup x k := by
    intro x k hx hne
    by_cases hxc : x = c
    · subst hxc
      refine lookup_putEntry_other d (fun hl => absurd hl hold) fun _ hk => ?_
      exact hne (by rw [hk])
    · exact lookup_congr (putEntry_table hc (h.reachable_range hx).2 hxc)
  have hr : (d.putEntry c i e).graph.root = d.graph.root := rfl
  have hch : (d.putEntry c i e).graph.child = d.graph.child := rfl
  exact ⟨Graph.dirAt_insert hr hch hp hu hl hnone hnew hempty q,
    Graph.entryAt_insert hr hch hp hu hl hnone hnew hempty q⟩

include h hp hi hold hnone hf in
theorem link_reachable {x : UInt32} (hx : (d.putEntry c i e).Reachable x) :
    d.Reachable x ∨ folderOf e = some x := by
  obtain ⟨q, hq⟩ := hx
  have hpaths := (link_paths h hp hi hold hnone hf q).1
  by_cases hqk : q = e.key :: p
  · exact Or.inr ((hpaths.1 hqk).symm.trans hq)
  · exact Or.inl ⟨q, (hpaths.2 hqk).symm.trans hq⟩

include h hp hi hold hnone hf in
/-- The live slots after linking: the old ones, with their entries, and the new one. -/
theorem link_live {x : UInt32} {j : Fin 64} (hl : (d.putEntry c i e).LiveAt x j) :
    ((x, j) = (c, i) ∧ ((d.putEntry c i e).table x).table j = e) ∨
    ((x, j) ≠ (c, i) ∧ d.LiveAt x j ∧
      ((d.putEntry c i e).table x).table j = (d.table x).table j) := by
  obtain ⟨hc2, hc⟩ := link_range h hp
  by_cases hxj : (x, j) = (c, i)
  · cases hxj
    exact Or.inl ⟨rfl, by simp⟩
  · right
    rcases link_reachable h hp hi hold hnone hf hl.dir with hx | hn
    · by_cases hxc : x = c
      · subst hxc
        have hj : j ≠ i := fun he => hxj (by rw [he])
        have ht : ((d.putEntry x i e).table x).table j = (d.table x).table j := by
          rw [putEntry_table_same, FAT32DirectoryTable.set_other _ _ hj]
        exact ⟨hxj, ⟨hx, hl.slot, ht ▸ hl.live⟩, ht⟩
      · have ht := putEntry_table (e := e) (i := i) (d := d) hc (h.reachable_range hx).2 hxc
        exact ⟨hxj, ⟨hx, hl.slot, ht ▸ hl.live⟩, by rw [ht]⟩
    · -- the new folder is empty
      obtain ⟨hfo, rfl⟩ := folderOf_eq_some.mp hn
      have := hl.live
      rw [(link_folder h hp hf hfo).1, hf.empty hfo j hl.slot] at this
      exact absurd this not_live_zero

include h hp hi hold hnone hf in
/-- Directories stay where they are. -/
theorem link_dirAt {q : List Key} {x : UInt32} (hq : d.dirAt q = some x) :
    (d.putEntry c i e).dirAt q = some x := by
  refine ((link_paths h hp hi hold hnone hf q).1.2 ?_).trans hq
  intro hx
  subst hx
  obtain ⟨b, e', hb, he', _⟩ := Graph.dirAt_cons_eq_some.mp hq
  cases hp.symm.trans hb
  exact absurd (hnone.symm.trans he') (by simp)

include h hp hi hold hnone hf in
/-- What was live stays live. -/
theorem link_liveAt {x : UInt32} {j : Fin 64} (hl : d.LiveAt x j) :
    (d.putEntry c i e).LiveAt x j ∧
      ((d.putEntry c i e).table x).table j = (d.table x).table j := by
  obtain ⟨hc2, hc⟩ := link_range h hp
  obtain ⟨⟨q, hq⟩, hj, hlive⟩ := hl
  have hreach : (d.putEntry c i e).Reachable x := ⟨q, link_dirAt h hp hi hold hnone hf hq⟩
  have ht : ((d.putEntry c i e).table x).table j = (d.table x).table j := by
    by_cases hxc : x = c
    · subst hxc
      have hji : j ≠ i := by
        intro he
        subst he
        exact hold hlive
      rw [putEntry_table_same, FAT32DirectoryTable.set_other _ _ hji]
    · rw [putEntry_table hc (h.reachable_range ⟨q, hq⟩).2 hxc]
  exact ⟨⟨hreach, hj, ht ▸ hlive⟩, ht⟩

include h hp hi hold hnone hf in
theorem link_added : (d.putEntry c i e).LiveAt c i ∧
    ((d.putEntry c i e).table c).table i = e := by
  have ht : ((d.putEntry c i e).table c).table i = e := by simp
  exact ⟨⟨⟨p, link_dirAt h hp hi hold hnone hf hp⟩, hi, by rw [ht]; exact hf.live⟩, ht⟩

include h hp hi hold hnone hf in
/-- The clusters in use after linking: the old ones and those of the new entry. -/
theorem link_used {x : UInt32} :
    (d.putEntry c i e).Used x ↔ d.Used x ∨ x ∈ d.clustersOf e := by
  obtain ⟨hc2, hc⟩ := link_range h hp
  have hcl := clustersOf_of_next (putEntry_next (d := d) (i := i) (e := e) hc hc2)
  constructor
  · intro hx
    obtain ⟨y, j, hl, hm⟩ := hx
    rw [hcl] at hm
    rcases link_live h hp hi hold hnone hf hl with ⟨_, ht⟩ | ⟨_, hlo, ht⟩
    · exact Or.inr (ht ▸ hm)
    · exact Or.inl ⟨y, j, hlo, ht ▸ hm⟩
  · intro hx
    rcases hx with ⟨y, j, hl, hm⟩ | hm
    · obtain ⟨hl', ht⟩ := link_liveAt h hp hi hold hnone hf hl
      exact ⟨y, j, hl', by rw [ht, hcl]; exact hm⟩
    · obtain ⟨hl, ht⟩ := link_added h hp hi hold hnone hf
      exact ⟨c, i, hl, by rw [ht, hcl]; exact hm⟩

include h hp hi hold hnone hf in
theorem link_wellFormed : (d.putEntry c i e).WellFormed := by
  obtain ⟨hc2, hc⟩ := link_range h hp
  have hn := putEntry_next (d := d) (i := i) (e := e) hc hc2
  have hcl := clustersOf_of_next hn
  have hlive := @link_live d c e i p h hp hi hold hnone hf
  refine WellFormed.of_disjoint ?_ ?_ ?_ ?_ ?_ ?_
  · rw [hn]; exact h.fat0
  · rw [hn]; exact h.fat1
  · intro j hj
    rw [putEntry_boot hc hc2 hj]; exact h.signature j hj
  · intro x hx
    rcases link_reachable h hp hi hold hnone hf hx with hx | hfo
    · by_cases hxc : x = c
      · rw [hxc]; exact link_directory h hp hi hnone hf
      · exact (h.directory x hx).congr (putEntry_table hc (h.reachable_range hx).2 hxc)
          (by rw [hn])
    · obtain ⟨hfo', rfl⟩ := folderOf_eq_some.mp hfo
      exact (link_folder h hp hf hfo').2
  · intro x j hl
    rcases hlive hl with ⟨_, ht⟩ | ⟨_, hlo, ht⟩
    · rw [ht]; exact hf.ok.congr fun y _ => by rw [hn]
    · rw [ht]; exact (h.entry x j hlo).congr fun y _ => by rw [hn]
  · intro x j x' j' hl hl' hne
    rw [hcl]
    rcases hlive hl with ⟨hxj, ht⟩ | ⟨_, hlo, ht⟩ <;>
      rcases hlive hl' with ⟨hxj', ht'⟩ | ⟨_, hlo', ht'⟩
    · exact absurd (hxj.trans hxj'.symm) hne
    · rw [ht, ht']
      exact fun y hy hy' => hf.unused y hy ⟨x', j', hlo', hy'⟩
    · rw [ht, ht']
      exact fun y hy hy' => hf.unused y hy' ⟨x, j, hlo, hy⟩
    · rw [ht, ht']
      exact h.disjoint x j x' j' hlo hlo' hne

include h hp hi hold hnone hf in
/-- Linking adds exactly one node to the tree. -/
theorem link_node (q : List Key) :
    (d.putEntry c i e).graph.node (d.putEntry c i e).content q =
      if q = e.key :: p then some (d.nodeOf e) else d.graph.node d.content q := by
  obtain ⟨hc2, hc⟩ := link_range h hp
  have hn := putEntry_next (d := d) (i := i) (e := e) hc hc2
  obtain ⟨_, hnew, hsame⟩ := link_paths h hp hi hold hnone hf q
  by_cases hq : q = e.key :: p
  · rw [if_pos hq]
    have he := hnew hq
    subst hq
    have hb : (d.putEntry c i e).content e = d.content e :=
      hf.ok.content_congr (fun x _ => by rw [hn]) fun x hx j hj =>
        putEntry_cluster hc (hf.ok.range x hx).2 (link_cluster_ne hp hf hx) hj
    rw [node_cons, he, Option.map_some, nodeOf, nodeOf, hb]
  · rw [if_neg hq]
    refine node_congr (hsame hq) fun e' he' hfo => ?_
    obtain ⟨x, j, hl, rfl⟩ := entryAt_live he'
    refine (h.entry x j hl).content_congr (fun y _ => by rw [hn]) fun y hy a ha => ?_
    refine putEntry_cluster hc ((h.entry x j hl).range y hy).2 ?_ ha
    intro hh
    subst hh
    exact h.file_not_dir hl hfo hy ⟨p, hp⟩

end Link

/-! ## Clearing a slot -/

section Unlink
variable (h : d.WellFormed) (hp : d.dirAt p = some c) (hi : 2 ≤ i)
  (hl : ((d.table c).table i).Live)

include h hp hi in
theorem unlink_directory : (d.putEntry c i 0).DirectoryOk c := by
  have hd := h.directory c ⟨p, hp⟩
  obtain ⟨hc2, hc⟩ := link_range h hp
  have h0 : 0 ≠ i := (ne_zero_of_slot hi).symm
  have h1 : 1 ≠ i := (ne_one_of_slot hi).symm
  -- a live slot of the new table is another slot of the old one
  have hlive : ∀ j, (((d.putEntry c i 0).table c).table j).Live →
      j ≠ i ∧ ((d.putEntry c i 0).table c).table j = (d.table c).table j := by
    intro j hj
    rw [putEntry_table_same] at hj ⊢
    by_cases hji : j = i
    · subst hji
      simp at hj
    · exact ⟨hji, FAT32DirectoryTable.set_other _ _ hji⟩
  refine ⟨?_, ?_, ?_, ?_, ?_, ?_⟩
  · rw [putEntry_next hc hc2]; exact hd.marked
  · rw [putEntry_table_same, FAT32DirectoryTable.set_other _ _ h0]; exact hd.selfFolder
  · rw [putEntry_table_same, FAT32DirectoryTable.set_other _ _ h0]; exact hd.selfCluster
  · rw [putEntry_table_same, FAT32DirectoryTable.set_other _ _ h1]; exact hd.second
  · intro j hj
    rw [putEntry_table_same]
    by_cases hji : j = i
    · subst hji
      simp
    · rw [FAT32DirectoryTable.set_other _ _ hji]
      exact hd.slots j hj
  · intro j j' hj hj' hlj hlj' hk
    obtain ⟨_, ht⟩ := hlive j hlj
    obtain ⟨_, ht'⟩ := hlive j' hlj'
    rw [ht, ht'] at hk
    rw [ht] at hlj
    rw [ht'] at hlj'
    exact hd.unique j j' hj hj' hlj hlj' hk

include h hp hi hl in
/-- The paths after clearing slot `i`: those through its entry are gone. -/
theorem unlink_paths (q : List Key) :
    ((((d.table c).table i).key :: p <:+ q → (d.putEntry c i 0).dirAt q = none) ∧
      (¬ ((d.table c).table i).key :: p <:+ q → (d.putEntry c i 0).dirAt q = d.dirAt q)) ∧
    ((((d.table c).table i).key :: p <:+ q → (d.putEntry c i 0).entryAt q = none) ∧
      (¬ ((d.table c).table i).key :: p <:+ q →
        (d.putEntry c i 0).entryAt q = d.entryAt q)) := by
  obtain ⟨hc2, hc⟩ := link_range h hp
  have hd := h.directory c ⟨p, hp⟩
  have hu : ∀ q, d.dirAt q = some c → q = p := fun q hq => h.onePath q p c hq hp
  have hgone : (d.putEntry c i 0).graph.lookup c ((d.table c).table i).key = none := by
    refine hd.lookup_gone hi hl ?_ fun j hji _ => ?_
    · rw [putEntry_table_same, FAT32DirectoryTable.set_same]
    · rw [putEntry_table_same, FAT32DirectoryTable.set_other _ _ hji]
  have hlook : ∀ x k, d.graph.Reachable x → (x, k) ≠ (c, ((d.table c).table i).key) →
      (d.putEntry c i 0).graph.lookup x k = d.graph.lookup x k := by
    intro x k hx hne
    by_cases hxc : x = c
    · subst hxc
      refine lookup_putEntry_other d (fun _ hk => hne (by rw [hk])) fun hz => ?_
      exact absurd hz not_live_zero
    · exact lookup_congr (putEntry_table hc (h.reachable_range hx).2 hxc)
  have hr : (d.putEntry c i 0).graph.root = d.graph.root := rfl
  have hch : (d.putEntry c i 0).graph.child = d.graph.child := rfl
  exact ⟨Graph.dirAt_remove hr hch hp hu hlook hgone q,
    Graph.entryAt_remove hr hch hp hu hlook hgone q⟩

include h hp hi hl in
theorem unlink_reachable {x : UInt32} (hx : (d.putEntry c i 0).Reachable x) : d.Reachable x := by
  obtain ⟨q, hq⟩ := hx
  have hpaths := (unlink_paths h hp hi hl q).1
  by_cases hs : ((d.table c).table i).key :: p <:+ q
  · have := (hpaths.1 hs).symm.trans hq
    cases this
  · exact ⟨q, (hpaths.2 hs).symm.trans hq⟩

include h hp hi hl in
/-- The live slots after clearing: old ones, with their entries. -/
theorem unlink_live {x : UInt32} {j : Fin 64} (hlx : (d.putEntry c i 0).LiveAt x j) :
    (x, j) ≠ (c, i) ∧ d.LiveAt x j ∧
      ((d.putEntry c i 0).table x).table j = (d.table x).table j := by
  obtain ⟨hc2, hc⟩ := link_range h hp
  have hx := unlink_reachable h hp hi hl hlx.dir
  by_cases hxc : x = c
  · subst hxc
    have hlive := hlx.live
    rw [putEntry_table_same] at hlive
    have hj : j ≠ i := by
      intro hh
      subst hh
      simp at hlive
    rw [FAT32DirectoryTable.set_other _ _ hj] at hlive
    refine ⟨fun he => hj (Prod.mk.inj he).2, ⟨hx, hlx.slot, hlive⟩, ?_⟩
    rw [putEntry_table_same, FAT32DirectoryTable.set_other _ _ hj]
  · have ht := putEntry_table (e := 0) (i := i) (d := d) hc (h.reachable_range hx).2 hxc
    exact ⟨fun he => hxc (Prod.mk.inj he).1, ⟨hx, hlx.slot, ht ▸ hlx.live⟩, by rw [ht]⟩

include h hp hi hl in
theorem unlink_wellFormed : (d.putEntry c i 0).WellFormed := by
  obtain ⟨hc2, hc⟩ := link_range h hp
  have hn := putEntry_next (d := d) (i := i) (e := 0) hc hc2
  have hlive := @unlink_live d c i p h hp hi hl
  refine WellFormed.of_disjoint ?_ ?_ ?_ ?_ ?_ ?_
  · rw [hn]; exact h.fat0
  · rw [hn]; exact h.fat1
  · intro j hj
    rw [putEntry_boot hc hc2 hj]; exact h.signature j hj
  · intro x hx
    have hx := unlink_reachable h hp hi hl hx
    by_cases hxc : x = c
    · rw [hxc]; exact unlink_directory h hp hi
    · exact (h.directory x hx).congr (putEntry_table hc (h.reachable_range hx).2 hxc) (by rw [hn])
  · intro x j hlx
    obtain ⟨_, hlo, ht⟩ := hlive hlx
    rw [ht]
    exact (h.entry x j hlo).congr fun y _ => by rw [hn]
  · intro x j x' j' hlx hlx' hne
    obtain ⟨_, hlo, ht⟩ := hlive hlx
    obtain ⟨_, hlo', ht'⟩ := hlive hlx'
    rw [clustersOf_of_next hn, ht, ht']
    exact h.disjoint x j x' j' hlo hlo' hne

include h hp hi hl in
/-- The clusters of the cleared entry are used no more. -/
theorem unlink_used {x : UInt32} (hx : (d.putEntry c i 0).Used x) :
    d.Used x ∧ x ∉ d.clustersOf ((d.table c).table i) := by
  obtain ⟨hc2, hc⟩ := link_range h hp
  obtain ⟨y, j, hly, hm⟩ := hx
  obtain ⟨hne, hlo, ht⟩ := unlink_live h hp hi hl hly
  rw [clustersOf_of_next (putEntry_next hc hc2), ht] at hm
  exact ⟨⟨y, j, hlo, hm⟩, h.disjoint y j c i hlo ⟨⟨p, hp⟩, hi, hl⟩ hne hm⟩

include h hp in
/-- A live slot stays live unless it is the cleared one, or lies below it. -/
theorem unlink_liveAt {x : UInt32} {j : Fin 64} (hlx : d.LiveAt x j) (hne : (x, j) ≠ (c, i))
    (hx : (d.putEntry c i 0).Reachable x) : (d.putEntry c i 0).LiveAt x j ∧
      ((d.putEntry c i 0).table x).table j = (d.table x).table j := by
  obtain ⟨hc2, hc⟩ := link_range h hp
  have ht : ((d.putEntry c i 0).table x).table j = (d.table x).table j := by
    by_cases hxc : x = c
    · subst hxc
      have hji : j ≠ i := fun he => hne (by rw [he])
      rw [putEntry_table_same, FAT32DirectoryTable.set_other _ _ hji]
    · rw [putEntry_table hc (h.reachable_range hlx.dir).2 hxc]
  exact ⟨⟨hx, hlx.slot, ht ▸ hlx.live⟩, ht⟩

include h hp hi hl in
/-- Below a file or an empty folder there is nothing. -/
theorem unlink_reachable_of_empty
    (hempty : ((d.table c).table i).IsFolder → ∀ j, ¬ d.LiveAt ((d.table c).table i).cluster j)
    {x : UInt32} {j : Fin 64} (hlx : d.LiveAt x j) : (d.putEntry c i 0).Reachable x := by
  obtain ⟨q, hq⟩ := hlx.dir
  refine ⟨q, ((unlink_paths h hp hi hl q).1.2 ?_).trans hq⟩
  intro hx
  obtain ⟨s, rfl⟩ := hx
  -- some directory lies at the cleared path, and has an entry
  obtain ⟨f, j', hf, hlf⟩ : ∃ f j', d.dirAt (((d.table c).table i).key :: p) = some f ∧
      d.LiveAt f j' := by
    by_cases hs : s = []
    · subst hs
      exact ⟨x, j, hq, hlx⟩
    · obtain ⟨f, k, e, hf, he⟩ := Graph.dirAt_append hq hs
      obtain ⟨j', _, hj', hlive, _, rfl⟩ := lookup_some he
      exact ⟨f, j', hf, ⟨⟨_, hf⟩, hj', hlive⟩⟩
  obtain ⟨b, e, hb, he, hchild⟩ := Graph.dirAt_cons_eq_some.mp hf
  cases hp.symm.trans hb
  rw [graph_lookup, (h.directory c ⟨p, hp⟩).lookup hi hl, Option.some.injEq] at he
  subst he
  obtain ⟨hfo, rfl⟩ := folderOf_eq_some.mp hchild
  exact hempty hfo j' hlf

include h hp hi hl in
/-- What lies directly in a cleared folder is out of the tree. -/
theorem unlink_child_not_used {j : Fin 64} (hf : ((d.table c).table i).IsFolder)
    (hlj : d.LiveAt ((d.table c).table i).cluster j) {x : UInt32}
    (hx : x ∈ d.clustersOf ((d.table ((d.table c).table i).cluster).table j)) :
    ¬ (d.putEntry c i 0).Used x := by
  intro hu
  obtain ⟨hc2, hc⟩ := link_range h hp
  obtain ⟨y, a, hly, hm⟩ := hu
  obtain ⟨_, hlo, ht⟩ := unlink_live h hp hi hl hly
  rw [clustersOf_of_next (putEntry_next hc hc2), ht] at hm
  -- the slot that uses the cluster is in the cleared folder
  have hsame : (y, a) = (((d.table c).table i).cluster, j) := by
    by_contra hne
    exact h.disjoint y a _ j hlo hlj hne hm hx
  cases hsame
  obtain ⟨q, hq⟩ := hly.dir
  have hpath : d.dirAt (((d.table c).table i).key :: p) = some ((d.table c).table i).cluster :=
    Graph.dirAt_cons_eq_some.mpr ⟨_, _, hp, (h.directory c ⟨p, hp⟩).lookup hi hl,
      folderOf_eq_some.mpr ⟨hf, rfl⟩⟩
  obtain ⟨q', hq'⟩ := unlink_reachable h hp hi hl hly.dir
  by_cases hs : ((d.table c).table i).key :: p <:+ q
  · exact absurd (((unlink_paths h hp hi hl q).1.1 hs).symm.trans hq) (by simp)
  · have hqo := ((unlink_paths h hp hi hl q).1.2 hs).symm.trans hq
    have heq := h.onePath _ _ _ hqo hpath
    exact hs (heq ▸ List.suffix_refl _)

/-- The tree after clearing a slot: without its entry and what was below it. -/
theorem unlink_tree (h : d.WellFormed) (hp : d.dirAt p = some c) (hi : 2 ≤ i)
    (hl : ((d.table c).table i).Live) (h' : (d.putEntry c i 0).WellFormed) :
    (d.putEntry c i 0).tree h' = (d.tree h).remove ((d.table c).table i).key p := by
  obtain ⟨hc2, hc⟩ := link_range h hp
  have hn := putEntry_next (d := d) (i := i) (e := 0) hc hc2
  ext1
  funext q
  obtain ⟨_, hgone, hsame⟩ := unlink_paths h hp hi hl q
  show (d.putEntry c i 0).graph.node (d.putEntry c i 0).content q =
    if ((d.table c).table i).key :: p <:+ q then none else d.graph.node d.content q
  by_cases hs : ((d.table c).table i).key :: p <:+ q
  · rw [if_pos hs]
    cases q with
    | nil => exact absurd (List.suffix_nil.mp hs) (by simp)
    | cons k q => rw [node_cons, hgone hs, Option.map_none]
  · rw [if_neg hs]
    refine node_congr (hsame hs) fun e he hfo => ?_
    obtain ⟨x, j, hlx, rfl⟩ := entryAt_live he
    refine (h.entry x j hlx).content_congr (fun y _ => by rw [hn]) fun y hy a ha => ?_
    refine putEntry_cluster hc ((h.entry x j hlx).range y hy).2 ?_ ha
    intro hx
    subst hx
    exact h.file_not_dir hlx hfo hy ⟨p, hp⟩

end Unlink

end Disk

end KajijOSta.Fat32
