import Mathlib.Logic.Relation
import KajijOSta.Fat32.Walks
import KajijOSta.Shell.Move
import KajijOSta.Terminal.Matching
import KajijOSta.Terminal.Nested

/-! # The search

`find` calls itself for the folders of a directory, with the cluster and the name
READ_DIR needs for each, and returns from a directory at the first entry of the name.
In a tree of plain names it visits the directories it is called for, and prints an
entry when there is one (`find_searches`). -/
namespace KajijOSta.Terminal
open KajijOSta.Fat32 KajijOSta.Shell KajijOSta.NamedTree

/-! ## The tree -/

/-- Names have 1 to 8 characters, there are no extensions, and no directory holds an
entry of its own name. -/
structure PlainTree (d : Disk) : Prop where
  named : ∀ c i, d.LiveAt c i → ∃ w : Word, ((d.table c).table i).name = w.name
  ext : ∀ c i, d.LiveAt c i → ((d.table c).table i).ext = fun _ => 0
  other : ∀ c i, d.LiveAt c i → ((d.table c).table i).name ≠ ((d.table c).table 0).name

/-- Slot `i` of the directory at `c` is the entry of another one: of a folder, or of the
root itself. -/
inductive EntryOf (d : Disk) : UInt32 → Fin 64 → UInt32 → Prop
  | root : EntryOf d rootClusterNumber 0 rootClusterNumber
  | folder {c : UInt32} {i : Fin 64} (hl : d.LiveAt c i) (hf : ((d.table c).table i).IsFolder) :
      EntryOf d c i ((d.table c).table i).cluster

def ChildOf (d : Disk) (c c' : UInt32) : Prop :=
  ∃ i, d.LiveAt c i ∧ ((d.table c).table i).IsFolder ∧ ((d.table c).table i).cluster = c'

abbrev Below (d : Disk) : UInt32 → UInt32 → Prop := Relation.ReflTransGen (ChildOf d)

def InSubtree (d : Disk) (w : Word) (c : UInt32) : Prop :=
  ∃ c' i, Below d c c' ∧ d.LiveAt c' i ∧ ((d.table c').table i).name = w.name

/-- What READ_DIR would turn down does not occur: no entry of a directory in the subtree
is larger than a table. -/
def SmallFolders (d : Disk) (c : UInt32) : Prop :=
  ∀ c' i, Below d c c' → d.LiveAt c' i → ((d.table c').table i).IsFolder →
    ((d.table c').table i).filesize.toNat ≤ clusterSize

section Tree
variable {d : Disk} {w : Word} {c c' : UInt32} {i : Fin 64}

theorem SmallFolders.child (h : SmallFolders d c) (hc : ChildOf d c c') : SmallFolders d c' :=
  fun x j hx => h x j (Relation.ReflTransGen.head hc hx)

/-- An entry of the subtree is in the directory itself, or below one of its folders. -/
theorem inSubtree_iff : InSubtree d w c ↔ ∃ i, d.LiveAt c i ∧ (((d.table c).table i).name = w.name ∨
    ((d.table c).table i).IsFolder ∧ InSubtree d w ((d.table c).table i).cluster) := by
  constructor
  · rintro ⟨x, j, hx, hl, hname⟩
    rcases Relation.ReflTransGen.cases_head hx with rfl | ⟨y, ⟨i, hli, hf, rfl⟩, hy⟩
    · exact ⟨j, hl, Or.inl hname⟩
    · exact ⟨i, hli, Or.inr ⟨hf, x, j, hy, hl, hname⟩⟩
  · rintro ⟨i, hl, hname | ⟨hf, x, j, hx, hlj, hname⟩⟩
    · exact ⟨c, i, .refl, hl, hname⟩
    · exact ⟨x, j, .head ⟨i, hl, hf, rfl⟩ hx, hlj, hname⟩

theorem EntryOf.reachable (h : d.WellFormed) (he : EntryOf d c i c') : d.Reachable c' := by
  cases he with
  | root => exact Disk.reachable_root d
  | folder hl hf => exact hl.reachable (h.directory c hl.dir) hf

/-- READ_DIR shows a directory at its entry. -/
theorem EntryOf.shown (h : d.WellFormed) (hplain : PlainTree d) (he : EntryOf d c i c')
    (hsmall : ((d.table c).table i).filesize.toNat ≤ clusterSize) :
    ShownAt d c ((d.table c).table i).name i ∧ ((d.table c).table i).cluster = c' := by
  cases he with
  | root =>
    have hdir := h.directory _ (Disk.reachable_root d)
    exact ⟨⟨rfl, fun j hj => absurd hj (Fin.not_lt_zero j), hdir.selfFolder, hsmall⟩,
      hdir.selfCluster⟩
  | folder hl hf =>
    obtain ⟨w, hw⟩ := hplain.named c i hl
    have hdir := h.directory c hl.dir
    have hzero : ∀ e : FAT32DirectoryEntry, e = 0 → e.name ≠ ((d.table c).table i).name := by
      intro e he hname
      rw [he, hw] at hname
      exact w.name_ne_zero hname.symm
    refine ⟨⟨rfl, fun j hj => ?_, hf, hsmall⟩, rfl⟩
    by_cases hj2 : 2 ≤ j
    · rcases hdir.slots j hj2 with hz | hlive
      · exact hzero _ hz
      · -- two entries of one name would have the same key
        intro hname
        have hlj : d.LiveAt c j := ⟨hl.dir, hj2, hlive.1⟩
        have hkey : ((d.table c).table j).key = ((d.table c).table i).key := by
          unfold FAT32DirectoryEntry.key
          rw [hname, hplain.ext c j hlj, hplain.ext c i hl]
        exact absurd (hdir.unique j i hj2 hl.slot hlive.1 hl.live hkey) hj.ne
    · rcases slot_lt_two hj2 with rfl | rfl
      · exact (hplain.other c i hl).symm
      · exact hzero _ hdir.second

/-- In such a tree `strcmp` finds the name. -/
theorem PlainTree.strcmp_iff {buf : Memory} (hplain : PlainTree d) (hl : d.LiveAt c i)
    (htable : FAT32DirectoryTable.ofBytes buf = d.table c) :
    strcmp (buf.from (32 * i)) w.chars = true ↔ ((d.table c).table i).name = w.name := by
  obtain ⟨w', hw'⟩ := hplain.named c i hl
  have hname' : SameName (buf.from (32 * i)) w'.chars := by
    refine name_eq_padded.mp ?_
    rw [htable]
    exact hw'
  have hext : buf.from (32 * i) 8 = 0 := by
    have hz : ((FAT32DirectoryTable.ofBytes buf).table i).ext 0 = 0 := by
      rw [htable, hplain.ext c i hl]
    exact hz
  have hpadded : ((d.table c).table i).name = w.name ↔ SameName (buf.from (32 * i)) w.chars := by
    rw [← htable]
    exact name_eq_padded
  rw [Terminal.strcmp_iff, hpadded]
  refine ⟨fun hs => hs.sameName fun j hj h8 => hname'.zero h8 ?_,
    fun hs => hs.stringAt w.short hext⟩
  -- the name ends where the string does
  by_contra hlong
  have hlt : w.chars.length < w'.chars.length := by omega
  have hchar := hname'.char (by omega) hlt
  rw [hs.stop] at hchar
  exact w'.nonzero _ (List.getElem_mem hlt) hchar.symm

end Tree

/-! ## What a search does -/

/-- Some code of `find` ends, each READ_DIR of it returns the table of the directory of
the subtree it is for, what it prints has the name, and it prints when there is
something to find. -/
structure Searches (m : Machine) (w : Word) (c : UInt32) (hit : Prop)
    (x : List FindStep × Bool) : Prop where
  ends : x.2 = true
  visits : ∀ r c', .visit r c' ∈ x.1 → Below m.disk c c' ∧ (readDirectory m r).1 = 0 ∧
    FAT32DirectoryTable.ofBytes (readDirectory m r).2 = m.disk.table c'
  prints : ∀ buf i, .print buf i ∈ x.1 → ((FAT32DirectoryTable.ofBytes buf).table i).Live ∧
    ((FAT32DirectoryTable.ofBytes buf).table i).name = w.name
  finds : (∃ buf i, .print buf i ∈ x.1) ↔ hit

section Searches
variable {m : Machine} {w : Word} {c c' : UInt32} {hit hit' : Prop} {x y : List FindStep × Bool}

theorem searches_nothing : Searches m w c False ([], true) :=
  ⟨rfl, nofun, nofun, ⟨nofun, False.elim⟩⟩

theorem Searches.congr (h : Searches m w c hit x) (hiff : hit ↔ hit') : Searches m w c hit' x :=
  ⟨h.ends, h.visits, h.prints, h.finds.trans hiff⟩

/-- A search below a folder is one of the directory. -/
theorem Searches.lift (h : Searches m w c' hit x) (hc : ChildOf m.disk c c') :
    Searches m w c hit x := by
  refine ⟨h.ends, fun r y hy => ?_, h.prints, h.finds⟩
  obtain ⟨hbelow, hread⟩ := h.visits r y hy
  exact ⟨.head hc hbelow, hread⟩

theorem Searches.append (h : Searches m w c hit x) (h' : Searches m w c hit' y) :
    Searches m w c (hit ∨ hit') (x.1 ++ y.1, y.2) := by
  refine ⟨h'.ends, fun r z hz => ?_, fun buf i hz => ?_, ?_⟩
  · rcases List.mem_append.mp hz with hz | hz
    · exact h.visits r z hz
    · exact h'.visits r z hz
  · rcases List.mem_append.mp hz with hz | hz
    · exact h.prints buf i hz
    · exact h'.prints buf i hz
  · rw [← h.finds, ← h'.finds]
    constructor
    · rintro ⟨buf, i, hz⟩
      rcases List.mem_append.mp hz with hz | hz
      · exact Or.inl ⟨buf, i, hz⟩
      · exact Or.inr ⟨buf, i, hz⟩
    · rintro (⟨buf, i, hz⟩ | ⟨buf, i, hz⟩)
      · exact ⟨buf, i, List.mem_append_left _ hz⟩
      · exact ⟨buf, i, List.mem_append_right _ hz⟩

/-- A comparison in front. -/
theorem Searches.compare (h : Searches m w c hit x) :
    Searches m w c hit (.compare :: x.1, x.2) := by
  have hcompare : Searches m w c False ([.compare], true) := by
    refine ⟨rfl, ?_, ?_, ?_, False.elim⟩
    · simp
    · simp
    · simp
  exact (hcompare.append h).congr (iff_of_eq (false_or hit))

/-- The READ_DIR of a call in front. -/
theorem Searches.visit (h : Searches m w c hit x) {r : FAT32DriverRequest}
    (hcode : (readDirectory m r).1 = 0)
    (htable : FAT32DirectoryTable.ofBytes (readDirectory m r).2 = m.disk.table c) :
    Searches m w c hit (.visit r c :: x.1, x.2) := by
  have hvisit : Searches m w c False ([.visit r c], true) := by
    refine ⟨rfl, fun r' c' hmem => ?_, ?_, ?_, False.elim⟩
    · cases List.mem_singleton.mp hmem
      exact ⟨.refl, hcode, htable⟩
    · simp
    · simp
  exact (hvisit.append h).congr (iff_of_eq (false_or hit))

/-- An entry of the name, and the return. -/
theorem searches_print {buf : Memory} {i : Fin 64} (hit' : hit)
    (hl : ((FAT32DirectoryTable.ofBytes buf).table i).Live)
    (hname : ((FAT32DirectoryTable.ofBytes buf).table i).name = w.name) :
    Searches m w c hit ([.compare, .print buf i], true) := by
  refine ⟨rfl, ?_, fun buf' j hmem => ?_, iff_of_true ⟨buf, i, by simp⟩ hit'⟩
  · simp
  · simp only [List.mem_cons, List.not_mem_nil, or_false, reduceCtorEq, false_or,
      FindStep.print.injEq] at hmem
    obtain ⟨rfl, rfl⟩ := hmem
    exact ⟨hl, hname⟩

end Searches

/-! ## The loop over the slots -/

section Loop
variable {m : Machine} {w : Word} {c : UInt32} {buf : Memory}
  {descend : Fin 64 → List FindStep × Bool} (hplain : PlainTree m.disk)
  (hc : m.disk.Reachable c) (htable : FAT32DirectoryTable.ofBytes buf = m.disk.table c)
  (hdescend : ∀ i, m.disk.LiveAt c i → ((m.disk.table c).table i).IsFolder →
    Searches m w ((m.disk.table c).table i).cluster
      (InSubtree m.disk w ((m.disk.table c).table i).cluster) (descend i))

/-- The entry of a slot is what is looked for, or leads to it. -/
def Leads (d : Disk) (w : Word) (c : UInt32) (i : Fin 64) : Prop :=
  ((d.table c).table i).Live ∧ (((d.table c).table i).name = w.name ∨
    ((d.table c).table i).IsFolder ∧ InSubtree d w ((d.table c).table i).cluster)

include hplain hc htable hdescend in
/-- The slots one after the other, up to the first entry of the name. -/
theorem findSlots_searches : ∀ {is : List (Fin 64)}, (∀ i ∈ is, 2 ≤ i) →
    Searches m w c (∃ i ∈ is, Leads m.disk w c i) (findSlots descend buf w.chars is)
  | [], _ => searches_nothing.congr ⟨False.elim, fun h => by simp at h⟩
  | i :: is, his => by
    have htail : ∀ j ∈ is, 2 ≤ j := fun j hj => his j (List.mem_cons_of_mem _ hj)
    have hrest := findSlots_searches htail
    have hexists : (∃ j ∈ i :: is, Leads m.disk w c j) ↔
        Leads m.disk w c i ∨ ∃ j ∈ is, Leads m.disk w c j :=
      List.exists_mem_cons_iff _ i is
    unfold findSlots
    rw [htable]
    by_cases hlive : ((m.disk.table c).table i).Live
    · have hl : m.disk.LiveAt c i := ⟨hc, his i List.mem_cons_self, hlive⟩
      have hstrcmp := hplain.strcmp_iff (w := w) hl htable
      rw [if_pos hlive]
      by_cases hname : ((m.disk.table c).table i).name = w.name
      · rw [if_pos (hstrcmp.mpr hname)]
        refine searches_print ⟨i, List.mem_cons_self, hlive, Or.inl hname⟩ ?_ ?_
        · rw [htable]
          exact hlive
        · rw [htable]
          exact hname
      · rw [if_neg (mt hstrcmp.mp hname)]
        by_cases hfolder : ((m.disk.table c).table i).IsFolder
        · rw [if_pos hfolder]
          have hbelow := hdescend i hl hfolder
          have hleads : Leads m.disk w c i ↔
              InSubtree m.disk w ((m.disk.table c).table i).cluster := by
            unfold Leads
            simp [hlive, hname, hfolder]
          cases hd : descend i with
          | mk below ends =>
            rw [hd] at hbelow
            obtain rfl : ends = true := hbelow.ends
            have hall := (hbelow.lift ⟨i, hl, hfolder, rfl⟩).compare.append hrest
            exact hall.congr (by rw [hexists, hleads])
        · rw [if_neg hfolder]
          refine hrest.compare.congr ?_
          rw [hexists]
          unfold Leads
          simp [hname, hfolder]
    · rw [if_neg hlive]
      refine hrest.congr ?_
      rw [hexists]
      unfold Leads
      simp [hlive]

end Loop

theorem leads_iff {m : Machine} {w : Word} {c : UInt32} (hc : m.disk.Reachable c) :
    (∃ i ∈ dataSlots, Leads m.disk w c i) ↔ InSubtree m.disk w c := by
  rw [inSubtree_iff]
  constructor
  · rintro ⟨i, hi, hlive, hleads⟩
    exact ⟨i, ⟨hc, mem_dataSlots.mp hi, hlive⟩, hleads⟩
  · rintro ⟨i, hl, hleads⟩
    exact ⟨i, mem_dataSlots.mpr hl.slot, hl.live, hleads⟩

/-! ## The calls -/

section Calls
variable {m : Machine} {w : Word} (h : m.WellFormed) (hplain : PlainTree m.disk)
  (tables : List (Fin 64) → Memory)

include h in
/-- The paths of the tree have a greatest length. -/
theorem exists_height : ∃ height, ∀ p c, m.disk.dirAt p = some c → p.length ≤ height := by
  obtain ⟨height, hheight⟩ := (h.image.finite.image List.length).bddAbove
  refine ⟨height, fun p c hp => hheight ⟨p, ?_, rfl⟩⟩
  rw [Set.mem_ofPred_eq, hp]
  exact Option.some_ne_none c

include h hplain in
/-- A call, by the height of the tree that is left. -/
theorem findFrom_searches {height : Nat}
    (hheight : ∀ p c, m.disk.dirAt p = some c → p.length ≤ height) :
    ∀ (depth : Nat) {p : List Fat32.Key} {c c' : UInt32} {i : Fin 64} (path : List (Fin 64)),
      height < p.length + depth → m.disk.dirAt p = some c' → EntryOf m.disk c i c' →
      ((m.disk.table c).table i).filesize.toNat ≤ clusterSize → SmallFolders m.disk c' →
      Searches m w c' (InSubtree m.disk w c')
        (findFrom m tables w.chars depth path c ((m.disk.table c).table i).name c')
  | 0, p, c, c', i, path, hdepth, hp, _, _, _ => by
    have hle := hheight p c' hp
    omega
  | depth + 1, p, c, c', i, path, hdepth, hp, he, hsmall, hbelow => by
    obtain ⟨hshown, hcluster⟩ := he.shown h.image hplain hsmall
    have hread := readDirectory_shown hshown (tables path)
    rw [hcluster] at hread
    have htable : FAT32DirectoryTable.ofBytes (readDirectory m (Shell.request (tables path)
        ((m.disk.table c).table i).name c (UInt32.ofNat clusterSize))).2 = m.disk.table c' := by
      rw [hread]
      exact FAT32DirectoryTable.ofBytes_congr fun j hj => readClusters_lt _ _ _ hj
    have hslots := @findSlots_searches m w c' _ (fun j => findFrom m tables w.chars depth
      (j :: path) c' ((m.disk.table c').table j).name ((m.disk.table c').table j).cluster)
      hplain ⟨p, hp⟩ htable (fun j hl hf => ?_) dataSlots fun j hj => mem_dataSlots.mp hj
    · have hvisit := (hslots.congr (leads_iff ⟨p, hp⟩)).visit (congrArg Prod.fst hread) htable
      unfold findFrom
      dsimp only
      rw [htable]
      exact hvisit
    · have hchild : m.disk.dirAt (((m.disk.table c').table j).key :: p) =
          some ((m.disk.table c').table j).cluster :=
        Graph.dirAt_cons_eq_some.mpr ⟨_, _, hp,
          (h.image.directory c' ⟨p, hp⟩).lookup hl.slot hl.live,
          Disk.folderOf_eq_some.mpr ⟨hf, rfl⟩⟩
      refine findFrom_searches hheight depth (j :: path) ?_ hchild (.folder hl hf)
        (hbelow c' j .refl hl hf) (hbelow.child ⟨j, hl, hf, rfl⟩)
      rw [List.length_cons]
      omega

/-- The first thing a call does is its READ_DIR. -/
theorem findFrom_visits (chars : List UInt8) (depth : Nat) (path : List (Fin 64))
    (c next : UInt32) (name : Fin 8 → UInt8) :
    .visit (Shell.request (tables path) name c (UInt32.ofNat clusterSize)) next ∈
      (findFrom m tables chars (depth + 1) path c name next).1 := by
  unfold findFrom
  exact List.mem_cons_self

end Calls

/-- **The search finds what there is.** In a well-formed tree of plain names whose folder
entries are no larger than a table, for every directory and every name, enough calls
end; each READ_DIR returns the table of the directory it is for; and an entry is printed,
under the name, exactly when the subtree holds one. -/
theorem find_searches {m : Machine} {w : Word} {c c' : UInt32} {i : Fin 64} (h : m.WellFormed)
    (hplain : PlainTree m.disk) (he : EntryOf m.disk c i c')
    (hsmall : ((m.disk.table c).table i).filesize.toNat ≤ clusterSize)
    (hbelow : SmallFolders m.disk c') :
    ∃ calls, ∀ tables depth, calls ≤ depth → Searches m w c' (InSubtree m.disk w c')
      (findFrom m tables w.chars depth [] c ((m.disk.table c).table i).name c') := by
  obtain ⟨height, hheight⟩ := exists_height h
  obtain ⟨p, hp⟩ := he.reachable h.image
  refine ⟨height + 1, fun tables depth hdepth => ?_⟩
  exact findFrom_searches h hplain tables hheight depth [] (by omega) hp he hsmall hbelow

/-! ## Trees that requests make -/

section Stored
variable {m : Machine} {r : FAT32DriverRequest} {i : Fin 64} (h : m.WellFormed)
  (hc : m.disk.Reachable r.parentClusterNumber) (hs : r.bufferSize.toNat ≤ 255 * clusterSize)
  (hst : Storable m r i)

include h hc hs hst in
/-- A request with a name keeps the names plain, unless the directory has that name. -/
theorem PlainTree.stored {w : Word} (hplain : PlainTree m.disk) (hkey : r.key = w.key)
    (hother : w.name ≠ ((m.disk.table r.parentClusterNumber).table 0).name) :
    PlainTree (stored m r i).disk := by
  have hi := (vacantSlot_eq_some.mp hst.vacant).1
  have hadded : (addedEntry m r).key = w.key := addedEntry_key.trans hkey
  obtain ⟨p, hp⟩ := id hc
  refine ⟨fun c j hl => ?_, fun c j hl => ?_, fun c j hl => ?_⟩
  · rcases stored_live h hc hs hst hl with ⟨_, ht⟩ | ⟨hlo, ht⟩
    · exact ⟨w, ht ▸ congrArg Key.name hadded⟩
    · exact ht ▸ hplain.named c j hlo
  · rcases stored_live h hc hs hst hl with ⟨_, ht⟩ | ⟨hlo, ht⟩
    · exact ht ▸ congrArg Key.ext hadded
    · exact ht ▸ hplain.ext c j hlo
  · -- a directory with entries is an old one
    rcases stored_live h hc hs hst hl with ⟨hat, ht⟩ | ⟨hlo, ht⟩
    · cases hat
      rw [ht, stored_own h hs hst.space hp hi hc]
      exact fun hname => hother ((congrArg Key.name hadded).symm.trans hname)
    · rw [ht, stored_own h hs hst.space hp hi hlo.dir]
      exact hplain.other c j hlo

include h hc hs hst in
/-- The folder a request makes has no size. -/
theorem stored_small
    (hsmall : ∀ c j, m.disk.LiveAt c j → ((m.disk.table c).table j).IsFolder →
      ((m.disk.table c).table j).filesize = 0)
    {c : UInt32} {j : Fin 64} (hl : (stored m r i).disk.LiveAt c j)
    (hf : (((stored m r i).disk.table c).table j).IsFolder) :
    (((stored m r i).disk.table c).table j).filesize = 0 := by
  rcases stored_live h hc hs hst hl with ⟨_, ht⟩ | ⟨hlo, ht⟩
  · rw [ht] at hf ⊢
    rw [addedEntry_filesize]
    exact addedEntry_folder.mp hf
  · rw [ht] at hf ⊢
    exact hsmall c j hlo hf

end Stored

/-- The folders in folders have plain names and no size. -/
theorem nested_plain : ∀ {n : Nat}, n ≤ 256 → PlainTree (nested n).1.disk ∧
    ∀ c i, (nested n).1.disk.LiveAt c i → (((nested n).1.disk.table c).table i).IsFolder →
      (((nested n).1.disk.table c).table i).filesize = 0
  | 0, _ => by
    have hnot : ∀ {c i}, ¬ (nested 0).1.disk.LiveAt c i := rootedDisk_not_live _
    exact ⟨⟨fun c i hl => absurd hl hnot, fun c i hl => absurd hl hnot,
      fun c i hl => absurd hl hnot⟩, fun c i hl => absurd hl hnot⟩
  | n + 1, hn => by
    have hend := nested_deepEnd (Nat.le_of_succ_le hn)
    obtain ⟨p, _, hp⟩ := hend.reachable
    obtain ⟨hplain, hsmall⟩ := nested_plain (Nat.le_of_succ_le hn)
    have hst := hend.storable (Nat.lt_of_succ_le hn)
    have hs : (nestRequest (nested n).2 n).bufferSize.toNat ≤ 255 * clusterSize := Nat.zero_le _
    exact ⟨hplain.stored hend.wellFormed ⟨p, hp⟩ hs hst (w := nestWord n) rfl hend.own.symm,
      fun c i hl hf => stored_small hend.wellFormed ⟨p, hp⟩ hs hst hsmall hl hf⟩

theorem Nest.liveAt {d : Disk} {n : Nat} {up : DirectoryState} {rest : List DirectoryState}
    (hw : d.WellFormed) (h : Nest d n up rest) (hl : ((d.table up.clusterNumber).table 2).Live) :
    d.LiveAt up.clusterNumber 2 := by
  obtain ⟨p, _, ht⟩ := h.trail
  exact ⟨⟨p, ht.dirAt hw⟩, le_refl 2, hl⟩

theorem Nest.reaches {d : Disk} {n : Nat} {cur : DirectoryState} {stack : List DirectoryState}
    (hw : d.WellFormed) (h : Nest d n cur stack) : Below d rootClusterNumber cur.clusterNumber := by
  induction h with
  | root _ => exact .refl
  | folder h hl hs ih => exact ih.tail ⟨2, h.liveAt hw hl, hs.folder, rfl⟩

/-- The last of the folders is in the subtree of the root. -/
theorem nested_inSubtree {n : Nat} (hn : n < 256) :
    InSubtree (nested (n + 1)).1.disk (nestWord n) rootClusterNumber := by
  have hend := nested_deepEnd (Nat.succ_le_of_lt hn)
  obtain ⟨cur, stack, hnest, _⟩ := hend.nest
  cases hnest with
  | folder h hl hs =>
    exact ⟨_, 2, h.reaches hend.wellFormed.image, h.liveAt hend.wellFormed.image hl, hs.name_eq⟩

theorem nested_searched :
    InSubtree (nested 2).1.disk bWord rootClusterNumber ∧
    ∃ calls, ∀ tables depth, calls ≤ depth →
      Searches (nested 2).1 bWord rootClusterNumber
        (InSubtree (nested 2).1.disk bWord rootClusterNumber)
        (findFrom (nested 2).1 tables bWord.chars depth [] rootClusterNumber
          (((nested 2).1.disk.table rootClusterNumber).table 0).name rootClusterNumber) := by
  have hend := nested_deepEnd (by decide : 2 ≤ 256)
  obtain ⟨hplain, hsmall⟩ := nested_plain (by decide : 2 ≤ 256)
  obtain ⟨cur, stack, hnest, _⟩ := hend.nest
  obtain ⟨p, _, ht⟩ := hnest.trail
  refine ⟨nested_inSubtree (by decide : 1 < 256),
    find_searches hend.wellFormed hplain .root ht.rootShown.small fun c i _ hl hf => ?_⟩
  rw [hsmall c i hl hf]
  exact Nat.zero_le _

/-! ## A root entry larger than a table -/

/-- The own entry of the root, with a filesize of two clusters. -/
def largeOwn : FAT32DirectoryEntry :=
  { (initDirectoryTable Shell.rootName rootClusterNumber).table 0 with filesize := 4096 }

def largeRoot : Machine :=
  ⟨⟨rootedFat, 0⟩, (rootedDisk Shell.rootName).putEntry rootClusterNumber 0 largeOwn, []⟩

theorem largeRoot_table : largeRoot.disk.table rootClusterNumber =
    (initDirectoryTable Shell.rootName rootClusterNumber).set 0 largeOwn := by
  show ((rootedDisk Shell.rootName).putEntry _ _ _).table _ = _
  rw [Disk.putEntry_table_same, rootedDisk_table]

theorem largeRoot_empty : ∀ i, i ≠ 0 → (largeRoot.disk.table rootClusterNumber).table i = 0 := by
  intro i hi
  rw [largeRoot_table, FAT32DirectoryTable.set_other _ _ hi, initDirectoryTable_slot _ hi]

theorem largeRoot_own : (largeRoot.disk.table rootClusterNumber).table 0 = largeOwn := by
  rw [largeRoot_table, FAT32DirectoryTable.set_same]

theorem largeRoot_coherent : largeRoot.disk.fatTable = largeRoot.fat := by
  have hput : ((rootedDisk Shell.rootName).putEntry rootClusterNumber 0 largeOwn).fatTable =
      (rootedDisk Shell.rootName).fatTable := by
    unfold Disk.putEntry
    rw [Disk.fatTable_write_other _ root_lt two_le_root]
  exact hput.trans (rootedDisk_fatTable Shell.rootName)

theorem largeRoot_wellFormed : largeRoot.WellFormed := by
  have hnext : largeRoot.disk.next = (rootedDisk Shell.rootName).next :=
    Disk.putEntry_next root_lt two_le_root
  have hw := rootedDisk_wellFormed Shell.rootName
  refine ⟨largeRoot_coherent,
    Disk.emptyRoot_wellFormed largeRoot_empty ?_ ?_ ?_ (fun j hj => ?_) ?_ ?_⟩
  · rw [hnext]
    exact hw.fat0
  · rw [hnext]
    exact hw.fat1
  · rw [hnext]
    exact (hw.directory _ (Disk.reachable_root _)).marked
  · exact (Disk.putEntry_boot root_lt two_le_root hj).trans (hw.signature j hj)
  · rw [largeRoot_own, largeOwn, initDirectoryTable, FAT32DirectoryTable.set_same]
    rfl
  · rw [largeRoot_own, largeOwn, initDirectoryTable, FAT32DirectoryTable.set_same]
    exact halves_cluster rootClusterNumber

/-- READ_DIR turns down the root, and `find` goes on over whatever was in its buffer. -/
theorem largeRoot_not_searched : largeRoot.WellFormed ∧ PlainTree largeRoot.disk ∧
    EntryOf largeRoot.disk rootClusterNumber 0 rootClusterNumber ∧
    ∀ w : Word, ¬ ∃ calls, ∀ tables depth, calls ≤ depth →
      Searches largeRoot w rootClusterNumber (InSubtree largeRoot.disk w rootClusterNumber)
        (findFrom largeRoot tables w.chars depth [] rootClusterNumber
          ((largeRoot.disk.table rootClusterNumber).table 0).name rootClusterNumber) := by
  have hnot : ∀ {c i}, ¬ largeRoot.disk.LiveAt c i := Disk.emptyRoot_not_live largeRoot_empty
  refine ⟨largeRoot_wellFormed, ⟨fun c i hl => absurd hl hnot, fun c i hl => absurd hl hnot,
    fun c i hl => absurd hl hnot⟩, .root, fun w hsearch => ?_⟩
  obtain ⟨calls, hsearch⟩ := hsearch
  have hvisit := findFrom_visits (m := largeRoot) (fun _ _ => 0) w.chars calls []
    rootClusterNumber rootClusterNumber ((largeRoot.disk.table rootClusterNumber).table 0).name
  have hcode := ((hsearch (fun _ _ => 0) (calls + 1) (Nat.le_succ calls)).visits _ _ hvisit).2.1
  have hfolder : ((largeRoot.disk.table rootClusterNumber).table 0).IsFolder :=
    (largeRoot_wellFormed.image.directory _ (Disk.reachable_root _)).selfFolder
  have hlarge :
      clusterSize < ((largeRoot.disk.table rootClusterNumber).table 0).filesize.toNat := by
    rw [largeRoot_own]
    exact (by decide : 2048 < (4096 : UInt32).toNat)
  rw [readDirectory_large rfl (fun j hj => absurd hj (Fin.not_lt_zero j)) hfolder hlarge] at hcode
  exact absurd hcode (by decide)

end KajijOSta.Terminal
