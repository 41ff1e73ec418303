import KajijOSta.Fat32.Invariant
import Mathlib.Data.Set.Card
import Mathlib.Order.Interval.Finset.Nat

/-! # Disk space

Every cluster that is not free belongs to one entry of the tree (`Accounted`):
then the free clusters and those of the tree add up to all of them. `write`
keeps this, and so does `delete` of a file or an empty folder; but `delete` does
not look into a folder, and what one with entries held stays allocated. -/
namespace KajijOSta.Fat32
open KajijOSta.LinkedChain KajijOSta.NamedTree KajijOSta.Runs

/-- Every nonzero FAT entry of a data cluster lies on the chain of exactly one
entry of the tree. -/
def Machine.Accounted (m : Machine) : Prop :=
  ∀ x : UInt32, 3 ≤ x.toNat → x.toNat < clusterMapSize → m.fat.get? x ≠ some fat32FatEmptyEntry →
    ∃! s : UInt32 × Fin 64,
      m.disk.LiveAt s.1 s.2 ∧ x ∈ m.disk.clustersOf ((m.disk.table s.1).table s.2)

/-- The free clusters and the clusters of the tree. -/
noncomputable def Machine.space (m : Machine) : Nat :=
  (freeClusters m.fat).length + {x | m.disk.Used x}.ncard

/-- The request deletes a folder that has entries. -/
def Call.DropsFull (m : Machine) : Call → Prop
  | .delete r => ∃ i j, m.disk.slotOf r.parentClusterNumber r.key = some i ∧
      ((m.disk.table r.parentClusterNumber).table i).IsFolder ∧
      m.disk.LiveAt ((m.disk.table r.parentClusterNumber).table i).cluster j
  | _ => False

/-- The answer the header documents for such a request: code 2, with the disk
and the FAT as they were. -/
def Refused (m : Machine) (call : Call) : Prop :=
  ∃ reply m', serve m call = .ok (reply, m') ∧ reply.code = 2 ∧ m'.disk = m.disk ∧ m'.fat = m.fat

/-- No space is lost in a run. -/
structure KeepsSpace (m : Machine) (calls : List Call) : Prop where
  accounted : Always step Machine.Accounted m calls
  refusing : Meets step (fun m call => call.DropsFull m → Refused m call) m calls
  constant : Always step (fun m' => m'.space = m.space) m calls

section Accounted
variable {m : Machine} (h : m.WellFormed)

include h in
/-- On a well-formed image no cluster has two owners. -/
theorem accounted_iff : m.Accounted ↔ ∀ x : UInt32, 3 ≤ x.toNat → x.toNat < clusterMapSize →
    m.fat.get? x ≠ some fat32FatEmptyEntry → m.disk.Used x := by
  constructor
  · intro ha x h3 hx hne
    obtain ⟨s, ⟨hl, hm⟩, _⟩ := ha x h3 hx hne
    exact ⟨s.1, s.2, hl, hm⟩
  · intro ha x h3 hx hne
    obtain ⟨c, i, hl, hm⟩ := ha x h3 hx hne
    refine ⟨(c, i), ⟨hl, hm⟩, fun s hs => ?_⟩
    by_contra hsc
    exact h.image.disjoint s.1 s.2 c i hs.1 hl hsc hs.2 hm

theorem dataClusters_ncard :
    {x : UInt32 | 3 ≤ x.toNat ∧ x.toNat < clusterMapSize}.ncard = clusterMapSize - 3 := by
  have himage : {x : UInt32 | 3 ≤ x.toNat ∧ x.toNat < clusterMapSize} =
      UInt32.ofNat '' ↑(Finset.Ico 3 clusterMapSize) := by
    ext x
    simp only [Set.mem_ofPred_eq, Set.mem_image, Finset.mem_coe, Finset.mem_Ico]
    constructor
    · exact fun hx => ⟨x.toNat, hx, UInt32.ofNat_toNat⟩
    · intro hcase
      obtain ⟨n, hn, rfl⟩ := hcase
      simp only [clusterMapSize_eq, UInt32.toNat_ofNat'] at hn ⊢
      omega
  have hinj : Set.InjOn UInt32.ofNat ↑(Finset.Ico 3 clusterMapSize) := by
    intro a ha b hb hab
    have hab := congrArg UInt32.toNat hab
    simp only [Finset.mem_coe, Finset.mem_Ico, clusterMapSize_eq] at ha hb
    rw [UInt32.toNat_ofNat', UInt32.toNat_ofNat'] at hab
    omega
  rw [himage, hinj.ncard_image, Set.ncard_coe_finset, Nat.card_Ico]

include h in
/-- When every cluster is accounted for, the free ones and those of the tree are
all there are. -/
theorem space_eq (ha : m.Accounted) : m.space = clusterMapSize - 3 := by
  have hfree : (freeClusters m.fat).length = {x | x ∈ freeClusters m.fat}.ncard := by
    rw [← List.coe_toFinset, Set.ncard_coe_finset,
      List.toFinset_card_of_nodup (freeClusters_nodup m.fat)]
  have hdisj : Disjoint {x | x ∈ freeClusters m.fat} {x | m.disk.Used x} := by
    refine Set.disjoint_left.mpr fun x hx hu => ?_
    rw [Set.mem_ofPred_eq] at hx hu
    exact (free_unused h (mem_freeClusters.mp hx)).2 hu
  have hall : {x | x ∈ freeClusters m.fat} ∪ {x | m.disk.Used x} =
      {x | 3 ≤ x.toNat ∧ x.toNat < clusterMapSize} := by
    ext x
    simp only [Set.mem_union, Set.mem_ofPred_eq, mem_freeClusters]
    constructor
    · intro hcase
      rcases hcase with hx | hu
      · exact (free_unused h hx).1
      · exact h.image.used_range hu
    · intro hcase
      obtain ⟨h3, hx⟩ := hcase
      by_cases hz : m.fat.get? x = some fat32FatEmptyEntry
      · exact Or.inl hz
      · exact Or.inr ((accounted_iff h).mp ha x h3 hx hz)
  calc m.space = {x | x ∈ freeClusters m.fat}.ncard + {x | m.disk.Used x}.ncard := by
        unfold Machine.space
        rw [hfree]
    _ = ({x | x ∈ freeClusters m.fat} ∪ {x | m.disk.Used x}).ncard :=
        (Set.ncard_union_eq hdisj (Set.toFinite _) (Set.toFinite _)).symm
    _ = clusterMapSize - 3 := by rw [hall, dataClusters_ncard]

end Accounted

/-! ## What each operation does to the accounts -/

section Operations
variable {m m' : Machine} {r : FAT32DriverRequest} {i : Fin 64} (h : m.WellFormed)
  (hc : m.disk.Reachable r.parentClusterNumber)

/-- The disk and the FAT alone say whether the clusters are accounted for. -/
theorem Machine.Accounted.of_same (ha : m.Accounted) (hd : m'.disk = m.disk)
    (hf : m'.fat = m.fat) : m'.Accounted := by
  simp only [Accounted, hd, hf]
  exact ha

include h hc in
/-- The clusters in use after a write are the old ones and those it took. -/
theorem stored_used (hs : r.bufferSize.toNat ≤ 255 * clusterSize) (hst : Storable m r i)
    {x : UInt32} : (stored m r i).disk.Used x ↔ m.disk.Used x ∨ x ∈ allocated m r := by
  obtain ⟨p, hp⟩ := hc
  have q := prepared_quietly h hs hst.space
  obtain ⟨hi, hl⟩ := prepared_vacant h hs hst.space hp hst.vacant
  rw [stored_disk h hs hst.space hp, Disk.link_used (q.wellFormed h.image)
    (prepared_dirAt h hs hst.space hp) hi hl (prepared_lookup h hs hst.space hp hst.lookup)
    (addedEntry_fresh h hs hst.space (hst.named h ⟨p, hp⟩)), q.used_iff h.image,
    addedEntry_clusters h hs hst.space]

include h hc in
theorem stored_accounted (hs : r.bufferSize.toNat ≤ 255 * clusterSize) (hst : Storable m r i)
    (ha : m.Accounted) : (stored m r i).Accounted := by
  refine (accounted_iff (hst.wellFormed h hc hs)).mpr fun x h3 hx hne => ?_
  refine (stored_used h hc hs hst).mpr ?_
  by_cases hm : x ∈ allocated m r
  · exact Or.inr hm
  · rw [stored_fat hst.space, get?_linkFat_other hm] at hne
    exact Or.inl ((accounted_iff h).mp ha x h3 hx hne)

variable (hl : m.disk.LiveAt r.parentClusterNumber i)

include h hl in
/-- Deleting a file or an empty folder frees what is no longer used. -/
theorem deleted_accounted (ha : m.Accounted)
    (hempty : ((m.disk.table r.parentClusterNumber).table i).IsFolder →
      ∀ j, ¬ m.disk.LiveAt ((m.disk.table r.parentClusterNumber).table i).cluster j) :
    (deleted m r i).Accounted := by
  obtain ⟨⟨p, hp⟩, hi, hlive⟩ := hl
  have hw := Disk.unlink_wellFormed h.image hp hi hlive
  refine (accounted_iff (deleted_wellFormed h hp hi hlive)).mpr fun x h3 hx hne => ?_
  rw [deleted_fat, FAT32FileAllocationTable.get?_clear] at hne
  have hnot : x ∉ m.disk.clustersOf ((m.disk.table r.parentClusterNumber).table i) :=
    fun hm => hne (if_pos ⟨hm, hx⟩)
  rw [if_neg (fun hm => hnot hm.1)] at hne
  obtain ⟨c, j, hlj, hm⟩ := (accounted_iff h).mp ha x h3 hx hne
  -- the owner of the cluster is another entry, and stays in the tree
  have hother : (c, j) ≠ (r.parentClusterNumber, i) := by
    intro he
    cases he
    exact hnot hm
  have hreach := Disk.unlink_reachable_of_empty h.image hp hi hlive hempty hlj
  obtain ⟨hlj', ht⟩ := Disk.unlink_liveAt h.image hp hlj hother hreach
  have hr := h.image.reachable_range ⟨p, hp⟩
  refine ((deleted_quiet h hp hi hlive).used_iff hw).mpr ⟨c, j, hlj', ?_⟩
  rw [ht, Disk.clustersOf_of_next (Disk.putEntry_next hr.2 hr.1)]
  exact hm

include h in
/-- An entry of the tree has a cluster. -/
theorem exists_mem_clustersOf {c : UInt32} {j : Fin 64} (hlj : m.disk.LiveAt c j) :
    ∃ x, x ∈ m.disk.clustersOf ((m.disk.table c).table j) := by
  by_cases hf : ((m.disk.table c).table j).IsFolder
  · rw [Disk.clustersOf_folder hf]
    exact ⟨_, List.mem_singleton_self _⟩
  · have he := h.image.entry c j hlj
    have hsize := he.size hf
    have hlen := he.length hf
    simp only [clusterCount, clusterSize_eq] at hlen
    exact List.exists_mem_of_length_pos (by omega)

include h hl in
/-- What the entries of a deleted folder held stays allocated, out of the tree. -/
theorem deleted_leaks (hf : ((m.disk.table r.parentClusterNumber).table i).IsFolder) {j : Fin 64}
    (hlj : m.disk.LiveAt ((m.disk.table r.parentClusterNumber).table i).cluster j) :
    ¬ (deleted m r i).Accounted := by
  obtain ⟨x, hx⟩ := exists_mem_clustersOf h hlj
  have hne := h.image.child_ne hl hf
  have hdisj := h.image.disjoint _ j _ i hlj hl (fun he => hne (Prod.mk.inj he).1)
  obtain ⟨⟨p, hp⟩, hi, hlive⟩ := hl
  have hw := Disk.unlink_wellFormed h.image hp hi hlive
  have hrange := (h.image.entry _ j hlj).range x hx
  intro ha
  refine Disk.unlink_child_not_used h.image hp hi hlive hf hlj hx ?_
  refine ((deleted_quiet h hp hi hlive).used_iff hw).mp ?_
  refine (accounted_iff (deleted_wellFormed h hp hi hlive)).mp ha x hrange.1 hrange.2 ?_
  obtain ⟨v, hv, hv0⟩ := h.image.used_not_free ⟨_, j, hlj, hx⟩
  rw [deleted_fat, FAT32FileAllocationTable.get?_clear, if_neg (fun hm => hdisj hx hm.1), fat_eq h,
    hv]
  exact fun he => hv0 (Option.some.inj he)

end Operations

/-! ## Runs -/

section Runs
variable {m m' : Machine} {call : Call}

/-- A request that deletes no folder with entries keeps the accounts. -/
theorem step_accounted (m : Machine) (call : Call) (h : m.WellFormed ∧ m.Accounted)
    (hok : call.Admissible m.disk ∧ ¬ call.DropsFull m) :
    ∃ m', step m call = .ok m' ∧ m'.WellFormed ∧ m'.Accounted := by
  obtain ⟨hw, ha⟩ := h
  obtain ⟨had, hfull⟩ := hok
  obtain ⟨m', hm', hw'⟩ := step_wellFormed m call hw had
  refine ⟨m', hm', hw', ?_⟩
  cases call with
  | write r =>
    obtain ⟨hc, hs⟩ := had
    rcases write_cases hw hc hs with ⟨_, he⟩ | ⟨_, _, he⟩ | ⟨i, hst, he⟩
    · cases hm'.symm.trans (step_write he)
      exact ha
    · cases hm'.symm.trans (step_write he)
      exact ha
    · cases hm'.symm.trans (step_write he)
      exact stored_accounted hw hc hs hst ha
  | delete r =>
    obtain ⟨hc, hk, ho⟩ := had
    rcases delete_cases hw hc hk ho with ⟨_, he⟩ | ⟨i, hi, hl, he⟩
    · cases hm'.symm.trans (step_delete he)
      exact ha.of_same rfl rfl
    · cases hm'.symm.trans (step_delete he)
      exact deleted_accounted hw hl ha fun hf j hj => hfull ⟨i, j, hi, hf, hj⟩
  | read r =>
    obtain rfl : m = m' := step_read_same hm'
    exact ha
  | readDirectory r =>
    cases hm'
    exact ha

/-- A request that deletes a folder with entries is carried out, and loses them. -/
theorem dropsFull_leaks (h : m.WellFormed) (had : call.Admissible m.disk)
    (hfull : call.DropsFull m) (hm' : step m call = .ok m') : ¬ m'.Accounted := by
  cases call with
  | delete r =>
    obtain ⟨hc, hk, ho⟩ := had
    obtain ⟨i, j, hi, hf, hj⟩ := hfull
    rcases delete_cases h hc hk ho with ⟨hn, _⟩ | ⟨i', hi', hl, he⟩
    · exact absurd (hi.symm.trans hn) (by simp)
    · cases hi.symm.trans hi'
      cases hm'.symm.trans (step_delete he)
      exact deleted_leaks h hl hf hj
  | write r | read r | readDirectory r => exact absurd hfull id

end Runs

/-- **When a run loses no space.** From a well-formed state in which every
cluster is accounted for, a run of admissible requests keeps the accounts,
refuses to delete folders with entries and leaves the number of free and visible
clusters as it is, exactly when none of its requests deletes such a folder. -/
theorem keepsSpace_iff (m : Machine) (calls : List Call) (h : m.WellFormed) (ha : m.Accounted)
    (had : Meets step (fun m call => call.Admissible m.disk) m calls) :
    KeepsSpace m calls ↔ Meets step (fun m call => ¬ call.DropsFull m) m calls := by
  have hstart : m.WellFormed ∧ m.Accounted := ⟨h, ha⟩
  have hiff : (Always step Machine.Accounted m calls ∧
      Meets step (fun m call => call.DropsFull m → Refused m call) m calls) ↔
      Meets step (fun m call => ¬ call.DropsFull m) m calls := by
    refine always_iff_meets (fun _ hI => And.right hI) ?_ ?_ hstart had
    · exact fun m call hI had hok =>
        ⟨fun hf => absurd hf hok, step_accounted m call hI ⟨had, hok⟩⟩
    · exact fun m call m' hI had hok _ hm' => dropsFull_leaks hI.1 had (not_not.mp hok) hm'
  constructor
  · exact fun hk => hiff.mp ⟨hk.accounted, hk.refusing⟩
  · intro hok
    have hall := always_of_meets step_accounted hstart (had.and hok)
    refine ⟨(hiff.mpr hok).1, (hiff.mpr hok).2, ?_⟩
    exact hall.mono fun m' hI => (space_eq hI.1 hI.2).trans (space_eq h ha).symm

/-! ## A folder made, filled and deleted -/

section Nested
variable {m : Machine} {r r' : FAT32DriverRequest} {i : Fin 64} (h : m.WellFormed)
  (hc : m.disk.Reachable r.parentClusterNumber) (h0 : r.bufferSize = 0) (hst : Storable m r i)

include h hc h0 hst in
/-- A folder just made, as `delete` finds it. -/
theorem stored_slotOf : (stored m r i).WellFormed ∧
    (stored m r i).disk.LiveAt r.parentClusterNumber i ∧
    ((stored m r i).disk.table r.parentClusterNumber).table i = addedEntry m r ∧
    (stored m r i).disk.slotOf r.parentClusterNumber r.key = some i ∧
    (stored m r i).disk.Reachable (addedEntry m r).cluster ∧
    ∀ j, j ≠ 0 → ((stored m r i).disk.table (addedEntry m r).cluster).table j = 0 := by
  have hs : r.bufferSize.toNat ≤ 255 * clusterSize := folder_size h0
  have hw := hst.wellFormed h hc hs
  have hk := hst.named h hc
  obtain ⟨p, hp⟩ := hc
  obtain ⟨hl, ht⟩ := stored_added h hs hst.space hp hk hst.vacant hst.lookup
  have hd := hw.image.directory _ hl.dir
  have hslot := hd.slotOf hl.slot hl.live
  have hr := hl.reachable hd (by rw [ht]; exact addedEntry_folder.mpr h0)
  rw [ht] at hslot hr
  exact ⟨hw, hl, ht, hslot, hr, fun j hj => stored_folder h hs hst.space hp h0 hk hj⟩

include h hc h0 hst in
theorem mkdir_step :
    (Call.write r).Admissible m.disk ∧ step m (.write r) = .ok (stored m r i) := by
  have hs : r.bufferSize.toNat ≤ 255 * clusterSize := folder_size h0
  exact ⟨⟨hc, hs⟩, step_write (write_stores (parent_marked h hc) hst.free hst.vacant
    (required_pos hs) hst.space)⟩

include h hc h0 hst in
/-- Directories carry the same names after a `mkdir`. -/
theorem mkdir_ownKey {c : UInt32} (hr : m.disk.Reachable c) :
    (stored m r i).disk.ownKey c = m.disk.ownKey c := by
  have hs : r.bufferSize.toNat ≤ 255 * clusterSize := folder_size h0
  obtain ⟨p, hp⟩ := hc
  exact congrArg FAT32DirectoryEntry.key
    (stored_own h hs hst.space hp (vacantSlot_eq_some.mp hst.vacant).1 hr)

include h hc h0 hst in
/-- An empty folder is deleted without loss. -/
theorem mkdir_rmdir (ho : r.key ≠ m.disk.ownKey r.parentClusterNumber) :
    Meets step (fun m call => call.Admissible m.disk) m [.write r, .delete r] ∧
      Meets step (fun m call => ¬ call.DropsFull m) m [.write r, .delete r] := by
  obtain ⟨had, hstep⟩ := mkdir_step h hc h0 hst
  obtain ⟨_, hl, ht, hslot, _, hz⟩ := stored_slotOf h hc h0 hst
  constructor
  · refine ⟨had, fun s hs => ?_⟩
    cases hstep.symm.trans hs
    refine ⟨⟨hl.dir, hst.named h hc, ?_⟩, fun _ _ => trivial⟩
    rw [mkdir_ownKey h hc h0 hst hc]
    exact ho
  · refine ⟨id, fun s hs => ?_⟩
    cases hstep.symm.trans hs
    refine ⟨?_, fun _ _ => trivial⟩
    intro hcase
    obtain ⟨i', j, hi', _, hj⟩ := hcase
    cases hslot.symm.trans hi'
    have hlive := hj.live
    rw [ht, hz j (ne_zero_of_slot hj.slot)] at hlive
    exact not_live_zero hlive

variable (h0' : r'.bufferSize = 0) (hp' : r'.parentClusterNumber = (addedEntry m r).cluster)
  (hk' : r'.key ≠ 0) {x : UInt32} (hx : m.fat.get? x = some fat32FatEmptyEntry)
  (hne : x ≠ (addedEntry m r).cluster)

include h hc h0 hst h0' hp' hk' hx hne in
/-- A new folder has room for another one, as long as a cluster is left. -/
theorem stored_storable : Storable (stored m r i) r' 2 := by
  obtain ⟨_, _, _, _, _, hz⟩ := stored_slotOf h hc h0 hst
  have hzero : ∀ j : Fin 64, 2 ≤ j →
      ((stored m r i).disk.table r'.parentClusterNumber).table j = 0 := by
    intro j hj
    rw [hp']
    exact hz j (ne_zero_of_slot hj)
  have hfree : x ∈ freeClusters (stored m r i).fat := by
    rw [mem_freeClusters, stored_fat hst.space, allocated_folder hst.space h0,
      ← addedEntry_cluster, get?_linkFat_other (fun hm => hne (List.mem_singleton.mp hm)), hx]
  refine ⟨fun j hj => ?_, vacantSlot_eq_some.mpr ⟨le_refl _, ?_, fun j hj hlt => ?_⟩, ?_⟩
  · rw [hzero j hj, key_zero]
    exact hk'.symm
  · rw [hzero 2 (le_refl _)]
    exact not_live_zero
  · exact absurd hlt (not_lt.mpr hj)
  · exact required_folder h0' ▸ List.length_pos_of_mem hfree

include h hc h0 hst h0' hp' hk' hx hne in
/-- Making a folder, a folder in it, and deleting the first: the delete is not
refused, and the cluster of the second is lost. -/
theorem nested_delete_leaks (ho : r.key ≠ m.disk.ownKey r.parentClusterNumber) :
    Meets step (fun m call => call.Admissible m.disk) m [.write r, .write r', .delete r] ∧
      ¬ Always step Machine.Accounted m [.write r, .write r', .delete r] := by
  have hs' : r'.bufferSize.toNat ≤ 255 * clusterSize := folder_size h0'
  obtain ⟨had, hstep⟩ := mkdir_step h hc h0 hst
  obtain ⟨hw, hl, ht, _, hc', _⟩ := stored_slotOf h hc h0 hst
  rw [← hp'] at hc'
  have hst' := stored_storable h hc h0 hst h0' hp' hk' hx hne
  obtain ⟨had', hstep'⟩ := mkdir_step hw hc' h0' hst'
  obtain ⟨hw', hl', _⟩ := stored_slotOf hw hc' h0' hst'
  -- the outer folder is where it was
  obtain ⟨hlo, hto⟩ : (stored (stored m r i) r' 2).disk.LiveAt r.parentClusterNumber i ∧
      ((stored (stored m r i) r' 2).disk.table r.parentClusterNumber).table i =
        addedEntry m r := by
    obtain ⟨p', hp''⟩ := hc'
    have hsame := stored_liveAt hw hs' hst'.space hp'' hk' hst'.vacant hst'.lookup hl
    exact ⟨hsame.1, hsame.2.trans ht⟩
  have hslot := (hw'.image.directory _ hlo.dir).slotOf hlo.slot hlo.live
  rw [hto, addedEntry_key] at hslot
  have hfull : (Call.delete r).DropsFull (stored (stored m r i) r' 2) := by
    refine ⟨i, 2, hslot, ?_, ?_⟩
    · rw [hto]
      exact addedEntry_folder.mpr h0
    · rw [hto, ← hp']
      exact hl'
  have hadd : (Call.delete r).Admissible (stored (stored m r i) r' 2).disk := by
    refine ⟨hlo.dir, hst.named h hc, ?_⟩
    rw [mkdir_ownKey hw hc' h0' hst' hl.dir, mkdir_ownKey h hc h0 hst hc]
    exact ho
  constructor
  · refine ⟨had, fun s hm => ?_⟩
    cases hstep.symm.trans hm
    refine ⟨had', fun s hm => ?_⟩
    cases hstep'.symm.trans hm
    exact ⟨hadd, fun _ _ => trivial⟩
  · intro hcase
    obtain ⟨_, s, hm, _, s', hm', _, s'', hm'', ha⟩ := hcase
    cases hstep.symm.trans hm
    cases hstep'.symm.trans hm'
    exact dropsFull_leaks hw' hadd hfull hm'' ha

end Nested

/-! ## The empty file system -/

section Empty

/-- Nothing is in use. -/
theorem rootedMachine_accounted (name : Fin 8 → UInt8) : (rootedMachine name).Accounted :=
  fun _ h3 hx hne => absurd (rootedFat_free h3 hx) hne

/-- The first folder made takes cluster 3. -/
theorem rooted_allocates {name : Fin 8 → UInt8} {r : FAT32DriverRequest} (hr : required r ≠ 0) :
    (addedEntry (rootedMachine name) r).cluster = 3 := by
  have hhead : (allocated (rootedMachine name) r).head? = some 3 := by
    rw [head?_allocated hr]
    refine head?_freeClusters (rootedFat_free (by decide) (by decide)) fun y hy hfree => ?_
    exact absurd (free_unused (rootedMachine_wellFormed name) hfree).1.1 (not_le.mpr hy)
  rw [addedEntry_cluster, List.headD_eq_head?_getD, hhead, Option.getD_some]

theorem keepsSpace_rooted : KeepsSpace (rootedMachine (letterName 'r'))
    [.write (letterRequest 'a' 0), .delete (letterRequest 'a' 0)] := by
  have h := rootedMachine_wellFormed (letterName 'r')
  obtain ⟨had, hok⟩ := mkdir_rmdir h (Disk.reachable_root _) rfl
    (letterRequest_storable 0) (letterRequest_not_own 0)
  exact (keepsSpace_iff _ _ h (rootedMachine_accounted _) had).mpr hok

/-- A request for a folder of one letter in the directory at cluster 3. -/
def innerRequest (c : Char) : FAT32DriverRequest :=
  { letterRequest c 0 with parentClusterNumber := 3 }

theorem nested_delete_not_keepsSpace :
    (rootedMachine (letterName 'r')).WellFormed ∧ (rootedMachine (letterName 'r')).Accounted ∧
    Meets step (fun m call => call.Admissible m.disk) (rootedMachine (letterName 'r'))
      [.write (letterRequest 'a' 0), .write (innerRequest 'b'), .delete (letterRequest 'a' 0)] ∧
    ¬ KeepsSpace (rootedMachine (letterName 'r'))
      [.write (letterRequest 'a' 0), .write (innerRequest 'b'), .delete (letterRequest 'a' 0)] := by
  have h := rootedMachine_wellFormed (letterName 'r')
  have hcl : (addedEntry (rootedMachine (letterName 'r')) (letterRequest 'a' 0)).cluster = 3 :=
    rooted_allocates (required_pos (by decide))
  have hinner : (innerRequest 'b').parentClusterNumber =
      (addedEntry (rootedMachine (letterName 'r')) (letterRequest 'a' 0)).cluster := hcl.symm
  obtain ⟨had, hleak⟩ := nested_delete_leaks (x := 4) h (Disk.reachable_root _) rfl
    (letterRequest_storable 0) rfl hinner (by decide)
    (rootedFat_free (by decide) (by decide))
    (by rw [hcl]; decide) (letterRequest_not_own 0)
  exact ⟨h, rootedMachine_accounted _, had, fun hk => hleak hk.accounted⟩

end Empty

end KajijOSta.Fat32
