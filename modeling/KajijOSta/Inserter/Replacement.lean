import KajijOSta.Fat32.Refinement
import KajijOSta.Fat32.Undo
import KajijOSta.Inserter.Main

/-! # What the inserter replaces

Whatever it inserts, the inserter first deletes "shell" from the root, and it
saves the image whether the write that follows succeeds or not. So it puts one
file into the tree and changes nothing else exactly when there is no "shell", or
when it is "shell" itself that is replaced (`inserts_iff`). -/
namespace KajijOSta.Inserter
open KajijOSta.Fat32 KajijOSta.NamedTree KajijOSta.LinkedChain KajijOSta.Runs

/-- `main` returns, and the saved image is well-formed with the parent where it
was. Its tree is the old one with the file of the host at its name in the parent,
or, where an error is reported, the old one. -/
def Inserts (host : Host) (argv : List (List UInt8)) (f : HostFile) (h : host.image.WellFormed)
    (p : List Key) (c : UInt32) : Prop :=
  ∃ out, main host argv = .ok out ∧ ∃ h' : out.image.WellFormed, out.image.dirAt p = some c ∧
    (out.message = message 0 → ∀ q, (out.image.tree h').node q =
      if q = f.key :: p then some (.file f.content) else (host.image.tree h).node q) ∧
    (out.message ≠ message 0 → out.image.tree h' = host.image.tree h)

/-- The file replaces the entry `e` of the root that the inserter deletes: it has
its name, `e` is not a folder with entries, and the clusters of `e` make room. -/
structure ReplacesShell (d : Disk) (f : HostFile) (c : UInt32) (e : FAT32DirectoryEntry) :
    Prop where
  parent : c = rootClusterNumber
  name : f.key = shellKey
  bare : ∀ n, Disk.folderOf e = some n → ∀ k, d.lookup n k = none
  space : clusterCount (UInt32.ofNat f.content.length) ≤
    (freeClusters d.fatTable).length + (d.clustersOf e).length

/-- The root is not itself named "shell", and it has no entry of that name, or
one that the file replaces. -/
def Replaceable (d : Disk) (f : HostFile) (c : UInt32) : Prop :=
  shellKey ≠ d.ownKey rootClusterNumber ∧ (d.lookup rootClusterNumber shellKey = none ∨
    ∃ e, d.lookup rootClusterNumber shellKey = some e ∧ ReplacesShell d f c e)

/-! ## The requests of a run -/

/-- The request carries the file of the host to the directory `c`. -/
structure Carries (r : FAT32DriverRequest) (f : HostFile) (c : UInt32) : Prop where
  parent : r.parentClusterNumber = c
  key : r.key = f.key
  size : r.bufferSize = UInt32.ofNat f.content.length
  node : r.node = .file f.content

namespace Carries
variable {r : FAT32DriverRequest} {f : HostFile} {c : UInt32} (hr : Carries r f c)

include hr

theorem key_ne_zero : r.key ≠ 0 := hr.key ▸ f.key_ne_zero

theorem size_le : r.bufferSize.toNat ≤ 255 * clusterSize := by
  rw [hr.size, f.size_toNat]
  exact f.small

theorem size_ne_zero : r.bufferSize ≠ 0 := by
  intro h0
  have hlen := f.size_toNat
  rw [← hr.size, h0] at hlen
  exact f.bytes (List.eq_nil_of_length_eq_zero hlen.symm)

theorem required : required r = clusterCount (UInt32.ofNat f.content.length) := by
  rw [required_eq hr.size_le, if_neg hr.size_ne_zero, hr.size]

end Carries

section Run
variable {host : Host} {f : HostFile} {prog parent storage : List UInt8} {c : UInt32}

def mounted (host : Host) : Machine := remount host.beyond ⟨0, 0⟩ host.image

theorem mounted_wellFormed (h : host.image.WellFormed) :
    (mounted host).disk = host.image ∧ (mounted host).WellFormed := by
  obtain ⟨hdisk, _, hm⟩ := remount_wellFormed host.beyond ⟨0, 0⟩ h
  exact ⟨hdisk, hm⟩

theorem fileRequest_carries (ht : host.target = some f.content)
    (hc : scanUnsigned parent = some c) : Carries (fileRequest host f.name parent) f c := by
  have hsize : (fileRequest host f.name parent).bufferSize = UInt32.ofNat f.content.length := by
    simp only [fileRequest, ht, Option.getD_some]
  refine ⟨?_, rfl, hsize, ?_⟩
  · simp only [fileRequest, hc, Option.getD_some]
  · have h0 : UInt32.ofNat f.content.length ≠ 0 := by
      intro h0
      have hlen := f.size_toNat
      rw [h0] at hlen
      exact f.bytes (List.eq_nil_of_length_eq_zero hlen.symm)
    rw [FAT32DriverRequest.node, hsize, if_neg h0, f.size_toNat]
    refine congrArg Node.file (List.ext_getElem (by simp) fun i _ hi => ?_)
    simp only [List.getElem_map, List.getElem_range, fileRequest, ht, Option.getD_some, loadFile,
      List.getElem?_eq_getElem hi]

theorem main_ok_iff {out : Exit} : main host [prog, f.name, parent, storage] = .ok out ↔
    ∃ err m₁, delete (mounted host) (shellRequest host.buf) = .ok (err, m₁) ∧
    ∃ retcode m', write m₁ (fileRequest host f.name parent) = .ok (retcode, m') ∧
      ⟨0, message retcode, m'.disk⟩ = out := by
  have hm : main host [prog, f.name, parent, storage] =
      delete (mounted host) (shellRequest host.buf) >>= fun x =>
        write x.2 (fileRequest host f.name parent) >>= fun y =>
          .ok ⟨0, message y.1, y.2.disk⟩ := rfl
  rw [hm]
  simp only [bind_eq_ok, Prod.exists, Except.ok.injEq]

/-- The two requests of a run put the file into the tree, and change nothing else. -/
def Puts (m : Machine) (h : m.disk.WellFormed) (q r : FAT32DriverRequest) (f : HostFile)
    (p : List Key) (c : UInt32) : Prop :=
  ∃ err m₁, delete m q = .ok (err, m₁) ∧ ∃ code m', write m₁ r = .ok (code, m') ∧
    ∃ h' : m'.disk.WellFormed, m'.disk.dirAt p = some c ∧
      (code = 0 → ∀ x, (m'.disk.tree h').node x =
        if x = f.key :: p then some (.file f.content) else (m.disk.tree h).node x) ∧
      (code ≠ 0 → m'.disk.tree h' = m.disk.tree h)

/-- What is to be shown of `main` is a matter of its two requests. -/
theorem inserts_iff_puts {p : List Key} (h : host.image.WellFormed)
    (hm : (mounted host).disk.WellFormed) :
    Inserts host [prog, f.name, parent, storage] f h p c ↔
      Puts (mounted host) hm (shellRequest host.buf) (fileRequest host f.name parent) f p c := by
  have htree : (mounted host).disk.tree hm = host.image.tree h :=
    Disk.tree_congr (mounted_wellFormed h).1 h hm
  unfold Inserts Puts
  rw [htree]
  constructor
  · intro hrun
    obtain ⟨out, hout, h', hdir, hzero, hcode⟩ := hrun
    obtain ⟨err, m₁, hd, code, m', hw, rfl⟩ := main_ok_iff.mp hout
    exact ⟨err, m₁, hd, code, m', hw, h', hdir, fun h0 => hzero (message_eq_zero.mpr h0),
      fun h0 => hcode fun hmsg => h0 (message_eq_zero.mp hmsg)⟩
  · intro hputs
    obtain ⟨err, m₁, hd, code, m', hw, h', hdir, hzero, hcode⟩ := hputs
    exact ⟨_, main_ok_iff.mpr ⟨err, m₁, hd, code, m', hw, rfl⟩, h', hdir,
      fun hmsg => hzero (message_eq_zero.mp hmsg),
      fun hmsg => hcode fun h0 => hmsg (message_eq_zero.mpr h0)⟩

end Run

/-! ## The write, in a tree that is as it was -/

section Write
variable {m : Machine} {r : FAT32DriverRequest} {f : HostFile} {p : List Key} {c : UInt32}
  (h : m.WellFormed) (hr : Carries r f c) (hp : m.disk.dirAt p = some c)

include h hr hp in
/-- The tree after a file has been stored. -/
theorem stored_node {i : Fin 64} (hst : Storable m r i) :
    ∃ h' : (stored m r i).disk.WellFormed, (stored m r i).disk.dirAt p = some c ∧
      ∀ q, ((stored m r i).disk.tree h').node q =
        if q = f.key :: p then some (.file f.content) else (m.disk.tree h.image).node q := by
  rw [← hr.parent] at hp
  have h' := hst.wellFormed h ⟨p, hp⟩ hr.size_le
  have hkn : (m.disk.tree h.image).node (r.key :: p) = none := by
    rw [Disk.tree_node h.image hp, hst.lookup, Option.map_none]
  have htree := stored_tree h hr.size_le hst.space hp hr.key_ne_zero hst.vacant hst.lookup h'.image
    (Disk.tree_folder h.image hp) hkn
  refine ⟨h'.image, ?_, fun q => ?_⟩
  · rw [← hr.parent]
    exact stored_dirAt h hr.size_le hst.space hp hr.key_ne_zero hst.vacant hst.lookup hp
  · rw [htree, ← hr.key, ← hr.node]
    rfl

include h hr hp in
/-- A write reports an error and changes nothing, or stores the file. -/
theorem write_inserts : ∃ code m', write m r = .ok (code, m') ∧ ∃ h' : m'.disk.WellFormed,
    m'.disk.dirAt p = some c ∧
    (code = 0 → ∀ q, (m'.disk.tree h').node q =
      if q = f.key :: p then some (.file f.content) else (m.disk.tree h.image).node q) ∧
    (code ≠ 0 → m'.disk.tree h' = m.disk.tree h.image) := by
  have hc : m.disk.Reachable r.parentClusterNumber := ⟨p, hr.parent ▸ hp⟩
  rcases write_cases h hc hr.size_le with ⟨_, hw⟩ | ⟨_, _, hw⟩ | ⟨i, hst, hw⟩
  · exact ⟨1, m, hw, h.image, hp, fun h0 => absurd h0 (by decide), fun _ => rfl⟩
  · exact ⟨-1, m, hw, h.image, hp, fun h0 => absurd h0 (by decide), fun _ => rfl⟩
  · obtain ⟨h', hdir, hnode⟩ := stored_node h hr hp hst
    exact ⟨0, _, hw, h', hdir, fun _ => hnode, fun h0 => absurd rfl h0⟩

end Write

/-! ## After "shell" has gone from the root -/

section Deleted
variable {m m₁ m' : Machine} {q r : FAT32DriverRequest} {f : HostFile} {c : UInt32} {i : Fin 64}
  {err code : Int8}

/-- A write that returns has left everything as it was, or stored the entry in a
marked cluster. -/
theorem write_returns (hw : write m r = .ok (code, m')) : (code ≠ 0 ∧ m' = m) ∨
    (code = 0 ∧ m.fat.get? r.parentClusterNumber = some fat32FatEndOfFile ∧
      ∃ j, Storable m r j ∧ required r ≠ 0 ∧ m' = stored m r j) := by
  cases hm : m.fat.get? r.parentClusterNumber with
  | none => simp [write, hm] at hw
  | some v =>
    by_cases hv : v = fat32FatEndOfFile
    · subst hv
      rcases write_ok hm hw with ⟨hne, hsame, _⟩ | ⟨h0, hst⟩
      · exact Or.inl ⟨hne, hsame⟩
      · exact Or.inr ⟨h0, rfl, hst⟩
    · rw [write_unmarked hm hv] at hw
      cases hw
      exact Or.inl ⟨by decide, rfl⟩

variable (h : m.WellFormed) (hq : q.parentClusterNumber = rootClusterNumber)
  (hqk : q.key = shellKey)

include h hq hqk in
/-- The delete finds the slot that "shell" denotes. -/
theorem shell_find (ho : shellKey ≠ m.disk.ownKey rootClusterNumber) : (List.finRange 64).find?
    (fun j => sameKey ((m.disk.table q.parentClusterNumber).table j) q) =
      m.disk.slotOf rootClusterNumber shellKey := by
  have hdir := h.image.directory _ (Disk.reachable_of_root m.disk hq)
  have hfind := hdir.find_slotOf (r := q) (by rw [hqk]; exact shellKey_ne_zero)
    (by rw [hqk, hq]; exact ho)
  rw [hqk, hq] at hfind
  rw [hq]
  exact hfind

section Present
variable (hslot : m.disk.slotOf rootClusterNumber shellKey = some i)

include hq hslot in
theorem shell_live : m.disk.LiveAt q.parentClusterNumber i := by
  obtain ⟨hi, hl, _⟩ := Disk.slotOf_some hslot
  rw [hq]
  exact ⟨Disk.reachable_root _, hi, hl⟩

include h hslot in
/-- Without the slot of "shell" the root has no such entry. -/
theorem shell_gone {d : Disk} (ht : d.table rootClusterNumber =
    (m.disk.table rootClusterNumber).set i 0) : d.lookup rootClusterNumber shellKey = none := by
  have hdir := h.image.directory _ (Disk.reachable_root m.disk)
  obtain ⟨hi, hl, hk⟩ := Disk.slotOf_some hslot
  rw [← hk]
  refine hdir.lookup_gone hi hl ?_ fun j hji _ => ?_
  · rw [ht, FAT32DirectoryTable.set_same]
  · rw [ht, FAT32DirectoryTable.set_other _ _ hji]

include hq in
theorem shell_deleted_table : (deleted m q i).disk.table rootClusterNumber =
    (m.disk.table rootClusterNumber).set i 0 := by
  have ht := @deleted_table m q i (by rw [hq]; decide) (by rw [hq]; decide)
  rw [hq] at ht
  exact ht

include h hq hslot in
theorem shell_deleted_wellFormed : (deleted m q i).WellFormed := by
  obtain ⟨⟨_, hp⟩, hi, hl⟩ := shell_live hq hslot
  exact deleted_wellFormed h hp hi hl

variable (ho : shellKey ≠ m.disk.ownKey rootClusterNumber)

include h hq hqk hslot ho in
theorem shell_delete : delete m q = .ok (0, deleted m q i) := by
  have hfind := (shell_find h hq hqk ho).trans hslot
  exact (delete_found hfind).trans (deleteSlot_live h (shell_live hq hslot))

section Replaced
variable {e : FAT32DirectoryEntry} (he : m.disk.lookup rootClusterNumber shellKey = some e)
  (hr : Carries r f c) (hrep : ReplacesShell m.disk f c e)

include h hq hslot he hr hrep in
/-- There is a slot and there are clusters for a new "shell". -/
theorem shell_storable : ∃ j, Storable (deleted m q i) r j := by
  have hlive := shell_live hq hslot
  have htable := @shell_deleted_table m q i hq
  have hroot : r.parentClusterNumber = rootClusterNumber := hr.parent.trans hrep.parent
  have hkey : r.key = shellKey := hr.key.trans hrep.name
  obtain ⟨hi, hl, hk⟩ := Disk.slotOf_some hslot
  have hentry : (m.disk.table rootClusterNumber).table i = e := by
    rw [Disk.lookup, hslot] at he
    exact Option.some.inj he
  have hw := shell_deleted_wellFormed h hq hslot
  have hreach : (deleted m q i).disk.Reachable r.parentClusterNumber :=
    Disk.reachable_of_root _ hroot
  rcases write_cases hw hreach hr.size_le with ⟨ht, _⟩ | ⟨_, hn, _⟩ | ⟨j, hst, _⟩
  · -- a slot of the name would be a live one
    obtain ⟨j, hj, hlj, hkj⟩ := (taken_iff_present hw hreach hr.key_ne_zero).mp ht
    rw [hroot] at hlj hkj
    exact absurd (hkj.trans hkey) (Disk.lookup_none.mp (shell_gone h hslot htable) j hj hlj)
  · exfalso
    rcases noRoom_iff.mp hn with hall | hfew
    · have hli := hall i hi
      rw [hroot, htable, FAT32DirectoryTable.set_same] at hli
      exact not_live_zero hli
    · have hspace := hrep.space
      rw [deleted_freeClusters h hlive, hq, hentry, hr.required] at hfew
      rw [h.coherent] at hspace
      exact absurd hspace (not_le.mpr hfew)
  · exact ⟨j, hst⟩

include h hq hqk hslot ho he hr hrep in
/-- "shell" itself is replaced. -/
theorem shell_puts : Puts m h.image q r f [] c := by
  have hw := shell_deleted_wellFormed h hq hslot
  have hroot : m.disk.dirAt [] = some rootClusterNumber := Graph.dirAt_nil _
  have hdirc : (deleted m q i).disk.dirAt [] = some c := Disk.dirAt_root _ hrep.parent
  obtain ⟨j, hst⟩ := shell_storable h hq hslot he hr hrep
  obtain ⟨h', hdir', hnode⟩ := stored_node hw hr hdirc hst
  obtain ⟨hi, hl, hk⟩ := Disk.slotOf_some hslot
  have hgone := deleted_tree (r := q) h (by rw [hq]; exact hroot) hi (by rw [hq]; exact hl) hw.image
  rw [hq, hk] at hgone
  have hbelow : ∀ x, [shellKey] <:+ x → x ≠ [shellKey] →
      (m.disk.tree h.image).node x = none := by
    intro x hs hne
    refine m.disk.graph.node_below m.disk.content (fun n hn => ?_) hs hne
    obtain ⟨b, e', hb, he', hn'⟩ := Graph.dirAt_cons_eq_some.mp hn
    cases hroot.symm.trans hb
    cases he.symm.trans he'
    exact hrep.bare n hn'
  refine ⟨0, _, shell_delete h hq hqk hslot ho, 0, _, ?_, h', hdir', fun _ x => ?_,
    fun h0 => absurd rfl h0⟩
  · have hmark : (deleted m q i).fat.get? r.parentClusterNumber = some fat32FatEndOfFile := by
      rw [hr.parent]
      exact parent_marked hw ⟨[], hdirc⟩
    exact write_stores hmark hst.free hst.vacant (required_pos hr.size_le) hst.space
  · rw [hnode x, hgone, hrep.name]
    by_cases hx : x = [shellKey]
    · rw [if_pos hx, if_pos hx]
    · rw [if_neg hx, if_neg hx]
      show (if [shellKey] <:+ x then none else (m.disk.tree h.image).node x) = _
      by_cases hs : [shellKey] <:+ x
      · rw [if_pos hs, hbelow x hs hx]
      · rw [if_neg hs]

end Replaced

end Present

include h hq hqk in
theorem Replaceable.puts {p : List Key} (hr : Carries r f c) (hp : m.disk.dirAt p = some c)
    (hok : Replaceable m.disk f c) : Puts m h.image q r f p c := by
  obtain ⟨ho, hcase⟩ := hok
  rcases hcase with hnone | ⟨e, he, hrep⟩
  · -- no "shell": the delete changes nothing
    have hslot : m.disk.slotOf rootClusterNumber shellKey = none := by
      rw [Disk.slotOf_none]
      exact Disk.lookup_none.mp hnone
    have hfind := (shell_find h hq hqk ho).trans hslot
    have h₁ : ({ m with driver.dirTableBuf := m.disk.table q.parentClusterNumber } :
        Machine).WellFormed := h.of_same rfl rfl
    obtain ⟨code, m', hw, h', hdir, hzero, hcode⟩ := write_inserts h₁ hr hp
    exact ⟨1, _, delete_missing hfind, code, m', hw, h', hdir, hzero, hcode⟩
  · obtain ⟨i, hslot, _⟩ := Disk.lookup_some he
    have hpath : p = [] := by
      rw [hrep.parent] at hp
      exact h.image.onePath _ _ _ hp (Graph.dirAt_nil _)
    rw [hpath]
    exact shell_puts h hq hqk hslot ho he hr hrep

/-! ## What a run that changes nothing else started from -/

section Necessary
variable {p : List Key} (hr : Carries r f c) (hd : delete m q = .ok (err, m₁))
  (hw : write m₁ r = .ok (code, m'))

include h hq hqk hd in
/-- With the root's own name "shell" the delete takes the root apart. -/
theorem own_deleted (ho : shellKey = m.disk.ownKey rootClusterNumber) :
    m₁.fat = m.fat.clear [rootClusterNumber] ∧
      m₁.disk.table rootClusterNumber = (m.disk.table rootClusterNumber).set 0 0 := by
  have hreach : m.disk.Reachable q.parentClusterNumber := Disk.reachable_of_root _ hq
  have hown : q.key = m.disk.ownKey q.parentClusterNumber := by
    rw [hqk, hq]
    exact ho
  have hfat := delete_own (parent_marked h hreach) hown
    (h.image.directory _ hreach).selfCluster hd
  have htable := delete_table (by rw [hq]; decide) (find_own hown) hd
  rw [hq] at hfat htable
  exact ⟨hfat, htable⟩

include h hq hqk hd in
/-- The cluster of the root is then the first one free. -/
theorem own_first_free (ho : shellKey = m.disk.ownKey rootClusterNumber) :
    (freeClusters m₁.fat).head? = some rootClusterNumber := by
  obtain ⟨hfat, _⟩ := own_deleted h hq hqk hd ho
  refine head?_freeClusters ?_ fun y hy hfree => ?_
  · rw [hfat, FAT32FileAllocationTable.get?_clear, if_pos ⟨List.mem_singleton_self _, root_lt⟩]
    rfl
  · have hy2 : y.toNat < 2 := hy
    have hne : y ≠ rootClusterNumber := by
      intro he
      rw [he] at hy
      exact lt_irrefl _ hy
    rw [hfat, FAT32FileAllocationTable.get?_clear,
      if_neg (fun hm => hne (List.mem_singleton.mp hm.1))] at hfree
    have hrange := (free_unused h hfree).1.1
    omega

/-- In no well-formed image an entry starts in the cluster of the root. -/
theorem cluster_ne_root {d : Disk} {j : Fin 64} (h' : d.WellFormed) (hlive : d.LiveAt c j) :
    ((d.table c).table j).cluster ≠ rootClusterNumber := by
  intro hcluster
  have hmem := (h'.chain hlive).head_mem (by rw [hcluster]; exact ne_end root_lt)
  have hrange := ((h'.entry c j hlive).range _ hmem).1
  exact ne_root hrange hcluster

include h hq hqk hr hd hw in
theorem own_not_wellFormed (ho : shellKey = m.disk.ownKey rootClusterNumber)
    (h' : m'.disk.WellFormed) (hp : m'.disk.dirAt p = some c) : False := by
  obtain ⟨_, htable⟩ := own_deleted h hq hqk hd ho
  rcases write_returns hw with ⟨_, rfl⟩ | ⟨_, hmark, j, hst, h0, rfl⟩
  · -- slot 0 of the root is empty
    have hself := (h'.directory _ (Disk.reachable_root _)).selfFolder
    rw [htable, FAT32DirectoryTable.set_same] at hself
    exact absurd hself (by decide)
  · -- the file starts in the cluster of the root, the first one free
    have hhead : (allocated m₁ r).headD 0 = rootClusterNumber := by
      rw [List.headD_eq_head?_getD, head?_allocated h0, own_first_free h hq hqk hd ho,
        Option.getD_some]
    have hi := (vacantSlot_eq_some.mp hst.vacant).1
    have hnew : ((stored m₁ r j).disk.table c).table j = addedEntry m₁ r := by
      rw [← hr.parent, stored_parent_table, FAT32DirectoryTable.set_same]
    have hlive : (stored m₁ r j).disk.LiveAt c j :=
      ⟨⟨p, hp⟩, hi, by rw [hnew]; exact addedEntry_live⟩
    refine cluster_ne_root h' hlive ?_
    rw [hnew, addedEntry_cluster, hhead]

variable (hslot : m.disk.slotOf rootClusterNumber shellKey = some i)
  (ho : shellKey ≠ m.disk.ownKey rootClusterNumber)

include h hq hr hslot in
/-- No write but one of "shell" into the root brings "shell" back. -/
theorem shell_stays_gone {j : Fin 64} (hst : Storable (deleted m q i) r j) (h0 : required r ≠ 0)
    (hmark : (deleted m q i).fat.get? r.parentClusterNumber = some fat32FatEndOfFile)
    (hother : ¬ (c = rootClusterNumber ∧ f.key = shellKey)) :
    (stored (deleted m q i) r j).disk.lookup rootClusterNumber shellKey = none := by
  have h₁ := shell_deleted_wellFormed h hq hslot
  have hgone := shell_gone h hslot (shell_deleted_table hq)
  by_cases hc : rootClusterNumber = r.parentClusterNumber
  · refine Disk.lookup_none.mpr fun k hk hlk hkey => ?_
    rw [hc, stored_parent_table] at hlk hkey
    by_cases hkj : k = j
    · rw [hkj, FAT32DirectoryTable.set_same, addedEntry_key, hr.key] at hkey
      exact hother ⟨hr.parent.symm.trans hc.symm, hkey⟩
    · rw [FAT32DirectoryTable.set_other _ _ hkj, ← hc] at hlk hkey
      exact Disk.lookup_none.mp hgone k hk hlk hkey
  · have hroot := parent_marked h₁ (Disk.reachable_root _)
    rw [Disk.lookup_congr (FAT32DirectoryTable.ofBytes_congr fun b hb =>
      stored_cluster_other h₁ hst.space h0 (marked_range (r := r) hmark).1 root_lt
        (by decide) hc (marked_range hroot).2 hb)]
    exact hgone

include h in
/-- Where a file takes the place of "shell" and nothing else changes, nothing was
below "shell". -/
theorem shell_bare {e : FAT32DirectoryEntry} {d : Disk} {bytes : List UInt8} (h' : d.WellFormed)
    (he : m.disk.lookup rootClusterNumber shellKey = some e)
    (hnode : ∀ x, (d.tree h').node x =
      if x = [shellKey] then some (.file bytes) else (m.disk.tree h.image).node x) :
    ∀ n, m.disk.graph.child e = some n → ∀ k, m.disk.graph.lookup n k = none := by
  intro n hn k
  by_contra hlk
  have hchild : m.disk.dirAt [shellKey] = some n :=
    Graph.dirAt_cons_eq_some.mpr ⟨_, _, Graph.dirAt_nil _, he, hn⟩
  have hbelow : (m.disk.tree h.image).node [k, shellKey] ≠ none := by
    rw [Disk.tree_node h.image hchild]
    simpa using hlk
  have hfile := hnode [shellKey]
  rw [if_pos rfl] at hfile
  have hsame := hnode [k, shellKey]
  rw [if_neg (by simp)] at hsame
  have hfolder := (d.tree h').parent k [shellKey] (by rw [hsame]; exact hbelow)
  rw [hfile] at hfolder
  cases hfolder

include h hq hqk hr hslot ho in
theorem Puts.replacesShell {e : FAT32DirectoryEntry} (hp : m.disk.dirAt p = some c)
    (he : m.disk.lookup rootClusterNumber shellKey = some e)
    (hputs : Puts m h.image q r f p c) : ReplacesShell m.disk f c e := by
  obtain ⟨err, m₁, hd, code, m', hw, h', hdir, hzero, hcode⟩ := hputs
  rw [shell_delete h hq hqk hslot ho] at hd
  cases hd
  have hroot : ∀ d : Disk, d.dirAt [] = some rootClusterNumber := fun d => Graph.dirAt_nil _
  have hold : (m.disk.tree h.image).node [shellKey] = some (m.disk.nodeOf e) := by
    rw [Disk.tree_node h.image (hroot _), he, Option.map_some]
  have hgone := shell_gone h hslot (shell_deleted_table hq)
  -- a tree without "shell" is not the one before
  have hlost : m'.disk.lookup rootClusterNumber shellKey = none →
      (m'.disk.tree h').node [shellKey] ≠ (m.disk.tree h.image).node [shellKey] := by
    intro hnone he
    rw [hold, Disk.tree_node h' (hroot _), hnone] at he
    cases he
  rcases write_returns hw with ⟨hne, rfl⟩ | ⟨h0, hmark, j, hst, hreq, rfl⟩
  · exact absurd (by rw [hcode hne]) (hlost hgone)
  · have hname : c = rootClusterNumber ∧ f.key = shellKey := by
      by_contra hother
      refine hlost (shell_stays_gone h hq hr hslot hst hreq hmark hother) ?_
      rw [hzero h0, if_neg]
      intro hkp
      obtain ⟨hk, hpn⟩ := List.cons_eq_cons.mp hkp
      rw [← hpn] at hp
      exact hother ⟨(Option.some.inj ((hroot _).symm.trans hp)).symm, hk.symm⟩
    obtain ⟨hc, hk⟩ := hname
    have hpath : p = [] := by
      rw [hc] at hp
      exact h.image.onePath _ _ _ hp (hroot _)
    subst hpath
    have hentry : (m.disk.table rootClusterNumber).table i = e := by
      rw [Disk.lookup, hslot] at he
      exact Option.some.inj he
    have hnode := hzero h0
    rw [hk] at hnode
    have hspace := hst.space
    rw [deleted_freeClusters h (shell_live hq hslot), hq, hentry, hr.required,
      ← h.coherent] at hspace
    exact ⟨hc, hk, shell_bare h h' he hnode, hspace⟩

end Necessary

include h hq hqk in
theorem Puts.replaceable {p : List Key} (hr : Carries r f c) (hp : m.disk.dirAt p = some c)
    (hputs : Puts m h.image q r f p c) : Replaceable m.disk f c := by
  have ho : shellKey ≠ m.disk.ownKey rootClusterNumber := by
    intro ho
    obtain ⟨err, m₁, hd, code, m', hw, h', hdir, _⟩ := hputs
    exact own_not_wellFormed h hq hqk hr hd hw ho h' hdir
  refine ⟨ho, ?_⟩
  cases he : m.disk.lookup rootClusterNumber shellKey with
  | none => exact Or.inl rfl
  | some e =>
    obtain ⟨i, hslot, _⟩ := Disk.lookup_some he
    exact Or.inr ⟨e, rfl, hputs.replacesShell h hq hqk hr hslot ho hp he⟩

end Deleted

section Inserts
variable {host : Host} {f : HostFile} {prog parent storage : List UInt8} {p : List Key} {c : UInt32}
  (h : host.image.WellFormed) (ht : host.target = some f.content)
  (hc : scanUnsigned parent = some c) (hp : host.image.dirAt p = some c)

include ht hc hp in
theorem Inserts.replaceable (hins : Inserts host [prog, f.name, parent, storage] f h p c) :
    Replaceable host.image f c := by
  obtain ⟨hdisk, hm⟩ := mounted_wellFormed h
  rw [← hdisk] at hp ⊢
  exact Puts.replaceable hm (shellRequest_parent _) (shellRequest_key _)
    (fileRequest_carries ht hc) hp ((inserts_iff_puts h hm.image).mp hins)

include ht hc hp in
theorem Replaceable.inserts (hok : Replaceable host.image f c) :
    Inserts host [prog, f.name, parent, storage] f h p c := by
  obtain ⟨hdisk, hm⟩ := mounted_wellFormed h
  rw [← hdisk] at hp hok
  exact (inserts_iff_puts h hm.image).mpr (Replaceable.puts hm (shellRequest_parent _)
    (shellRequest_key _) (fileRequest_carries ht hc) hp hok)

end Inserts

/-- **When the inserter replaces one entry and nothing else.** For any well-formed
image, host file and parent directory: exactly when the root is not named "shell",
and has no entry "shell" or one that the file replaces. -/
theorem inserts_iff {host : Host} {f : HostFile} {prog parent storage : List UInt8} {p : List Key}
    {c : UInt32} (h : host.image.WellFormed) (ht : host.target = some f.content)
    (hc : scanUnsigned parent = some c) (hp : host.image.dirAt p = some c) :
    Inserts host [prog, f.name, parent, storage] f h p c ↔ Replaceable host.image f c :=
  ⟨Inserts.replaceable h ht hc hp, Replaceable.inserts h ht hc hp⟩

/-! ## Two runs -/

def smallFile : HostFile where
  name := [97]
  content := [7]
  nonempty := by decide
  plain := by
    intro c hc
    rw [List.mem_singleton.mp hc]
    exact ⟨by decide, rfl⟩
  bytes := by decide
  small := by decide

def smallHost (image : Disk) : Host :=
  ⟨image, some smallFile.content, fun _ => 0, fun _ => 0, fun _ => 0, 0⟩

def smallArguments : List (List UInt8) := [[105], smallFile.name, [50], [115]]

theorem smallArguments_parent : scanUnsigned [50] = some rootClusterNumber := by decide

theorem inserts_rooted : Inserts (smallHost (rootedDisk (letterName 'r'))) smallArguments smallFile
    (rootedDisk_wellFormed _) [] rootClusterNumber := by
  have hrun : ∀ (d : Disk) (h : d.WellFormed), Replaceable d smallFile rootClusterNumber →
      Inserts (smallHost d) smallArguments smallFile h [] rootClusterNumber := fun d h =>
    (@inserts_iff (smallHost d) _ _ _ _ _ _ h rfl smallArguments_parent (Graph.dirAt_nil _)).mpr
  refine hrun _ _ ⟨?_, Or.inl (rootedDisk_lookup _ _)⟩
  rw [rooted_ownKey]
  exact (by decide : shellKey ≠ (⟨letterName 'r', fun _ => 0⟩ : Key))

def shellFile : FAT32DriverRequest :=
  ⟨fun _ => 7, shellKey.name, shellKey.ext, rootClusterNumber, 1⟩

/-- Inserting "a" into a root that holds "shell" loses "shell". -/
theorem shell_lost : ∃ h : (stored (rootedMachine (letterName 'r')) shellFile 2).disk.WellFormed,
    ¬ Inserts (smallHost (stored (rootedMachine (letterName 'r')) shellFile 2).disk) smallArguments
      smallFile h [] rootClusterNumber := by
  have h2 : TwoNames shellFile (letterRequest 'a' 1) :=
    ⟨rfl, rfl, by decide, by decide, by decide, by decide, by decide⟩
  have h : (stored (rootedMachine (letterName 'r')) shellFile 2).WellFormed := first_wellFormed h2
  have htable : (stored (rootedMachine (letterName 'r')) shellFile 2).disk.table rootClusterNumber =
      _ := first_table h2 rfl
  have hrun : ∀ (d : Disk) (h : d.WellFormed),
      Inserts (smallHost d) smallArguments smallFile h [] rootClusterNumber →
      Replaceable d smallFile rootClusterNumber := fun d h =>
    @Inserts.replaceable (smallHost d) _ _ _ _ _ _ h rfl smallArguments_parent (Graph.dirAt_nil _)
  refine ⟨h.image, fun hins => ?_⟩
  obtain ⟨_, hcase⟩ := hrun _ _ hins
  rcases hcase with hnone | ⟨_, _, hrep⟩
  · refine Disk.lookup_none.mp hnone 2 (by decide) ?_ ?_
    · rw [htable, FAT32DirectoryTable.set_same]
      exact addedEntry_live
    · rw [htable, FAT32DirectoryTable.set_same, addedEntry_key]
      rfl
  · exact absurd hrep.name (by decide)

end KajijOSta.Inserter
