import KajijOSta.Fat32.Folders
import KajijOSta.Shell.Navigation

/-! # Where the commands look up names

`mkdir` and `rm` name the current directory by its own cluster; `cat`, `cp` and
`mv` put the cluster of its parent into their requests, and `cp` and `mv` look up
the size of their source in a table that READ_DIR finds there by name. The two
clusters are the same in the root directory, and on a trail nowhere else. -/
namespace KajijOSta.Shell
open KajijOSta.Fat32 KajijOSta.NamedTree KajijOSta.Runs

/-! ## Requests and their directory -/

/-- A request is about the directory at `c`: the file that it reads, writes or
deletes is in it, the table that READ_DIR leaves in the buffer is the one there. -/
def InDirectory (m : Machine) (c : UInt32) : Call → Prop
  | .read r | .write r | .delete r => r.parentClusterNumber = c
  | .readDirectory r => HoldsTable m c (readDirectory m r).2

def ResolvesIn (m : Machine) (c : UInt32) (calls : List Call) : Prop :=
  ∀ call ∈ calls, InDirectory m c call

/-- `cat`, `cp` and `mv` resolve all names in the directory that `mkdir` and `rm`
modify. A READ_DIR is the first request of its command, in the state `m`. -/
def ResolvesHere (m : Machine) (s : ShellState) : Prop :=
  ∀ (garbage garbage' : Memory) (w w' : Word),
    ResolvesIn m s.currentDirectory.clusterNumber (cat m garbage s w).1 ∧
    ResolvesIn m s.currentDirectory.clusterNumber (cp m garbage garbage' s w w').1 ∧
    ResolvesIn m s.currentDirectory.clusterNumber (mv m garbage garbage' s w w').1

/-- The first slot of the table at `c` with these 8 bytes is a folder, `size` bytes
large at most, and its cluster holds the bytes of the one at `c'`. -/
def FirstLeadsTo (d : Disk) (c : UInt32) (name : Fin 8 → UInt8) (size c' : UInt32) : Prop :=
  ∃ i, ((d.table c).table i).name = name ∧ (∀ j, j < i → ((d.table c).table j).name ≠ name) ∧
    ((d.table c).table i).attr &&& attrSubdirectory ≠ 0 ∧
    ((d.table c).table i).filesize ≤ size ∧
    ∀ b, b < clusterSize → d.cluster ((d.table c).table i).cluster b = d.cluster c' b

/-- Where `cp` and `mv` look, by cluster and by name. -/
structure LooksHere (d : Disk) (cur : DirectoryState) : Prop where
  parent : cur.parentClusterNumber = cur.clusterNumber
  first : FirstLeadsTo d cur.clusterNumber cur.name 0 cur.clusterNumber

/-! ## READ_DIR -/

section Tables
variable {m : Machine} {c c' n : UInt32} {name : Fin 8 → UInt8}

/-- Some buffer does not hold the table. -/
theorem exists_not_holdsTable (m : Machine) (c : UInt32) : ∃ buf, ¬ HoldsTable m c buf := by
  refine ⟨fun b => m.disk.cluster c b + 1, fun h => ?_⟩
  have h0 := h 0 clusterSize_pos
  exact absurd (UInt8.add_eq_left.mp h0) (by decide)

/-- READ_DIR leaves a table in every buffer exactly where the first slot leads to it. -/
theorem readDirectory_holds_iff :
    (∀ buf, HoldsTable m c' (readDirectory m (request buf name c n)).2) ↔
      FirstLeadsTo m.disk c name n c' := by
  constructor
  · intro h
    -- a code other than 0 leaves this buffer as it was
    obtain ⟨other, hother⟩ := exists_not_holdsTable m c'
    have hread := h other
    by_cases hex : ∃ i, ((m.disk.table c).table i).name = name
    · obtain ⟨j, hj⟩ := hex
      obtain ⟨i, hi, hfirst⟩ := @exists_first_name m (request other name c n) j hj
      rw [readDirectory_first hi hfirst] at hread
      by_cases hbit : ((m.disk.table c).table i).attr &&& attrSubdirectory = 0
      · exact absurd (by simpa [request, hbit] using hread) hother
      by_cases hsize : n < ((m.disk.table c).table i).filesize
      · exact absurd (by simpa [request, hbit, hsize] using hread) hother
      refine ⟨i, hi, hfirst, hbit, UInt32.not_lt.mp hsize, fun b hb => ?_⟩
      have hbyte := hread b hb
      simp only [request, hbit, hsize, if_false] at hbyte
      exact (readClusters_lt _ _ _ hb).symm.trans hbyte
    · have hno : ∀ i, ((m.disk.table c).table i).name ≠ name := not_exists.mp hex
      rw [@readDirectory_missing m (request other name c n) hno] at hread
      exact absurd hread hother
  · rintro ⟨i, hi, hfirst, hbit, hsize, hbytes⟩ buf b hb
    have hread := @readDirectory_first m (request buf name c n) i hi hfirst
    rw [hread]
    refine Eq.trans ?_ (hbytes b hb)
    simp only [request, hbit, UInt32.not_lt.mpr hsize, if_false]
    exact readClusters_lt _ _ _ hb

end Tables

/-! ## The commands -/

section Commands
variable (m : Machine) (garbage garbage' : Memory) (s : ShellState) (w w' : Word)

/-- All requests of the three commands are about the parent of the current directory. -/
theorem cat_resolves :
    ResolvesIn m s.currentDirectory.parentClusterNumber (cat m garbage s w).1 := by
  intro call hc
  simp only [cat, List.mem_singleton] at hc
  subst hc
  rfl

theorem cp_resolves (h : ∀ buf, HoldsTable m s.currentDirectory.parentClusterNumber
      (readDirectory m (request buf s.currentDirectory.name
        s.currentDirectory.parentClusterNumber 0)).2) :
    ResolvesIn m s.currentDirectory.parentClusterNumber (cp m garbage garbage' s w w').1 := by
  intro call hc
  simp only [cp] at hc
  split at hc
  · simp only [List.mem_cons, List.not_mem_nil, or_false] at hc
    rcases hc with rfl | rfl
    · exact h garbage
    · rfl
  · split at hc <;> simp only [List.mem_append, List.mem_cons, List.not_mem_nil, or_false] at hc
    · rcases hc with (rfl | rfl) | rfl
      · exact h garbage
      · rfl
      · rfl
    · rcases hc with ((rfl | rfl) | rfl) | rfl
      · exact h garbage
      · rfl
      · rfl
      · rfl

theorem mv_resolves (h : ∀ buf, HoldsTable m s.currentDirectory.parentClusterNumber
      (readDirectory m (request buf s.currentDirectory.name
        s.currentDirectory.parentClusterNumber 0)).2) :
    ResolvesIn m s.currentDirectory.parentClusterNumber (mv m garbage garbage' s w w').1 := by
  have hcp := cp_resolves m garbage garbage' s w w' h
  simp only [mv]
  split
  · rename_i calls f he
    rw [he] at hcp
    exact hcp
  · rename_i calls m' he
    rw [he] at hcp
    intro call hc
    rcases List.mem_append.mp hc with hc | hc
    · exact hcp call hc
    · rw [List.mem_singleton] at hc
      subst hc
      rfl

/-- `cp` asks for the table of the current directory, whatever comes after. -/
theorem cp_looks : .readDirectory (request garbage s.currentDirectory.name
    s.currentDirectory.parentClusterNumber 0) ∈ (cp m garbage garbage' s w w').1 := by
  simp only [cp]
  split
  · exact List.mem_cons_self
  · split <;> simp

/-- The commands agree exactly where both clusters are the same and the table found
by name is the one there. -/
theorem resolvesHere_iff : ResolvesHere m s ↔ LooksHere m.disk s.currentDirectory := by
  constructor
  · intro h
    have hcat := (h (fun _ => 0) (fun _ => 0) aWord aWord).1
    have hparent : s.currentDirectory.parentClusterNumber = s.currentDirectory.clusterNumber :=
      hcat (.read (fileRequest s (fun _ => 0) aWord)) (List.mem_singleton_self _)
    refine ⟨hparent, readDirectory_holds_iff.mp fun buf => ?_⟩
    have hcp := (h buf (fun _ => 0) aWord aWord).2.1
    have hlooks := hcp _ (cp_looks m buf (fun _ => 0) s aWord aWord)
    rw [hparent] at hlooks
    exact hlooks
  · intro h garbage garbage' w w'
    have hread := readDirectory_holds_iff.mpr h.first
    rw [← h.parent] at hread ⊢
    exact ⟨cat_resolves m garbage s w, cp_resolves m garbage garbage' s w w' hread,
      mv_resolves m garbage garbage' s w w' hread⟩

end Commands

/-! ## On a trail -/

section Trails
variable {d : Disk} {p : List Key} {cur : DirectoryState} {stack : List DirectoryState}

/-- On a trail, only the root is its own parent. -/
theorem Trail.parent_eq_iff (h : d.WellFormed) (ht : Trail d p cur stack) :
    cur.parentClusterNumber = cur.clusterNumber ↔ stack = [] := by
  cases ht with
  | root => exact ⟨fun _ => rfl, fun _ => rfl⟩
  | enter ht hi hl hs =>
    have hne := h.child_ne ⟨ht.reachable h, hi, hl⟩ hs.folder
    exact ⟨fun he => absurd he.symm hne, fun hnil => absurd hnil (List.cons_ne_nil _ _)⟩

/-- Slot 0 leads from a directory to itself, if its size leaves it. -/
theorem firstLeadsTo_self_iff {c n : UInt32} {name : Fin 8 → UInt8} (h : d.DirectoryOk c)
    (hname : ((d.table c).table 0).name = name) :
    FirstLeadsTo d c name n c ↔ ((d.table c).table 0).filesize ≤ n := by
  constructor
  · rintro ⟨i, _, hfirst, _, hsize, _⟩
    obtain rfl : i = 0 := by
      by_contra hne
      exact hfirst 0 (Fin.pos_of_ne_zero hne) hname
    exact hsize
  · intro hsize
    exact ⟨0, hname, fun j hj => absurd hj (Fin.not_lt_zero j), folder_bit h.selfFolder, hsize,
      fun _ _ => by rw [h.selfCluster]⟩

/-- On a trail, the commands agree in the root only, and there only if no size is
entered for it. -/
theorem Trail.looksHere_iff (h : d.WellFormed) (ht : Trail d p cur stack) :
    LooksHere d cur ↔
      stack = [] ∧ ((d.table rootClusterNumber).table 0).filesize = 0 := by
  have hroot := firstLeadsTo_self_iff (n := 0) (h.directory _ (Disk.reachable_root d))
    ht.rootShown.name_eq
  have hzero : ∀ x : UInt32, x ≤ 0 ↔ x = 0 := fun x => UInt32.le_zero_iff
  constructor
  · intro hlook
    have hnil := (ht.parent_eq_iff h).mp hlook.parent
    cases ht with
    | root => exact ⟨rfl, (hzero _).mp (hroot.mp hlook.first)⟩
    | enter => cases hnil
  · rintro ⟨rfl, hsize⟩
    cases ht with
    | root => exact ⟨rfl, hroot.mpr ((hzero _).mpr hsize)⟩

end Trails

/-- **The directory the commands resolve names in.** In every state a run of
commands reaches, `cat`, `cp` and `mv` work in the directory `mkdir` and `rm`
modify exactly when the current directory and its parent have the same cluster,
and the first slot there under the current directory's name leads back to it and
has size 0. Where each `cd` entered the slot READ_DIR shows, that is in the root
only, and when the root's own slot has size 0. -/
theorem commands_resolve_iff (m : Machine) (cmds : List Command) (sys : System)
    (h : m.WellFormed) (hrun : run step ⟨m, initialShell⟩ cmds = .ok sys) :
    (ResolvesHere sys.machine sys.shell ↔
      LooksHere sys.machine.disk sys.shell.currentDirectory) ∧
    (((m.disk.table rootClusterNumber).table 0).name = rootName →
      ((m.disk.table rootClusterNumber).table 0).filesize.toNat ≤ clusterSize →
      Meets step WithinDepth ⟨m, initialShell⟩ cmds →
      Meets step Unambiguous ⟨m, initialShell⟩ cmds →
      (ResolvesHere sys.machine sys.shell ↔ sys.shell.directoryStack = [] ∧
        ((sys.machine.disk.table rootClusterNumber).table 0).filesize = 0)) := by
  have hiff := resolvesHere_iff sys.machine sys.shell
  refine ⟨hiff, fun hname hsize hdepth hok => hiff.trans ?_⟩
  obtain ⟨sys', hrun', hon⟩ := (run_onTrail m cmds h hname hsize hdepth hok).run
  cases hrun.symm.trans hrun'
  obtain ⟨hw, _, ht⟩ := hon
  exact ht.looksHere_iff hw.image

/-- After `cd` into a directory just made, names are resolved in the one above. -/
theorem mkdir_cd_resolves {m : Machine} {s : ShellState} {p : List Key} {w : Word} {i : Fin 64}
    (h : m.WellFormed) (ht : Trail m.disk p s.currentDirectory s.directoryStack)
    (hd : s.directoryStack.length < stackSize) (null garbage : Memory)
    (hst : Storable m (request null w.name s.currentDirectory.clusterNumber 0) i)
    (hw : strcmp (addedEntry m (request null w.name s.currentDirectory.clusterNumber 0)).bytes
      w.chars = true) (hdot : w.chars ≠ dotDot) :
    ∃ sys, run step ⟨m, s⟩ [.mkdir null w, .cd garbage w] = .ok sys ∧
      ¬ ResolvesHere sys.machine sys.shell := by
  obtain ⟨m', j, h', ht', _, hj, hrun⟩ := mkdir_cd_run h ht null garbage hst hw hdot
  refine ⟨_, hrun, fun hres => ?_⟩
  have heq := ((resolvesHere_iff _ _).mp hres).parent
  obtain ⟨hi, hl, hf, _⟩ := cdSlot_some hj
  simp only [cdName_some (ht'.matches h'.image) garbage hj hd] at heq
  exact h'.image.child_ne ⟨ht'.reachable h'.image, hi, hl⟩ hf heq.symm

theorem commands_resolve_rooted : ∃ sys,
    run step ⟨rootedMachine rootName, initialShell⟩
      [.mkdir (fun _ => 0) aWord, .cd (fun _ => 1) aWord] = .ok sys ∧
    (ResolvesHere sys.machine sys.shell ↔ sys.shell.directoryStack = [] ∧
      ((sys.machine.disk.table rootClusterNumber).table 0).filesize = 0) := by
  obtain ⟨hown, hsize⟩ := rooted_own rootName
  have hdepth : Meets step WithinDepth ⟨rootedMachine rootName, initialShell⟩
      [.mkdir (fun _ => 0) aWord, .cd (fun _ => 1) aWord] :=
    withinDepth_mkdir_cd _ _ (by decide)
  have hok : Meets step Unambiguous ⟨rootedMachine rootName, initialShell⟩
      [.mkdir (fun _ => 0) aWord, .cd (fun _ => 1) aWord] :=
    ⟨trivial, fun sys hsys => ⟨rooted_mkdir_unambiguous (s := initialShell) _ _ rfl (by decide) hsys,
      fun _ _ => trivial⟩⟩
  obtain ⟨sys, hrun, _⟩ := (run_onTrail _ _ (rootedMachine_wellFormed rootName) hown hsize
    hdepth hok).run
  exact ⟨sys, hrun, (commands_resolve_iff _ _ sys (rootedMachine_wellFormed rootName) hrun).2
    hown hsize hdepth hok⟩

theorem cd_resolves_above :
    (rootedMachine rootName).WellFormed ∧ ∃ sys,
    run step ⟨rootedMachine rootName, initialShell⟩
      [.mkdir (fun _ => 0) aWord, .cd (fun _ => 1) aWord] = .ok sys ∧
    ¬ ResolvesHere sys.machine sys.shell := by
  have h := rootedMachine_wellFormed rootName
  have hst : Storable (rootedMachine rootName)
      (request (fun _ => 0) aWord.name rootClusterNumber 0) 2 :=
    rooted_storable rfl (by decide)
  exact ⟨h, mkdir_cd_resolves (s := initialShell) h rooted_trail (by decide) _ _ hst (by decide)
    (by decide)⟩

end KajijOSta.Shell
