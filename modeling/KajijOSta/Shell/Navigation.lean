import KajijOSta.Fat32.Invariant
import KajijOSta.Shell.Commands

/-! # Navigation

The shell names the current directory twice: by its cluster, and by its name in
the table of its parent. `Trail` follows the current directory and the stack up
to the root; where each directory of it is the first slot of its name, the two
ways agree (`Trail.matches`). -/
namespace KajijOSta.Shell
open KajijOSta.Fat32 KajijOSta.NamedTree KajijOSta.Runs

/-! ## READ_DIR -/

/-- Slot `i` of the directory at `c` is what READ_DIR shows under `name`: the
first of all its slots with these 8 bytes, a folder, no larger than a table. -/
structure ShownAt (d : Disk) (c : UInt32) (name : Fin 8 → UInt8) (i : Fin 64) : Prop where
  name_eq : ((d.table c).table i).name = name
  first : ∀ j, j < i → ((d.table c).table j).name ≠ name
  folder : ((d.table c).table i).IsFolder
  small : ((d.table c).table i).filesize.toNat ≤ clusterSize

theorem ShownAt.congr {d d' : Disk} {c : UInt32} {name : Fin 8 → UInt8} {i : Fin 64}
    (h : ShownAt d c name i) (ht : d'.table c = d.table c) : ShownAt d' c name i := by
  refine ⟨?_, ?_, ?_, ?_⟩
  · rw [ht]; exact h.name_eq
  · rw [ht]; exact h.first
  · rw [ht]; exact h.folder
  · rw [ht]; exact h.small

/-- The directory's own slot is shown under its name whatever else it holds. -/
theorem ShownAt.zero {d d' : Disk} {c : UInt32} {name : Fin 8 → UInt8}
    (h : ShownAt d c name 0) (ht : (d'.table c).table 0 = (d.table c).table 0) :
    ShownAt d' c name 0 := by
  refine ⟨?_, fun j hj => absurd hj (Fin.not_lt_zero j), ?_, ?_⟩
  · rw [ht]; exact h.name_eq
  · rw [ht]; exact h.folder
  · rw [ht]; exact h.small

theorem folder_attr {e : FAT32DirectoryEntry} (h : e.IsFolder) :
    ¬ e.attr &&& attrSubdirectory = 0 := by
  rw [show e.attr = attrSubdirectory from h]
  decide

/-- READ_DIR returns the cluster of the slot it shows. -/
theorem readDirectory_shown {m : Machine} {c : UInt32} {name : Fin 8 → UInt8} {i : Fin 64}
    (h : ShownAt m.disk c name i) (buf : Memory) :
    readDirectory m (request buf name c (UInt32.ofNat clusterSize)) =
      (0, readClusters m.disk buf ((m.disk.table c).table i).cluster 1) := by
  have hsize : ¬ UInt32.ofNat clusterSize < ((m.disk.table c).table i).filesize := by
    have h1 := h.small
    have h2 : (UInt32.ofNat clusterSize).toNat = clusterSize := rfl
    rw [UInt32.lt_iff_toNat_lt, h2]
    omega
  have hr := readDirectory_first (m := m)
    (r := request buf name c (UInt32.ofNat clusterSize)) h.name_eq h.first
  exact hr.trans ((if_neg (folder_attr h.folder)).trans (if_neg hsize))

/-- READ_DIR turns down an entry that is larger than a table. -/
theorem readDirectory_large {m : Machine} {c : UInt32} {name : Fin 8 → UInt8} {i : Fin 64}
    (hname : ((m.disk.table c).table i).name = name)
    (hfirst : ∀ j, j < i → ((m.disk.table c).table j).name ≠ name)
    (hfolder : ((m.disk.table c).table i).IsFolder)
    (hlarge : clusterSize < ((m.disk.table c).table i).filesize.toNat) (buf : Memory) :
    readDirectory m (request buf name c (UInt32.ofNat clusterSize)) = (-1, buf) := by
  have hsize : UInt32.ofNat clusterSize < ((m.disk.table c).table i).filesize := by
    have h2 : (UInt32.ofNat clusterSize).toNat = clusterSize := rfl
    rw [UInt32.lt_iff_toNat_lt, h2]
    exact hlarge
  have hr := readDirectory_first (m := m)
    (r := request buf name c (UInt32.ofNat clusterSize)) hname hfirst
  exact hr.trans ((if_neg (folder_attr hfolder)).trans (if_pos hsize))

/-- READ_DIR for the current directory, as `ls` and `cd` make it, returns code 0
and the bytes of the cluster that `mkdir` and `rm` modify. -/
def Matches (m : Machine) (s : ShellState) : Prop :=
  ∀ buf, (readDirectory m (currentRequest s buf)).1 = 0 ∧
    ∀ i, i < clusterSize → (readDirectory m (currentRequest s buf)).2 i =
      m.disk.cluster s.currentDirectory.clusterNumber i

/-! ## The way to the current directory -/

/-- The current directory and the stack are a way down from the root, by slots
that READ_DIR shows. -/
inductive Trail (d : Disk) : List Key → DirectoryState → List DirectoryState → Prop
  | root (h : ShownAt d rootClusterNumber rootName 0) :
      Trail d [] initialShell.currentDirectory []
  | enter {p : List Key} {up : DirectoryState} {rest : List DirectoryState} {i : Fin 64}
      {name : Fin 8 → UInt8} (h : Trail d p up rest) (hi : 2 ≤ i)
      (hl : ((d.table up.clusterNumber).table i).Live) (hs : ShownAt d up.clusterNumber name i) :
      Trail d (((d.table up.clusterNumber).table i).key :: p)
        ⟨name, ((d.table up.clusterNumber).table i).cluster, up.clusterNumber⟩ (up :: rest)

namespace Trail
variable {d d' : Disk} {p : List Key} {cur : DirectoryState} {stack : List DirectoryState}

/-- The path of the trail leads to the current directory. -/
theorem dirAt (h : d.WellFormed) (ht : Trail d p cur stack) :
    d.dirAt p = some cur.clusterNumber := by
  induction ht with
  | root hr => exact Graph.dirAt_nil _
  | enter _ hi hl hs ih =>
    refine Graph.dirAt_cons_eq_some.mpr ⟨_, _, ih, ?_, Disk.folderOf_eq_some.mpr ⟨hs.folder, rfl⟩⟩
    exact (h.directory _ ⟨_, ih⟩).lookup hi hl

theorem rootShown (ht : Trail d p cur stack) : ShownAt d rootClusterNumber rootName 0 := by
  induction ht with
  | root h => exact h
  | enter _ _ _ _ ih => exact ih

theorem up (ht : Trail d p cur stack) :
    stack = [] ∨ ∃ p' up rest, stack = up :: rest ∧ Trail d p' up rest := by
  cases ht with
  | root => exact Or.inl rfl
  | enter ht => exact Or.inr ⟨_, _, _, rfl, ht⟩

/-- A trail reads the tables of the directories above the current one. -/
theorem congr (h : d.WellFormed) (ht : Trail d p cur stack)
    (hroot : ShownAt d' rootClusterNumber rootName 0)
    (htable : ∀ q c, d.dirAt q = some c → q.length < p.length → d'.table c = d.table c) :
    Trail d' p cur stack := by
  induction ht with
  | root => exact .root hroot
  | @enter p up rest i name ht hi hl hs ih =>
    have hup := htable p up.clusterNumber (ht.dirAt h) (Nat.lt_succ_self _)
    have ht' := ih fun q c hq hlt => htable q c hq (Nat.lt_succ_of_lt hlt)
    rw [← hup] at hl ⊢
    exact .enter ht' hi hl (hs.congr hup)

/-- Where the trail ends, READ_DIR shows the current directory. -/
theorem shown (h : d.WellFormed) (ht : Trail d p cur stack) :
    ∃ i, ShownAt d cur.parentClusterNumber cur.name i ∧
      ((d.table cur.parentClusterNumber).table i).cluster = cur.clusterNumber := by
  cases ht with
  | root hr => exact ⟨0, hr, (h.directory _ (Disk.reachable_root _)).selfCluster⟩
  | enter ht hi hl hs => exact ⟨_, hs, rfl⟩

theorem reachable (h : d.WellFormed) (ht : Trail d p cur stack) :
    d.Reachable cur.clusterNumber := ⟨p, ht.dirAt h⟩

end Trail

/-- On a trail the two names of the current directory agree. -/
theorem Trail.matches {m : Machine} {s : ShellState} {p : List Key} (h : m.disk.WellFormed)
    (ht : Trail m.disk p s.currentDirectory s.directoryStack) : Matches m s := by
  obtain ⟨i, hs, hc⟩ := ht.shown h
  intro buf
  have hr := readDirectory_shown hs buf
  unfold currentRequest
  rw [hr, ← hc]
  exact ⟨rfl, fun j hj => readClusters_lt _ _ _ hj⟩

/-! ## Steps -/

structure System where
  machine : Machine
  shell : ShellState

/-- The commands that change the current directory or the directories in it. -/
inductive Command
  | cd (garbage : Memory) (w : Word)
  | mkdir (null : Memory) (w : Word)

def step (sys : System) : Command → Except Fault System
  | .cd garbage w => .ok { sys with shell := cd sys.machine garbage sys.shell w }
  | .mkdir null w => (mkdir sys.machine null sys.shell w).map fun x => { sys with machine := x.2 }

/-- The slot of the current directory that `cd` with a name enters, if it enters
one. -/
def Enters (sys : System) (w : Word) (i : Fin 64) : Prop :=
  w.chars ≠ dotDot ∧
    cdSlot (sys.machine.disk.cluster sys.shell.currentDirectory.clusterNumber) w = some i

/-- A `cd` enters a directory only while the stack has room. -/
def WithinDepth (sys : System) : Command → Prop
  | .cd _ w => ∀ i, Enters sys w i → sys.shell.directoryStack.length < stackSize
  | .mkdir _ _ => True

/-- A `cd` enters a slot only if it is the one READ_DIR shows under the name. -/
def Unambiguous (sys : System) : Command → Prop
  | .cd _ w => ∀ i, Enters sys w i →
      ShownAt sys.machine.disk sys.shell.currentDirectory.clusterNumber w.name i
  | .mkdir _ _ => True

/-- The invariant: a well-formed state, and a trail to the current directory. -/
structure OnTrail (sys : System) : Prop where
  wellFormed : sys.machine.WellFormed
  trail : ∃ p, Trail sys.machine.disk p sys.shell.currentDirectory sys.shell.directoryStack

section Cd
variable {m : Machine} {s : ShellState} {p : List Key} {w : Word}

theorem strcmp_congr : ∀ {cs : List UInt8} {s1 s1' : Memory},
    (∀ i, i ≤ cs.length → s1 i = s1' i) → strcmp s1 cs = strcmp s1' cs
  | [], _, _, h => by simp only [strcmp, h 0 (Nat.le_refl _)]
  | c :: cs, s1, s1', h => by
    have ih : strcmp (s1.from 1) cs = strcmp (s1'.from 1) cs := strcmp_congr fun i hi =>
      h (1 + i) (by rw [List.length_cons]; omega)
    simp only [strcmp, h 0 (Nat.zero_le _), ih]

/-- `cd` looks at the bytes of one table. -/
theorem cdSlot_congr {buf buf' : Memory} (h : ∀ i, i < clusterSize → buf i = buf' i) :
    cdSlot buf w = cdSlot buf' w := by
  have ht : FAT32DirectoryTable.ofBytes buf = FAT32DirectoryTable.ofBytes buf' :=
    FAT32DirectoryTable.ofBytes_congr h
  have hs : ∀ i : Fin 64, strcmp (buf.from (32 * i)) w.chars =
      strcmp (buf'.from (32 * i)) w.chars := fun i => strcmp_congr fun j hj => by
    have := w.short
    exact h _ (by simp only [clusterSize_eq]; omega)
  simp only [cdSlot, named, ht, hs]

theorem cdSlot_some {buf : Memory} {i : Fin 64} (h : cdSlot buf w = some i) :
    2 ≤ i ∧ ((FAT32DirectoryTable.ofBytes buf).table i).Live ∧
      ((FAT32DirectoryTable.ofBytes buf).table i).IsFolder ∧
      strcmp (buf.from (32 * i)) w.chars = true := by
  have h1 := List.find?_some h
  have h2 := mem_dataSlots.mp (List.mem_of_find?_eq_some h)
  simp only [named, Bool.and_eq_true, decide_eq_true_eq] at h1
  exact ⟨h2, h1.2.1, h1.1, h1.2.2⟩

theorem currentTable_eq (h : Matches m s) (garbage : Memory) :
    cdSlot (currentTable m garbage s) w =
        cdSlot (m.disk.cluster s.currentDirectory.clusterNumber) w ∧
      FAT32DirectoryTable.ofBytes (currentTable m garbage s) =
        m.disk.table s.currentDirectory.clusterNumber :=
  have hb : ∀ i, i < clusterSize → currentTable m garbage s i =
      m.disk.cluster s.currentDirectory.clusterNumber i := (h garbage).2
  ⟨cdSlot_congr hb, FAT32DirectoryTable.ofBytes_congr hb⟩

/-- Where the two names of the current directory agree, `cd` enters the slot of
the current directory's own table. -/
theorem cdName_some (h : Matches m s) (garbage : Memory) {i : Fin 64}
    (hc : cdSlot (m.disk.cluster s.currentDirectory.clusterNumber) w = some i)
    (hd : s.directoryStack.length < stackSize) :
    cdName m garbage s w =
      ⟨⟨w.name, ((m.disk.table s.currentDirectory.clusterNumber).table i).cluster,
          s.currentDirectory.clusterNumber⟩,
        s.currentDirectory :: s.directoryStack⟩ := by
  obtain ⟨hs, ht⟩ := currentTable_eq (w := w) h garbage
  have hroom : ¬ stackSize ≤ s.directoryStack.length := not_le.mpr hd
  simp only [cdName, hs, hc, ht, pushDirectory, if_neg hroom]

theorem cdName_none (h : Matches m s) (garbage : Memory)
    (hc : cdSlot (m.disk.cluster s.currentDirectory.clusterNumber) w = none) :
    cdName m garbage s w = s := by
  simp only [cdName, (currentTable_eq h garbage).1, hc]

end Cd

section Steps
variable {sys : System}

/-- `cd ..` goes one step back on the trail. -/
theorem OnTrail.cdUp (h : OnTrail sys) : OnTrail { sys with shell := cdUp sys.shell } := by
  obtain ⟨hw, p, ht⟩ := h
  refine ⟨hw, ?_⟩
  rcases ht.up with hnil | ⟨p', up, rest, hcons, ht'⟩
  · simp only [Shell.cdUp, if_pos hnil]
    exact ⟨p, ht⟩
  · have hne : sys.shell.directoryStack ≠ [] := by rw [hcons]; exact List.cons_ne_nil _ _
    unfold Shell.cdUp
    rw [if_neg hne, popDirectory, hcons]
    exact ⟨p', ht'⟩

/-- `cd` with a name goes one step on, or stays. -/
theorem OnTrail.cdName (h : OnTrail sys) (garbage : Memory) (w : Word) (hw : w.chars ≠ dotDot)
    (hd : ∀ i, Enters sys w i → sys.shell.directoryStack.length < stackSize)
    (hu : ∀ i, Enters sys w i →
      ShownAt sys.machine.disk sys.shell.currentDirectory.clusterNumber w.name i) :
    OnTrail { sys with shell := cdName sys.machine garbage sys.shell w } := by
  obtain ⟨hwf, p, ht⟩ := h
  refine ⟨hwf, ?_⟩
  have hm := ht.matches hwf.image
  cases hc : cdSlot (sys.machine.disk.cluster sys.shell.currentDirectory.clusterNumber) w with
  | none =>
    rw [cdName_none hm garbage hc]
    exact ⟨p, ht⟩
  | some i =>
    obtain ⟨hi, hl, _, _⟩ := cdSlot_some hc
    rw [cdName_some hm garbage hc (hd i ⟨hw, hc⟩)]
    exact ⟨_, .enter ht hi hl (hu i ⟨hw, hc⟩)⟩

/-- A trail is still there after a write in the directory it leads to. -/
theorem Trail.stored {m : Machine} {r : FAT32DriverRequest} {i : Fin 64} {p : List Key}
    {cur : DirectoryState} {stack : List DirectoryState} (h : m.WellFormed)
    (ht : Trail m.disk p cur stack) (hr : r.parentClusterNumber = cur.clusterNumber)
    (hs : r.bufferSize.toNat ≤ 255 * clusterSize) (hst : Storable m r i) :
    Trail (stored m r i).disk p cur stack := by
  have hp : m.disk.dirAt p = some r.parentClusterNumber := hr ▸ ht.dirAt h.image
  have hi := (vacantSlot_eq_some.mp hst.vacant).1
  refine ht.congr h.image (ht.rootShown.zero ?_) fun q c hq hlt => ?_
  · exact stored_own h hs hst.space hp hi (Disk.reachable_root _)
  · refine stored_table_other h hs hst.space hp ⟨q, hq⟩ ?_
    -- a shorter path leads elsewhere
    intro he
    subst he
    rw [h.image.onePath q p _ hq hp] at hlt
    exact absurd hlt (lt_irrefl _)

/-- `mkdir` returns and leaves the trail in place. -/
theorem OnTrail.mkdir (h : OnTrail sys) (null : Memory) (w : Word) :
    ∃ code m, mkdir sys.machine null sys.shell w = .ok (code, m) ∧
      OnTrail { sys with machine := m } := by
  obtain ⟨hw, p, ht⟩ := h
  have hc := ht.reachable hw.image
  have hs : (request null w.name sys.shell.currentDirectory.clusterNumber 0).bufferSize.toNat ≤
      255 * clusterSize := Nat.zero_le _
  rcases write_cases hw hc hs with ⟨_, he⟩ | ⟨_, _, he⟩ | ⟨i, hst, he⟩
  · exact ⟨1, _, he, hw, p, ht⟩
  · exact ⟨-1, _, he, hw, p, ht⟩
  · exact ⟨0, _, he, hst.wellFormed hw hc hs, p, ht.stored hw rfl hs hst⟩

/-- A command under both conditions returns, on the trail. -/
theorem step_onTrail (sys : System) (cmd : Command) (h : OnTrail sys)
    (hok : WithinDepth sys cmd ∧ Unambiguous sys cmd) :
    ∃ sys', step sys cmd = .ok sys' ∧ OnTrail sys' := by
  cases cmd with
  | cd garbage w =>
    refine ⟨_, rfl, ?_⟩
    by_cases hw : w.chars = dotDot
    · unfold cd
      rw [if_pos hw]
      exact h.cdUp
    · unfold cd
      rw [if_neg hw]
      exact h.cdName garbage w hw hok.1 hok.2
  | mkdir null w =>
    obtain ⟨code, m, hmk, ht⟩ := h.mkdir null w
    exact ⟨_, by simp only [step, hmk, Except.map], ht⟩

end Steps

/-! ## Runs of commands -/

/-- In every such run the shell stays on its trail. -/
theorem run_onTrail (m : Machine) (cmds : List Command) (h : m.WellFormed)
    (hname : ((m.disk.table rootClusterNumber).table 0).name = rootName)
    (hsize : ((m.disk.table rootClusterNumber).table 0).filesize.toNat ≤ clusterSize)
    (hdepth : Meets step WithinDepth ⟨m, initialShell⟩ cmds)
    (hok : Meets step Unambiguous ⟨m, initialShell⟩ cmds) :
    Always step OnTrail ⟨m, initialShell⟩ cmds := by
  have hdir := h.image.directory _ (Disk.reachable_root m.disk)
  have hroot : ShownAt m.disk rootClusterNumber rootName 0 :=
    ⟨hname, fun j hj => absurd hj (Fin.not_lt_zero j), hdir.selfFolder, hsize⟩
  exact always_of_meets step_onTrail ⟨h, [], .root hroot⟩ (hdepth.and hok)

/-- **The shell sees the directory it modifies.** From the initial state, on an
image whose root carries the shell's name, in every run of `cd` and `mkdir` in
which each `cd` enters the slot READ_DIR shows under its name, READ_DIR for the
current directory returns 0 and the table at its cluster in every state. -/
theorem run_matches (m : Machine) (cmds : List Command) (h : m.WellFormed)
    (hname : ((m.disk.table rootClusterNumber).table 0).name = rootName)
    (hsize : ((m.disk.table rootClusterNumber).table 0).filesize.toNat ≤ clusterSize)
    (hdepth : Meets step WithinDepth ⟨m, initialShell⟩ cmds)
    (hok : Meets step Unambiguous ⟨m, initialShell⟩ cmds) :
    Always step (fun sys => Matches sys.machine sys.shell) ⟨m, initialShell⟩ cmds :=
  (run_onTrail m cmds h hname hsize hdepth hok).mono fun _ ⟨hw, _, ht⟩ => ht.matches hw.image

/-! ## A directory under the name of the one it is in -/

/-- Entering a directory under the current directory's own name makes READ_DIR
show the directory left. -/
theorem cd_own_name {m : Machine} {s : ShellState} {p : List Key} {w : Word} {i : Fin 64}
    (h : m.WellFormed) (ht : Trail m.disk p s.currentDirectory s.directoryStack)
    (hc : cdSlot (m.disk.cluster s.currentDirectory.clusterNumber) w = some i)
    (hown : ((m.disk.table s.currentDirectory.clusterNumber).table 0).name = w.name)
    (hd : s.directoryStack.length < stackSize) (garbage : Memory) :
    ¬ Matches m (cdName m garbage s w) := by
  intro hm
  have hp := ht.dirAt h.image
  have hdir := h.image.directory _ ⟨p, hp⟩
  obtain ⟨hi, hl, hf, _⟩ := cdSlot_some hc
  rw [cdName_some (ht.matches h.image) garbage hc hd] at hm
  -- the directory entered is another one
  have hlive : m.disk.LiveAt s.currentDirectory.clusterNumber i := ⟨⟨p, hp⟩, hi, hl⟩
  have hne := h.image.child_ne hlive hf
  by_cases hsize : ((m.disk.table s.currentDirectory.clusterNumber).table 0).filesize.toNat ≤
      clusterSize
  · -- slot 0 is shown, and its cluster holds another table
    have hs : ShownAt m.disk s.currentDirectory.clusterNumber w.name 0 :=
      ⟨hown, fun j hj => absurd hj (Fin.not_lt_zero j), hdir.selfFolder, hsize⟩
    have hbytes := (hm (fun _ => 0)).2
    unfold currentRequest at hbytes
    rw [readDirectory_shown hs, hdir.selfCluster] at hbytes
    have htable : m.disk.table s.currentDirectory.clusterNumber =
        m.disk.table ((m.disk.table s.currentDirectory.clusterNumber).table i).cluster :=
      FAT32DirectoryTable.ofBytes_congr fun j hj =>
        (readClusters_lt _ _ _ hj).symm.trans (hbytes j hj)
    have hself := (h.image.directory _ (hlive.reachable hdir hf)).selfCluster
    rw [← htable, hdir.selfCluster] at hself
    exact hne hself.symm
  · have hcode := (hm (fun _ => 0)).1
    unfold currentRequest at hcode
    rw [readDirectory_large hown (fun j hj => absurd hj (Fin.not_lt_zero j)) hdir.selfFolder
      (not_le.mp hsize)] at hcode
    exact absurd hcode (show (-1 : Int8) ≠ 0 by decide)

def rootWord : Word where
  chars := ['r', 'o', 'o', 't'].map fun c => UInt8.ofNat c.toNat
  nonempty := by decide
  short := by decide
  nonzero := by simp

/-- The string at a slot of a table is the one at its entry. -/
theorem strcmp_slot {buf : Memory} {i : Fin 64} {cs : List UInt8} (h : cs.length ≤ 8) :
    strcmp (buf.from (32 * i)) cs =
      strcmp ((FAT32DirectoryTable.ofBytes buf).table i).bytes cs := by
  refine strcmp_congr fun j hj => ?_
  exact (FAT32DirectoryEntry.bytes_ofBytes (buf.from (32 * i)) (by omega)).symm

/-- A folder just made is one `cd` can enter. -/
theorem cdSlot_stored {m : Machine} {r : FAT32DriverRequest} {w : Word} {i : Fin 64}
    {p : List Key} (h : m.WellFormed) (hp : m.disk.dirAt p = some r.parentClusterNumber)
    (h0 : r.bufferSize = 0) (hst : Storable m r i)
    (hw : strcmp (addedEntry m r).bytes w.chars = true) :
    ∃ j, cdSlot ((stored m r i).disk.cluster r.parentClusterNumber) w = some j := by
  have hs : r.bufferSize.toNat ≤ 255 * clusterSize := folder_size h0
  have htable := stored_table (i := i) h hs hst.space hp
  have hi := (vacantSlot_eq_some.mp hst.vacant).1
  cases hc : cdSlot ((stored m r i).disk.cluster r.parentClusterNumber) w with
  | some j => exact ⟨j, rfl⟩
  | none =>
    have hnot := List.find?_eq_none.mp hc i (mem_dataSlots.mpr hi)
    have hslot : (FAT32DirectoryTable.ofBytes
        ((stored m r i).disk.cluster r.parentClusterNumber)).table i = addedEntry m r := by
      show ((stored m r i).disk.table r.parentClusterNumber).table i = addedEntry m r
      rw [htable, FAT32DirectoryTable.set_same]
    have hlive : (addedEntry m r).Live := newEntry_live
    have hfolder : (addedEntry m r).IsFolder := addedEntry_folder.mpr h0
    unfold named at hnot
    rw [strcmp_slot w.short, hslot] at hnot
    simp [hlive, hfolder, hw] at hnot

/-- Making a directory and entering it. -/
theorem mkdir_cd_run {m : Machine} {s : ShellState} {p : List Key} {w : Word} {i : Fin 64}
    (h : m.WellFormed) (ht : Trail m.disk p s.currentDirectory s.directoryStack)
    (null garbage : Memory)
    (hst : Storable m (request null w.name s.currentDirectory.clusterNumber 0) i)
    (hw : strcmp (addedEntry m (request null w.name s.currentDirectory.clusterNumber 0)).bytes
      w.chars = true) (hdot : w.chars ≠ dotDot) :
    ∃ m' j, m'.WellFormed ∧ Trail m'.disk p s.currentDirectory s.directoryStack ∧
      ((m'.disk.table s.currentDirectory.clusterNumber).table 0) =
        (m.disk.table s.currentDirectory.clusterNumber).table 0 ∧
      cdSlot (m'.disk.cluster s.currentDirectory.clusterNumber) w = some j ∧
      run step ⟨m, s⟩ [.mkdir null w, .cd garbage w] = .ok ⟨m', cdName m' garbage s w⟩ := by
  have hp := ht.dirAt h.image
  have hs : (request null w.name s.currentDirectory.clusterNumber 0).bufferSize.toNat ≤
      255 * clusterSize := Nat.zero_le _
  have hmk : mkdir m null s w = .ok (0, stored m _ i) :=
    write_stores (parent_marked h ⟨p, hp⟩) hst.free hst.vacant (required_pos hs) hst.space
  obtain ⟨j, hj⟩ := cdSlot_stored h hp rfl hst hw
  have hslot := stored_own h hs hst.space hp (vacantSlot_eq_some.mp hst.vacant).1 ⟨p, hp⟩
  refine ⟨stored m _ i, j, hst.wellFormed h ⟨p, hp⟩ hs, ht.stored h rfl hs hst, hslot, hj, ?_⟩
  simp only [run, step, hmk, Except.map, cd, if_neg hdot]

/-- Under the current directory's own name, the two names of the new current
directory fall apart. -/
theorem mkdir_cd_own_name {m : Machine} {s : ShellState} {p : List Key} {w : Word} {i : Fin 64}
    (h : m.WellFormed) (ht : Trail m.disk p s.currentDirectory s.directoryStack)
    (hown : ((m.disk.table s.currentDirectory.clusterNumber).table 0).name = w.name)
    (hd : s.directoryStack.length < stackSize) (null garbage : Memory)
    (hst : Storable m (request null w.name s.currentDirectory.clusterNumber 0) i)
    (hw : strcmp (addedEntry m (request null w.name s.currentDirectory.clusterNumber 0)).bytes
      w.chars = true) (hdot : w.chars ≠ dotDot) :
    ¬ Always step (fun sys => Matches sys.machine sys.shell) ⟨m, s⟩
      [.mkdir null w, .cd garbage w] := by
  obtain ⟨m', j, h', ht', hslot, hj, hrun⟩ := mkdir_cd_run h ht null garbage hst hw hdot
  intro hall
  obtain ⟨sys', hrun', hm⟩ := hall.run
  cases hrun.symm.trans hrun'
  exact cd_own_name h' ht' hj (hslot ▸ hown) hd garbage hm

theorem withinDepth_mkdir_cd {m : Machine} {s : ShellState} {w w' : Word} (null garbage : Memory)
    (hd : s.directoryStack.length < stackSize) :
    Meets step WithinDepth ⟨m, s⟩ [.mkdir null w, .cd garbage w'] := by
  refine ⟨trivial, fun sys hsys => ⟨fun _ _ => ?_, fun _ _ => trivial⟩⟩
  -- `mkdir` leaves the stack alone
  cases hm : mkdir m null s w with
  | error f => simp [step, hm, Except.map] at hsys
  | ok x =>
    simp only [step, hm, Except.map, Except.ok.injEq] at hsys
    rw [← hsys]
    exact hd

theorem Word.name_ne_zero (w : Word) : w.name ≠ fun _ => 0 := by
  intro h
  obtain ⟨c, cs, hc⟩ := List.exists_cons_of_ne_nil w.nonempty
  have h0 : w.name 0 = 0 := congrFun h 0
  simp only [Word.name, hc, Fin.val_zero, List.getD_cons_zero] at h0
  exact w.nonzero c (by rw [hc]; exact List.mem_cons_self) h0

/-- In the root of an empty file system, `cd` enters a directory just made there
under a name of its own as READ_DIR shows it. -/
theorem rooted_mkdir_unambiguous {name : Fin 8 → UInt8} {s : ShellState} {sys : System} {w : Word}
    (null garbage : Memory) (hs : s.currentDirectory.clusterNumber = rootClusterNumber)
    (hw : w.name ≠ name) (hstep : step ⟨rootedMachine name, s⟩ (.mkdir null w) = .ok sys) :
    Unambiguous sys (.cd garbage w) := by
  obtain ⟨r, hr⟩ : ∃ r, r = request null w.name s.currentDirectory.clusterNumber 0 := ⟨_, rfl⟩
  have hp : r.parentClusterNumber = rootClusterNumber := by rw [hr]; exact hs
  have h0 : r.bufferSize = 0 := by rw [hr]; rfl
  have hn : r.name = w.name := by rw [hr]; rfl
  have hk : r.key ≠ 0 := fun hk => w.name_ne_zero (hn ▸ congrArg Key.name hk)
  obtain ⟨hmk, hslot⟩ := @rooted_mkdir name r hp h0 hk
  have hmk' : mkdir (rootedMachine name) null s w = .ok (0, stored (rootedMachine name) r 2) := by
    unfold mkdir
    rw [← hr]
    exact hmk
  simp only [step, hmk', Except.map, Except.ok.injEq] at hstep
  subst hstep
  rintro i ⟨_, hc⟩
  simp only [hs] at hc ⊢
  obtain ⟨hi, hl, _, _⟩ := cdSlot_some hc
  -- the only live slot is the new one
  have hi2 : i = 2 := by
    by_contra hne
    have hl : (((stored (rootedMachine name) r 2).disk.table rootClusterNumber).table i).Live := hl
    rw [hslot i, if_neg hne, initDirectoryTable_slot name (ne_zero_of_slot hi)] at hl
    exact not_live_zero hl
  subst hi2
  refine ⟨?_, fun j hj => ?_, ?_, ?_⟩
  · rw [hslot, if_pos rfl]
    exact hn
  · have hj2 : j ≠ 2 := ne_of_lt hj
    rw [hslot, if_neg hj2]
    rcases slot_lt_two (not_le.mpr hj) with rfl | rfl
    · exact hw.symm
    · exact w.name_ne_zero.symm
  · rw [hslot, if_pos rfl]
    exact addedEntry_folder.mpr h0
  · rw [hslot, if_pos rfl, addedEntry_filesize, h0]
    exact Nat.zero_le _

def aWord : Word where
  chars := [UInt8.ofNat 'a'.toNat]
  nonempty := by decide
  short := by decide
  nonzero := by simp

theorem run_matches_rooted :
    Always step (fun sys => Matches sys.machine sys.shell)
      ⟨rootedMachine rootName, initialShell⟩
      [.mkdir (fun _ => 0) aWord, .cd (fun _ => 1) aWord] := by
  obtain ⟨hown, hsize⟩ := rooted_own rootName
  refine run_matches _ _ (rootedMachine_wellFormed rootName) hown hsize
    (withinDepth_mkdir_cd _ _ (by decide)) ⟨trivial, fun sys hsys => ⟨?_, fun _ _ => trivial⟩⟩
  exact rooted_mkdir_unambiguous (s := initialShell) _ _ rfl (by decide) hsys

/-- The shell's root on the empty file system. -/
theorem rooted_trail : Trail (rootedMachine rootName).disk [] initialShell.currentDirectory
    initialShell.directoryStack := by
  obtain ⟨hown, hsize⟩ := rooted_own rootName
  have hdir := (rootedMachine_wellFormed rootName).image.directory _ (Disk.reachable_root _)
  exact .root ⟨hown, fun j hj => absurd hj (Fin.not_lt_zero j), hdir.selfFolder, hsize⟩

theorem mkdir_cd_root :
    (rootedMachine rootName).WellFormed ∧
    (((rootedMachine rootName).disk.table rootClusterNumber).table 0).name = rootName ∧
    Meets step WithinDepth ⟨rootedMachine rootName, initialShell⟩
      [.mkdir (fun _ => 0) rootWord, .cd (fun _ => 0) rootWord] ∧
    ¬ Always step (fun sys => Matches sys.machine sys.shell)
      ⟨rootedMachine rootName, initialShell⟩
      [.mkdir (fun _ => 0) rootWord, .cd (fun _ => 0) rootWord] := by
  have h := rootedMachine_wellFormed rootName
  obtain ⟨hown, _⟩ := rooted_own rootName
  have hst : Storable (rootedMachine rootName)
      (request (fun _ => 0) rootWord.name rootClusterNumber 0) 2 :=
    rooted_storable rfl (by decide)
  have hname : rootName = rootWord.name := by decide
  exact ⟨h, hown, withinDepth_mkdir_cd _ _ (by decide), mkdir_cd_own_name (s := initialShell) h
    rooted_trail (hown.trans hname) (by decide) _ _ hst (by decide) (by decide)⟩

end KajijOSta.Shell
