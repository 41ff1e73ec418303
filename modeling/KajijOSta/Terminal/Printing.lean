import KajijOSta.Fat32.Outcome
import KajijOSta.Fat32.Walks
import KajijOSta.Shell.Move
import KajijOSta.Terminal.FileRequests

/-! # What `cat` prints

`write` copies whole clusters out of the buffer of a request, and `read` copies them
back: what lies behind the last byte of a file is what the program that wrote it had
there. `cat` prints up to the first zero. `cat_prints_iff` says for which files that is
the file. -/
namespace KajijOSta.Terminal
open KajijOSta.Fat32 KajijOSta.Shell

/-! ## The loop -/

/-- What `cat` does for a byte of a file. -/
def printed (c : UInt8) : Action := if c = 0x0A then newline else letter c 0xF

/-- The loop prints the bytes up to a zero. -/
theorem catLoop_prints (buf : Memory) : ∀ {l : List UInt8} {n i : Nat}, 0 ∉ l →
    (∀ (j : Nat) (hj : j < l.length), buf (i + j) = l[j]) → buf (i + l.length) = 0 →
    l.length < n → catLoop buf i n = (l.map printed, true)
  | [], 0, _, _, _, _, hn => absurd hn (Nat.not_lt_zero 0)
  | [], n + 1, i, _, _, hzero, _ => by
    have hi : buf i = 0 := hzero
    unfold catLoop
    rw [if_pos hi]
    rfl
  | c :: l, 0, _, _, _, _, hn => absurd hn (Nat.not_lt_zero _)
  | c :: l, n + 1, i, h0, hbytes, hzero, hn => by
    obtain ⟨hc, hl⟩ := List.ne_and_not_mem_of_not_mem_cons h0
    have hi : buf i = c := hbytes 0 (Nat.succ_pos _)
    have hrest : catLoop buf (i + 1) n = (l.map printed, true) := by
      refine catLoop_prints buf hl (fun j hj => ?_) ?_ (Nat.lt_of_succ_lt_succ hn)
      · rw [Nat.add_right_comm]
        exact hbytes (j + 1) (Nat.succ_lt_succ hj)
      · rw [Nat.add_right_comm]
        exact hzero
    unfold catLoop
    rw [hi, if_neg hc.symm, hrest]
    rfl

/-- The loop stops at a zero within its bound. -/
theorem catLoop_stops (buf : Memory) : ∀ {n i : Nat} {l : List Action},
    catLoop buf i n = (l, true) → l.length < n ∧ buf (i + l.length) = 0
  | 0, i, l, h => by
    unfold catLoop at h
    cases h
  | n + 1, i, l, h => by
    unfold catLoop at h
    split at h
    · rename_i hzero
      cases h
      exact ⟨Nat.succ_pos n, hzero⟩
    · cases hrest : catLoop buf (i + 1) n with
      | mk rest stops =>
        rw [hrest] at h
        cases h
        obtain ⟨hlt, hzero⟩ := catLoop_stops buf hrest
        rw [Nat.add_right_comm] at hzero
        exact ⟨Nat.succ_lt_succ hlt, hzero⟩

theorem after_nil (x : Effect) : x.after [] = x := rfl

/-- `cat` behind a READ that has found the file. -/
theorem cat_reads {env : Environment} {a : Argument} {s : System} {reply : Reply}
    (hserve : Fat32.serve s.machine (.read (fileRequest s env.clusterBuffer a)) =
      .ok (reply, s.machine)) (hnull : a.null = false) (hcode : reply.code = 0) :
    cat env a s = (if overruns s.machine (fileRequest s env.clusterBuffer a) then
        ⟨[], .error .leavesBuffer⟩
      else if (catLoop reply.buf 0 clusterSize).2 then
        emit ((catLoop reply.buf 0 clusterSize).1 ++ [newline]) s
      else ⟨(catLoop reply.buf 0 clusterSize).1, .error .leavesBuffer⟩ : Effect).after
        [.call (.read (fileRequest s env.clusterBuffer a))] := by
  unfold cat readFile
  rw [driverCall_ok hserve, deref_nil hnull, after_nil]
  beta_reduce
  rw [if_pos hcode]
  generalize catLoop reply.buf 0 clusterSize = loop
  obtain ⟨steps, stops⟩ := loop
  cases stops with
  | true => rfl
  | false => rfl

/-! ## The property -/

/-- `cat` prints the bytes of a file and a newline, from within its buffer. -/
def PrintsFile (env : Environment) (a : Argument) (s : System) (e : FAT32DirectoryEntry) : Prop :=
  cat env a s = ⟨.call (.read (fileRequest s env.clusterBuffer a)) ::
    ((s.machine.disk.content e).map printed ++ [newline]), .ok s⟩

/-- A file ends before its first cluster does, and a zero follows it there. -/
structure ZeroBehind (d : Disk) (e : FAT32DirectoryEntry) : Prop where
  short : e.filesize.toNat < clusterSize
  zero : d.byteAlong (d.clustersOf e) e.filesize.toNat = 0

/-! ## A file of the root -/

section File
variable {env : Environment} {a : Argument} {s : System} {i : Fin 64} (h : s.machine.WellFormed)
  (hcwd : s.shell.currentDirectory = initialShell.currentDirectory)
  (hf : NamedFile s.machine rootClusterNumber i)
  (hext : ((s.machine.disk.table rootClusterNumber).table i).ext = fun _ => 0)
  (hname : a.name = ((s.machine.disk.table rootClusterNumber).table i).name)

include h hcwd hf hext hname in
/-- READ copies the clusters of the file, from any buffer. -/
theorem read_whole (buf : Memory) : ∃ buf', Fat32.read s.machine (fileRequest s buf a) =
      .ok (0, buf') ∧
    ∀ j, buf' j = if j < clusterSize *
        clusterCount ((s.machine.disk.table rootClusterNumber).table i).filesize then
      s.machine.disk.byteAlong
        (s.machine.disk.clustersOf ((s.machine.disk.table rootClusterNumber).table i)) j
      else buf j := by
  have hp : (fileRequest s buf a).parentClusterNumber = rootClusterNumber := by
    show s.shell.currentDirectory.parentClusterNumber = _
    rw [hcwd]
    rfl
  have hk : (fileRequest s buf a).key =
      ((s.machine.disk.table rootClusterNumber).table i).key := by
    show Key.mk a.name (fun _ => 0) = Key.mk _ _
    rw [hname, hext]
  rcases read_file_cases h hf hp hk with ⟨hsmall, _⟩ | ⟨_, hread⟩
  · -- 512 clusters are more than a `uint8_t` counts
    have hsize : (fileRequest s buf a).bufferSize.toNat / clusterSize = 512 :=
      (by decide : (0x100000 : UInt32).toNat / clusterSize = 512)
    omega
  · exact hread

include h hcwd hf hext hname in
/-- READ stays within the buffer of `cat` for a file of one cluster. -/
theorem overruns_iff (buf : Memory) : overruns s.machine (fileRequest s buf a) = false ↔
    clusterCount ((s.machine.disk.table rootClusterNumber).table i).filesize ≤ 1 := by
  obtain ⟨buf0, hread0, hbuf0⟩ := read_whole h hcwd hf hext hname fun _ => 0
  obtain ⟨buf1, hread1, hbuf1⟩ := read_whole h hcwd hf hext hname fun _ => 1
  have hover : overruns s.machine (fileRequest s buf a) =
      (buf0 clusterSize == buf1 clusterSize) := by
    unfold overruns
    have h0 : Fat32.read s.machine { fileRequest s buf a with buf := fun _ => 0 } = .ok (0, buf0) :=
      hread0
    have h1 : Fat32.read s.machine { fileRequest s buf a with buf := fun _ => 1 } = .ok (0, buf1) :=
      hread1
    rw [h0, h1]
  rw [hover, hbuf0, hbuf1]
  by_cases hlt : clusterSize < clusterSize *
      clusterCount ((s.machine.disk.table rootClusterNumber).table i).filesize
  · rw [if_pos hlt, if_pos hlt, beq_self_eq_true]
    refine ⟨nofun, fun hle => ?_⟩
    rw [clusterSize_eq] at hlt
    omega
  · rw [if_neg hlt, if_neg hlt]
    refine ⟨fun _ => ?_, fun _ => rfl⟩
    rw [clusterSize_eq] at hlt
    omega

variable (hnull : a.null = false)

include h hcwd hf hext hname hnull in
/-- What `cat` does, from the bytes of the clusters of the file. -/
theorem cat_file : ∃ buf : Memory,
    (∀ j, j < clusterSize *
        clusterCount ((s.machine.disk.table rootClusterNumber).table i).filesize →
      buf j = s.machine.disk.byteAlong
        (s.machine.disk.clustersOf ((s.machine.disk.table rootClusterNumber).table i)) j) ∧
    cat env a s = (if clusterCount ((s.machine.disk.table rootClusterNumber).table i).filesize ≤ 1
      then
        if (catLoop buf 0 clusterSize).2 then
          emit ((catLoop buf 0 clusterSize).1 ++ [newline]) s
        else ⟨(catLoop buf 0 clusterSize).1, .error .leavesBuffer⟩
      else ⟨[], .error .leavesBuffer⟩ : Effect).after
        [.call (.read (fileRequest s env.clusterBuffer a))] := by
  obtain ⟨buf, hread, hbuf⟩ := read_whole h hcwd hf hext hname env.clusterBuffer
  refine ⟨buf, fun j hj => by rw [hbuf, if_pos hj], ?_⟩
  have hserve : Fat32.serve s.machine (.read (fileRequest s env.clusterBuffer a)) =
      .ok (⟨0, buf⟩, s.machine) := by
    show (Fat32.read s.machine _).map _ = _
    rw [hread]
    rfl
  have hover := overruns_iff h hcwd hf hext hname env.clusterBuffer
  rw [cat_reads hserve hnull rfl]
  by_cases hcount : clusterCount ((s.machine.disk.table rootClusterNumber).table i).filesize ≤ 1
  · rw [if_pos hcount, hover.mpr hcount, if_neg Bool.false_ne_true]
  · have htrue : overruns s.machine (fileRequest s env.clusterBuffer a) = true :=
      Bool.eq_true_of_not_eq_false fun hfalse => hcount (hover.mp hfalse)
    rw [if_neg hcount, htrue, if_pos (rfl : true = true)]

variable (hbytes : 0 ∉ s.machine.disk.content
  ((s.machine.disk.table rootClusterNumber).table i))

include h hcwd hf hext hname hnull hbytes in
theorem ZeroBehind.prints
    (hz : ZeroBehind s.machine.disk ((s.machine.disk.table rootClusterNumber).table i)) :
    PrintsFile env a s ((s.machine.disk.table rootClusterNumber).table i) := by
  obtain ⟨buf, hbuf, hcat⟩ := @cat_file env a s i h hcwd hf hext hname hnull
  have hsize := (h.image.entry _ _ hf.live).size hf.file
  have hshort := hz.short
  have hone : clusterCount ((s.machine.disk.table rootClusterNumber).table i).filesize = 1 := by
    simp only [clusterCount, clusterSize_eq] at hshort ⊢
    omega
  rw [hone, Nat.mul_one] at hbuf
  have hlen := Disk.content_length s.machine.disk
    ((s.machine.disk.table rootClusterNumber).table i)
  have hloop := @catLoop_prints buf _ clusterSize 0 hbytes (fun j hj => by
      rw [Nat.zero_add, hbuf j (by omega)]
      simp only [Disk.content, List.getElem_map, List.getElem_range])
    (by rw [Nat.zero_add, hlen, hbuf _ hshort, hz.zero]) (by rw [hlen]; exact hshort)
  unfold PrintsFile
  rw [hcat, if_pos hone.le, hloop]
  rfl

include h hcwd hf hext hname hnull in
theorem PrintsFile.zeroBehind
    (hp : PrintsFile env a s ((s.machine.disk.table rootClusterNumber).table i)) :
    ZeroBehind s.machine.disk ((s.machine.disk.table rootClusterNumber).table i) := by
  obtain ⟨buf, hbuf, hcat⟩ := @cat_file env a s i h hcwd hf hext hname hnull
  have hsize := (h.image.entry _ _ hf.live).size hf.file
  unfold PrintsFile at hp
  rw [hcat] at hp
  split_ifs at hp with hone hstops
  · have hcount : clusterCount ((s.machine.disk.table rootClusterNumber).table i).filesize = 1 := by
      simp only [clusterCount, clusterSize_eq] at hone ⊢
      omega
    rw [hcount, Nat.mul_one] at hbuf
    have hactions := congrArg Effect.actions hp
    -- as many steps as the file has bytes
    have hlength : (catLoop buf 0 clusterSize).1.length =
        ((s.machine.disk.table rootClusterNumber).table i).filesize.toNat := by
      have hlen := congrArg List.length hactions
      simp only [Effect.after, emit, List.length_append, List.length_cons, List.length_nil,
        List.length_map, Disk.content_length] at hlen
      omega
    obtain ⟨hlt, hzero⟩ := catLoop_stops buf (Prod.ext rfl hstops :
      catLoop buf 0 clusterSize = (_, true))
    rw [hlength] at hlt hzero
    rw [Nat.zero_add, hbuf _ hlt] at hzero
    exact ⟨hlt, hzero⟩
  · cases congrArg Effect.result hp
  · cases congrArg Effect.result hp

end File

/-- **When `cat` prints the file.** In the root, a file without zero bytes is printed
exactly when it ends before its first cluster does, and a zero follows it there. -/
theorem cat_prints_iff (env : Environment) {a : Argument} {s : System} {i : Fin 64}
    (h : s.machine.WellFormed)
    (hcwd : s.shell.currentDirectory = initialShell.currentDirectory)
    (hf : NamedFile s.machine rootClusterNumber i)
    (hext : ((s.machine.disk.table rootClusterNumber).table i).ext = fun _ => 0)
    (hbytes : 0 ∉ s.machine.disk.content ((s.machine.disk.table rootClusterNumber).table i))
    (hname : a.name = ((s.machine.disk.table rootClusterNumber).table i).name)
    (hnull : a.null = false) :
    PrintsFile env a s ((s.machine.disk.table rootClusterNumber).table i) ↔
      ZeroBehind s.machine.disk ((s.machine.disk.table rootClusterNumber).table i) :=
  ⟨PrintsFile.zeroBehind h hcwd hf hext hname hnull,
    ZeroBehind.prints h hcwd hf hext hname hnull hbytes⟩

/-! ## Files of one byte -/

section OneByte
variable (buf : Memory)

/-- The request for a file `a` of the first byte of a buffer. -/
def oneByte : FAT32DriverRequest := Shell.request buf aWord.name rootClusterNumber 1

theorem oneByte_bFolder : TwoNames (oneByte buf) bFolder :=
  ⟨rfl, rfl, aFile_bFolder.size, aFile_bFolder.size', aFile_bFolder.key, aFile_bFolder.key',
    aFile_bFolder.differ⟩

def oneByteSystem : System := ⟨stored (rootedMachine rootName) (oneByte buf) 2, initialShell⟩

theorem oneByte_slot : ((oneByteSystem buf).machine.disk.table rootClusterNumber).table 2 =
    addedEntry (rootedMachine rootName) (oneByte buf) := by
  have htable : (oneByteSystem buf).machine.disk.table rootClusterNumber =
      (initDirectoryTable rootName rootClusterNumber).set 2
        (addedEntry (rootedMachine rootName) (oneByte buf)) :=
    first_table (oneByte_bFolder buf) rfl
  rw [htable, FAT32DirectoryTable.set_same]

theorem oneByte_namedFile : NamedFile (oneByteSystem buf).machine rootClusterNumber 2 := by
  have htable : (oneByteSystem buf).machine.disk.table rootClusterNumber =
      (initDirectoryTable rootName rootClusterNumber).set 2
        (addedEntry (rootedMachine rootName) (oneByte buf)) :=
    first_table (oneByte_bFolder buf) rfl
  refine ⟨⟨Disk.reachable_root _, le_refl _, ?_⟩, ?_, ?_⟩
  · rw [oneByte_slot]
    exact addedEntry_live
  · rw [oneByte_slot]
    exact mt addedEntry_folder.mp (by decide : ¬ (1 : UInt32) = 0)
  · unfold Disk.ownKey
    rw [htable, FAT32DirectoryTable.set_same, FAT32DirectoryTable.set_other _ _ (by decide),
      addedEntry_key]
    exact (by decide : aWord.key ≠ ⟨rootName, fun _ => 0⟩)

theorem oneByte_wellFormed : (oneByteSystem buf).machine.WellFormed :=
  first_wellFormed (oneByte_bFolder buf)

/-- The cluster of the file is the whole buffer. -/
theorem oneByte_byteAlong {j : Nat} (hj : j < clusterSize) :
    (oneByteSystem buf).machine.disk.byteAlong ((oneByteSystem buf).machine.disk.clustersOf
      (((oneByteSystem buf).machine.disk.table rootClusterNumber).table 2)) j = buf j := by
  have h := rootedMachine_wellFormed rootName
  have hst := @two_first rootName _ _ (oneByte_bFolder buf)
  have hreq : required (oneByte buf) = 1 := required_single (oneByte_bFolder buf).size
  have hlen := allocated_length hst.space
  rw [hreq] at hlen
  obtain ⟨x, hx⟩ := List.length_eq_one_iff.mp hlen
  have hchain := @stored_chain _ _ 2 h hst.space (by rw [hreq]; decide)
  have hnext : (oneByteSystem buf).machine.fat.get? = (oneByteSystem buf).machine.disk.next :=
    funext (fat_eq (oneByte_wellFormed buf))
  have hclusters : (oneByteSystem buf).machine.disk.clustersOf
      (addedEntry (rootedMachine rootName) (oneByte buf)) = [x] := by
    refine Disk.clustersOf_chain (mt addedEntry_folder.mp (by decide : ¬ (1 : UInt32) = 0)) ?_
      (by decide : 1 ≤ clusterMapSize)
    rw [← hnext, ← hx]
    exact hchain
  have hdiv : j / clusterSize = 0 := Nat.div_eq_of_lt hj
  have hmod : j % clusterSize = j := Nat.mod_eq_of_lt hj
  have hdata := @stored_data _ _ 2 h (parent_marked h (Disk.reachable_root _))
    (by decide : (1 : UInt32) ≠ 0) 0 x (by rw [hx]; rfl) j hj
  rw [oneByte_slot, hclusters, Disk.byteAlong, hdiv, hmod]
  show (stored (rootedMachine rootName) (oneByte buf) 2).disk.cluster x j = buf j
  rw [hdata, Nat.mul_zero, Nat.zero_add]
  rfl

theorem oneByte_content : (oneByteSystem buf).machine.disk.content
    (((oneByteSystem buf).machine.disk.table rootClusterNumber).table 2) = [buf 0] := by
  have hsize :
      (((oneByteSystem buf).machine.disk.table rootClusterNumber).table 2).filesize = 1 := by
    rw [oneByte_slot, addedEntry_filesize]
    rfl
  unfold Disk.content
  rw [hsize]
  exact congrArg (fun c => [c]) (oneByte_byteAlong buf clusterSize_pos)

theorem oneByte_named :
    (((oneByteSystem buf).machine.disk.table rootClusterNumber).table 2).ext = (fun _ => 0) ∧
    aWord.name = (((oneByteSystem buf).machine.disk.table rootClusterNumber).table 2).name := by
  have hkey : (((oneByteSystem buf).machine.disk.table rootClusterNumber).table 2).key =
      aWord.key := by
    rw [oneByte_slot, addedEntry_key]
    rfl
  exact ⟨congrArg Key.ext hkey, (congrArg Key.name hkey).symm⟩

end OneByte

/-- An "a", and zeros behind it. -/
def zeroTail : Memory := fun i => if i = 0 then 0x61 else 0

theorem zeroTail_printed :
    PrintsFile unwritten (wordArgument aWord) (oneByteSystem zeroTail)
      (((oneByteSystem zeroTail).machine.disk.table rootClusterNumber).table 2) := by
  obtain ⟨hext, hname⟩ := oneByte_named zeroTail
  have hsize : (((oneByteSystem zeroTail).machine.disk.table rootClusterNumber).table 2).filesize =
      1 := by
    rw [oneByte_slot, addedEntry_filesize]
    rfl
  refine (cat_prints_iff unwritten (oneByte_wellFormed zeroTail) rfl (oneByte_namedFile zeroTail)
    hext ?_ hname rfl).mpr ⟨?_, ?_⟩
  · rw [oneByte_content]
    decide
  · rw [hsize]
    decide
  · rw [hsize]
    exact oneByte_byteAlong zeroTail (by decide)

/-- A buffer of "a"s: `cat` prints on behind the one byte of the file. -/
theorem letters_not_printed :
    (oneByteSystem fun _ => 0x61).machine.WellFormed ∧
    NamedFile (oneByteSystem fun _ => 0x61).machine rootClusterNumber 2 ∧
    (((oneByteSystem fun _ => 0x61).machine.disk.table rootClusterNumber).table 2).ext =
      (fun _ => 0) ∧
    aWord.name =
      (((oneByteSystem fun _ => 0x61).machine.disk.table rootClusterNumber).table 2).name ∧
    0 ∉ (oneByteSystem fun _ => 0x61).machine.disk.content
      (((oneByteSystem fun _ => 0x61).machine.disk.table rootClusterNumber).table 2) ∧
    ∀ env, ¬ PrintsFile env (wordArgument aWord) (oneByteSystem fun _ => 0x61)
      (((oneByteSystem fun _ => 0x61).machine.disk.table rootClusterNumber).table 2) := by
  obtain ⟨hext, hname⟩ := oneByte_named fun _ => 0x61
  have h := oneByte_wellFormed fun _ => 0x61
  have hf := oneByte_namedFile fun _ => 0x61
  refine ⟨h, hf, hext, hname, ?_, fun env hp => ?_⟩
  · rw [oneByte_content]
    decide
  · have hzero := (hp.zeroBehind h rfl hf hext hname rfl).zero
    have hsize : (((oneByteSystem fun _ => 0x61).machine.disk.table
        rootClusterNumber).table 2).filesize = 1 := by
      rw [oneByte_slot, addedEntry_filesize]
      rfl
    rw [hsize] at hzero
    have hbyte := oneByte_byteAlong (fun _ => 0x61) (by decide : (1 : UInt32).toNat < clusterSize)
    exact absurd (hbyte.symm.trans hzero) (by decide)

end KajijOSta.Terminal
