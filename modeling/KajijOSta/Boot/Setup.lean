import KajijOSta.Inserter.Replacement
import KajijOSta.Interrupts.Ports
import KajijOSta.Paging.Accesses

/-! # From the image to the shell

`kernel_setup` of `kernel.c`, behind the loader: it mounts the disk, maps the first 4 MiB for
user mode, reads "shell" from the root to address 0 and goes there in ring 3. An image into
which the inserter put a file "shell" comes up with that file as the running program
(`inserted_shell_runs`). -/
namespace KajijOSta.Boot
open KajijOSta.Fat32 KajijOSta.Interrupts KajijOSta.Keyboard KajijOSta.NamedTree
open KajijOSta.WordStack
open KajijOSta.Inserter (Host HostFile Exit message scanUnsigned)

/-! ## The code -/

/-- The machine that `kernel_setup` runs on: processor, memory, disk and screen, and what
`paging.c` holds. -/
structure System where
  state : State Kernel
  paging : Paging.PagingState

def shellRequest (buf : Memory) : FAT32DriverRequest where
  buf := buf
  name := fun i => UInt8.ofNat ((['s', 'h', 'e', 'l', 'l'][i.val]?.map Char.toNat).getD 0)
  ext := fun _ => 0
  parentClusterNumber := rootClusterNumber
  bufferSize := 0x100000

/-- `load_gdt`, as far as the processor is concerned. -/
def loadGdt (cpu : Cpu) : Cpu :=
  { cpu with
    cs := 0x8
    ss := 0x10
    ds := 0x10
    es := 0x10
    eflags := cpu.eflags &&& ~~~0x200 }

/-- The end of `initialize_idt`. -/
def initializeIdtSti (cpu : Cpu) : Cpu := { cpu with eflags := cpu.eflags ||| 0x200 }

/-- `kernel_setup`, until the program runs: `beyond` is the memory behind a name, `ebp` the
frame of `set_tss_kernel_current_stack`. The descriptor tables are `kernelTables`; what the
interrupt controllers get is `kernelSetup` of `Pic` (`kernelSetup_controllers`). -/
def kernelSetup (isrStubTable : Fin isrStubTableLimit → UInt32) (tssEntry : UInt32) (e : Leeway)
    (beyond : Fin 3 → UInt8) (ebp : UInt32) (s : System) : Except Fault System := do
  let cpu := initializeIdtSti (loadGdt s.state.cpu)
  let console := framebufferSetCursor (framebufferClear s.state.world.console) 0 0
  let machine := initializeFilesystemFat32 beyond s.state.world.machine
  let paging := (Paging.pagingAllocateUserPageFrame s.paging 0).2
  -- the code of the read is not looked at
  let (reply, machine) ← serve machine (.read (shellRequest (view s.state.ram 0)))
  let world : Kernel := { s.state.world with machine, console }
  let loaded := setTssKernelCurrentStack tssEntry ebp ⟨cpu, unview 0 reply.buf, world⟩
  let called := (loaded.push 0).push e.returnAddress
  let state ← execAll (kernelTables isrStubTable tssEntry) e mainInterruptHandler called
    kernelExecuteUserProgram
  return ⟨state, paging⟩

/-! ## The image -/

/-- Requests about the root leave it its own name. -/
theorem requests_ownKey {m m₁ m' : Machine} {q r : FAT32DriverRequest} {err code : Int8}
    (h : m.WellFormed) (hq : q.parentClusterNumber = rootClusterNumber) (hk : q.key ≠ 0)
    (ho : q.key ≠ m.disk.ownKey rootClusterNumber)
    (hr : r.parentClusterNumber = rootClusterNumber)
    (hs : r.bufferSize.toNat ≤ 255 * clusterSize) (hdelete : delete m q = .ok (err, m₁))
    (hwrite : write m₁ r = .ok (code, m')) :
    m'.disk.ownKey rootClusterNumber = m.disk.ownKey rootClusterNumber := by
  have hroot : ∀ (d : Disk) (r : FAT32DriverRequest), r.parentClusterNumber = rootClusterNumber →
      d.dirAt [] = some r.parentClusterNumber := fun d r hr => Disk.dirAt_root d hr
  -- the delete empties a slot behind the first
  have hfirst : m₁.WellFormed ∧ (m₁.disk.table rootClusterNumber).table 0 =
      (m.disk.table rootClusterNumber).table 0 := by
    rw [← hq] at ho
    rcases delete_cases h ⟨[], hroot _ q hq⟩ hk ho with ⟨_, hd⟩ | ⟨i, _, hlive, hd⟩
    · cases hd.symm.trans hdelete
      exact ⟨h.of_same rfl rfl, rfl⟩
    · cases hd.symm.trans hdelete
      have htable := @deleted_table m q i (by rw [hq]; decide) (by rw [hq]; decide)
      rw [hq] at htable
      refine ⟨deleted_wellFormed h (hroot _ q hq) hlive.slot hlive.live, ?_⟩
      rw [htable, FAT32DirectoryTable.set_other _ _ (ne_zero_of_slot hlive.slot).symm]
  obtain ⟨h₁, hslot⟩ := hfirst
  refine congrArg FAT32DirectoryEntry.key (Eq.trans ?_ hslot)
  rcases write_cases h₁ ⟨[], hroot _ r hr⟩ hs with ⟨_, hw⟩ | ⟨_, _, hw⟩ | ⟨i, hst, hw⟩
  · cases hw.symm.trans hwrite
    rfl
  · cases hw.symm.trans hwrite
    rfl
  · cases hw.symm.trans hwrite
    exact stored_own h₁ hs hst.space (hroot _ r hr) (vacantSlot_eq_some.mp hst.vacant).1
      ⟨[], Graph.dirAt_nil _⟩

section Image
variable {host : Host} {f : HostFile} {prog parent storage : List UInt8} {out : Exit}

/-- The inserter leaves the root its own name. -/
theorem main_ownKey (h : host.image.WellFormed) (ht : host.target = some f.content)
    (hc : scanUnsigned parent = some rootClusterNumber)
    (ho : Inserter.shellKey ≠ host.image.ownKey rootClusterNumber)
    (hmain : Inserter.main host [prog, f.name, parent, storage] = .ok out) :
    out.image.ownKey rootClusterNumber = host.image.ownKey rootClusterNumber := by
  obtain ⟨hdisk, hm⟩ := Inserter.mounted_wellFormed h
  have hr := Inserter.fileRequest_carries (f := f) ht hc
  obtain ⟨err, m₁, hdelete, code, m', hwrite, rfl⟩ := Inserter.main_ok_iff.mp hmain
  rw [← hdisk] at ho ⊢
  exact requests_ownKey (q := Inserter.shellRequest host.buf) hm rfl Inserter.shellKey_ne_zero ho
    hr.parent hr.size_le hdelete hwrite

/-- The inserter reports that it is done when the file is in the tree, whatever it replaced. -/
theorem inserted_node (h : host.image.WellFormed) (ht : host.target = some f.content)
    (hc : scanUnsigned parent = some rootClusterNumber) (hname : f.key = Inserter.shellKey)
    (ho : Inserter.shellKey ≠ host.image.ownKey rootClusterNumber)
    (hmain : Inserter.main host [prog, f.name, parent, storage] = .ok out)
    (hdone : out.message = message 0) : ∃ h' : out.image.WellFormed,
      (out.image.tree h').node [Inserter.shellKey] = some (.file f.content) := by
  obtain ⟨hdisk, hm⟩ := Inserter.mounted_wellFormed h
  have hr := Inserter.fileRequest_carries (f := f) ht hc
  obtain ⟨err, m₁, hdelete, code, m', hwrite, rfl⟩ := Inserter.main_ok_iff.mp hmain
  have hzero : code = 0 := Inserter.message_eq_zero.mp hdone
  rw [← hdisk] at ho
  obtain ⟨reply, m₂, h₁, hserve, _⟩ := delete_answers (r := Inserter.shellRequest host.buf) hm
    (Graph.dirAt_nil _) 0 Inserter.shellKey_ne_zero ho
  have hsame : m₁ = m₂ := by
    rw [Fat32.serve, hdelete] at hserve
    exact (Prod.mk.inj (Except.ok.inj hserve)).2
  subst hsame
  obtain ⟨_, _, hstores, h', _, hnode, _⟩ := Inserter.write_inserts (p := []) h₁ hr
    (Graph.dirAt_nil _)
  cases hstores.symm.trans hwrite
  exact ⟨h', (hnode hzero _).trans (if_pos (by rw [hname]))⟩

/-- `kernel_setup` reads back what the inserter put there. -/
theorem inserted_read (h : host.image.WellFormed) (ht : host.target = some f.content)
    (hc : scanUnsigned parent = some rootClusterNumber) (hname : f.key = Inserter.shellKey)
    (ho : Inserter.shellKey ≠ host.image.ownKey rootClusterNumber)
    (hmain : Inserter.main host [prog, f.name, parent, storage] = .ok out)
    (hdone : out.message = message 0) (beyond : Fin 3 → UInt8) (driver : FAT32DriverState)
    (buf : Memory) :
    ∃ reply, serve (remount beyond driver out.image) (.read (shellRequest buf)) =
        .ok (reply, remount beyond driver out.image) ∧
      (remount beyond driver out.image).disk = out.image ∧
      ∀ (i : Nat) (hi : i < f.content.length), reply.buf i = f.content[i] := by
  obtain ⟨h', hnode⟩ := inserted_node h ht hc hname ho hmain hdone
  obtain ⟨hdisk, _, hm⟩ := remount_wellFormed beyond driver h'
  have hown : (shellRequest buf).key ≠
      (remount beyond driver out.image).disk.ownKey rootClusterNumber := by
    rw [hdisk, main_ownKey h ht hc ho hmain]
    exact ho
  obtain ⟨reply, hserve, hanswers⟩ := read_answers (r := shellRequest buf) hm (Graph.dirAt_nil _) 0
    Inserter.shellKey_ne_zero hown
  rw [Disk.tree_congr hdisk h' hm.image] at hanswers
  refine ⟨reply, hserve, hdisk, (hanswers.read_bytes Inserter.shellKey_ne_zero hnode ?_).2⟩
  have hsmall := f.small
  have hbuffer : (shellRequest buf).bufferSize.toNat = 512 * clusterSize := rfl
  rw [hbuffer]
  simp only [clustersHolding, clusterSize_eq] at hsmall ⊢
  omega

end Image

/-! ## The first 4 MiB -/

/-- What is read does not reach behind the page of the program. -/
theorem shellRequest_reach {m m' : Machine} {ram : Ram} {reply : Reply}
    (h : serve m (.read (shellRequest (view ram 0))) = .ok (reply, m')) {x : UInt32}
    (hx : 0x400000 ≤ x.toNat) : reply.buf x.toNat = ram x := by
  rw [serve_reach h (Nat.le_trans (by decide) hx)]
  show ram (0 + UInt32.ofNat x.toNat) = ram x
  rw [UInt32.ofNat_toNat, UInt32.zero_add]

/-- The file fits in that page. -/
theorem content_low (f : HostFile) {i : Nat} (hi : i < f.content.length) :
    (UInt32.ofNat i).toNat = i ∧ i < 0x400000 := by
  have hsmall := f.small
  simp only [clusterSize_eq] at hsmall
  rw [UInt32.toNat_ofNat']
  omega

/-- The page that `kernel_setup` allocates is the first one behind the kernel's, for both
rings. -/
theorem setup_access (user : Bool) {virtualAddr : UInt32}
    (h : virtualAddr.toNat < Paging.pageFrameSize) :
    (Paging.pagingAllocateUserPageFrame Paging.bootState 0).2.access user virtualAddr =
      some (Paging.pageFrameSize + virtualAddr.toNat) := by
  have hsize : Paging.pageFrameSize = 2 ^ 22 := rfl
  have hindex : Paging.pageIndex virtualAddr = 0 := by
    refine Fin.ext ((Paging.pageIndex_val virtualAddr).trans ?_)
    rw [← hsize]
    exact Nat.div_eq_of_lt h
  have hentry : (Paging.pagingAllocateUserPageFrame Paging.bootState 0).2.pageDir.table 0 =
      ⟨⟨true, true, true, false, false, false, false, true⟩, 1⟩ := by decide
  unfold Paging.PagingState.access Paging.PageDirectoryEntry.mapping
  rw [hindex, hentry, Paging.PageDirectoryEntry.ofWord]
  simp [Paging.Mapping.reach, Nat.mod_eq_of_lt h]

/-- The kernel's addresses reach the first frame, and programs do not through them. -/
theorem setup_kernel {virtualAddr : UInt32}
    (h : Paging.pageIndex virtualAddr = Paging.kernelIndex) :
    (Paging.pagingAllocateUserPageFrame Paging.bootState 0).2.access false virtualAddr =
        some (virtualAddr.toNat % Paging.pageFrameSize) ∧
      (Paging.pagingAllocateUserPageFrame Paging.bootState 0).2.access true virtualAddr =
        none := by
  have hentry : (Paging.pagingAllocateUserPageFrame Paging.bootState 0).2.pageDir.table
      Paging.kernelIndex = Paging.kernelEntry := by decide
  unfold Paging.PagingState.access Paging.PageDirectoryEntry.mapping
  rw [h, hentry, Paging.PageDirectoryEntry.ofWord]
  simp [Paging.Mapping.reach, Paging.kernelEntry]

/-! ## The run -/

theorem bind_ok {F A B : Type} (a : A) (f : A → Except F B) : (Except.ok a >>= f) = f a := rfl

theorem or_and (a b c : UInt32) : (a ||| b) &&& c = a &&& c ||| b &&& c := by
  apply UInt32.toBitVec_inj.mp
  simp only [UInt32.toBitVec_and, UInt32.toBitVec_or]
  ext i hi
  simp only [BitVec.getElem_and, BitVec.getElem_or, Bool.and_or_distrib_right]

theorem or_and_self (a b : UInt32) : (a ||| b) &&& b = b := by
  apply UInt32.toBitVec_inj.mp
  rw [UInt32.toBitVec_and, UInt32.toBitVec_or]
  ext i hi
  rw [BitVec.getElem_and, BitVec.getElem_or]
  exact Bool.and_eq_right_iff_imp.mpr fun h => by simp [h]

section Run
variable (isrStubTable : Fin isrStubTableLimit → UInt32) (tssEntry : UInt32) (e : Leeway)

/-- The call of `kernel_execute_user_program` with address 0. -/
theorem call_starts (s : State Kernel) (hcpl : s.cpu.cpl = 0) :
    ∃ ram', execAll (kernelTables isrStubTable tssEntry) e mainInterruptHandler
        ((s.push 0).push e.returnAddress) kernelExecuteUserProgram =
        .ok ⟨startRegisters (s.cpu.added e.eflags) 0, ram', s.world⟩ ∧
      ∀ x, ¬ Span (s.cpu.esp - 28) 28 x → ram' x = s.ram x := by
  have hgrown := ((Grown.nil (c := word) s.ram s.cpu.esp).push (by decide) 0).push
    (by simp only [List.length_cons]; decide) e.returnAddress
  have hargument : word.get ((s.push 0).push e.returnAddress).ram
      (((s.push 0).push e.returnAddress).cpu.esp + 4) = 0 := hgrown.holds.get 1 (by simp)
  obtain ⟨ram', hrun, hout⟩ := executeUserProgram_starts isrStubTable tssEntry e
    mainInterruptHandler ((s.push 0).push e.returnAddress) hcpl
  rw [hargument] at hrun
  refine ⟨ram', hrun, fun x hx => ?_⟩
  have hesp : ((s.push 0).push e.returnAddress).cpu.esp = s.cpu.esp - 8 := hgrown.pointer
  rw [hesp] at hout
  have hpushed : ¬ Span (s.cpu.esp - 8) 8 x := fun h =>
    hx (Span.below (a := s.cpu.esp) (k := 8) (j := 0) (l := 28) h (by decide) (by decide))
  have hbelow : ¬ Span (s.cpu.esp - 8 - 20) 20 x := by
    have hesp' : s.cpu.esp - 8 - 20 = s.cpu.esp - 28 := sub_ofNat_add s.cpu.esp 8 20
    rw [hesp']
    exact fun h => hx (h.mono (by decide))
  exact (hout x hbelow).trans (hgrown.outside x (hgrown.pointer ▸ hpushed))

/-- `kernel_setup` ends in ring 3, with what it read in memory. -/
theorem kernelSetup_starts {s : System} {m m' : Machine} {reply : Reply}
    {beyond : Fin 3 → UInt8} (ebp : UInt32)
    (hmount : initializeFilesystemFat32 beyond s.state.world.machine = m)
    (hserve : serve m (.read (shellRequest (view s.state.ram 0))) = .ok (reply, m'))
    (hstack : ∀ x, Span (tssEntry + 4) 4 x → ¬ Span (s.state.cpu.esp - 28) 28 x) :
    ∃ s', kernelSetup isrStubTable tssEntry e beyond ebp s = .ok s' ∧
      s'.state.cpu =
        startRegisters ((initializeIdtSti (loadGdt s.state.cpu)).added e.eflags) 0 ∧
      s'.state.world.machine = m' ∧
      s'.paging = (Paging.pagingAllocateUserPageFrame s.paging 0).2 ∧
      word.get s'.state.ram (tssEntry + 4) = ebp + 8 ∧
      ∀ x, ¬ Span (tssEntry + 4) 4 x → ¬ Span (s.state.cpu.esp - 28) 28 x →
        s'.state.ram x = reply.buf x.toNat := by
  generalize hworld : ({ s.state.world with
    machine := m'
    console := framebufferSetCursor (framebufferClear s.state.world.console) 0 0 } : Kernel) =
      world
  dsimp only at hworld
  let loaded := setTssKernelCurrentStack tssEntry ebp
    ⟨initializeIdtSti (loadGdt s.state.cpu), unview 0 reply.buf, world⟩
  have hcpl : loaded.cpu.cpl = 0 := show (0x8 : UInt16).toNat % 4 = 0 by decide
  obtain ⟨ram', hrun, hout⟩ := call_starts isrStubTable tssEntry e loaded hcpl
  refine ⟨⟨⟨_, ram', world⟩, _⟩, ?_, rfl, ?_, rfl, ?_, ?_⟩
  · simp only [kernelSetup, hmount, hserve, bind_ok]
    rw [hworld]
    exact congrArg (· >>= fun state => Except.ok (System.mk state _)) hrun
  · rw [← hworld]
  · refine (word.get_congr fun x hx => hout x (hstack x hx)).trans ?_
    exact word.get_put _ _ _
  · intro x htss hx
    refine (hout x hx).trans ((word.put_outside htss).trans ?_)
    exact congrArg reply.buf (congrArg UInt32.toNat (UInt32.sub_zero x))

/-- A file runs: in ring 3, from its first byte, on a stack that ends at 4 MiB, with
interrupts on and memory for it behind the kernel's, which stays where it is and closed to
the program. -/
structure Runs (l : Layout) (f : HostFile) (s : System) : Prop where
  running : Running l s.state
  entry : s.state.cpu.eip = 0
  stack : s.state.cpu.esp = 0x400000 - 4
  interrupts : s.state.cpu.eflags &&& 0x200 ≠ 0
  loaded : ∀ (i : Nat) (hi : i < f.content.length),
    s.state.ram (UInt32.ofNat i) = f.content[i]
  mapped : ∀ user virtualAddr, virtualAddr.toNat < Paging.pageFrameSize →
    s.paging.access user virtualAddr = some (Paging.pageFrameSize + virtualAddr.toNat)
  kernel : ∀ virtualAddr, Paging.pageIndex virtualAddr = Paging.kernelIndex →
    s.paging.access false virtualAddr = some (virtualAddr.toNat % Paging.pageFrameSize) ∧
      s.paging.access true virtualAddr = none

/-- `add` and `pushf` leave the interrupt flag as it is. -/
theorem setup_interrupts (cpu : Cpu) (eflags : UInt32) :
    (startRegisters ((initializeIdtSti cpu).added eflags) 0).eflags &&& 0x200 = 0x200 := by
  have hpushed : (0xFCFFFF : UInt32) &&& 0x200 = 0x200 := by decide
  have hkept : ~~~arithmeticFlags &&& 0x200 = 0x200 := by decide
  have hset : arithmeticFlags &&& 0x200 = 0 := by decide
  show (((cpu.eflags ||| 0x200) &&& ~~~arithmeticFlags ||| eflags &&& arithmeticFlags) &&&
    0xFCFFFF) &&& 0x200 = 0x200
  rw [UInt32.and_assoc, hpushed, or_and, UInt32.and_assoc, hkept,
    or_and_self, UInt32.and_assoc, hset, UInt32.and_zero, UInt32.or_zero]

/-- `kernel_setup` returns with the registers for the program, the console cleared. -/
theorem kernelSetup_returns {s s' : System} {beyond : Fin 3 → UInt8} {ebp : UInt32}
    (h : kernelSetup isrStubTable tssEntry e beyond ebp s = .ok s') :
    s'.state.cpu = startRegisters ((initializeIdtSti (loadGdt s.state.cpu)).added e.eflags) 0 ∧
      s'.state.world.console =
        framebufferSetCursor (framebufferClear s.state.world.console) 0 0 := by
  unfold kernelSetup at h
  obtain ⟨⟨reply, machine⟩, _, h⟩ := Runs.bind_eq_ok.mp h
  obtain ⟨state, hstate, h⟩ := Runs.bind_eq_ok.mp h
  cases h
  obtain ⟨ram', hrun, _⟩ := call_starts isrStubTable tssEntry e (setTssKernelCurrentStack tssEntry
    ebp ⟨initializeIdtSti (loadGdt s.state.cpu), unview 0 reply.buf, { s.state.world with
      machine := machine
      console := framebufferSetCursor (framebufferClear s.state.world.console) 0 0 }⟩)
    (show (0x8 : UInt16).toNat % 4 = 0 by decide)
  cases hstate.symm.trans hrun
  exact ⟨rfl, rfl⟩

/-- **What the controllers get of it.** What `kernel_setup` writes to ports once the
keyboard's line is open, for the cursor and in the driver of the disk, reaches neither
controller. With these writes behind it, the code that the controllers see ends as
`kernel_setup` does, with interrupts on; the descriptor table is loaded, and only the
keyboard's line is open. -/
theorem kernelSetup_controllers {s s' : System} {beyond : Fin 3 → UInt8} {ebp : UInt32}
    (h : kernelSetup isrStubTable tssEntry e beyond ebp s = .ok s') (pic : Pic)
    {disk : List PortWrite} (hdisk : ∀ w ∈ disk, w.port ∈ Ata.ataPorts) :
    ∃ ws, s'.state.world.console.sent = s.state.world.console.sent ++ ws ∧
      Board.Elsewhere (ws ++ disk) ∧
      ∃ n,
        let b := (List.replicate n Board.Event.execute).foldl Board.step
          (Board.start pic (ws ++ disk))
        b.code = [] ∧ b.idtLoaded = true ∧ b.pic.forget = Pic.remapped Chip.keyboardMask ∧
          (b.interruptFlag = true ↔ s'.state.cpu.eflags &&& 0x200 ≠ 0) := by
  obtain ⟨hcpu, hconsole⟩ := kernelSetup_returns isrStubTable tssEntry e h
  obtain ⟨ws, hws, hsent⟩ :=
    (SendsElsewhere.framebufferClear s.state.world.console).trans (.cursor _ 0 0)
  have hrest := elsewhere_append hws (disk_elsewhere hdisk)
  refine ⟨ws, by rw [hconsole, hsent], hrest, ?_⟩
  obtain ⟨n, hsound, hcode, _⟩ := execute_all (sound_start pic (ws ++ disk)) hrest rfl
  obtain ⟨hflag, hidt, hpic⟩ := hsound.idle hcode
  refine ⟨n, hcode, hidt, hpic, iff_of_true hflag ?_⟩
  rw [hcpu, setup_interrupts]
  decide

/-- **The inserted shell runs.** An image into which the inserter put a file "shell", and
whose root is not itself named so, boots into that file: `kernel_setup` mounts it, and goes
to ring 3 at the first byte of the file, which lies at address 0 in memory mapped for both
rings; the kernel's addresses still reach the first frame. The stack of `kernel_setup` and
the entry of the task state segment, with its `ss0` as it is set to, lie apart and outside
the first 4 MiB. -/
theorem inserted_shell_runs {host : Host} {f : HostFile} {prog parent storage : List UInt8}
    {out : Exit} (h : host.image.WellFormed) (ht : host.target = some f.content)
    (hc : scanUnsigned parent = some rootClusterNumber) (hname : f.key = Inserter.shellKey)
    (ho : Inserter.shellKey ≠ host.image.ownKey rootClusterNumber)
    (hmain : Inserter.main host [prog, f.name, parent, storage] = .ok out)
    (hdone : out.message = message 0) (beyond : Fin 3 → UInt8) (driver : FAT32DriverState)
    (l : Layout) (ebp : UInt32) (s : System)
    (hmachine : s.state.world.machine = ⟨driver, out.image, []⟩)
    (hpaging : s.paging = Paging.bootState) (hesp0 : ebp + 8 = l.esp0)
    (hss0 : (word.get s.state.ram (l.tssEntry + 8)).toUInt16 = gdtKernelDataSegmentSelector)
    (hlow : ∀ x : UInt32, x.toNat < 0x400000 →
      ¬ Span (l.tssEntry + 4) 8 x ∧ ¬ Span (s.state.cpu.esp - 28) 28 x)
    (hstack : ∀ x, Span (l.tssEntry + 4) 8 x → ¬ Span (s.state.cpu.esp - 28) 28 x) :
    ∃ s', kernelSetup isrStubTable l.tssEntry e beyond ebp s = .ok s' ∧ Runs l f s' ∧
      s'.state.world.machine.disk = out.image := by
  obtain ⟨reply, hserve, hdisk, hbytes⟩ := inserted_read h ht hc hname ho hmain hdone beyond
    driver (view s.state.ram 0)
  have hmount : initializeFilesystemFat32 beyond s.state.world.machine =
      remount beyond driver out.image := congrArg (initializeFilesystemFat32 beyond) hmachine
  generalize remount beyond driver out.image = m at hserve hdisk hmount
  obtain ⟨s', hsetup, hcpu, hm, hpaged, htask, hram⟩ :=
    kernelSetup_starts isrStubTable l.tssEntry e ebp hmount hserve fun x hx =>
      hstack x (span_stack (Or.inl hx))
  refine ⟨s', hsetup, ?_, hm ▸ hdisk⟩
  refine ⟨⟨?_, htask.trans hesp0, ?_⟩, ?_, ?_, ?_, fun i hi => ?_, fun user virtualAddr hlt => ?_,
    fun virtualAddr haddr => ?_⟩
  · rw [hcpu]
    exact startRegisters_isUser _ _
  · refine (congrArg UInt32.toUInt16 (word.get_congr fun x hx => ?_)).trans hss0
    have htask := span_stack (Or.inr hx)
    have hhigh : 0x400000 ≤ x.toNat := by
      by_contra hlt
      exact (hlow x (Nat.lt_of_not_le hlt)).1 htask
    exact (hram x (span_apart hx) (hstack x htask)).trans (shellRequest_reach hserve hhigh)
  · rw [hcpu]
    rfl
  · rw [hcpu]
    rfl
  · rw [hcpu, setup_interrupts]
    decide
  · obtain ⟨hnat, hpage⟩ := content_low f hi
    obtain ⟨htss, hpushed⟩ := hlow (UInt32.ofNat i) (hnat.trans_lt hpage)
    rw [hram _ (fun hx => htss (hx.mono (by decide))) hpushed, hnat]
    exact hbytes i hi
  · rw [hpaged, hpaging]
    exact setup_access user hlt
  · rw [hpaged, hpaging]
    exact setup_kernel haddr

end Run

/-! ## A program of two bytes -/

def loopFile : HostFile where
  name := [115, 104, 101, 108, 108]
  content := [0xEB, 0xFE]
  nonempty := by decide
  plain := by
    intro c hc
    simp only [List.mem_cons, List.not_mem_nil, or_false] at hc
    rcases hc with rfl | rfl | rfl | rfl | rfl <;> exact ⟨by decide, rfl⟩
  bytes := by decide
  small := by decide

def loopHost : Host :=
  ⟨rootedDisk (letterName 'r'), some loopFile.content, fun _ => 0, fun _ => 0, fun _ => 0, 0⟩

theorem loopHost_own : Inserter.shellKey ≠ loopHost.image.ownKey rootClusterNumber := by
  show Inserter.shellKey ≠ (rootedDisk (letterName 'r')).ownKey rootClusterNumber
  rw [rooted_ownKey]
  decide

/-- There is room for it in an empty image. -/
theorem loopFile_fits {m m₁ m' : Machine} {q r : FAT32DriverRequest} {err code : Int8}
    (h : m.WellFormed) (hdisk : m.disk = rootedDisk (letterName 'r'))
    (hq : q.parentClusterNumber = rootClusterNumber) (hk : q.key = Inserter.shellKey)
    (hr : Inserter.Carries r loopFile rootClusterNumber) (hdelete : delete m q = .ok (err, m₁))
    (hwrite : write m₁ r = .ok (code, m')) : code = 0 := by
  have hroot : ∀ d : Disk, d.Reachable r.parentClusterNumber :=
    fun d => Disk.reachable_of_root d hr.parent
  have hown : q.key ≠ m.disk.ownKey q.parentClusterNumber := by
    rw [hk, hq, hdisk]
    exact loopHost_own
  have hfat : m.fat = (rootedMachine (letterName 'r')).fat := by
    rw [← h.coherent, hdisk]
    exact rootedDisk_fatTable _
  rcases delete_cases h (Disk.reachable_of_root _ hq) (hk ▸ Inserter.shellKey_ne_zero) hown with
    ⟨_, hd⟩ | ⟨i, hi, _, _⟩
  · cases hd.symm.trans hdelete
    have hst := @rooted_storable (letterName 'r') r hr.parent hr.key_ne_zero
    have hst' :
        Storable { m with driver.dirTableBuf := m.disk.table q.parentClusterNumber } r 2 := by
      refine ⟨?_, ?_, ?_⟩
      · rw [hdisk]
        exact hst.free
      · rw [hdisk]
        exact hst.vacant
      · exact hfat ▸ hst.space
    have h₁ : ({ m with driver.dirTableBuf := m.disk.table q.parentClusterNumber } :
        Machine).WellFormed := h.of_same rfl rfl
    have hw := write_stores (parent_marked h₁ (hroot _)) hst'.free hst'.vacant
      (required_pos hr.size_le) hst'.space
    exact (Prod.mk.inj (Except.ok.inj (hw.symm.trans hwrite))).1.symm
  · -- the empty root has no entry
    rw [hq, hdisk] at hi
    obtain ⟨hi2, hlive, _⟩ := Disk.slotOf_some hi
    rw [rootedDisk_empty _ _ (ne_zero_of_slot hi2)] at hlive
    exact absurd hlive not_live_zero

/-- The machine after power-on: its disk, and the stack where the loader put it. -/
def poweredOn (image : Disk) : System where
  state := ⟨kernelRegisters, interruptTssEntry 0xC0100000, ⟨⟨⟨0, 0⟩, image, []⟩, loaded, 0⟩⟩
  paging := Paging.bootState

/-- The file is inserted, and runs. -/
theorem inserted_shell_runs_loop : ∃ out s',
    Inserter.main loopHost [[105], loopFile.name, [50], [115]] = .ok out ∧
    kernelSetup (fun _ => 0) 0xC0100000 zeroLeeway (fun _ => 0) 0xC03FFFF8
      (poweredOn out.image) = .ok s' ∧ Runs lowLayout loopFile s' := by
  have h : loopHost.image.WellFormed := rootedDisk_wellFormed _
  have hparent : scanUnsigned [50] = some rootClusterNumber := by decide
  have hrep : Inserter.Replaceable loopHost.image loopFile rootClusterNumber :=
    ⟨loopHost_own, Or.inl (rootedDisk_lookup _ _)⟩
  have hins : Inserter.Inserts loopHost [[105], loopFile.name, [50], [115]] loopFile h []
      rootClusterNumber := hrep.inserts h rfl hparent (Graph.dirAt_nil _)
  obtain ⟨out, hmain, _⟩ := hins
  have hdone : out.message = message 0 := by
    obtain ⟨hdisk, hm⟩ := Inserter.mounted_wellFormed h
    obtain ⟨err, m₁, hdelete, code, m', hwrite, rfl⟩ := Inserter.main_ok_iff.mp hmain
    exact Inserter.message_eq_zero.mpr (loopFile_fits hm hdisk rfl rfl
      (Inserter.fileRequest_carries rfl hparent) hdelete hwrite)
  have hname : loopFile.key = Inserter.shellKey := by
    have hletters : Inserter.scanName loopFile.name = Inserter.shellKey.name := by decide
    exact congrArg₂ Key.mk hletters rfl
  have hlow : ∀ x : UInt32, x.toNat < 0x400000 →
      ¬ Span (0xC0100000 + 4) 8 x ∧ ¬ Span (0xC03FFFF8 - 28) 28 x := by
    intro x hx
    simp only [Span, UInt32.toNat_sub, UInt32.toNat_add, UInt32.toNat_ofNat]
    omega
  have hstack : ∀ x : UInt32, Span (0xC0100000 + 4) 8 x → ¬ Span (0xC03FFFF8 - 28) 28 x := by
    intro x
    simp only [Span, UInt32.toNat_sub, UInt32.toNat_add, UInt32.toNat_ofNat]
    omega
  obtain ⟨s', hsetup, hruns, _⟩ := inserted_shell_runs (fun _ => 0) zeroLeeway h rfl hparent
    hname loopHost_own hmain hdone (fun _ => 0) ⟨0, 0⟩ lowLayout 0xC03FFFF8
    (poweredOn out.image) rfl rfl rfl (interruptTssEntry_ss0 _) hlow hstack
  exact ⟨out, s', hmain, hsetup, hruns⟩

end KajijOSta.Boot
