import KajijOSta.Interrupts.Transparency

/-! # A program in ring 3

How `kernel_setup` leaves ring 0 for good: the stack for the handlers is put into the task
state segment, and `kernel_execute_user_program` returns from an interrupt that never was. -/
namespace KajijOSta.Interrupts
open KajijOSta.WordStack

/-- The selectors that a program in ring 3 works with. -/
structure Cpu.IsUser (cpu : Cpu) : Prop where
  cs : cpu.cs = gdtUserCodeSegmentSelector ||| 3
  ss : cpu.ss = gdtUserDataSegmentSelector ||| 3
  data : ∀ r, cpu.segment r = gdtUserDataSegmentSelector ||| 3

theorem Cpu.IsUser.cpl {cpu : Cpu} (h : cpu.IsUser) : cpu.cpl = 3 := by
  unfold Cpu.cpl
  rw [h.cs]
  decide

section Tables
variable (isrStubTable : Fin isrStubTableLimit → UInt32) (tssEntry : UInt32)

theorem retained_userData : retained (kernelTables isrStubTable tssEntry) 3
    (gdtUserDataSegmentSelector ||| 3) = gdtUserDataSegmentSelector ||| 3 := by
  have hdata : (gdtInstallTss globalDescriptorTable tssEntry).segment 4 = flatSegment 0x2 3 := by
    rw [gdtInstallTss_segment]
    rfl
  have hsegment : (kernelTables isrStubTable tssEntry).segmentOf
      (gdtUserDataSegmentSelector ||| 3).toNat = some (flatSegment 0x2 3) := congrArg some hdata
  unfold retained
  rw [hsegment]
  rfl

/-- A return to ring 3 leaves the user selectors as they are. -/
theorem Cpu.IsUser.retained {cpu : Cpu} (h : cpu.IsUser) (r : SegmentRegister) :
    retained (kernelTables isrStubTable tssEntry) cpu.cpl (cpu.segment r) = cpu.segment r := by
  rw [h.cpl, h.data r]
  exact retained_userData isrStubTable tssEntry

end Tables

/-! ## Where things are in memory -/

/-- Where things are in memory while a program runs: its own addresses, the stack for the
handlers, as far down as C functions use it, and the entry of the task state segment, with
the stack of ring 0 in the eight bytes behind its first field. -/
structure Layout where
  user : UInt32 → Prop
  tssEntry : UInt32
  esp0 : UInt32
  depth : Nat
  fits : depth + 76 ≤ 2 ^ 32
  stack_apart : ∀ x, user x → ¬ Span (esp0 - UInt32.ofNat (depth + 76)) (depth + 76) x
  task_apart : ∀ x, Span (tssEntry + 4) 8 x →
    ¬ user x ∧ ¬ Span (esp0 - UInt32.ofNat (depth + 76)) (depth + 76) x

namespace Layout

def Stack (l : Layout) (x : UInt32) : Prop :=
  Span (l.esp0 - UInt32.ofNat (l.depth + 76)) (l.depth + 76) x

/-- A way for processor and compiler to act that keeps to the stack. -/
def Calls (l : Layout) : Type := { e : Leeway // 4 ≤ e.depth ∧ e.depth ≤ l.depth }

end Layout

/-- A program runs in ring 3, and handlers will find their stack. -/
structure Running {W : Type} (l : Layout) (s : State W) : Prop where
  user : s.cpu.IsUser
  esp0 : word.get s.ram (l.tssEntry + 4) = l.esp0
  ss0 : (word.get s.ram (l.tssEntry + 8)).toUInt16 = gdtKernelDataSegmentSelector

/-- The two words of the task state segment that name a stack. -/
theorem span_stack {tssEntry x : UInt32}
    (h : Span (tssEntry + 4) 4 x ∨ Span (tssEntry + 8) 4 x) : Span (tssEntry + 4) 8 x := by
  rcases h with h | h
  · exact h.mono (by decide)
  · have hadd : tssEntry + 4 + UInt32.ofNat 4 = tssEntry + 8 := add_ofNat_add tssEntry 4 4
    rw [← hadd] at h
    exact ((span_add (by decide)).mp h).2

theorem span_apart {tssEntry x : UInt32} (h : Span (tssEntry + 8) 4 x) :
    ¬ Span (tssEntry + 4) 4 x := by
  have hadd : tssEntry + 4 + UInt32.ofNat 4 = tssEntry + 8 := add_ofNat_add tssEntry 4 4
  rw [← hadd] at h
  exact Nat.not_lt.mpr ((span_add (by decide)).mp h).1

section Running
variable {W : Type} {l : Layout} {s : State W}

/-- What leaves the user segments and the entry as they are keeps a program running. -/
theorem Running.of_same {s' : State W} (h : Running l s) (hcpu : s'.cpu.IsUser)
    (hram : ∀ x, ¬ l.user x → ¬ l.Stack x → s'.ram x = s.ram x) : Running l s' where
  user := hcpu
  esp0 := by
    rw [← h.esp0]
    refine word.get_congr fun x hx => ?_
    obtain ⟨hu, hs⟩ := l.task_apart x (span_stack (Or.inl hx))
    exact hram x hu hs
  ss0 := by
    rw [← h.ss0]
    refine congrArg UInt32.toUInt16 (word.get_congr fun x hx => ?_)
    obtain ⟨hu, hs⟩ := l.task_apart x (span_stack (Or.inr hx))
    exact hram x hu hs

theorem Running.stackNamed (h : Running l s) : StackNamed l.tssEntry s := fun _ => h.ss0

end Running

/-! ## The ways into ring 0 -/

/-- **Ring 0 is entered at the stubs only.** From an outer ring an interrupt finds a handler
exactly when a stub has its vector, it is no `int` but that for system calls, and the task
state segment names the kernel's data segment for the stack, as it is set to. The processor
is then in ring 0 at the stub, with interrupts off, on the stack of the task state segment,
and has written nowhere else. -/
theorem outer_enters {W : Type} (isrStubTable : Fin isrStubTableLimit → UInt32)
    (tssEntry : UInt32) (zeroExtends : Bool) (s : State W) (cause : Cause)
    (v : Fin idtMaxEntryCount) (errorCode : Option UInt32) (hcpl : 0 < s.cpu.cpl) :
    ((deliver (kernelTables isrStubTable tssEntry) zeroExtends s cause v errorCode).isSome ↔
      v.val < isrStubTableLimit ∧ (cause = .software → v = 0x30) ∧
        (word.get s.ram (tssEntry + 8)).toUInt16 = gdtKernelDataSegmentSelector) ∧
    ∀ s₁, deliver (kernelTables isrStubTable tssEntry) zeroExtends s cause v errorCode = some s₁ →
      s₁.cpu.cpl = 0 ∧ s₁.cpu.eip = isrStubTable (Fin.ofNat isrStubTableLimit v.val) ∧
      s₁.cpu.ss = gdtKernelDataSegmentSelector ∧ s₁.cpu.eflags &&& 0x200 = 0 ∧
      s₁.world = s.world ∧
      ∃ k ≤ 6, s₁.cpu.esp = word.get s.ram (tssEntry + 4) - UInt32.ofNat (4 * k) ∧
        ∀ x, ¬ Span s₁.cpu.esp (4 * k) x → s₁.ram x = s.ram x := by
  have henters : Enters cause v s.cpu.cpl ↔
      v.val < isrStubTableLimit ∧ (cause = .software → v = 0x30) :=
    and_congr_right fun _ => forall_congr' fun _ =>
      or_iff_right (Nat.ne_of_gt hcpl)
  have hstack : StackNamed tssEntry s ↔
      (word.get s.ram (tssEntry + 8)).toUInt16 = gdtKernelDataSegmentSelector :=
    forall_prop_of_true hcpl
  have hiff := and_congr henters hstack
  rw [and_assoc] at hiff
  rw [deliver_kernel]
  constructor
  · rw [← hiff]
    split
    · rename_i h
      exact iff_of_true rfl h
    · rename_i h
      exact iff_of_false Bool.false_ne_true h
  · intro s₁ h
    split at h
    next hready =>
      cases h
      obtain ⟨csWord, ssWord, _, _, _, _, hworld, hgrown⟩ :=
        entered_grown isrStubTable tssEntry zeroExtends s v errorCode
      have htop : handlerStack tssEntry s = word.get s.ram (tssEntry + 4) := if_pos hcpl
      rw [htop, if_pos hcpl] at hgrown
      have hss : (entered isrStubTable tssEntry zeroExtends s v errorCode).cpu.ss =
          gdtKernelDataSegmentSelector :=
        (entered_ss isrStubTable tssEntry zeroExtends s v errorCode hcpl).trans (hstack.mp hready.2)
      refine ⟨entered_cpl isrStubTable tssEntry zeroExtends s v errorCode, rfl, hss, ?_, hworld, _,
        ?_, hgrown.pointer, hgrown.outside⟩
      · show s.cpu.eflags &&& ~~~gateFlags &&& 0x200 = 0
        have hmask : ~~~gateFlags &&& 0x200 = 0 := by decide
        rw [UInt32.and_assoc, hmask, UInt32.and_zero]
      · cases errorCode <;> simp
    next => cases h

/-! ## Leaving ring 0 -/

/-- `set_tss_kernel_current_stack`: its caller's stack pointer, from `ebp` of the function's
own frame, goes to `esp0`. -/
def setTssKernelCurrentStack {W : Type} (tssEntry ebp : UInt32) (s : State W) : State W :=
  { s with ram := word.put s.ram (tssEntry + 4) (ebp + 8) }

/-- The registers a program starts with: the memory for it begins at `address`. -/
def startRegisters (cpu : Cpu) (address : UInt32) : Cpu :=
  { cpu with
    eax := address
    ecx := address
    esp := address + (0x400000 - 4)
    cs := gdtUserCodeSegmentSelector ||| 3
    ss := gdtUserDataSegmentSelector ||| 3
    ds := gdtUserDataSegmentSelector ||| 3
    es := gdtUserDataSegmentSelector ||| 3
    fs := gdtUserDataSegmentSelector ||| 3
    gs := gdtUserDataSegmentSelector ||| 3
    eip := address
    eflags := cpu.eflags &&& 0xFCFFFF }

theorem startRegisters_isUser (cpu : Cpu) (address : UInt32) :
    (startRegisters cpu address).IsUser :=
  ⟨rfl, rfl, fun r => by cases r <;> rfl⟩

section Start
variable {W F : Type} (t : Tables) (e : Leeway)
  (handler : InterruptFrame → Ram → W → Except F (Ram × W)) (c : Cpu) (a p : UInt32) (ram : Ram)
  (world : W)

/-- The states on the way: what changes is `eax`, the stack pointer and memory. -/
def working : State W := ⟨{ c with eax := a, esp := p }, ram, world⟩

theorem working_pushEax : exec t e handler (working c a p ram world) .pushEax =
    .ok (working c a (p - 4) (word.put ram (p - 4) a) world) := rfl

theorem working_pushf : exec t e handler (working c a p ram world) .pushf =
    .ok (working c a (p - 4) (word.put ram (p - 4) (c.eflags &&& 0xFCFFFF)) world) := rfl

theorem working_movEax (w : UInt32) : exec t e handler (working c a p ram world) (.movEax w) =
    .ok (working c w p ram world) := rfl

theorem working_movEaxEcx : exec t e handler (working c a p ram world) .movEaxEcx =
    .ok (working c c.ecx p ram world) := rfl

theorem working_addEax (w : UInt32) : exec t e handler (working c a p ram world) (.addEax w) =
    .ok (working (c.added e.eflags) (a + w) p ram world) := rfl

/-- The part of `kernel_execute_user_program` that builds what `iret` takes. -/
theorem pushStart_run : ∃ ram', execAll t e handler (working c a p ram world)
      [.pushEax, .movEaxEcx, .addEax (0x400000 - 4), .pushEax, .pushf, .movEax (0x18 ||| 0x3),
        .pushEax, .movEaxEcx, .pushEax] =
      .ok (working (c.added e.eflags) c.ecx (p - 4 - 4 - 4 - 4 - 4) ram' world) ∧
    Grown word ram p ram' (p - 4 - 4 - 4 - 4 - 4)
      [c.ecx, 0x18 ||| 0x3, (c.added e.eflags).eflags &&& 0xFCFFFF, c.ecx + (0x400000 - 4),
        a] := by
  have h0 := Grown.nil (c := word) ram p
  have h1 := h0.push (by decide) a
  have h2 := h1.push (by simp only [List.length_cons]; decide) (c.ecx + (0x400000 - 4))
  have h3 := h2.push (by simp only [List.length_cons]; decide)
    ((c.added e.eflags).eflags &&& 0xFCFFFF)
  have h4 := h3.push (by simp only [List.length_cons]; decide) (0x18 ||| 0x3)
  have h5 := h4.push (by simp only [List.length_cons]; decide) c.ecx
  refine ⟨_, ?_, h5⟩
  rw [execAll_cons t e handler (working_pushEax t e handler c _ _ _ world),
    execAll_cons t e handler (working_movEaxEcx t e handler c _ _ _ world),
    execAll_cons t e handler (working_addEax t e handler c _ _ _ world _),
    execAll_cons t e handler (working_pushEax t e handler _ _ _ _ world),
    execAll_cons t e handler (working_pushf t e handler _ _ _ _ world),
    execAll_cons t e handler (working_movEax t e handler _ _ _ _ world _),
    execAll_cons t e handler (working_pushEax t e handler _ _ _ _ world),
    execAll_cons t e handler (working_movEaxEcx t e handler _ _ _ _ world),
    execAll_cons t e handler (working_pushEax t e handler _ _ _ _ world), execAll]
  rfl

end Start

section Execute
variable {W F : Type} (isrStubTable : Fin isrStubTableLimit → UInt32) (tssEntry : UInt32)
  (e : Leeway) (handler : InterruptFrame → Ram → W → Except F (Ram × W))

/-- **Into ring 3.** `kernel_execute_user_program`, called with an address: the program
begins there with the user segments, its stack ends 4 MiB further on, and of memory only
the 20 bytes below the kernel's stack pointer change. -/
theorem executeUserProgram_starts (s : State W) (hcpl : s.cpu.cpl = 0) :
    ∃ ram', execAll (kernelTables isrStubTable tssEntry) e handler s kernelExecuteUserProgram =
        .ok ⟨startRegisters (s.cpu.added e.eflags) (word.get s.ram (s.cpu.esp + 4)), ram',
          s.world⟩ ∧
      ∀ x, ¬ Span (s.cpu.esp - 20) 20 x → ram' x = s.ram x := by
  let address := word.get s.ram (s.cpu.esp + 4)
  let c : Cpu := { s.cpu with ds := 0x23, es := 0x23, fs := 0x23, gs := 0x23, ecx := address }
  have hsegments : execAll (kernelTables isrStubTable tssEntry) e handler s
      [.movEax (0x20 ||| 0x3), .movSegmentAx .ds, .movSegmentAx .es, .movSegmentAx .fs,
        .movSegmentAx .gs, .movEcxStack 4] = .ok (working c 0x23 s.cpu.esp s.ram s.world) := rfl
  obtain ⟨ram', hpush, hgrown⟩ := pushStart_run (kernelTables isrStubTable tssEntry) e handler c
    0x23 s.cpu.esp s.ram s.world
  have hlow : s.cpu.esp - 4 - 4 - 4 - 4 - 4 = s.cpu.esp - 20 := hgrown.pointer
  rw [hlow] at hpush hgrown
  have hholds := hgrown.holds
  generalize hk : working (c.added e.eflags) c.ecx (s.cpu.esp - 20) ram' s.world = k at hpush
  have hreturn : word.Holds k.ram k.cpu.esp [address, 0x18 ||| 0x3,
      (s.cpu.added e.eflags).eflags &&& 0xFCFFFF, address + (0x400000 - 4), 0x23] := by
    rw [← hk]
    exact hholds
  have h0 : k.top 0 = address := hreturn.get 0 (by simp)
  have h1 : (k.top 1).toUInt16 = 0x1B := congrArg UInt32.toUInt16 (hreturn.get 1 (by simp))
  have h2 : k.top 2 = (s.cpu.added e.eflags).eflags &&& 0xFCFFFF := hreturn.get 2 (by simp)
  have h3 : k.top 3 = address + (0x400000 - 4) := hreturn.get 3 (by simp)
  have h4 : (k.top 4).toUInt16 = 0x23 := congrArg UInt32.toUInt16 (hreturn.get 4 (by simp))
  have hring : k.cpu.cpl = 0 := by
    rw [← hk]
    exact hcpl
  have hdata : retained (kernelTables isrStubTable tssEntry) ((0x1B : UInt16).toNat % 4) 0x23 =
      0x23 := retained_userData isrStubTable tssEntry
  have hiret : exec (kernelTables isrStubTable tssEntry) e handler k .iret =
      .ok ⟨startRegisters (s.cpu.added e.eflags) address, ram', s.world⟩ := by
    refine congrArg Except.ok ((iret_outer _ k (by rw [h1, hring]; decide)).trans ?_)
    rw [h0, h1, h2, h3, h4, ← hk]
    simp only [working, c, Cpu.added, hdata]
    rfl
  refine ⟨ram', ?_, hgrown.outside⟩
  have hcode : kernelExecuteUserProgram = [.movEax (0x20 ||| 0x3), .movSegmentAx .ds,
      .movSegmentAx .es, .movSegmentAx .fs, .movSegmentAx .gs, .movEcxStack 4] ++
    ([.pushEax, .movEaxEcx, .addEax (0x400000 - 4), .pushEax, .pushf, .movEax (0x18 ||| 0x3),
        .pushEax, .movEaxEcx, .pushEax] ++ [.iret]) := rfl
  rw [hcode, execAll_append _ e handler hsegments, execAll_append _ e handler hpush,
    execAll_cons _ e handler hiret, execAll]

/-- **A program starts.** `set_tss_kernel_current_stack` and `kernel_execute_user_program`,
from ring 0 and with the stack apart from the entry of the task state segment, whose `ss0` is
as it is set to: the program runs with its first registers, and handlers will find the
kernel's stack. -/
theorem program_starts (l : Layout) (ebp : UInt32) (s : State W) (hcpl : s.cpu.cpl = 0)
    (hesp0 : ebp + 8 = l.esp0)
    (hss0 : (word.get s.ram (l.tssEntry + 8)).toUInt16 = gdtKernelDataSegmentSelector)
    (hstack : ∀ x, Span (s.cpu.esp - 20) 28 x → ¬ Span (l.tssEntry + 4) 8 x) :
    ∃ s', execAll (kernelTables isrStubTable l.tssEntry) e handler
        (setTssKernelCurrentStack l.tssEntry ebp s) kernelExecuteUserProgram = .ok s' ∧
      s'.cpu = startRegisters (s.cpu.added e.eflags) (word.get s.ram (s.cpu.esp + 4)) ∧
      s'.world = s.world ∧ Running l s' ∧
      ∀ x, ¬ Span (s.cpu.esp - 20) 20 x → ¬ Span (l.tssEntry + 4) 4 x → s'.ram x = s.ram x := by
  obtain ⟨ram', hrun, hout⟩ := executeUserProgram_starts isrStubTable l.tssEntry e handler
    (setTssKernelCurrentStack l.tssEntry ebp s) hcpl
  have hcpu : (setTssKernelCurrentStack l.tssEntry ebp s).cpu = s.cpu := rfl
  have hram : (setTssKernelCurrentStack l.tssEntry ebp s).ram =
      word.put s.ram (l.tssEntry + 4) (ebp + 8) := rfl
  rw [hcpu, hram] at hrun hout
  -- the argument lies above the words that are pushed, and apart from the entry
  have hargument : word.get (word.put s.ram (l.tssEntry + 4) (ebp + 8)) (s.cpu.esp + 4) =
      word.get s.ram (s.cpu.esp + 4) := by
    refine word.get_congr fun x hx => word.put_outside fun ht =>
      hstack x ?_ (span_stack (Or.inl ht))
    have hadd : s.cpu.esp - 20 + UInt32.ofNat 24 = s.cpu.esp + 4 :=
      (add_ofNat_add (s.cpu.esp - 20) 20 4).symm.trans
        (congrArg (· + UInt32.ofNat 4) (sub_add_ofNat s.cpu.esp 20))
    rw [← hadd] at hx
    exact ((span_add (by decide)).mp hx).2
  rw [hargument] at hrun
  have hkeep : ∀ x, Span (l.tssEntry + 4) 4 x ∨ Span (l.tssEntry + 8) 4 x →
      ram' x = word.put s.ram (l.tssEntry + 4) (ebp + 8) x := fun x hx =>
    hout x fun hlow => hstack x (hlow.mono (by decide)) (span_stack hx)
  refine ⟨_, hrun, rfl, rfl, ⟨startRegisters_isUser _ _, ?_, ?_⟩, fun x hx ht => ?_⟩
  · exact (word.get_congr fun x hx => hkeep x (Or.inl hx)).trans
      ((word.get_put _ _ _).trans hesp0)
  · refine (congrArg UInt32.toUInt16 (word.get_congr fun x hx => ?_)).trans hss0
    exact (hkeep x (Or.inr hx)).trans (word.put_outside (span_apart hx))
  · exact (hout x hx).trans (word.put_outside ht)

end Execute

/-! ## The first 4 MiB -/

/-- A program in the first 4 MiB, and 2 MiB for the handlers. -/
def lowLayout : Layout where
  user x := x.toNat < 0x400000
  tssEntry := 0xC0100000
  esp0 := 0xC0400000
  depth := 0x1FFFB4
  fits := by decide
  stack_apart x hx hs := by
    have hlt : (x - 0xC0200000).toNat < 0x200000 := hs
    simp only [UInt32.toNat_sub, UInt32.toNat_ofNat] at hlt
    omega
  task_apart x hx := by
    have hlt : (x - 0xC0100004).toNat < 8 := hx
    simp only [UInt32.toNat_sub, UInt32.toNat_ofNat] at hlt
    refine ⟨fun hu => ?_, fun hs => ?_⟩
    · omega
    · have hlt' : (x - 0xC0200000).toNat < 0x200000 := hs
      simp only [UInt32.toNat_sub, UInt32.toNat_ofNat] at hlt'
      omega

/-- The registers of ring 0, all others zero. -/
def kernelRegisters : Cpu :=
  ⟨0, 0, 0, 0, 0xC03FFFF8, 0, 0, 0, 8, 0x10, 0x10, 0x10, 0x10, 0x10, 0, 0⟩

/-- `_interrupt_tss_entry` as the kernel is loaded, all other memory zero. -/
def interruptTssEntry (tssEntry : UInt32) : Ram :=
  word.put (fun _ => 0) (tssEntry + 8) gdtKernelDataSegmentSelector.toUInt32

theorem interruptTssEntry_ss0 (tssEntry : UInt32) :
    (word.get (interruptTssEntry tssEntry) (tssEntry + 8)).toUInt16 =
      gdtKernelDataSegmentSelector :=
  congrArg UInt32.toUInt16 (word.get_put _ _ _)

/-- The same once the stack for the handlers is put there. -/
def readyTssEntry (tssEntry esp0 : UInt32) : Ram :=
  word.put (interruptTssEntry tssEntry) (tssEntry + 4) esp0

theorem readyTssEntry_esp0 (tssEntry esp0 : UInt32) :
    word.get (readyTssEntry tssEntry esp0) (tssEntry + 4) = esp0 := word.get_put _ _ _

theorem readyTssEntry_ss0 (tssEntry esp0 : UInt32) :
    (word.get (readyTssEntry tssEntry esp0) (tssEntry + 8)).toUInt16 =
      gdtKernelDataSegmentSelector := by
  refine (congrArg UInt32.toUInt16 (word.get_congr fun x hx => ?_)).trans
    (interruptTssEntry_ss0 tssEntry)
  exact word.put_outside (span_apart hx)

/-- A system call. -/
theorem outer_enters_program : ∃ s₁,
    deliver (kernelTables (fun v => 0xC0101000 + UInt32.ofNat v) 0xC0100000) true
      ⟨startRegisters kernelRegisters 0, readyTssEntry 0xC0100000 0xC0400000, ()⟩
      .software 0x30 none = some s₁ ∧ s₁.cpu.cpl = 0 ∧ s₁.cpu.eip = 0xC0101030 ∧
    s₁.cpu.ss = 0x10 ∧ s₁.cpu.eflags &&& 0x200 = 0 ∧
    ∃ k ≤ 6, s₁.cpu.esp = 0xC0400000 - UInt32.ofNat (4 * k) := by
  obtain ⟨hiff, hstate⟩ := outer_enters (fun v => 0xC0101000 + UInt32.ofNat v) 0xC0100000 true
    ⟨startRegisters kernelRegisters 0, readyTssEntry 0xC0100000 0xC0400000, ()⟩ .software 0x30 none
    (by decide)
  obtain ⟨s₁, hs₁⟩ := Option.isSome_iff_exists.mp
    (hiff.mpr ⟨by decide, fun _ => rfl, readyTssEntry_ss0 _ _⟩)
  obtain ⟨hcpl, heip, hss, hflag, _, k, hk, hesp, _⟩ := hstate s₁ hs₁
  rw [readyTssEntry_esp0] at hesp
  exact ⟨s₁, hs₁, hcpl, heip, hss, hflag, k, hk, hesp⟩

def zeroLeeway : Leeway := ⟨true, 0, 4, fun _ => 0, 0, 0, 0, 0⟩

theorem program_starts_low : ∃ s', execAll (F := Empty) (kernelTables (fun _ => 0) 0xC0100000)
      zeroLeeway (fun _ ram world => .ok (ram, world)) (setTssKernelCurrentStack 0xC0100000
        0xC03FFFF8 ⟨kernelRegisters, interruptTssEntry 0xC0100000, ()⟩) kernelExecuteUserProgram =
      .ok s' ∧
    Running lowLayout s' := by
  obtain ⟨s', hrun, _, _, hrunning, _⟩ := program_starts (F := Empty) (fun _ => 0) zeroLeeway
    (fun _ ram world => .ok (ram, world)) lowLayout 0xC03FFFF8
    ⟨kernelRegisters, interruptTssEntry 0xC0100000, ()⟩ rfl rfl (interruptTssEntry_ss0 0xC0100000)
    fun x hx ht => by
      have hlt : (x - 0xC03FFFE4).toNat < 28 := hx
      have hlt' : (x - 0xC0100004).toNat < 8 := ht
      simp only [UInt32.toNat_sub, UInt32.toNat_ofNat] at hlt hlt'
      omega
  exact ⟨s', hrun, hrunning⟩

end KajijOSta.Interrupts
