import KajijOSta.Interrupts.Syscall
import KajijOSta.Interrupts.UserProgram

/-! # Interrupts between the steps of a program

A program in ring 3 takes steps on its own memory and asks for system calls; between any
two steps devices may interrupt it. What it computes, and what it does to the file system,
does not depend on when they do (`interrupts_invisible`). -/
namespace KajijOSta.Interrupts
open KajijOSta.WordStack KajijOSta.Fat32 KajijOSta.Runs KajijOSta.Lockstep

/-! ## One interrupt -/

/-- An interrupt with its handler; `none` among the errors: no handler can be entered. -/
def interrupted {W F : Type} (t : Tables) (e : Leeway)
    (handler : InterruptFrame → Ram → W → Except F (Ram × W)) (s : State W) (cause : Cause)
    (v : Fin idtMaxEntryCount) (errorCode : Option UInt32) : Except (Option F) (State W) :=
  match deliver t e.zeroExtends s cause v errorCode with
  | none => .error none
  | some s₁ => (execAll t e handler s₁ (interruptHandler v.val)).mapError some

/-! ## One interrupt, for a program -/

section Interrupt
variable {W F : Type} {l : Layout} {s : State W} (isrStubTable : Fin isrStubTableLimit → UInt32)
  (handler : InterruptFrame → Ram → W → Except F (Ram × W))

/-- What an interrupt puts on the stack is part of it. -/
theorem Running.stackArea (h : Running l s) (e : l.Calls) {x : UInt32}
    (hx : StackArea l.tssEntry e.val s x) : l.Stack x := by
  have hring : 0 < s.cpu.cpl := by
    rw [h.user.cpl]
    decide
  have hcount : savedCount s.cpu = 19 := if_pos hring
  have htop : handlerStack l.tssEntry s = l.esp0 := (if_pos hring).trans h.esp0
  unfold StackArea at hx
  rw [hcount, htop, sub_ofNat_add, Nat.add_comm _ (4 * 19), Nat.add_comm (4 * 19)] at hx
  exact Span.below (k := e.val.depth + 76) (j := 0) hx (Nat.add_le_add_right e.property.2 _) l.fits

/-- **An interrupt is a call of the C function.** It comes to the function as a call with a
frame for the program, and leaves what the function leaves, but for the stack. -/
theorem Running.interrupted (h : Running l s) (e : l.Calls) (cause : Cause)
    (v : Fin idtMaxEntryCount) (henters : Enters cause v s.cpu.cpl)
    (hcode : v.val ∉ errorCodeVectors) :
    ∃ frame ram, frame.Describes s.cpu v.val 0 ∧ (∀ x, ¬ l.Stack x → ram x = s.ram x) ∧
      ((∀ ram' world, handler frame ram s.world = .ok (ram', world) →
          ∀ x, l.Stack x → ram' x = ram x) →
        Matches (fun (x : Ram × W) (s' : State W) => s'.cpu = s.cpu ∧ s'.world = x.2 ∧
            ∀ a, ¬ l.Stack a → s'.ram a = x.1 a)
          ((handler frame ram s.world).mapError some)
          (Interrupts.interrupted (kernelTables isrStubTable l.tssEntry) e.val handler s cause v
            none)) := by
  have hstack := fun x => h.stackArea e (x := x)
  have hfits : e.val.depth + 76 ≤ 2 ^ 32 :=
    Nat.le_trans (Nat.add_le_add_right e.property.2 _) l.fits
  obtain ⟨s₁, frame, ram, hdeliver, _, _, hframe, hram, herror, hrun⟩ :=
    interrupt_transparent isrStubTable l.tssEntry e.val handler s cause v none henters
      h.stackNamed (by simp [hcode]) (fun _ r => h.user.retained isrStubTable l.tssEntry r)
      e.property.1 hfits
  refine ⟨frame, ram, hframe, fun x hx => hram x fun hin => hx (hstack x hin), fun hkeep => ?_⟩
  unfold Interrupts.interrupted
  rw [hdeliver]
  cases hcall : handler frame ram s.world with
  | error f =>
    simp only [herror f hcall, Except.mapError]
    exact .error (some f)
  | ok x =>
    obtain ⟨ram'', hback, hout⟩ := hrun x.1 x.2 hcall fun a ha =>
      hkeep x.1 x.2 hcall a (hstack a ((savedArea_iff l.tssEntry e.val s hfits a).mp ha).2)
    simp only [hback, Except.mapError]
    exact .ok ⟨rfl, rfl, fun a ha => hout a fun hin => ha (hstack a hin)⟩

end Interrupt

/-! ## System calls -/

/-- A call that keeps to the program's memory: it does not ask for keys, and what it says
of files and where it wants the answer lies within. -/
structure ProperCall (user : UInt32 → Prop) (cpu : Cpu) (ram : Ram) : Prop where
  keys : cpu.eax.toNat ≠ 4
  request : cpu.eax.toNat < 4 → ∀ i < sizeofRequest, user (cpu.ebx + UInt32.ofNat i)
  buffer : cpu.eax.toNat < 4 → ∀ i < replyReach, user (word.get ram cpu.ebx + UInt32.ofNat i)
  result : cpu.eax.toNat < 4 → user cpu.ecx

theorem ProperCall.congr {user : UInt32 → Prop} {cpu : Cpu} {ram ram' : Ram}
    (h : ProperCall user cpu ram) (hram : ∀ a, user a → ram' a = ram a) :
    ProperCall user cpu ram' where
  keys := h.keys
  request := h.request
  buffer hlt i hi := by
    rw [requestAt_pointer fun i hi => hram _ (h.request hlt i hi)]
    exact h.buffer hlt i hi
  result := h.result

/-- The same for what can be seen of it: memory of the program, and the file system. -/
structure SameResult (user : UInt32 → Prop) (x y : Ram × Kernel) : Prop where
  ram : ∀ a, user a → y.1 a = x.1 a
  machine : x.2.machine.SameState y.2.machine

theorem syscall_quiet {frame : InterruptFrame} (ram : Ram) (k : Kernel)
    (h : 5 ≤ frame.cpu.general.eax.toNat) :
    ∃ console, syscall frame ram k = .ok (ram, { k with console := console }) := by
  simp only [syscall]
  split
  all_goals first | exact ⟨_, rfl⟩ | omega

theorem FileOperation.exists_number {n : Nat} (h : n < 4) :
    ∃ op : FileOperation, op.number = n := by
  match n, h with
  | 0, _ => exact ⟨.read, rfl⟩
  | 1, _ => exact ⟨.readDirectory, rfl⟩
  | 2, _ => exact ⟨.write, rfl⟩
  | 3, _ => exact ⟨.delete, rfl⟩

theorem FileOperation.call_withBuf (op : FileOperation) (r : FAT32DriverRequest) (buf : Memory) :
    op.call { r with buf := buf } = (op.call r).withBuf buf := by
  cases op <;> rfl

section Calls
variable {user : UInt32 → Prop} {cpu : Cpu} {frame frame' : InterruptFrame} {ram ram' : Ram}
  {k k' : Kernel}

/-- What a file call does to memory. -/
theorem fileCall_confined {op : FileOperation} (hp : ProperCall user cpu ram)
    (hnumber : cpu.eax.toNat < 4) (hebx : frame.cpu.general.ebx = cpu.ebx)
    (hecx : frame.cpu.general.ecx = cpu.ecx) {ram₁ : Ram} {k₁ : Kernel}
    (h : fileCall op.call frame.cpu.general ram k = .ok (ram₁, k₁)) {a : UInt32} (ha : ¬ user a) :
    ram₁ a = ram a := by
  unfold fileCall at h
  rw [hebx, hecx] at h
  cases hs : serve k.machine (op.call (requestAt ram cpu.ebx)) with
  | error f => simp [hs, Except.map] at h
  | ok x =>
    simp only [hs, Except.map] at h
    cases h
    have hne : a ≠ cpu.ecx := fun heq => ha (heq ▸ hp.result hnumber)
    have hfar : replyReach ≤ (a - word.get ram cpu.ebx).toNat := by
      by_contra hlt
      obtain ⟨i, hi, rfl⟩ := span_index (Nat.lt_of_not_le hlt)
      exact ha (hp.buffer hnumber i hi)
    rw [Function.update_of_ne hne]
    have hreach : x.1.buf (a - word.get ram cpu.ebx).toNat =
        (op.call (requestAt ram cpu.ebx)).request.buf (a - word.get ram cpu.ebx).toNat :=
      serve_reach (show serve k.machine _ = .ok (x.1, x.2) from hs) hfar
    refine hreach.trans ?_
    rw [FileOperation.call_request]
    exact congrFun (unview_view ram (word.get ram cpu.ebx)) a

/-- A file call on two memories that the program cannot tell apart. -/
theorem fileCall_same {op : FileOperation} (hp : ProperCall user cpu ram)
    (hnumber : cpu.eax.toNat < 4) (hebx : frame.cpu.general.ebx = cpu.ebx)
    (hecx : frame.cpu.general.ecx = cpu.ecx) (hebx' : frame'.cpu.general.ebx = cpu.ebx)
    (hecx' : frame'.cpu.general.ecx = cpu.ecx) (hram : ∀ a, user a → ram' a = ram a)
    (hm : k.machine.SameState k'.machine) :
    Matches (SameResult user) (fileCall op.call frame.cpu.general ram k)
      (fileCall op.call frame'.cpu.general ram' k') := by
  have hsame : ∀ i < sizeofRequest,
      ram' (cpu.ebx + UInt32.ofNat i) = ram (cpu.ebx + UInt32.ofNat i) :=
    fun i hi => hram _ (hp.request hnumber i hi)
  unfold fileCall
  have hcall := op.call_withBuf (requestAt ram cpu.ebx) (view ram' (word.get ram cpu.ebx))
  rw [hebx, hecx, hebx', hecx', requestAt_congr hsame, requestAt_pointer hsame, hcall]
  refine (serve_congr (S := fun j => user (word.get ram cpu.ebx + UInt32.ofNat j)) hm
    (op.call (requestAt ram cpu.ebx)) (hp.buffer hnumber) fun j hj => ?_).map fun x y h => ?_
  · rw [FileOperation.call_request]
    exact hram _ hj
  · refine ⟨fun a ha => ?_, h.machine⟩
    simp only [Function.update_apply, unview, h.code]
    split
    · rfl
    · refine h.buf _ ?_
      rw [UInt32.ofNat_toNat, UInt32.add_comm, UInt32.sub_add_cancel]
      exact ha

theorem handler_other (ram : Ram) (k : Kernel) (hint : frame.intNumber = syscallVector)
    (h : 5 ≤ frame.cpu.general.eax.toNat) :
    ∃ console, mainInterruptHandler frame ram k = .ok (ram, { k with console := console }) := by
  obtain ⟨console, hcall⟩ := syscall_quiet ram k h
  refine ⟨console, ?_⟩
  have hkeyboard : frame.intNumber ≠ irqKeyboardVector := by
    rw [hint]
    decide
  unfold mainInterruptHandler
  rw [if_neg hkeyboard, if_pos hint, hcall]

theorem ProperCall.cases (h : ProperCall user cpu ram) :
    cpu.eax.toNat < 4 ∨ 5 ≤ cpu.eax.toNat := by
  have := h.keys
  omega

/-- A proper system call writes to the program's memory only. -/
theorem handler_confined (hp : ProperCall user cpu ram)
    (hd : frame.Describes cpu (0x30 : Fin idtMaxEntryCount).val 0) {ram₁ : Ram} {k₁ : Kernel}
    (h : mainInterruptHandler frame ram k = .ok (ram₁, k₁)) {a : UInt32} (ha : ¬ user a) :
    ram₁ a = ram a := by
  rcases hp.cases with hlt | hge
  · obtain ⟨op, hop⟩ := FileOperation.exists_number hlt
    rw [handler_fileCall op hd.intNumber (by rw [hd.eax, hop])] at h
    exact fileCall_confined hp hlt hd.ebx hd.ecx h ha
  · obtain ⟨console, hcall⟩ := handler_other ram k hd.intNumber
      (by rw [hd.eax]; exact hge)
    rw [hcall] at h
    cases h
    rfl

/-- A proper system call from two memories that the program cannot tell apart. -/
theorem handler_same (hp : ProperCall user cpu ram)
    (hd : frame.Describes cpu (0x30 : Fin idtMaxEntryCount).val 0)
    (hd' : frame'.Describes cpu (0x30 : Fin idtMaxEntryCount).val 0)
    (hram : ∀ a, user a → ram' a = ram a) (hm : k.machine.SameState k'.machine) :
    Matches (SameResult user) (mainInterruptHandler frame ram k)
      (mainInterruptHandler frame' ram' k') := by
  rcases hp.cases with hlt | hge
  · obtain ⟨op, hop⟩ := FileOperation.exists_number hlt
    rw [handler_fileCall op hd.intNumber (by rw [hd.eax, hop]),
      handler_fileCall op hd'.intNumber (by rw [hd'.eax, hop])]
    exact fileCall_same hp hlt hd.ebx hd.ecx hd'.ebx hd'.ecx hram hm
  · obtain ⟨console, hcall⟩ := handler_other ram k hd.intNumber
      (by rw [hd.eax]; exact hge)
    obtain ⟨console', hcall'⟩ := handler_other ram' k' hd'.intNumber
      (by rw [hd'.eax]; exact hge)
    rw [hcall, hcall']
    exact .ok ⟨hram, hm⟩

/-- A device's interrupt leaves memory and the file system alone. -/
theorem handler_device (ram : Ram) (k : Kernel) {v : Nat} (hd : frame.Describes cpu v 0)
    (hv : UInt32.ofNat v ≠ syscallVector) :
    ∃ console, mainInterruptHandler frame ram k = .ok (ram, { k with console := console }) := by
  unfold mainInterruptHandler
  rw [hd.intNumber, if_neg hv]
  split
  · exact ⟨_, rfl⟩
  · exact ⟨k.console, rfl⟩

end Calls

/-! ## Programs -/

/-- What a program does next: its instruction's result, or `int 0x30` with the registers as
they are behind it. -/
inductive Action
  | go (cpu : Cpu) (ram : Ram)
  | call (cpu : Cpu)

/-- The same action, on memories that are the same where `user` holds. -/
inductive SameAction (user : UInt32 → Prop) : Action → Action → Prop
  | go (cpu : Cpu) {ram ram' : Ram} (h : ∀ a, user a → ram' a = ram a) :
    SameAction user (.go cpu ram) (.go cpu ram')
  | call (cpu : Cpu) : SameAction user (.call cpu) (.call cpu)

/-- An action that stays in ring 3 and in the program's memory. -/
def Action.Keeps (user : UInt32 → Prop) (ram : Ram) : Action → Prop
  | .go cpu ram' => cpu.IsUser ∧ ∀ a, ¬ user a → ram' a = ram a
  | .call cpu => cpu.IsUser ∧ ProperCall user cpu ram

/-- A program that keeps to its memory, and to the segments it was started with. -/
structure UserProgram (user : UInt32 → Prop) where
  next : Cpu → Ram → Action
  keeps : ∀ cpu ram, cpu.IsUser → (next cpu ram).Keeps user ram
  sees : ∀ cpu ram ram', (∀ a, user a → ram' a = ram a) →
    SameAction user (next cpu ram) (next cpu ram')

/-! ## Runs -/

def irqVector (line : Fin 16) : Fin idtMaxEntryCount := ⟨0x20 + line.val, by
  have := line.isLt
  simp only [idtMaxEntryCount]
  omega⟩

/-- What happens next: the program takes a step, or a device interrupts it, with a
scancode at the keyboard's port. -/
inductive Event (l : Layout)
  | step (e : l.Calls)
  | interrupt (e : l.Calls) (line : Fin 16) (scancode : UInt8)

namespace Event

def isStep {l : Layout} : Event l → Bool
  | .step _ => true
  | .interrupt _ _ _ => false

end Event

section Advance
variable {l : Layout} (program : UserProgram l.user)
  (isrStubTable : Fin isrStubTableLimit → UInt32)

def advance (s : State Kernel) : Event l → Except (Option Fault) (State Kernel)
  | .step e =>
    match program.next s.cpu s.ram with
    | .go cpu ram => .ok { s with cpu := cpu, ram := ram }
    | .call cpu => interrupted (kernelTables isrStubTable l.tssEntry) e.val mainInterruptHandler
        { s with cpu := cpu } .software 0x30 none
  | .interrupt e line scancode =>
    interrupted (kernelTables isrStubTable l.tssEntry) e.val mainInterruptHandler
      { s with world.scancode := scancode } .device (irqVector line) none

/-- Two states that a program cannot tell apart. -/
structure Alike (l : Layout) (s s' : State Kernel) : Prop where
  running : Running l s
  running' : Running l s'
  cpu : s'.cpu = s.cpu
  ram : ∀ a, l.user a → s'.ram a = s.ram a
  machine : s.world.machine.SameState s'.world.machine

variable {s s' : State Kernel}

/-- An interrupt of a device is not seen by the program. -/
theorem advance_interrupt (h : Running l s) (e : l.Calls) (line : Fin 16) (scancode : UInt8) :
    ∃ s', advance program isrStubTable s (.interrupt e line scancode) = .ok s' ∧ Running l s' ∧
      s'.cpu = s.cpu ∧ (∀ a, l.user a → s'.ram a = s.ram a) ∧
      s'.world.machine = s.world.machine := by
  have h₀ : Running l { s with world.scancode := scancode } := ⟨h.user, h.esp0, h.ss0⟩
  have hvector : (irqVector line).val < 0x30 := by
    have := line.isLt
    simp only [irqVector]
    omega
  have hcode : (irqVector line).val ∉ errorCodeVectors := by
    revert line
    decide
  have hcall : UInt32.ofNat (irqVector line).val ≠ syscallVector := by
    revert line
    decide
  obtain ⟨frame, ram, hd, hram, hmatch⟩ := h₀.interrupted isrStubTable mainInterruptHandler e
    .device (irqVector line)
    ⟨Nat.lt_trans hvector (by decide), fun hc => by cases hc⟩ hcode
  obtain ⟨console, hrun⟩ := handler_device ram
    { s.world with scancode := scancode } hd hcall
  obtain ⟨s', hs', hcpu, hworld, hout⟩ := (hmatch fun ram' world hr x _ => by
    rw [hrun] at hr
    cases hr
    rfl).of_ok (congrArg (Except.mapError some) hrun)
  have hsame : ∀ x, ¬ l.Stack x → s'.ram x = s.ram x := fun x hx => (hout x hx).trans (hram x hx)
  refine ⟨s', hs', h.of_same (by rw [hcpu]; exact h.user) fun x _ hx => hsame x hx, hcpu,
    fun a ha => hsame a (l.stack_apart a ha), ?_⟩
  rw [hworld]

/-- A step of the program, in two states that it cannot tell apart. -/
theorem advance_step (h : Alike l s s') (e e' : l.Calls) :
    Matches (Alike l) (advance program isrStubTable s (.step e))
      (advance program isrStubTable s' (.step e')) := by
  have hsees := program.sees s.cpu s.ram s'.ram h.ram
  have hkeeps := program.keeps s.cpu s.ram h.running.user
  have hkeeps' := program.keeps s.cpu s'.ram h.running.user
  unfold advance
  rw [h.cpu]
  cases hn : program.next s.cpu s.ram with
  | go cpu ram =>
    rw [hn] at hsees hkeeps
    cases hn' : program.next s.cpu s'.ram with
    | call cpu' =>
      rw [hn'] at hsees
      cases hsees
    | go cpu' ram' =>
      rw [hn'] at hsees hkeeps'
      cases hsees with
      | go _ hram =>
        refine .ok ⟨h.running.of_same hkeeps.1 fun a ha _ => hkeeps.2 a ha,
          h.running'.of_same hkeeps'.1 fun a ha _ => hkeeps'.2 a ha, rfl, hram, h.machine⟩
  | call cpu =>
    rw [hn] at hsees hkeeps
    cases hn' : program.next s.cpu s'.ram with
    | go cpu' ram' =>
      rw [hn'] at hsees
      cases hsees
    | call cpu' =>
      rw [hn'] at hsees hkeeps'
      cases hsees
      have h₁ : Running l { s with cpu := cpu } := ⟨hkeeps.1, h.running.esp0, h.running.ss0⟩
      have h₂ : Running l { s' with cpu := cpu } :=
        ⟨hkeeps.1, h.running'.esp0, h.running'.ss0⟩
      obtain ⟨frame₁, ram₁, hd₁, hram₁, hmatch₁⟩ := h₁.interrupted isrStubTable
        mainInterruptHandler e .software 0x30 ⟨by decide, fun _ => Or.inr rfl⟩
        (by decide)
      obtain ⟨frame₂, ram₂, hd₂, hram₂, hmatch₂⟩ := h₂.interrupted isrStubTable
        mainInterruptHandler e' .software 0x30 ⟨by decide, fun _ => Or.inr rfl⟩
        (by decide)
      have hp₁ := hkeeps.2.congr fun a ha => hram₁ a (l.stack_apart a ha)
      have hp₂ := hkeeps'.2.congr fun a ha => hram₂ a (l.stack_apart a ha)
      have hboth : ∀ a, l.user a → ram₂ a = ram₁ a := fun a ha => by
        rw [hram₁ a (l.stack_apart a ha), hram₂ a (l.stack_apart a ha)]
        exact h.ram a ha
      -- neither call writes to what is not the program's
      have hsame := (handler_same hp₁ hd₁ hd₂ hboth h.machine).strengthen
        (fun x hx => show ∀ a, ¬ l.user a → x.1 a = ram₁ a from
          fun a ha => handler_confined hp₁ hd₁ hx ha)
        (fun x hx => show ∀ a, ¬ l.user a → x.1 a = ram₂ a from
          fun a ha => handler_confined hp₂ hd₂ hx ha)
      have hresult := (hsame.mapError some).transport
        (hmatch₁ fun ram' world hr x hx =>
          handler_confined hp₁ hd₁ hr fun hu => l.stack_apart x hu hx)
        (hmatch₂ fun ram' world hr x hx =>
          handler_confined hp₂ hd₂ hr fun hu => l.stack_apart x hu hx)
      refine hresult.mono fun t t' ht => ?_
      obtain ⟨x, y, ⟨hxy, hx, hy⟩, ⟨hcpu, hworld, hout⟩, ⟨hcpu', hworld', hout'⟩⟩ := ht
      refine ⟨h₁.of_same (by rw [hcpu]; exact hkeeps.1) fun a hu hs => ?_,
        h₂.of_same (by rw [hcpu']; exact hkeeps.1) fun a hu hs => ?_, ?_, fun a ha => ?_, ?_⟩
      · rw [hout a hs, hx a hu, hram₁ a hs]
      · rw [hout' a hs, hy a hu, hram₂ a hs]
      · rw [hcpu, hcpu']
      · rw [hout a (l.stack_apart a ha), hout' a (l.stack_apart a ha)]
        exact hxy.ram a ha
      · rw [hworld, hworld']
        exact hxy.machine

/-- **Interrupts are invisible.** Two runs of a program from states that it cannot tell
apart, with as many steps each: wherever devices interrupt them, whatever the keyboard
sends and whatever processor and compiler leave on the stack, the registers, the program's
memory and the file system are the same in the end, or the kernel fails alike. -/
theorem interrupts_invisible (h : Alike l s s') (events events' : List (Event l))
    (hsteps : events.countP Event.isStep = events'.countP Event.isStep) :
    Matches (Alike l) (run (advance program isrStubTable) s events)
      (run (advance program isrStubTable) s' events') := by
  refine lockstep (fun s t a hR hv => ?_) (fun s t a hR hv => ?_) (fun s t a b hR ha hb => ?_) h
    hsteps
  · cases a with
    | step e => cases hv
    | interrupt e line scancode =>
      obtain ⟨s', hs', hrunning, hcpu, hram, hmachine⟩ :=
        advance_interrupt program isrStubTable hR.running e line scancode
      refine ⟨s', hs', hrunning, hR.running', by rw [hcpu, hR.cpu], fun a ha => ?_, ?_⟩
      · rw [hram a ha, hR.ram a ha]
      · rw [hmachine]
        exact hR.machine
  · cases a with
    | step e => cases hv
    | interrupt e line scancode =>
      obtain ⟨t', ht', hrunning, hcpu, hram, hmachine⟩ :=
        advance_interrupt program isrStubTable hR.running' e line scancode
      refine ⟨t', ht', hR.running, hrunning, by rw [hcpu, hR.cpu], fun a ha => ?_, ?_⟩
      · rw [hram a ha, hR.ram a ha]
      · rw [hmachine]
        exact hR.machine
  · cases a with
    | interrupt e line scancode => cases ha
    | step e =>
      cases b with
      | interrupt e' line scancode => cases hb
      | step e' => exact advance_step program isrStubTable hR e e'

end Advance

/-- A program that asks for the request at 0 as long as its buffer is at 0 too. -/
def requestProgram : UserProgram lowLayout.user where
  next cpu ram :=
    if word.get ram 0 = 0 then .call { cpu with eax := 2, ebx := 0, ecx := 0x100 } else .go cpu ram
  keeps cpu ram h := by
    have hlow : ∀ i : Nat, i < 0x400000 → lowLayout.user (0 + UInt32.ofNat i) := by
      intro i hi
      show (0 + UInt32.ofNat i).toNat < 0x400000
      rw [UInt32.zero_add, toNat_ofNat_of_lt (Nat.lt_trans hi (by decide))]
      exact hi
    split
    · rename_i hbuf
      refine ⟨⟨h.cs, h.ss, fun r => ?_⟩, (by decide : 2 ≠ 4), fun _ i hi => ?_,
        fun _ i hi => ?_, fun _ => ?_⟩
      · cases r
        exacts [h.data .ds, h.data .es, h.data .fs, h.data .gs]
      · exact hlow i (Nat.lt_trans hi (by decide))
      · rw [hbuf]
        exact hlow i (Nat.lt_trans hi (by decide))
      · exact hlow 0x100 (by decide)
    · exact ⟨h, fun _ _ => rfl⟩
  sees cpu ram ram' h := by
    have hbuf : word.get ram' 0 = word.get ram 0 := word.get_congr fun x hx => h x (by
      have hlt : (x - 0).toNat < 4 := hx
      rw [UInt32.sub_zero] at hlt
      exact Nat.lt_trans hlt (by decide))
    rw [hbuf]
    split
    · exact .call _
    · exact .go _ h

theorem interrupts_invisible_request :
    let e : lowLayout.Calls := ⟨zeroLeeway, by decide⟩
    Matches (Alike lowLayout)
      (run (advance requestProgram (fun _ => 0)) mkdirState
        [.interrupt e 1 0x1E, .step e, .interrupt e 7 0, .interrupt e 1 0x9E, .step e])
      (run (advance requestProgram (fun _ => 0)) mkdirState [.step e, .step e]) := by
  intro e
  exact interrupts_invisible requestProgram (fun _ => 0)
    ⟨mkdirState_running, mkdirState_running, rfl, fun _ _ => rfl, ⟨rfl, rfl⟩⟩ _ _ rfl

end KajijOSta.Interrupts
