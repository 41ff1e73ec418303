import KajijOSta.Interrupts.Entry
import KajijOSta.Lib.Runs

/-! # The way into a handler

Which interrupts the kernel's tables let in (`deliver_kernel`), and what the processor and
the entry code then put on the stack, up to the call of the C function (`stub_saves`). -/
namespace KajijOSta.Interrupts
open KajijOSta.WordStack

/-! ## The stack -/

section Stack
variable {W F : Type} {m : Ram} {base : UInt32} {s : State W} {ws : List UInt32}

section Registers
variable (cpu : Cpu) (a b : UInt32)

@[simp] theorem withEsp_withEsp : (cpu.withEsp a).withEsp b = cpu.withEsp b := rfl

@[simp] theorem withEsp_esp : (cpu.withEsp a).esp = a := rfl

@[simp] theorem withEsp_cs : (cpu.withEsp a).cs = cpu.cs := rfl

@[simp] theorem withEsp_ss : (cpu.withEsp a).ss = cpu.ss := rfl

end Registers

@[simp] theorem push_cpu (s : State W) (w : UInt32) :
    (s.push w).cpu = s.cpu.withEsp (s.cpu.esp - 4) := rfl

@[simp] theorem push_world (s : State W) (w : UInt32) : (s.push w).world = s.world := rfl

/-- A pushed selector is a word with the selector in its lower half. -/
theorem pushSelector_eq (zeroExtends : Bool) (s : State W) (selector : UInt16) :
    ∃ w : UInt32, w.toUInt16 = selector ∧ s.pushSelector zeroExtends selector = s.push w := by
  cases zeroExtends with
  | true => exact ⟨selector.toUInt32, UInt16.toUInt16_toUInt32 selector, rfl⟩
  | false =>
    refine ⟨_, ?_, rfl⟩
    have hmask : (0xFFFF0000 : UInt32).toUInt16 = 0 := rfl
    rw [UInt32.toUInt16_or, UInt32.toUInt16_and, hmask, UInt16.toUInt16_toUInt32,
      UInt16.and_zero, UInt16.zero_or]

theorem push_grown (h : Grown word m base s.ram s.cpu.esp ws)
    (hfits : 4 * (ws.length + 1) ≤ 2 ^ 32) (w : UInt32) :
    Grown word m base (s.push w).ram (s.push w).cpu.esp (w :: ws) := h.push hfits w

end Stack

/-! ## The tables -/

section Enter
variable {W : Type} (isrStubTable : Fin isrStubTableLimit → UInt32) (tssEntry : UInt32)
  (zeroExtends : Bool) (s : State W) (cause : Cause) (v : Fin idtMaxEntryCount)
  (errorCode : Option UInt32)

/-- A vector has a handler for its cause: it is one of the stubs', and `int` from outside
ring 0 may name the one for system calls only. -/
def Enters (cause : Cause) (v : Fin idtMaxEntryCount) (cpl : Nat) : Prop :=
  v.val < isrStubTableLimit ∧ (cause = .software → cpl = 0 ∨ v = 0x30)

instance (cpl : Nat) : Decidable (Enters cause v cpl) := inferInstanceAs (Decidable (_ ∧ _))

/-- The task state segment names the kernel's data segment, where a handler needs a stack
of its own. -/
def StackNamed : Prop :=
  0 < s.cpu.cpl → (word.get s.ram (tssEntry + 8)).toUInt16 = gdtKernelDataSegmentSelector

instance : Decidable (StackNamed tssEntry s) := inferInstanceAs (Decidable (_ → _))

/-- The state in which the stub of `v` begins. -/
def entered : State W :=
  let inner := if 0 < s.cpu.cpl then
      switchStack (kernelTables isrStubTable tssEntry) zeroExtends s else s
  { pushReturn zeroExtends inner s.cpu errorCode with
    cpu.eip := isrStubTable (Fin.ofNat isrStubTableLimit v.val)
    cpu.cs := gdtKernelCodeSegmentSelector
    cpu.eflags := s.cpu.eflags &&& ~~~gateFlags }

theorem kernelTables_task : (kernelTables isrStubTable tssEntry).task = tssEntry := by
  have hbase :
      ((gdtInstallTss globalDescriptorTable tssEntry).segment 5).base = tssEntry.toNat := by
    rw [gdtInstallTss_segment]
    rfl
  exact (congrArg UInt32.ofNat hbase).trans (UInt32.ofNat_toNat)

theorem kernelTables_code : (kernelTables isrStubTable tssEntry).segmentOf 8 =
    some (flatSegment 0xA 0) := by
  have hcode : (gdtInstallTss globalDescriptorTable tssEntry).segment 1 = flatSegment 0xA 0 := by
    rw [gdtInstallTss_segment]
    rfl
  exact congrArg some hcode

/-- The kernel's data segment is the only one for a stack of ring 0. -/
theorem kernelTables_stack (selector : UInt16) :
    (kernelTables isrStubTable tssEntry).StackSelector 0 selector ↔
      selector = gdtKernelDataSegmentSelector := by
  constructor
  · intro h
    obtain ⟨hring, s, hs, hstack⟩ := h
    unfold Tables.segmentOf at hs
    split at hs
    · rename_i hlt
      obtain rfl := Option.some.inj hs
      have hsegment : (kernelTables isrStubTable tssEntry).gdt ⟨selector.toNat / 8, hlt⟩ = _ :=
        gdtInstallTss_segment tssEntry _
      have hindex : (⟨selector.toNat / 8, hlt⟩ : Fin gdtMaxEntryCount) = 2 := by
        by_contra hne
        rw [hsegment, if_neg hne] at hstack
        split_ifs at hstack <;> simp [flatSegment, Segment.IsStack] at hstack
      have hval : selector.toNat / 8 = 2 := congrArg Fin.val hindex
      exact UInt16.toNat_inj.mp (show selector.toNat = 16 by omega)
    · cases hs
  · rintro rfl
    have hdata : (gdtInstallTss globalDescriptorTable tssEntry).segment 2 = flatSegment 0x2 0 := by
      rw [gdtInstallTss_segment]
      rfl
    exact ⟨by decide, _, congrArg some hdata, by decide⟩

theorem entered_cpl :
    (entered isrStubTable tssEntry zeroExtends s v errorCode).cpu.cpl = 0 := by
  have hcs : (entered isrStubTable tssEntry zeroExtends s v errorCode).cpu.cs =
      gdtKernelCodeSegmentSelector := rfl
  unfold Cpu.cpl
  rw [hcs]
  decide

theorem cpl_lt : s.cpu.cpl < 4 := Nat.mod_lt _ (by decide)

/-- **The tables let in what they should.** -/
theorem deliver_kernel :
    deliver (kernelTables isrStubTable tssEntry) zeroExtends s cause v errorCode =
      if Enters cause v s.cpu.cpl ∧ StackNamed tssEntry s then
        some (entered isrStubTable tssEntry zeroExtends s v errorCode)
      else none := by
  have hgate : (kernelTables isrStubTable tssEntry).idt v = _ := initializeIdt_gate isrStubTable v
  have hcpl := cpl_lt s
  by_cases hv : v.val < isrStubTableLimit
  · rw [if_pos hv] at hgate
    have hopen : (cause = .software → s.cpu.cpl ≤ if v = 0x30 then 3 else 0) ↔
        Enters cause v s.cpu.cpl := by
      unfold Enters
      split
      · rename_i h30
        exact ⟨fun _ => ⟨hv, fun _ => Or.inr h30⟩, fun _ _ => by omega⟩
      · rename_i h30
        exact ⟨fun h => ⟨hv, fun hc => Or.inl (Nat.le_zero.mp (h hc))⟩,
          fun h hc => Nat.le_zero.mpr ((h.2 hc).resolve_right h30)⟩
    have hcode : (flatSegment 0xA 0).IsCode := by decide
    have hdpl : (flatSegment 0xA 0).dpl = 0 := rfl
    unfold deliver
    simp only [hgate, true_and, hopen, kernelTables_code, hcode, hdpl, Nat.zero_le,
      kernelTables_stack, kernelTables_task, UInt32.ofNat_toNat, ite_and]
    rfl
  · rw [if_neg hv] at hgate
    have hclosed : ¬ Enters cause v s.cpu.cpl := fun h => hv h.1
    unfold deliver
    simp only [hgate, Bool.false_eq_true, false_and, if_false, hclosed]

end Enter

/-! ## What is saved -/

/-- The words in which selectors are pushed. -/
structure SelectorWords where
  ds : UInt32
  es : UInt32
  fs : UInt32
  gs : UInt32
  cs : UInt32
  ss : UInt32

/-- The lower halves of the words are the selectors. -/
structure SelectorWords.Keeps (w : SelectorWords) (cpu : Cpu) : Prop where
  ds : w.ds.toUInt16 = cpu.ds
  es : w.es.toUInt16 = cpu.es
  fs : w.fs.toUInt16 = cpu.fs
  gs : w.gs.toUInt16 = cpu.gs
  cs : w.cs.toUInt16 = cpu.cs
  ss : w.ss.toUInt16 = cpu.ss

/-- What the processor pushes first when it leaves an outer ring. -/
def outerWords (cpu : Cpu) (w : SelectorWords) : List UInt32 :=
  if 0 < cpu.cpl then [cpu.esp, w.ss] else []

/-- What the processor pushes, the last word first. -/
def returnWords (cpu : Cpu) (w : SelectorWords) : List UInt32 :=
  [cpu.eip, w.cs, cpu.eflags] ++ outerWords cpu w

/-- What lies on the stack when the C function is called; `pointer` is the stack pointer
that `pushad` saves. -/
def savedWords (cpu : Cpu) (w : SelectorWords) (pointer : UInt32) (v : Nat)
    (errorCode : UInt32) : List UInt32 :=
  [cpu.edi, cpu.esi, cpu.ebp, pointer, cpu.ebx, cpu.edx, cpu.ecx, cpu.eax,
    w.gs, w.fs, w.es, w.ds, UInt32.ofNat v, errorCode] ++ returnWords cpu w

def savedCount (cpu : Cpu) : Nat := if 0 < cpu.cpl then sizeofFrame + 2 else sizeofFrame

/-- Where the stack of a handler begins: at the stack pointer in ring 0, else at the one
in the task state segment. -/
def handlerStack {W : Type} (tssEntry : UInt32) (s : State W) : UInt32 :=
  if 0 < s.cpu.cpl then word.get s.ram (tssEntry + 4) else s.cpu.esp

theorem savedWords_length (cpu : Cpu) (w : SelectorWords) (pointer : UInt32) (v : Nat)
    (errorCode : UInt32) : (savedWords cpu w pointer v errorCode).length = savedCount cpu := by
  unfold savedWords returnWords outerWords savedCount sizeofFrame
  split <;> rfl

theorem savedCount_le (cpu : Cpu) : savedCount cpu ≤ 19 := by
  unfold savedCount sizeofFrame
  split <;> decide

section Save
variable {W F : Type} (isrStubTable : Fin isrStubTableLimit → UInt32) (tssEntry : UInt32)
  (zeroExtends : Bool) {s : State W} {m : Ram} {base : UInt32} {ws : List UInt32}

theorem pushReturn_grown (cpu : Cpu) (errorCode : Option UInt32)
    (h : Grown word m base s.ram s.cpu.esp ws) (hfits : 4 * (ws.length + 4) ≤ 2 ^ 32) :
    ∃ csWord : UInt32, csWord.toUInt16 = cpu.cs ∧
      (∃ esp, (pushReturn zeroExtends s cpu errorCode).cpu = s.cpu.withEsp esp) ∧
      (pushReturn zeroExtends s cpu errorCode).world = s.world ∧
      Grown word m base (pushReturn zeroExtends s cpu errorCode).ram
        (pushReturn zeroExtends s cpu errorCode).cpu.esp
        (errorCode.toList ++ [cpu.eip, csWord, cpu.eflags] ++ ws) := by
  obtain ⟨csWord, hcs, hpush⟩ := pushSelector_eq zeroExtends (s.push cpu.eflags) cpu.cs
  have hflags := push_grown h (by omega) cpu.eflags
  have hcode := push_grown hflags (by simp only [List.length_cons]; omega) csWord
  have hip := push_grown hcode (by simp only [List.length_cons]; omega) cpu.eip
  generalize hp : ((s.push cpu.eflags).push csWord).push cpu.eip = p at hip
  have hcpu : p.cpu = s.cpu.withEsp p.cpu.esp := by
    simp only [← hp, push_cpu, withEsp_withEsp, withEsp_esp]
  have hworld : p.world = s.world := by
    simp only [← hp, push_world]
  simp only [pushReturn, hpush, hp]
  refine ⟨csWord, hcs, ?_⟩
  cases errorCode with
  | none => exact ⟨⟨_, hcpu⟩, hworld, hip⟩
  | some e =>
    refine ⟨⟨p.cpu.esp - 4, ?_⟩, ?_, push_grown hip (by simp only [List.length_cons]; omega) e⟩
    · rw [push_cpu, hcpu, withEsp_withEsp, withEsp_esp]
    · rw [push_world, hworld]

theorem switchStack_grown (s : State W) :
    ∃ ssWord : UInt32, ssWord.toUInt16 = s.cpu.ss ∧
      (∃ esp ss, (switchStack (kernelTables isrStubTable tssEntry) zeroExtends s).cpu =
        { s.cpu with esp := esp, ss := ss }) ∧
      (switchStack (kernelTables isrStubTable tssEntry) zeroExtends s).world = s.world ∧
      Grown word s.ram (word.get s.ram (tssEntry + 4))
        (switchStack (kernelTables isrStubTable tssEntry) zeroExtends s).ram
        (switchStack (kernelTables isrStubTable tssEntry) zeroExtends s).cpu.esp
        [s.cpu.esp, ssWord] := by
  unfold switchStack
  rw [kernelTables_task]
  obtain ⟨ssWord, hss, hpush⟩ := pushSelector_eq zeroExtends
    (s.onStack (word.get s.ram (tssEntry + 4)) (word.get s.ram (tssEntry + 8)).toUInt16) s.cpu.ss
  rw [hpush]
  refine ⟨ssWord, hss, ⟨_, _, rfl⟩, rfl, ?_⟩
  have hsegment := push_grown (s := s.onStack (word.get s.ram (tssEntry + 4))
    (word.get s.ram (tssEntry + 8)).toUInt16) (Grown.nil s.ram _) (by decide) ssWord
  exact push_grown hsegment (by simp only [List.length_cons]; decide) s.cpu.esp

theorem pushReturn_ss (s : State W) (cpu : Cpu) (errorCode : Option UInt32) :
    (pushReturn zeroExtends s cpu errorCode).cpu.ss = s.cpu.ss := by
  cases errorCode <;> cases zeroExtends <;> rfl

/-- A handler that interrupts an outer ring has the stack segment of the task state segment. -/
theorem entered_ss (s : State W) (v : Fin idtMaxEntryCount) (errorCode : Option UInt32)
    (hcpl : 0 < s.cpu.cpl) : (entered isrStubTable tssEntry zeroExtends s v errorCode).cpu.ss =
      (word.get s.ram (tssEntry + 8)).toUInt16 := by
  simp only [entered, if_pos hcpl, pushReturn_ss, switchStack, kernelTables_task]
  cases zeroExtends <;> rfl

/-- The state the stub of `v` begins in. -/
theorem entered_grown (s : State W) (v : Fin idtMaxEntryCount) (errorCode : Option UInt32) :
    ∃ csWord ssWord : UInt32, csWord.toUInt16 = s.cpu.cs ∧ ssWord.toUInt16 = s.cpu.ss ∧
      (s.cpu.cpl = 0 → (entered isrStubTable tssEntry zeroExtends s v errorCode).cpu.ss =
        s.cpu.ss) ∧
      (∃ esp ss eip cs eflags, (entered isrStubTable tssEntry zeroExtends s v errorCode).cpu =
        { s.cpu with esp := esp, ss := ss, eip := eip, cs := cs, eflags := eflags }) ∧
      (entered isrStubTable tssEntry zeroExtends s v errorCode).world = s.world ∧
      Grown word s.ram (handlerStack tssEntry s)
        (entered isrStubTable tssEntry zeroExtends s v errorCode).ram
        (entered isrStubTable tssEntry zeroExtends s v errorCode).cpu.esp
        (errorCode.toList ++ [s.cpu.eip, csWord, s.cpu.eflags] ++
          if 0 < s.cpu.cpl then [s.cpu.esp, ssWord] else []) := by
  unfold entered handlerStack
  by_cases hcpl : 0 < s.cpu.cpl
  · simp only [if_pos hcpl]
    obtain ⟨ssWord, hss, ⟨esp, ss, hcpu⟩, hworld, hgrown⟩ :=
      switchStack_grown isrStubTable tssEntry zeroExtends s
    obtain ⟨csWord, hcs, ⟨esp', hcpu'⟩, hworld', hgrown'⟩ :=
      pushReturn_grown zeroExtends s.cpu errorCode hgrown (by simp only [List.length_cons]; decide)
    refine ⟨csWord, ssWord, hcs, hss, fun h0 => absurd h0 (Nat.ne_of_gt hcpl), ?_, ?_, hgrown'⟩
    · rw [hcpu', hcpu]
      exact ⟨_, _, _, _, _, rfl⟩
    · rw [← hworld, ← hworld']
  · simp only [if_neg hcpl]
    obtain ⟨csWord, hcs, ⟨esp', hcpu'⟩, hworld', hgrown'⟩ :=
      pushReturn_grown zeroExtends s.cpu errorCode (Grown.nil s.ram s.cpu.esp) (by decide)
    refine ⟨csWord, s.cpu.ss.toUInt32, hcs, UInt16.toUInt16_toUInt32 _, fun _ => ?_, ?_, ?_,
      hgrown'⟩
    · rw [hcpu', withEsp_ss]
    · rw [hcpu']
      exact ⟨_, s.cpu.ss, _, _, _, rfl⟩
    · rw [← hworld']

end Save

section Run
variable {W F : Type} (t : Tables) (e : Leeway)
  (handler : InterruptFrame → Ram → W → Except F (Ram × W)) {s : State W} {m : Ram}
  {base : UInt32} {ws : List UInt32}

theorem execAll_cons {i : Instruction} {is : List Instruction} {s s' : State W}
    (h : exec t e handler s i = .ok s') :
    execAll t e handler s (i :: is) = execAll t e handler s' is := by
  rw [execAll, h]
  rfl

theorem execAll_append {is js : List Instruction} {s s' : State W}
    (h : execAll t e handler s is = .ok s') :
    execAll t e handler s (is ++ js) = execAll t e handler s' js := by
  induction is generalizing s with
  | nil =>
    cases h
    rfl
  | cons i is ih =>
    obtain ⟨s₁, hi, h⟩ := Runs.bind_eq_ok.mp h
    rw [List.cons_append, execAll, hi]
    exact ih h

/-- The stub makes up for an error code that the processor does not push. -/
theorem stubPushes_run {v : Nat} {errorCode : Option UInt32}
    (hcode : errorCode.isSome = decide (v ∈ errorCodeVectors))
    (h : Grown word m base s.ram s.cpu.esp (errorCode.toList ++ ws))
    (hfits : 4 * (ws.length + 2) ≤ 2 ^ 32) :
    ∃ s', execAll t e handler s (stubPushes v) = .ok s' ∧
      (∃ esp, s'.cpu = s.cpu.withEsp esp) ∧ s'.world = s.world ∧
      Grown word m base s'.ram s'.cpu.esp (UInt32.ofNat v :: errorCode.getD 0 :: ws) := by
  unfold stubPushes
  cases errorCode with
  | some c =>
    rw [if_pos (of_decide_eq_true hcode.symm)]
    refine ⟨_, rfl, ⟨_, rfl⟩, rfl, push_grown h ?_ _⟩
    simp only [Option.toList_some, List.length_append, List.length_cons, List.length_nil]
    omega
  | none =>
    rw [if_neg (of_decide_eq_false hcode.symm)]
    have hzero := push_grown h (by simp only [Option.toList_none, List.nil_append]; omega) 0
    refine ⟨_, rfl, ⟨_, rfl⟩, rfl, push_grown hzero ?_ _⟩
    simp only [Option.toList_none, List.nil_append, List.length_cons]
    omega

theorem pushad_world (s : State W) : (pushad s).world = s.world := by
  simp only [pushad, push_world]

theorem pushad_esp (s : State W) : (pushad s).cpu.esp + 32 = s.cpu.esp := by
  apply UInt32.toNat_inj.mp
  have hlt := s.cpu.esp.toNat_lt
  simp only [pushad, push_cpu, withEsp_esp, UInt32.toNat_add, UInt32.toNat_sub,
    UInt32.reduceToNat]
  omega

theorem pushad_grown (h : Grown word m base s.ram s.cpu.esp ws)
    (hfits : 4 * (ws.length + 8) ≤ 2 ^ 32) :
    (∃ esp, (pushad s).cpu = s.cpu.withEsp esp) ∧
    Grown word m base (pushad s).ram (pushad s).cpu.esp
      ([s.cpu.edi, s.cpu.esi, s.cpu.ebp, s.cpu.esp, s.cpu.ebx, s.cpu.edx, s.cpu.ecx,
        s.cpu.eax] ++ ws) := by
  have h1 := push_grown h (by omega) s.cpu.eax
  have h2 := push_grown h1 (by simp only [List.length_cons]; omega) s.cpu.ecx
  have h3 := push_grown h2 (by simp only [List.length_cons]; omega) s.cpu.edx
  have h4 := push_grown h3 (by simp only [List.length_cons]; omega) s.cpu.ebx
  have h5 := push_grown h4 (by simp only [List.length_cons]; omega) s.cpu.esp
  have h6 := push_grown h5 (by simp only [List.length_cons]; omega) s.cpu.ebp
  have h7 := push_grown h6 (by simp only [List.length_cons]; omega) s.cpu.esi
  have h8 := push_grown h7 (by simp only [List.length_cons]; omega) s.cpu.edi
  refine ⟨⟨(pushad s).cpu.esp, ?_⟩, ?_⟩
  · simp only [pushad, push_cpu, withEsp_withEsp, withEsp_esp]
  · unfold pushad
    simp only [List.cons_append, List.nil_append]
    exact h8

/-- The part of `call_generic_handler` that changes to the kernel's data segments: it uses
one word below the stack pointer. -/
theorem kernelSegments_run (s : State W) :
    ∃ s', execAll t e handler s loadKernelSegments = .ok s' ∧
    s'.cpu.esp = s.cpu.esp ∧ s'.cpu.cs = s.cpu.cs ∧ s'.cpu.ss = s.cpu.ss ∧
    s'.world = s.world ∧ ∀ x, ¬ Span (s.cpu.esp - 4) 4 x → s'.ram x = s.ram x := by
  refine ⟨_, rfl, ?_, rfl, rfl, rfl, fun x hx => ?_⟩
  · exact sub_add_ofNat s.cpu.esp 4
  · exact word.put_outside hx

/-- `call_generic_handler` saves the registers; one word more has been in use below. -/
theorem saveContext_run (h : Grown word m base s.ram s.cpu.esp ws)
    (hfits : 4 * (ws.length + 13) ≤ 2 ^ 32) :
    ∃ (ds es fs gs : UInt32) (s' : State W),
      execAll t e handler s (saveRegisters ++ loadKernelSegments) = .ok s' ∧
      ds.toUInt16 = s.cpu.ds ∧ es.toUInt16 = s.cpu.es ∧ fs.toUInt16 = s.cpu.fs ∧
      gs.toUInt16 = s.cpu.gs ∧ s'.cpu.cs = s.cpu.cs ∧ s'.cpu.ss = s.cpu.ss ∧
      s'.world = s.world ∧
      (∃ ram, Grown word m base ram s'.cpu.esp ([s.cpu.edi, s.cpu.esi, s.cpu.ebp,
          s'.cpu.esp + 32, s.cpu.ebx, s.cpu.edx, s.cpu.ecx, s.cpu.eax, gs, fs, es, ds] ++ ws) ∧
        ∀ x, ¬ Span (s'.cpu.esp - 4) 4 x → s'.ram x = ram x) := by
  obtain ⟨ds, hds, hpush1⟩ := pushSelector_eq e.zeroExtends s (s.cpu.segment .ds)
  obtain ⟨es, hes, hpush2⟩ := pushSelector_eq e.zeroExtends (s.push ds) (s.cpu.segment .es)
  obtain ⟨fs, hfs, hpush3⟩ :=
    pushSelector_eq e.zeroExtends ((s.push ds).push es) (s.cpu.segment .fs)
  obtain ⟨gs, hgs, hpush4⟩ :=
    pushSelector_eq e.zeroExtends (((s.push ds).push es).push fs) (s.cpu.segment .gs)
  have h1 := push_grown h (by omega) ds
  have h2 := push_grown h1 (by simp only [List.length_cons]; omega) es
  have h3 := push_grown h2 (by simp only [List.length_cons]; omega) fs
  have h4 := push_grown h3 (by simp only [List.length_cons]; omega) gs
  have hsegments : execAll t e handler s saveRegisters =
      .ok (pushad ((((s.push ds).push es).push fs).push gs)) := by
    have hds' : exec t e handler s (.pushSegment .ds) = .ok (s.push ds) :=
      congrArg Except.ok hpush1
    have hes' : exec t e handler (s.push ds) (.pushSegment .es) = .ok ((s.push ds).push es) :=
      congrArg Except.ok hpush2
    have hfs' : exec t e handler ((s.push ds).push es) (.pushSegment .fs) =
        .ok (((s.push ds).push es).push fs) := congrArg Except.ok hpush3
    have hgs' : exec t e handler (((s.push ds).push es).push fs) (.pushSegment .gs) =
        .ok ((((s.push ds).push es).push fs).push gs) := congrArg Except.ok hpush4
    unfold saveRegisters
    rw [execAll_cons t e handler hds', execAll_cons t e handler hes',
      execAll_cons t e handler hfs', execAll_cons t e handler hgs', execAll_cons t e handler rfl,
      execAll]
  generalize hp : (((s.push ds).push es).push fs).push gs = p at hsegments h4
  have hcpu : ∃ esp, p.cpu = s.cpu.withEsp esp := by
    refine ⟨p.cpu.esp, ?_⟩
    simp only [← hp, push_cpu, withEsp_withEsp, withEsp_esp]
  have hworld : p.world = s.world := by
    simp only [← hp, push_world]
  obtain ⟨esp, hcpu⟩ := hcpu
  obtain ⟨⟨esp', hcpu'⟩, hsaved⟩ := pushad_grown h4 (by simp only [List.length_cons]; omega)
  obtain ⟨s', hrun, hesp, hcs, hss, hw, hram⟩ := kernelSegments_run t e handler (pushad p)
  refine ⟨ds, es, fs, gs, s', ?_, hds, hes, hfs, hgs, ?_, ?_, ?_, (pushad p).ram, ?_, ?_⟩
  · rw [execAll_append t e handler hsegments, hrun]
  · rw [hcs, hcpu', hcpu, withEsp_cs, withEsp_cs]
  · rw [hss, hcpu', hcpu, withEsp_ss, withEsp_ss]
  · rw [hw, pushad_world, hworld]
  · have hpointer : p.cpu.esp = (pushad p).cpu.esp + 32 := (pushad_esp p).symm
    rw [hpointer] at hsaved
    rw [hesp]
    rw [hcpu] at hsaved
    exact hsaved
  · rw [hesp]
    exact hram

end Run

/-! ## The whole way in -/

/-- The state `s'` in which the C function is called, for the program interrupted in `s`. -/
structure Saved {W : Type} (tssEntry : UInt32) (s : State W) (v : Nat) (errorCode : UInt32)
    (w : SelectorWords) (s' : State W) : Prop where
  keeps : w.Keeps s.cpu
  cs : s'.cpu.cs = gdtKernelCodeSegmentSelector
  ss : s.cpu.cpl = 0 → s'.cpu.ss = s.cpu.ss
  world : s'.world = s.world
  pointer : s'.cpu.esp = handlerStack tssEntry s - UInt32.ofNat (4 * savedCount s.cpu)
  holds : word.Holds s'.ram s'.cpu.esp (savedWords s.cpu w (s'.cpu.esp + 32) v errorCode)
  outside : ∀ x, ¬ Span (s'.cpu.esp - 4) (4 + 4 * savedCount s.cpu) x → s'.ram x = s.ram x

section WayIn
variable {W F : Type} (isrStubTable : Fin isrStubTableLimit → UInt32) (tssEntry : UInt32)
  (e : Leeway) (handler : InterruptFrame → Ram → W → Except F (Ram × W)) (s : State W)

theorem stub_saves {v : Fin idtMaxEntryCount} {errorCode : Option UInt32}
    (hcode : errorCode.isSome = decide (v.val ∈ errorCodeVectors)) :
    ∃ w s', execAll (kernelTables isrStubTable tssEntry) e handler
        (entered isrStubTable tssEntry e.zeroExtends s v errorCode)
        (stubPushes v.val ++ (saveRegisters ++ loadKernelSegments)) = .ok s' ∧
      Saved tssEntry s v.val (errorCode.getD 0) w s' := by
  obtain ⟨cs, ss, hcs, hss, hstay, ⟨esp, ss', eip, cs', eflags, hcpu⟩, hworld, hgrown⟩ :=
    entered_grown isrStubTable tssEntry e.zeroExtends s v errorCode
  have hkernel : (entered isrStubTable tssEntry e.zeroExtends s v errorCode).cpu.cs =
      gdtKernelCodeSegmentSelector := rfl
  generalize entered isrStubTable tssEntry e.zeroExtends s v errorCode = s₁ at *
  have houter : (if 0 < s.cpu.cpl then [s.cpu.esp, ss] else []).length ≤ 2 := by
    split <;> simp
  rw [List.append_assoc] at hgrown
  obtain ⟨s₂, hrun, ⟨esp₂, hcpu₂⟩, hworld₂, hgrown₂⟩ := stubPushes_run
    (kernelTables isrStubTable tssEntry) e handler hcode hgrown
    (by simp only [List.length_append, List.length_cons, List.length_nil]; omega)
  obtain ⟨ds, es, fs, gs, s₃, hrun₃, hds, hes, hfs, hgs, hcs₃, hss₃, hworld₃, ram, hgrown₃, hram⟩ :=
    saveContext_run (kernelTables isrStubTable tssEntry) e handler hgrown₂
      (by simp only [List.length_append, List.length_cons, List.length_nil]; omega)
  rw [hcpu₂, hcpu] at hgrown₃ hds hes hfs hgs
  have hgrown₃ : Grown word s.ram (handlerStack tssEntry s) ram s₃.cpu.esp
      (savedWords s.cpu ⟨ds, es, fs, gs, cs, ss⟩ (s₃.cpu.esp + 32) v.val (errorCode.getD 0)) :=
    hgrown₃
  have hlen := savedWords_length s.cpu ⟨ds, es, fs, gs, cs, ss⟩ (s₃.cpu.esp + 32) v.val
    (errorCode.getD 0)
  have hcount := savedCount_le s.cpu
  have hpointer := hgrown₃.pointer
  have houtside := hgrown₃.outside
  rw [hlen] at hpointer houtside
  -- the word used below the stack pointer lies beside the saved ones
  have hspan : ∀ x, Span s₃.cpu.esp (4 * savedCount s.cpu) x ↔
      4 ≤ (x - (s₃.cpu.esp - 4)).toNat ∧ Span (s₃.cpu.esp - 4) (4 + 4 * savedCount s.cpu) x := by
    intro x
    have h := span_add (a := s₃.cpu.esp - UInt32.ofNat 4) (x := x)
      (show 4 + 4 * savedCount s.cpu ≤ 2 ^ 32 by omega)
    rwa [sub_add_ofNat] at h
  refine ⟨⟨ds, es, fs, gs, cs, ss⟩, s₃, ?_, ⟨⟨hds, hes, hfs, hgs, hcs, hss⟩, ?_, fun h0 => ?_, ?_,
    hpointer, ?_, fun x hx => ?_⟩⟩
  · rw [execAll_append _ e handler hrun, hrun₃]
  · rw [hcs₃, hcpu₂, withEsp_cs, hkernel]
  · rw [hss₃, hcpu₂, withEsp_ss, hstay h0]
  · rw [hworld₃, hworld₂, hworld]
  · refine hgrown₃.holds.congr (by rw [hlen]; omega) fun x hx => hram x fun hlow => ?_
    rw [hlen] at hx
    exact absurd hlow (Nat.not_lt.mpr ((hspan x).mp hx).1)
  · rw [hram x fun hlow => hx (hlow.mono (Nat.le_add_right _ _)),
      houtside x fun hin => hx ((hspan x).mp hin).2]

end WayIn

end KajijOSta.Interrupts
