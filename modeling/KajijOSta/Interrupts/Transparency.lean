import KajijOSta.Interrupts.Saving

/-! # Interrupts leave the interrupted program as it was

Whatever the kernel's handler does, the program it interrupts goes on with its registers
as they were, its memory changed only by the handler and on the kernel's stack. The
handler gets a frame that describes the interrupted program (`interrupt_transparent`). -/
namespace KajijOSta.Interrupts
open KajijOSta.WordStack

/-! ## The way back -/

section WayBack
variable {W F : Type} (t : Tables) (e : Leeway)
  (handler : InterruptFrame → Ram → W → Except F (Ram × W)) (k : Cpu) {c : Cpu} {ram : Ram}
  (world : W) {ws : List UInt32}

/-- The registers on the way back: those of `c`, but for the ones that only `iret` brings
back, and with the given data segments. -/
def restoring (k c : Cpu) (esp : UInt32) (ds es fs gs : UInt16) : Cpu :=
  { c with
    esp := esp, cs := k.cs, ss := k.ss, eip := k.eip, eflags := k.eflags
    ds := ds, es := es, fs := fs, gs := gs }

theorem popad_run {pointer : UInt32} (h : word.Holds ram k.esp
      ([c.edi, c.esi, c.ebp, pointer, c.ebx, c.edx, c.ecx, c.eax] ++ ws)) :
    exec t e handler ⟨k, ram, world⟩ .popad =
      .ok ⟨restoring k c (k.esp + 32) k.ds k.es k.fs k.gs, ram, world⟩ := by
  have htop := fun i (hi : i < 8) => h.get i (by
    rw [List.length_append]
    exact Nat.lt_of_lt_of_le hi (Nat.le_add_right _ _))
  have h0 := htop 0 (by decide)
  have h1 := htop 1 (by decide)
  have h2 := htop 2 (by decide)
  have h4 := htop 4 (by decide)
  have h5 := htop 5 (by decide)
  have h6 := htop 6 (by decide)
  have h7 := htop 7 (by decide)
  simp only [exec, popad, State.top, State.drop, h0, h1, h2, h4, h5, h6, h7]
  rfl

section Segments
variable (c) (esp : UInt32) (ds es fs gs selector : UInt16)

theorem restoring_gs : (restoring k c esp ds es fs gs).setSegment selector .gs =
    restoring k c esp ds es fs selector := rfl

theorem restoring_fs : (restoring k c esp ds es fs gs).setSegment selector .fs =
    restoring k c esp ds es selector gs := rfl

theorem restoring_es : (restoring k c esp ds es fs gs).setSegment selector .es =
    restoring k c esp ds selector fs gs := rfl

theorem restoring_ds : (restoring k c esp ds es fs gs).setSegment selector .ds =
    restoring k c esp selector es fs gs := rfl

theorem popSegment_run {w : UInt32} (r : SegmentRegister) (h : word.Holds ram esp (w :: ws)) :
    exec t e handler ⟨restoring k c esp ds es fs gs, ram, world⟩ (.popSegment r) =
      .ok ⟨(restoring k c (esp + 4) ds es fs gs).setSegment w.toUInt16 r, ram, world⟩ := by
  have htop : word.get ram (esp + UInt32.ofNat (4 * 0)) = w := h.get 0 (Nat.succ_pos _)
  have hesp : (restoring k c esp ds es fs gs).esp = esp := rfl
  simp only [exec, State.top, State.drop, hesp, htop]
  rfl

end Segments

theorem popRegisters_run {w : SelectorWords} {pointer : UInt32} (hw : w.Keeps c)
    (h : word.Holds ram k.esp ([c.edi, c.esi, c.ebp, pointer, c.ebx, c.edx, c.ecx, c.eax,
      w.gs, w.fs, w.es, w.ds] ++ ws)) :
    execAll t e handler ⟨k, ram, world⟩
        [.popad, .popSegment .gs, .popSegment .fs, .popSegment .es, .popSegment .ds] =
      .ok ⟨restoring k c (k.esp + 48) c.ds c.es c.fs c.gs, ram, world⟩ := by
  have h₀ : word.Holds ram (k.esp + 32) ([w.gs, w.fs, w.es, w.ds] ++ ws) :=
    Codec.Holds.drop [c.edi, c.esi, c.ebp, pointer, c.ebx, c.edx, c.ecx, c.eax] h
  have h₁ : word.Holds ram (k.esp + 32 + 4) ([w.fs, w.es, w.ds] ++ ws) := h₀.2
  have h₂ : word.Holds ram (k.esp + 32 + 4 + 4) ([w.es, w.ds] ++ ws) := h₁.2
  have h₃ : word.Holds ram (k.esp + 32 + 4 + 4 + 4) ([w.ds] ++ ws) := h₂.2
  have hesp : k.esp + 32 + 4 + 4 + 4 + 4 = k.esp + 48 := by
    simp only [UInt32.add_assoc]
    rfl
  have hgs := popSegment_run t e handler k c world _ k.ds k.es k.fs k.gs .gs h₀
  have hfs := popSegment_run t e handler k c world _ k.ds k.es k.fs c.gs .fs h₁
  have hes := popSegment_run t e handler k c world _ k.ds k.es c.fs c.gs .es h₂
  have hds := popSegment_run t e handler k c world _ k.ds c.es c.fs c.gs .ds h₃
  rw [restoring_gs, hw.gs] at hgs
  rw [restoring_fs, hw.fs] at hfs
  rw [restoring_es, hw.es] at hes
  rw [restoring_ds, hw.ds] at hds
  rw [execAll_cons t e handler (popad_run t e handler k world h), execAll_cons t e handler hgs,
    execAll_cons t e handler hfs, execAll_cons t e handler hes, execAll_cons t e handler hds, hesp]
  rfl

theorem iret_inner (s : State W) (h : ¬ s.cpu.cpl < (s.top 1).toUInt16.toNat % 4) :
    iret t s = ⟨{ s.cpu with
      esp := s.cpu.esp + 12, eip := s.top 0, cs := (s.top 1).toUInt16, eflags := s.top 2 },
      s.ram, s.world⟩ := by
  rw [iret, if_neg h]
  rfl

theorem iret_outer (s : State W) (h : s.cpu.cpl < (s.top 1).toUInt16.toNat % 4) :
    iret t s = ⟨{ s.cpu with
      esp := s.top 3, ss := (s.top 4).toUInt16, eip := s.top 0, cs := (s.top 1).toUInt16
      eflags := s.top 2
      ds := retained t ((s.top 1).toUInt16.toNat % 4) s.cpu.ds
      es := retained t ((s.top 1).toUInt16.toNat % 4) s.cpu.es
      fs := retained t ((s.top 1).toUInt16.toNat % 4) s.cpu.fs
      gs := retained t ((s.top 1).toUInt16.toNat % 4) s.cpu.gs }, s.ram, s.world⟩ := by
  rw [iret, if_pos h]
  rfl

/-- `iret` brings back the rest. -/
theorem iret_run {w : SelectorWords} {eflags : UInt32} (hw : w.Keeps c) (esp : UInt32)
    (hcs : k.cs = gdtKernelCodeSegmentSelector) (hss : c.cpl = 0 → k.ss = c.ss)
    (hesp : c.cpl = 0 → esp + 12 = c.esp)
    (hret : 0 < c.cpl → ∀ r, retained t c.cpl (c.segment r) = c.segment r)
    (h : word.Holds ram esp (returnWords c w)) :
    iret t ⟨{ restoring k c esp c.ds c.es c.fs c.gs with eflags := eflags }, ram, world⟩ =
      ⟨c, ram, world⟩ := by
  generalize hs : (⟨{ restoring k c esp c.ds c.es c.fs c.gs with eflags := eflags }, ram,
    world⟩ : State W) = s
  have h : word.Holds s.ram s.cpu.esp (returnWords c w) := by
    rw [← hs]
    exact h
  have h0 : s.top 0 = c.eip := h.get 0 (by simp [returnWords])
  have h1 : (s.top 1).toUInt16 = c.cs := (congrArg UInt32.toUInt16
    (h.get 1 (by simp [returnWords]))).trans hw.cs
  have h2 : s.top 2 = c.eflags := h.get 2 (by simp [returnWords])
  have hring : s.cpu.cpl = 0 := by
    rw [← hs]
    exact congrArg (fun x : UInt16 => x.toNat % 4) hcs
  have hcpl : c.cs.toNat % 4 = c.cpl := rfl
  by_cases hout : 0 < c.cpl
  · have houter : returnWords c w = [c.eip, w.cs, c.eflags, c.esp, w.ss] :=
      congrArg ([c.eip, w.cs, c.eflags] ++ ·) (if_pos hout)
    rw [houter] at h
    have h3 : s.top 3 = c.esp := h.get 3 (by simp)
    have h4 : (s.top 4).toUInt16 = c.ss :=
      (congrArg UInt32.toUInt16 (h.get 4 (by simp))).trans hw.ss
    rw [iret_outer t s (by rw [h1, hring, hcpl]; exact hout), h0, h1, h2, h3, h4, hcpl, ← hs]
    have hds : retained t c.cpl c.ds = c.ds := hret hout .ds
    have hes : retained t c.cpl c.es = c.es := hret hout .es
    have hfs : retained t c.cpl c.fs = c.fs := hret hout .fs
    have hgs : retained t c.cpl c.gs = c.gs := hret hout .gs
    simp only [restoring, hds, hes, hfs, hgs]
  · have hzero : c.cpl = 0 := Nat.eq_zero_of_not_pos hout
    rw [iret_inner t s (by rw [h1, hring, hcpl]; exact hout), h0, h1, h2, ← hs]
    simp only [restoring, hss hzero, hesp hzero]

theorem restoreContext_run {w : SelectorWords} {pointer errorCode : UInt32} {v : Nat}
    (hw : w.Keeps c) (hcs : k.cs = gdtKernelCodeSegmentSelector)
    (hss : c.cpl = 0 → k.ss = c.ss) (hesp : c.cpl = 0 → k.esp + 68 = c.esp)
    (hret : 0 < c.cpl → ∀ r, retained t c.cpl (c.segment r) = c.segment r)
    (h : word.Holds ram k.esp (savedWords c w pointer v errorCode)) :
    execAll t e handler ⟨k, ram, world⟩ restoreContext = .ok ⟨c, ram, world⟩ := by
  have hregisters := popRegisters_run t e handler k world hw h
  have hreturn : word.Holds ram (k.esp + 56) (returnWords c w) := Codec.Holds.drop
    [c.edi, c.esi, c.ebp, pointer, c.ebx, c.edx, c.ecx, c.eax, w.gs, w.fs, w.es, w.ds,
      UInt32.ofNat v, errorCode] h
  have hadd : exec t e handler
      ⟨restoring k c (k.esp + 48) c.ds c.es c.fs c.gs, ram, world⟩ (.addEsp 8) =
      .ok ⟨{ restoring k c (k.esp + 48 + 8) c.ds c.es c.fs c.gs with
        eflags := (k.added e.eflags).eflags }, ram, world⟩ := rfl
  have hsti : exec t e handler
      ⟨{ restoring k c (k.esp + 48 + 8) c.ds c.es c.fs c.gs with
        eflags := (k.added e.eflags).eflags }, ram, world⟩ .sti =
      .ok ⟨{ restoring k c (k.esp + 48 + 8) c.ds c.es c.fs c.gs with
        eflags := (k.added e.eflags).eflags ||| 0x200 }, ram, world⟩ := rfl
  have hpointer : k.esp + 48 + 8 = k.esp + 56 := UInt32.add_assoc _ _ _
  have hback : exec t e handler
      ⟨{ restoring k c (k.esp + 48 + 8) c.ds c.es c.fs c.gs with
        eflags := (k.added e.eflags).eflags ||| 0x200 }, ram, world⟩ .iret =
      .ok ⟨c, ram, world⟩ := by
    rw [hpointer]
    refine congrArg Except.ok
      (iret_run t k world hw (k.esp + 56) hcs hss (fun h0 => ?_) hret hreturn)
    rw [← hesp h0]
    exact UInt32.add_assoc _ _ _
  have hend : execAll t e handler
      ⟨restoring k c (k.esp + 48) c.ds c.es c.fs c.gs, ram, world⟩ [.addEsp 8, .sti, .iret] =
      .ok ⟨c, ram, world⟩ := by
    rw [execAll_cons t e handler hadd, execAll_cons t e handler hsti,
      execAll_cons t e handler hback, execAll]
  exact (execAll_append t e handler hregisters).trans hend

end WayBack

/-! ## The frame and the result -/

/-- The frame tells the registers of the interrupted program and the interrupt. What it
calls `esp` is `ebp`, and what it calls `ebp` the kernel's stack pointer: `pushad` stores
the two the other way round. -/
structure InterruptFrame.Describes (frame : InterruptFrame) (cpu : Cpu) (v : Nat)
    (errorCode : UInt32) : Prop where
  eax : frame.cpu.general.eax = cpu.eax
  ecx : frame.cpu.general.ecx = cpu.ecx
  edx : frame.cpu.general.edx = cpu.edx
  ebx : frame.cpu.general.ebx = cpu.ebx
  esi : frame.cpu.index.esi = cpu.esi
  edi : frame.cpu.index.edi = cpu.edi
  esp : frame.cpu.stack.esp = cpu.ebp
  ds : frame.cpu.segment.ds.toUInt16 = cpu.ds
  es : frame.cpu.segment.es.toUInt16 = cpu.es
  fs : frame.cpu.segment.fs.toUInt16 = cpu.fs
  gs : frame.cpu.segment.gs.toUInt16 = cpu.gs
  intNumber : frame.intNumber = UInt32.ofNat v
  errorCode : frame.intStack.errorCode = errorCode
  eip : frame.intStack.eip = cpu.eip
  cs : frame.intStack.cs.toUInt16 = cpu.cs
  eflags : frame.intStack.eflags = cpu.eflags

section Result
variable {W F : Type} (isrStubTable : Fin isrStubTableLimit → UInt32) (tssEntry : UInt32)
  (e : Leeway) (handler : InterruptFrame → Ram → W → Except F (Ram × W)) (s : State W)

/-- The addresses of what is saved of the interrupted program. -/
def SavedArea (x : UInt32) : Prop :=
  Span (handlerStack tssEntry s - UInt32.ofNat (4 * savedCount s.cpu)) (4 * savedCount s.cpu) x

/-- The addresses of what is saved and of the stack of the C function below it. -/
def StackArea (x : UInt32) : Prop :=
  Span (handlerStack tssEntry s - UInt32.ofNat (4 * savedCount s.cpu) - UInt32.ofNat e.depth)
    (e.depth + 4 * savedCount s.cpu) x

/-- What is saved lies above the stack of the C function. -/
theorem savedArea_iff (hfits : e.depth + 76 ≤ 2 ^ 32) (x : UInt32) :
    SavedArea tssEntry s x ↔ e.depth ≤ (x - (handlerStack tssEntry s -
      UInt32.ofNat (4 * savedCount s.cpu) - UInt32.ofNat e.depth)).toNat ∧
      StackArea tssEntry e s x := by
  have hcount := savedCount_le s.cpu
  have h := span_add (a := handlerStack tssEntry s - UInt32.ofNat (4 * savedCount s.cpu) -
    UInt32.ofNat e.depth) (x := x) (show e.depth + 4 * savedCount s.cpu ≤ 2 ^ 32 by omega)
  rw [sub_add_ofNat] at h
  exact h

variable {tssEntry e s}

theorem Saved.describes {v : Nat} {errorCode : UInt32} {w : SelectorWords} {s' : State W}
    (h : Saved tssEntry s v errorCode w s') :
    (InterruptFrame.ofWords s'.top).Describes s.cpu v errorCode := by
  have hlen : sizeofFrame ≤ (savedWords s.cpu w (s'.cpu.esp + 32) v errorCode).length := by
    rw [savedWords_length]
    unfold savedCount
    split
    · exact Nat.le_add_right _ _
    · exact le_refl _
  have htop := fun k (hk : k < sizeofFrame) => h.holds.get k (Nat.lt_of_lt_of_le hk hlen)
  refine ⟨htop 7 (by decide), htop 6 (by decide), htop 5 (by decide), htop 4 (by decide),
    htop 1 (by decide), htop 0 (by decide), htop 2 (by decide), ?_, ?_, ?_, ?_,
    htop 12 (by decide), htop 13 (by decide), htop 14 (by decide), ?_, htop 16 (by decide)⟩
  · exact (congrArg UInt32.toUInt16 (htop 11 (by decide))).trans h.keeps.ds
  · exact (congrArg UInt32.toUInt16 (htop 10 (by decide))).trans h.keeps.es
  · exact (congrArg UInt32.toUInt16 (htop 9 (by decide))).trans h.keeps.fs
  · exact (congrArg UInt32.toUInt16 (htop 8 (by decide))).trans h.keeps.gs
  · exact (congrArg UInt32.toUInt16 (htop 15 (by decide))).trans h.keeps.cs

/-- The way back from the C function, for the program it was called for. -/
theorem Saved.returns {v : Nat} {errorCode : UInt32} {w : SelectorWords} {s' : State W}
    (t : Tables) (h : Saved tssEntry s v errorCode w s')
    (hret : 0 < s.cpu.cpl → ∀ r, retained t s.cpu.cpl (s.cpu.segment r) = s.cpu.segment r)
    (hfits : e.depth + 76 ≤ 2 ^ 32) {ram : Ram} {world : W}
    (hcall : handler (InterruptFrame.ofWords s'.top) (s'.push e.returnAddress).ram s'.world =
      .ok (ram, world))
    (hsaved : ∀ x, SavedArea tssEntry s x → ram x = s'.ram x) :
    ∃ ram', execAll t e handler s' ([.callMainInterruptHandler] ++ restoreContext) =
        .ok ⟨s.cpu, ram', world⟩ ∧
      ∀ x, ¬ StackArea tssEntry e s x → ram' x = ram x := by
  have hcount := savedCount_le s.cpu
  have hspan := savedArea_iff tssEntry e s hfits
  rw [← h.pointer] at hspan
  have hscratch : ∀ x, Span (s'.cpu.esp - UInt32.ofNat e.depth) e.depth x →
      StackArea tssEntry e s x := by
    intro x hx
    unfold StackArea
    rw [← h.pointer]
    exact hx.mono (Nat.le_add_right _ _)
  let k : Cpu := { s'.cpu with eax := e.eax, ecx := e.ecx, edx := e.edx, eflags := e.eflags }
  let ram' : Ram := fun a =>
    if Span (s'.cpu.esp - UInt32.ofNat e.depth) e.depth a then e.left a else ram a
  have hexec : exec t e handler s' .callMainInterruptHandler = .ok ⟨k, ram', world⟩ := by
    simp only [exec, callMainInterruptHandler, hcall]
    rfl
  have hholds : word.Holds ram' k.esp (savedWords s.cpu w (s'.cpu.esp + 32) v errorCode) := by
    refine h.holds.congr ?_ fun x hx => ?_
    · rw [savedWords_length]
      omega
    · rw [savedWords_length, h.pointer] at hx
      have hnot : ¬ Span (s'.cpu.esp - UInt32.ofNat e.depth) e.depth x :=
        Nat.not_lt.mpr ((hspan x).mp hx).1
      exact (if_neg hnot).trans (hsaved x hx)
  have hesp : s.cpu.cpl = 0 → k.esp + 68 = s.cpu.esp := by
    intro h0
    have hpointer := h.pointer
    unfold handlerStack savedCount at hpointer
    rw [if_neg (by omega), if_neg (by omega)] at hpointer
    have hk : k.esp = s'.cpu.esp := rfl
    rw [hk, hpointer]
    exact sub_add_ofNat s.cpu.esp 68
  have hback := restoreContext_run t e handler k world h.keeps h.cs (fun h0 => h.ss h0) hesp hret
    hholds
  refine ⟨ram', ?_, fun x hx => if_neg fun hlow => hx (hscratch x hlow)⟩
  rw [List.singleton_append, execAll_cons t e handler hexec, hback]

/-- Memory when the C function begins. -/
theorem Saved.memory {v : Nat} {errorCode : UInt32} {w : SelectorWords} {s' : State W}
    (h : Saved tssEntry s v errorCode w s') (hdepth : 4 ≤ e.depth)
    (hfits : e.depth + 76 ≤ 2 ^ 32) :
    (∀ x, ¬ StackArea tssEntry e s x → (s'.push e.returnAddress).ram x = s.ram x) ∧
    ∀ x, SavedArea tssEntry s x → (s'.push e.returnAddress).ram x = s'.ram x := by
  have hcount := savedCount_le s.cpu
  constructor
  · intro x hx
    have hout : ¬ Span (s'.cpu.esp - 4) (4 + 4 * savedCount s.cpu) x := by
      intro hin
      refine hx ?_
      unfold StackArea
      rw [← h.pointer]
      exact Span.below (k := 4) hin hdepth (by omega)
    rw [← h.outside x hout]
    exact word.put_outside fun hlow => hout (hlow.mono (Nat.le_add_right _ _))
  · intro x hx
    unfold SavedArea at hx
    rw [← h.pointer] at hx
    have hspan := span_add (a := s'.cpu.esp - UInt32.ofNat 4) (x := x)
      (show 4 + 4 * savedCount s.cpu ≤ 2 ^ 32 by omega)
    rw [sub_add_ofNat] at hspan
    exact word.put_outside (Nat.not_lt.mpr (hspan.mp hx).1)

end Result

/-- **Interrupts are transparent.** An interrupt with a handler, from any state of any
program: the handler's code calls the C function with a frame that describes the program
and with the program's memory. When the function returns and has not written over what is
saved, the program goes on with every register as it was, and memory as the function left
it, but for the stack below the saved words; when it faults, so does the handler. -/
theorem interrupt_transparent {W F : Type} (isrStubTable : Fin isrStubTableLimit → UInt32)
    (tssEntry : UInt32) (e : Leeway) (handler : InterruptFrame → Ram → W → Except F (Ram × W))
    (s : State W) (cause : Cause) (v : Fin idtMaxEntryCount) (errorCode : Option UInt32)
    (henters : Enters cause v s.cpu.cpl) (hstack : StackNamed tssEntry s)
    (hcode : errorCode.isSome = decide (v.val ∈ errorCodeVectors))
    (hret : 0 < s.cpu.cpl → ∀ r, retained (kernelTables isrStubTable tssEntry) s.cpu.cpl
      (s.cpu.segment r) = s.cpu.segment r)
    (hdepth : 4 ≤ e.depth) (hfits : e.depth + 76 ≤ 2 ^ 32) :
    ∃ s₁ frame ram,
      deliver (kernelTables isrStubTable tssEntry) e.zeroExtends s cause v errorCode = some s₁ ∧
      s₁.cpu.eip = isrStubTable (Fin.ofNat isrStubTableLimit v.val) ∧ s₁.cpu.cpl = 0 ∧
      frame.Describes s.cpu v.val (errorCode.getD 0) ∧
      (∀ x, ¬ StackArea tssEntry e s x → ram x = s.ram x) ∧
      (∀ f, handler frame ram s.world = .error f →
        execAll (kernelTables isrStubTable tssEntry) e handler s₁ (interruptHandler v.val) =
          .error f) ∧
      ∀ ram' world, handler frame ram s.world = .ok (ram', world) →
        (∀ x, SavedArea tssEntry s x → ram' x = ram x) →
        ∃ ram'', execAll (kernelTables isrStubTable tssEntry) e handler s₁
            (interruptHandler v.val) = .ok ⟨s.cpu, ram'', world⟩ ∧
          ∀ x, ¬ StackArea tssEntry e s x → ram'' x = ram' x := by
  obtain ⟨w, s', hrun, hsaved⟩ := stub_saves isrStubTable tssEntry e handler s hcode
  obtain ⟨houtside, hsame⟩ := hsaved.memory hdepth hfits
  have hsplit : execAll (kernelTables isrStubTable tssEntry) e handler
      (entered isrStubTable tssEntry e.zeroExtends s v errorCode) (interruptHandler v.val) =
      execAll (kernelTables isrStubTable tssEntry) e handler s'
        ([.callMainInterruptHandler] ++ restoreContext) := by
    unfold interruptHandler callGenericHandler
    rw [List.append_assoc, ← List.append_assoc (stubPushes v.val)]
    exact execAll_append _ e handler hrun
  refine ⟨entered isrStubTable tssEntry e.zeroExtends s v errorCode,
    InterruptFrame.ofWords s'.top, (s'.push e.returnAddress).ram, ?_, rfl,
    entered_cpl isrStubTable tssEntry e.zeroExtends s v errorCode,
    hsaved.describes, houtside, fun f hf => ?_, fun ram' world hcall hkeep => ?_⟩
  · rw [deliver_kernel, if_pos ⟨henters, hstack⟩]
  · rw [hsplit, List.singleton_append, execAll]
    simp only [exec, callMainInterruptHandler, hsaved.world, hf]
    rfl
  · rw [hsplit]
    rw [← hsaved.world] at hcall
    exact hsaved.returns handler _ hret hfits hcall fun x hx => (hkeep x hx).trans (hsame x hx)

end KajijOSta.Interrupts
