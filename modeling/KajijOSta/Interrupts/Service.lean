import KajijOSta.Interrupts.Pic

/-! # What the controllers deliver

Over every order of raised and withdrawn lines, instructions and acknowledgments, from the
boot loader on: only the keyboard's vector and the spurious one are delivered, never before
the descriptor table is loaded, and whenever interrupts are on nothing is in service, so
that the keyboard is never shut out (`board_delivers`). -/
namespace KajijOSta.Interrupts
open KajijOSta.Keyboard

/-! ## Controllers but for their lines -/

/-- A controller without its requests. -/
def Chip.forget (c : Chip) : Chip := { c with irr := fun _ => false }

namespace Pic

def forget (p : Pic) : Pic := ⟨p.master.forget, p.slave.forget⟩

@[simp] theorem setLine_forget (p : Pic) (line : Fin 16) (up : Bool) :
    (p.setLine line up).forget = p.forget := by
  unfold setLine
  split
  · split <;> rfl
  · rfl

end Pic

namespace Chip
variable (c : Chip)

theorem endOfInterrupt_forget : c.endOfInterrupt.forget = c.forget.endOfInterrupt := by
  unfold endOfInterrupt
  simp only [forget]
  split <;> rfl

theorem command_forget (data : UInt8) : (c.command data).forget = c.forget.command data := by
  unfold command
  split
  · rfl
  · split
    · exact c.endOfInterrupt_forget
    · rfl

theorem data_forget (data : UInt8) : (c.data data).forget = c.forget.data data := by
  unfold Chip.data
  simp only [forget]
  split <;> rfl

end Chip

namespace Pic

/-- What a byte for a port does does not depend on the requests. -/
theorem out_forget (p : Pic) (w : PortWrite) : (p.out w).forget = p.forget.out w := by
  unfold out
  split
  · exact congrArg (Pic.mk · p.slave.forget) (p.master.command_forget w.data)
  · split
    · exact congrArg (Pic.mk · p.slave.forget) (p.master.data_forget w.data)
    · split
      · exact congrArg (Pic.mk p.master.forget ·) (p.slave.command_forget w.data)
      · split
        · exact congrArg (Pic.mk p.master.forget ·) (p.slave.data_forget w.data)
        · rfl

def outs (p : Pic) (ws : List PortWrite) : Pic := ws.foldl Pic.out p

/-- The controllers once `pic_remap` is done, and with another mask for the first. -/
def remapped (mask : UInt8) : Pic where
  master := ⟨.mask, false, true, pic1Offset, 0x04, false, mask, fun _ => false, fun _ => false⟩
  slave := ⟨.mask, false, true, pic2Offset, 0x02, false, picDisableAllMask, fun _ => false,
    fun _ => false⟩

/-- **`pic_remap`**, whatever state the controllers were left in. -/
theorem picRemap_outs (p : Pic) : (p.outs picRemap).forget = remapped picDisableAllMask := by
  rfl

end Pic

/-! ## What the keyboard's handler writes -/

section Writes
open Board

theorem cursor_elsewhere (r c : UInt8) : ∃ ws, Elsewhere ws ∧
    ∀ s : Console, (framebufferSetCursor s r c).sent = s.sent ++ ws := by
  refine ⟨[⟨cursorPortCmd, 0x0F⟩,
    ⟨cursorPortData, ((r.toUInt16 * 80 + c.toUInt16) &&& 0xFF).toUInt8⟩,
    ⟨cursorPortCmd, 0x0E⟩,
    ⟨cursorPortData, (((r.toUInt16 * 80 + c.toUInt16) >>> 8) &&& 0xFF).toUInt8⟩], ?_, fun s => ?_⟩
  · intro w hw
    simp only [List.mem_cons, List.not_mem_nil, or_false] at hw
    have hcmd : cursorPortCmd ∉ picPorts := by decide
    have hdata : cursorPortData ∉ picPorts := by decide
    rcases hw with rfl | rfl | rfl | rfl <;> assumption
  · simp only [framebufferSetCursor, Keyboard.out, List.append_assoc, List.cons_append,
      List.nil_append]

def endWrites : List PortWrite := [⟨pic2Command, picAckByte⟩, ⟨pic1Command, picAckByte⟩]

theorem picAck_sent (s : Console) :
    (picAck s (pic1Offset + irqKeyboard)).sent = s.sent ++ endWrites := by
  have hirq : (8 : UInt8) ≤ pic1Offset + irqKeyboard := by decide
  simp only [picAck, if_pos hirq, Keyboard.out, endWrites, List.append_assoc, List.cons_append,
    List.nil_append]

/-- `keyboard_isr` may move the cursor, and ends the interrupt at both controllers: the
number it passes to `pic_ack` is the vector, which is not below 8. -/
theorem isrWrites_eq (console : Console) (scancode : UInt8) :
    ∃ ws, Elsewhere ws ∧ isrWrites console scancode = ws ++ endWrites := by
  have hdone : ∀ (s : Console) (ws : List PortWrite), Elsewhere ws → s.sent = console.sent ++ ws →
      ∃ ws, Elsewhere ws ∧ (picAck s (pic1Offset + irqKeyboard)).sent.drop console.sent.length =
        ws ++ endWrites := by
    intro s ws hws hs
    refine ⟨ws, hws, ?_⟩
    rw [picAck_sent, hs, List.append_assoc, List.drop_left]
  have hnone : ∀ s : Console, s.sent = console.sent →
      ∃ ws, Elsewhere ws ∧ (picAck s (pic1Offset + irqKeyboard)).sent.drop console.sent.length =
        ws ++ endWrites := fun s hs =>
    hdone s [] (fun w hw => absurd hw List.not_mem_nil) (hs.trans (List.append_nil _).symm)
  unfold isrWrites keyboardIsr
  simp only []
  split
  · split
    · split
      · split
        · -- a blank is put over the last character, and the cursor on it
          obtain ⟨ws, hws, hcursor⟩ := cursor_elsewhere (toByte console.keyboard.keyboardRow)
            (toByte (console.keyboard.keyboardCol - 1))
          exact hdone _ ws hws (hcursor _)
        · exact hnone _ rfl
      · exact hnone _ rfl
    · exact hnone _ rfl
  · exact hnone _ rfl

end Writes

/-! ## What the controllers ask for -/

namespace Chip
variable {c : Chip}

theorem pending_idle (h : c.isr = fun _ => false) :
    c.pending = (List.finRange 8).find? c.requests := by
  unfold pending
  simp only [h, Bool.or_false, Bool.not_false]
  cases (List.finRange 8).find? c.requests <;> rfl

/-- With all lines masked, none is asked for. -/
theorem pending_masked (h : c.isr = fun _ => false) (hm : c.imr = picDisableAllMask) :
    c.pending = none := by
  have hbits : ∀ i : Fin 8, picDisableAllMask.toBitVec.getLsbD i = true := by decide
  have hreq : c.requests = fun _ => false := funext fun i => by
    rw [requests, hm, hbits, Bool.not_true, Bool.and_false]
  rw [pending_idle h, hreq]
  decide

def keyboardMask : UInt8 := picDisableAllMask &&& ~~~(1 <<< irqKeyboard)

theorem pending_keyboard (h : c.isr = fun _ => false) (hm : c.imr = keyboardMask) :
    c.pending = if c.irr 1 then some 1 else none := by
  have hbits : ∀ i : Fin 8, keyboardMask.toBitVec.getLsbD i = !decide (i = 1) := by decide
  have hreq : c.requests = fun i => c.irr 1 && decide (i = 1) := funext fun i => by
    rw [requests, hm, hbits, Bool.not_not]
    by_cases hi : i = 1
    · rw [hi]
    · rw [decide_eq_false hi, Bool.and_false, Bool.and_false]
  rw [pending_idle h, hreq]
  cases c.irr 1 <;> decide

end Chip

namespace Pic
variable {p : Pic} {mask : UInt8}

/-- The controllers while the keyboard's interrupt is in service. -/
def serving : Pic :=
  ⟨{ (remapped Chip.keyboardMask).master with isr := fun i => decide (i.val = 1) },
    (remapped Chip.keyboardMask).slave⟩

/-- The end of the interrupt at the first controller. -/
theorem serving_ends :
    serving.out ⟨pic1Command, picAckByte⟩ = remapped Chip.keyboardMask := by
  have hisr : Function.update (fun i : Fin 8 => decide (i.val = 1)) 1 false = fun _ => false :=
    funext (by decide)
  have hout : serving.out ⟨pic1Command, picAckByte⟩ = ⟨{ (remapped Chip.keyboardMask).master with
      isr := Function.update (fun i : Fin 8 => decide (i.val = 1)) 1 false },
      (remapped Chip.keyboardMask).slave⟩ := rfl
  rw [hout, hisr]
  rfl

theorem master_imr (h : p.forget = remapped mask) : p.master.imr = mask :=
  congrArg (fun q => q.master.imr) h

theorem signals_masked (h : p.forget = remapped picDisableAllMask) : p.signals = false := by
  have hisr : p.wired.isr = fun _ => false := congrArg (fun q => q.master.isr) h
  unfold signals
  rw [Chip.pending_masked hisr (master_imr h)]
  rfl

theorem wired_pending (h : p.forget = remapped Chip.keyboardMask) :
    p.wired.pending = if p.master.irr 1 then some 1 else none := by
  have hisr : p.wired.isr = fun _ => false := congrArg (fun q => q.master.isr) h
  have hirr : p.wired.irr 1 = p.master.irr 1 :=
    Function.update_of_ne (by decide : (1 : Fin 8) ≠ 2) p.slave.pending.isSome p.master.irr
  rw [Chip.pending_keyboard hisr (master_imr h), hirr]

/-- The line to the processor is the keyboard's. -/
theorem signals_keyboard (h : p.forget = remapped Chip.keyboardMask) :
    p.signals = p.master.irr 1 := by
  unfold signals
  rw [wired_pending h]
  cases p.master.irr 1 <;> rfl

/-- The processor gets the keyboard's vector, or, if the request has gone, the spurious one. -/
theorem acknowledge_keyboard (h : p.forget = remapped Chip.keyboardMask) :
    (p.acknowledge.2 = pic1Offset + irqKeyboard ∧ p.acknowledge.1.forget = serving) ∨
    (p.acknowledge.2 = pic1Offset + 7 ∧ p.acknowledge.1.forget = remapped Chip.keyboardMask) := by
  have hoffset : p.master.offset = pic1Offset := congrArg (fun q => q.master.offset) h
  unfold acknowledge
  rw [wired_pending h]
  cases p.master.irr 1 with
  | true =>
    refine Or.inl ⟨?_, ?_⟩
    · simp only [if_true, hoffset]
      rfl
    · have hmaster : (p.wired.take 1).forget = serving.master := by
        have hforget : p.wired.forget = (remapped Chip.keyboardMask).master :=
          congrArg Pic.master h
        have htake : (p.wired.take 1).forget = (p.wired.forget.take 1).forget := rfl
        have hisr : Function.update (fun _ : Fin 8 => false) 1 true = serving.master.isr :=
          funext (by decide)
        rw [htake, hforget, Chip.take]
        exact congrArg (fun isr => { (remapped Chip.keyboardMask).master with isr := isr }) hisr
      exact congrArg₂ Pic.mk hmaster (congrArg Pic.slave h)
  | false =>
    refine Or.inr ⟨?_, h⟩
    simp only [hoffset]
    rfl

end Pic

/-! ## Where the code stands -/

section Runs
open Board
variable {rest : List PortWrite} {b : Board}

def afterRemap (rest : List PortWrite) : List Op :=
  [.lidt, .sti] ++ (activateKeyboardInterrupt ++ rest.map .out)

/-- Where the code stands, and how the controllers are programmed then. -/
inductive Phase (rest : List PortWrite) (b : Board) : Prop
  | entering (code : b.code = kernelSetup rest) (flag : b.interruptFlag = false)
    (idt : b.idtLoaded = false)
  | remapping (p : Pic) (done left : List PortWrite) (split : picRemap = done ++ left)
    (code : b.code = left.map .out ++ afterRemap rest) (flag : b.interruptFlag = false)
    (idt : b.idtLoaded = false) (pic : b.pic.forget = (p.outs done).forget)
  | loaded (code : b.code = [.sti] ++ (activateKeyboardInterrupt ++ rest.map .out))
    (flag : b.interruptFlag = false) (idt : b.idtLoaded = true)
    (pic : b.pic.forget = Pic.remapped picDisableAllMask)
  | masked (code : b.code = activateKeyboardInterrupt ++ rest.map .out)
    (flag : b.interruptFlag = true) (idt : b.idtLoaded = true)
    (pic : b.pic.forget = Pic.remapped picDisableAllMask)
  | unmasking (code : b.code = [.outMask] ++ rest.map .out) (flag : b.interruptFlag = true)
    (idt : b.idtLoaded = true) (pic : b.pic.forget = Pic.remapped picDisableAllMask)
    (al : b.al = picDisableAllMask)
  | running (ws : List PortWrite) (others : Elsewhere ws) (code : b.code = ws.map .out)
    (flag : b.interruptFlag = true) (idt : b.idtLoaded = true)
    (pic : b.pic.forget = Pic.remapped Chip.keyboardMask)
  | serving (ws ws' : List PortWrite) (others : Elsewhere ws) (others' : Elsewhere ws')
    (code : b.code = (ws ++ endWrites).map .out ++ ([.iret] ++ ws'.map .out))
    (flag : b.interruptFlag = false) (idt : b.idtLoaded = true) (pic : b.pic.forget = Pic.serving)
  | ending (ws' : List PortWrite) (others' : Elsewhere ws')
    (code : b.code = [.out ⟨pic1Command, picAckByte⟩] ++ ([.iret] ++ ws'.map .out))
    (flag : b.interruptFlag = false) (idt : b.idtLoaded = true) (pic : b.pic.forget = Pic.serving)
  | returning (ws ws' : List PortWrite) (others : Elsewhere ws) (others' : Elsewhere ws')
    (code : b.code = ws.map .out ++ ([.iret] ++ ws'.map .out)) (flag : b.interruptFlag = false)
    (idt : b.idtLoaded = true) (pic : b.pic.forget = Pic.remapped Chip.keyboardMask)

/-- A vector that the kernel is ready for. -/
def Expected (d : Delivery) : Prop :=
  d.idtLoaded = true ∧ (d.vector = pic1Offset + irqKeyboard ∨ d.vector = pic1Offset + 7)

/-- The invariant: an interrupt is under way only once the keyboard's line is open. -/
structure Sound (rest : List PortWrite) (b : Board) : Prop where
  phase : Phase rest b
  noticed : b.noticed = true → b.interruptFlag = true ∧ b.pic.master.imr = Chip.keyboardMask
  delivered : ∀ d ∈ b.delivered, Expected d

theorem sound_start (pic : Pic) (rest : List PortWrite) : Sound rest (start pic rest) :=
  ⟨.entering rfl rfl rfl, fun h => absurd h Bool.false_ne_true,
    fun _ hd => absurd hd List.not_mem_nil⟩

/-- While interrupts are on, the code stands in one of three places. -/
theorem Sound.open_phase (h : Sound rest b) (hflag : b.interruptFlag = true) :
    b.idtLoaded = true ∧ (b.pic.forget = Pic.remapped picDisableAllMask ∧ b.code ≠ [] ∨
      b.pic.forget = Pic.remapped Chip.keyboardMask ∧
        ∃ ws, Elsewhere ws ∧ b.code = ws.map .out) := by
  cases h.phase with
  | entering _ flag _ => rw [flag] at hflag; cases hflag
  | remapping _ _ _ _ _ flag _ _ => rw [flag] at hflag; cases hflag
  | loaded _ flag _ _ => rw [flag] at hflag; cases hflag
  | masked code _ idt pic => exact ⟨idt, Or.inl ⟨pic, by rw [code]; exact List.cons_ne_nil _ _⟩⟩
  | unmasking code _ idt pic _ =>
    exact ⟨idt, Or.inl ⟨pic, by rw [code]; exact List.cons_ne_nil _ _⟩⟩
  | running ws others code _ idt pic => exact ⟨idt, Or.inr ⟨pic, ws, others, code⟩⟩
  | serving _ _ _ _ _ flag _ _ => rw [flag] at hflag; cases hflag
  | ending _ _ _ flag _ _ => rw [flag] at hflag; cases hflag
  | returning _ _ _ _ _ flag _ _ => rw [flag] at hflag; cases hflag

theorem forget_imr {p q : Pic} (h : p.forget = q.forget) : p.master.imr = q.master.imr :=
  congrArg (fun r => r.master.imr) h

/-- What only changes requests keeps the phase. -/
theorem Phase.of_forget {b' : Board} (h : Phase rest b) (hpic : b'.pic.forget = b.pic.forget)
    (hflag : b'.interruptFlag = b.interruptFlag) (hidt : b'.idtLoaded = b.idtLoaded)
    (hal : b'.al = b.al) (hcode : b'.code = b.code) : Phase rest b' := by
  cases h with
  | entering code flag idt =>
    exact .entering (hcode.trans code) (hflag.trans flag) (hidt.trans idt)
  | remapping p done left split code flag idt pic =>
    exact .remapping p done left split (hcode.trans code) (hflag.trans flag) (hidt.trans idt)
      (hpic.trans pic)
  | loaded code flag idt pic =>
    exact .loaded (hcode.trans code) (hflag.trans flag) (hidt.trans idt) (hpic.trans pic)
  | masked code flag idt pic =>
    exact .masked (hcode.trans code) (hflag.trans flag) (hidt.trans idt) (hpic.trans pic)
  | unmasking code flag idt pic al =>
    exact .unmasking (hcode.trans code) (hflag.trans flag) (hidt.trans idt) (hpic.trans pic)
      (hal.trans al)
  | running ws others code flag idt pic =>
    exact .running ws others (hcode.trans code) (hflag.trans flag) (hidt.trans idt)
      (hpic.trans pic)
  | serving ws ws' others others' code flag idt pic =>
    exact .serving ws ws' others others' (hcode.trans code) (hflag.trans flag) (hidt.trans idt)
      (hpic.trans pic)
  | ending ws' others' code flag idt pic =>
    exact .ending ws' others' (hcode.trans code) (hflag.trans flag) (hidt.trans idt)
      (hpic.trans pic)
  | returning ws ws' others others' code flag idt pic =>
    exact .returning ws ws' others others' (hcode.trans code) (hflag.trans flag) (hidt.trans idt)
      (hpic.trans pic)

/-! ## Steps -/

/-- A byte for another port does nothing. -/
theorem out_elsewhere (p : Pic) {w : PortWrite} (h : w.port ∉ picPorts) : p.out w = p := by
  simp only [picPorts, List.mem_cons, List.not_mem_nil, or_false, not_or] at h
  unfold Pic.out
  rw [if_neg h.1, if_neg h.2.1, if_neg h.2.2.1, if_neg h.2.2.2]

theorem line_sound (h : Sound rest b) (line : Fin 16) (up : Bool) :
    Sound rest (b.step (.line line up)) where
  phase := h.phase.of_forget (b.pic.setLine_forget line up) rfl rfl rfl rfl
  noticed hn := by
    obtain ⟨hflag, himr⟩ := h.noticed hn
    exact ⟨hflag, (forget_imr (b.pic.setLine_forget line up)).trans himr⟩
  delivered := h.delivered

theorem notice_sound (h : Sound rest b) : Sound rest (b.step .notice) := by
  simp only [step]
  split
  · rename_i hn
    obtain ⟨hflag, hsignals⟩ := Bool.and_eq_true_iff.mp hn
    refine ⟨h.phase.of_forget rfl rfl rfl rfl rfl, fun _ => ⟨hflag, ?_⟩, h.delivered⟩
    rcases (h.open_phase hflag).2 with ⟨hmasked, _⟩ | ⟨hopen, _⟩
    · rw [Pic.signals_masked hmasked] at hsignals
      cases hsignals
    · exact Pic.master_imr hopen
  · exact h

theorem call_sound (h : Sound rest b) (writes : List PortWrite) :
    Sound rest (b.step (.call writes)) := by
  simp only [step]
  split
  · rename_i hc
    obtain ⟨hflag, hn, hcode, hwrites⟩ := hc
    obtain ⟨hidt, hphase⟩ := h.open_phase hflag
    rcases hphase with ⟨_, hne⟩ | ⟨hopen, _⟩
    · exact absurd hcode hne
    · refine ⟨.returning writes [] hwrites (fun w hw => absurd hw List.not_mem_nil) rfl rfl hidt
        hopen, fun hn' => ?_, h.delivered⟩
      exact absurd (hn.symm.trans hn') Bool.false_ne_true
  · exact h

theorem acknowledge_sound (h : Sound rest b) (console : Console) (scancode : UInt8) :
    Sound rest (b.step (.acknowledge console scancode)) := by
  simp only [step]
  split
  · rename_i hn
    obtain ⟨hflag, himr⟩ := h.noticed hn
    obtain ⟨hidt, hphase⟩ := h.open_phase hflag
    have hlog : ∀ {v : UInt8}, v = pic1Offset + irqKeyboard ∨ v = pic1Offset + 7 →
        ∀ d ∈ b.delivered ++ [⟨v, b.idtLoaded⟩], Expected d := by
      intro v hv d hd
      rcases List.mem_append.mp hd with hd | hd
      · exact h.delivered d hd
      · rw [List.mem_singleton.mp hd]
        exact ⟨hidt, hv⟩
    rcases hphase with ⟨hmasked, _⟩ | ⟨hopen, ws', others', hcode⟩
    · have hne : picDisableAllMask ≠ Chip.keyboardMask := by decide
      exact absurd ((Pic.master_imr hmasked).symm.trans himr) hne
    · rcases Pic.acknowledge_keyboard hopen with ⟨hv, hpic⟩ | ⟨hv, hpic⟩
      · obtain ⟨ws, others, hwrites⟩ := isrWrites_eq console scancode
        refine ⟨.serving ws ws' others others' ?_ rfl hidt hpic,
          fun hn' => absurd hn' Bool.false_ne_true, hlog (Or.inl hv)⟩
        rw [hv, handlerCode, if_pos rfl, hwrites, hcode, List.append_assoc]
      · have hne : pic1Offset + 7 ≠ pic1Offset + irqKeyboard := by decide
        refine ⟨.returning [] ws' (fun w hw => absurd hw List.not_mem_nil) others' ?_ rfl hidt hpic,
          fun hn' => absurd hn' Bool.false_ne_true, hlog (Or.inr hv)⟩
        rw [hv, handlerCode, if_neg hne, hcode]
        rfl
  · exact h

/-- An instruction, wherever the code stands. -/
theorem execute_sound (h : Sound rest b) (hrest : Elsewhere rest) :
    Sound rest (b.step .execute) := by
  simp only [step]
  split
  · exact h
  · rename_i hn
    have hfalse : ∀ {b' : Board}, b'.noticed = b.noticed → b'.noticed = true →
        b'.interruptFlag = true ∧ b'.pic.master.imr = Chip.keyboardMask :=
      fun heq hn' => absurd (heq.symm.trans hn') hn
    cases h.phase with
    | entering code flag idt =>
      rw [code]
      exact ⟨.remapping b.pic [] picRemap rfl rfl rfl idt rfl, hfalse rfl, h.delivered⟩
    | remapping p done left split code flag idt pic =>
      cases left with
      | nil =>
        rw [code]
        refine ⟨.loaded rfl flag rfl ?_, hfalse rfl, h.delivered⟩
        rw [List.append_nil] at split
        exact pic.trans (split ▸ Pic.picRemap_outs p)
      | cons w left =>
        rw [code]
        refine ⟨.remapping p (done ++ [w]) left (by rw [split, List.append_assoc]; rfl) rfl flag idt
          ?_, hfalse rfl, h.delivered⟩
        show (b.pic.out w).forget = _
        rw [Pic.out_forget, pic, ← Pic.out_forget, Pic.outs, Pic.outs, List.foldl_append]
        rfl
    | loaded code flag idt pic =>
      rw [code]
      exact ⟨.masked rfl rfl idt pic, hfalse rfl, h.delivered⟩
    | masked code flag idt pic =>
      rw [code]
      exact ⟨.unmasking rfl flag idt pic (Pic.master_imr pic), hfalse rfl, h.delivered⟩
    | unmasking code flag idt pic al =>
      rw [code]
      refine ⟨.running rest hrest rfl flag idt ?_, hfalse rfl, h.delivered⟩
      show (b.pic.out _).forget = _
      rw [Pic.out_forget, pic, al]
      rfl
    | running ws others code flag idt pic =>
      cases ws with
      | nil =>
        rw [code]
        exact h
      | cons w ws =>
        rw [code]
        refine ⟨.running ws (fun x hx => others x (List.mem_cons_of_mem _ hx)) rfl flag idt ?_,
          hfalse rfl, h.delivered⟩
        show (b.pic.out w).forget = _
        rw [out_elsewhere b.pic (others w List.mem_cons_self), pic]
    | serving ws ws' others others' code flag idt pic =>
      cases ws with
      | nil =>
        -- nothing is in service at the slave
        rw [code]
        refine ⟨.ending ws' others' rfl flag idt ?_, hfalse rfl, h.delivered⟩
        show (b.pic.out _).forget = _
        rw [Pic.out_forget, pic]
        rfl
      | cons w ws =>
        rw [code]
        refine ⟨.serving ws ws' (fun x hx => others x (List.mem_cons_of_mem _ hx)) others' rfl flag
          idt ?_, hfalse rfl, h.delivered⟩
        show (b.pic.out w).forget = _
        rw [out_elsewhere b.pic (others w List.mem_cons_self), pic]
    | ending ws' others' code flag idt pic =>
      rw [code]
      refine ⟨.returning [] ws' (fun w hw => absurd hw List.not_mem_nil) others' rfl flag idt ?_,
        hfalse rfl, h.delivered⟩
      show (b.pic.out _).forget = _
      rw [Pic.out_forget, pic, Pic.serving_ends]
    | returning ws ws' others others' code flag idt pic =>
      cases ws with
      | nil =>
        rw [code]
        exact ⟨.running ws' others' rfl rfl idt pic, hfalse rfl, h.delivered⟩
      | cons w ws =>
        rw [code]
        refine ⟨.returning ws ws' (fun x hx => others x (List.mem_cons_of_mem _ hx)) others' rfl
          flag idt ?_, hfalse rfl, h.delivered⟩
        show (b.pic.out w).forget = _
        rw [out_elsewhere b.pic (others w List.mem_cons_self), pic]

theorem step_sound (h : Sound rest b) (hrest : Elsewhere rest) (e : Board.Event) :
    Sound rest (b.step e) := by
  cases e with
  | line line up => exact line_sound h line up
  | notice => exact notice_sound h
  | acknowledge console scancode => exact acknowledge_sound h console scancode
  | execute => exact execute_sound h hrest
  | call writes => exact call_sound h writes

theorem run_sound (h : Sound rest b) (hrest : Elsewhere rest) (events : List Board.Event) :
    Sound rest (events.foldl step b) := by
  induction events generalizing b with
  | nil => exact h
  | cons e events ih => exact ih (step_sound h hrest e)

/-- **What the controllers deliver.** From the boot loader on, in every order of events:
each vector that comes finds the descriptor table loaded and is the keyboard's or the
spurious one; while interrupts are on nothing is in service at either controller; and then,
once the keyboard's line is open, it alone raises the line to the processor. -/
theorem board_delivers (pic : Pic) {rest : List PortWrite} (hrest : Elsewhere rest)
    (events : List Board.Event) :
    let b := events.foldl step (start pic rest)
    (∀ d ∈ b.delivered, d.idtLoaded = true ∧ (d.vector = 0x21 ∨ d.vector = 0x27)) ∧
    (b.interruptFlag = true → (∀ i, b.pic.master.isr i = false ∧ b.pic.slave.isr i = false) ∧
      (b.pic.master.imr = 0xFD → b.pic.signals = b.pic.master.irr 1)) := by
  intro b
  have h := run_sound (sound_start pic rest) hrest events
  refine ⟨h.delivered, fun hflag => ?_⟩
  have hidle : ∀ {mask : UInt8}, b.pic.forget = Pic.remapped mask →
      ∀ i, b.pic.master.isr i = false ∧ b.pic.slave.isr i = false := fun hpic i =>
    ⟨congrFun (congrArg (fun q => q.master.isr) hpic) i,
      congrFun (congrArg (fun q => q.slave.isr) hpic) i⟩
  rcases (h.open_phase hflag).2 with ⟨hmasked, _⟩ | ⟨hopen, _⟩
  · refine ⟨hidle hmasked, fun himr => ?_⟩
    have hne : picDisableAllMask ≠ 0xFD := by decide
    exact absurd ((Pic.master_imr hmasked).symm.trans himr) hne
  · exact ⟨hidle hopen, fun _ => Pic.signals_keyboard hopen⟩

def biosPic : Pic :=
  ⟨⟨.mask, false, true, 0x08, 0x04, false, 0xB8, fun _ => false, fun _ => false⟩,
    ⟨.mask, false, true, 0x70, 0x02, false, 0x8F, fun _ => false, fun _ => false⟩⟩

/-- The boot code with one write to the disk behind it, all of it run, and a key pressed. -/
theorem board_delivers_bios :
    let b := (List.replicate 24 Event.execute ++ [Event.line 1 true, Event.notice,
      Event.acknowledge loaded 0x1E]).foldl step (start biosPic [⟨0x1F7, 0x20⟩])
    (∀ d ∈ b.delivered, d.idtLoaded = true ∧ (d.vector = 0x21 ∨ d.vector = 0x27)) ∧
    (b.interruptFlag = true → (∀ i, b.pic.master.isr i = false ∧ b.pic.slave.isr i = false) ∧
      (b.pic.master.imr = 0xFD → b.pic.signals = b.pic.master.irr 1)) :=
  @board_delivers biosPic [⟨0x1F7, 0x20⟩] (by decide) _

/-! ## The keyboard gets through -/

/-- Once the descriptor table is loaded, no instruction drops a request. -/
theorem execute_irr (h : Sound rest b) (hidt : b.idtLoaded = true) :
    (b.step .execute).pic.master.irr = b.pic.master.irr := by
  have hend : ∀ c : Chip, (c.command picAckByte).irr = c.irr := by
    intro c
    have hcommand : c.command picAckByte = c.endOfInterrupt := rfl
    rw [hcommand]
    unfold Chip.endOfInterrupt
    split <;> rfl
  have helse : ∀ {w : PortWrite} {ws : List PortWrite}, Elsewhere (w :: ws) →
      (b.pic.out w).master.irr = b.pic.master.irr := fun hw => by
    rw [out_elsewhere b.pic (hw _ List.mem_cons_self)]
  simp only [step]
  split
  · rfl
  · cases h.phase with
    | entering _ _ idt => exact absurd (idt.symm.trans hidt) Bool.false_ne_true
    | remapping _ _ _ _ _ _ idt _ => exact absurd (idt.symm.trans hidt) Bool.false_ne_true
    | loaded code _ _ _ =>
      rw [code]
      rfl
    | masked code _ _ _ =>
      rw [code]
      rfl
    | unmasking code _ _ pic _ =>
      have hawaits : b.pic.master.awaits = .mask := congrArg (fun q => q.master.awaits) pic
      rw [code]
      show (b.pic.master.data _).irr = _
      simp only [Chip.data, hawaits]
    | running ws others code _ _ _ =>
      rw [code]
      cases ws with
      | nil => rfl
      | cons w ws => exact helse others
    | serving ws ws' others _ code _ _ _ =>
      rw [code]
      cases ws with
      | nil => rfl
      | cons w ws => exact helse others
    | ending ws' _ code _ _ _ =>
      rw [code]
      exact hend b.pic.master
    | returning ws ws' others _ code _ _ _ =>
      rw [code]
      cases ws with
      | nil => rfl
      | cons w ws => exact helse others

theorem perform_frame (b : Board) (op : Op) : (b.perform op).code = b.code ∧
    (b.perform op).noticed = b.noticed ∧ (b.perform op).delivered = b.delivered ∧
      (b.idtLoaded = true → (b.perform op).idtLoaded = true) := by
  cases op <;> exact ⟨rfl, rfl, rfl, fun h => by first | exact h | rfl⟩

/-- With no code left, interrupts are on and the keyboard's line is open. -/
theorem Sound.idle (h : Sound rest b) (hcode : b.code = []) :
    b.interruptFlag = true ∧ b.idtLoaded = true ∧
      b.pic.forget = Pic.remapped Chip.keyboardMask := by
  cases h.phase with
  | running _ _ _ flag idt pic => exact ⟨flag, idt, pic⟩
  | entering code => simp [hcode, kernelSetup] at code
  | remapping _ _ _ _ code => simp [hcode, afterRemap] at code
  | loaded code => simp [hcode] at code
  | masked code => simp [hcode, activateKeyboardInterrupt] at code
  | unmasking code => simp [hcode] at code
  | serving _ _ _ _ code => simp [hcode] at code
  | ending _ _ code => simp [hcode] at code
  | returning _ _ _ _ code => simp [hcode] at code

/-- With nothing else happening, the code runs to its end, and takes no request with it
once the descriptor table is loaded. -/
theorem execute_all (h : Sound rest b) (hrest : Elsewhere rest) (hn : b.noticed = false) :
    ∃ n, let b' := (List.replicate n Event.execute).foldl step b
      Sound rest b' ∧ b'.code = [] ∧ b'.noticed = false ∧ b'.delivered = b.delivered ∧
        (b.idtLoaded = true → b'.pic.master.irr = b.pic.master.irr) := by
  generalize hlen : b.code.length = k
  induction k generalizing b with
  | zero => exact ⟨0, h, List.length_eq_zero_iff.mp hlen, hn, rfl, fun _ => rfl⟩
  | succ k ih =>
    obtain ⟨op, code, hcode⟩ := List.exists_cons_of_length_eq_add_one hlen
    have hirr := execute_irr h
    have hsound := step_sound h hrest .execute
    have hstep : b.step .execute = ({ b with code := code } : Board).perform op := by
      simp only [step, hn, Bool.false_eq_true, if_false, hcode]
    obtain ⟨hcode', hn', hdelivered, hidt'⟩ := perform_frame { b with code := code } op
    rw [← hstep] at hcode' hn' hdelivered hidt'
    rw [hcode, List.length_cons, Nat.succ_inj] at hlen
    obtain ⟨n, hsound', hend, hn'', hdelivered', hirr'⟩ :=
      ih hsound (hn'.trans hn) (by rw [hcode', hlen])
    exact ⟨n + 1, hsound', hend, hn'', hdelivered'.trans hdelivered, fun hidt =>
      (hirr' (hidt' hidt)).trans (hirr hidt)⟩

/-- The processor, with its line up for the keyboard, gets the keyboard's vector. -/
theorem acknowledge_vector {p : Pic} (h : p.forget = Pic.remapped Chip.keyboardMask)
    (hup : p.master.irr 1 = true) : p.acknowledge.2 = 0x21 := by
  have hoffset : p.master.offset = pic1Offset := congrArg (fun q => q.master.offset) h
  unfold Pic.acknowledge
  rw [Pic.wired_pending h, hup]
  simp only [if_true, hoffset]
  rfl

/-- **The keyboard gets through.** From every board that is reached with the descriptor
table loaded and the keyboard's line up: once the code has run to its end, or at once where
the processor has noticed an interrupt, it finds its line up and gets the keyboard's vector. -/
theorem keyboard_gets_through (pic : Pic) {rest : List PortWrite} (hrest : Elsewhere rest)
    (events : List Board.Event) (console : Console) (scancode : UInt8) :
    let b := events.foldl step (start pic rest)
    b.idtLoaded = true → b.pic.master.irr 1 = true →
      ∃ n, ((List.replicate n Event.execute ++
        [Event.notice, Event.acknowledge console scancode]).foldl step b).delivered =
          b.delivered ++ [⟨0x21, true⟩] := by
  intro b hidt hirr
  have h := run_sound (sound_start pic rest) hrest events
  -- the code that is run first, if the processor has not noticed an interrupt before
  obtain ⟨n, b', hb', hdelivered, hidt', hup, hflag, hopen⟩ : ∃ n b',
      (List.replicate n Event.execute).foldl step b = b' ∧ b'.delivered = b.delivered ∧
      b'.idtLoaded = true ∧ b'.pic.master.irr 1 = true ∧ b'.interruptFlag = true ∧
      b'.pic.forget = Pic.remapped Chip.keyboardMask := by
    cases hn : b.noticed with
    | true =>
      obtain ⟨hflag, himr⟩ := h.noticed hn
      refine ⟨0, b, rfl, rfl, hidt, hirr, hflag, ?_⟩
      rcases (h.open_phase hflag).2 with ⟨hmasked, _⟩ | ⟨hopen, _⟩
      · have hne : picDisableAllMask ≠ Chip.keyboardMask := by decide
        exact absurd ((Pic.master_imr hmasked).symm.trans himr) hne
      · exact hopen
    | false =>
      obtain ⟨n, hsound, hcode, _, hdelivered, hirr'⟩ := execute_all h hrest hn
      obtain ⟨hflag, hidt', hopen⟩ := hsound.idle hcode
      exact ⟨n, _, rfl, hdelivered, hidt', (congrFun (hirr' hidt) 1).trans hirr, hflag, hopen⟩
  refine ⟨n, ?_⟩
  have hsignals : b'.pic.signals = true := (Pic.signals_keyboard hopen).trans hup
  rw [List.foldl_append, hb']
  simp only [List.foldl_cons, List.foldl_nil, step, hflag, hsignals, Bool.and_self, if_true]
  rw [hdelivered, acknowledge_vector hopen hup, hidt']

theorem keyboard_gets_through_bios :
    ∃ n, ((List.replicate n Event.execute ++
      [Event.notice, Event.acknowledge loaded 0x1E]).foldl step
        ((List.replicate 21 Event.execute ++ [Event.line 1 true]).foldl step
          (start biosPic [⟨0x1F7, 0x20⟩]))).delivered = [⟨0x21, true⟩] :=
  @keyboard_gets_through biosPic [⟨0x1F7, 0x20⟩] (by decide)
    (List.replicate 21 Event.execute ++ [Event.line 1 true]) loaded 0x1E rfl rfl

end Runs

end KajijOSta.Interrupts
