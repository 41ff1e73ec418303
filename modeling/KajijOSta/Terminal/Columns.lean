import KajijOSta.Keyboard.Delivery
import KajijOSta.Keyboard.Screen
import KajijOSta.Terminal.Main

/-! # The screen and the edit buffer

The driver moves its column with every key and every text the shell prints; `main`
counts the characters of the line by itself. What links the two is the prompt of 18
characters. `columns_iff` says in which sequences of key presses the column stays
18 behind the index, and each backspace takes its own character off the screen. -/
namespace KajijOSta.Terminal
open KajijOSta.Fat32 KajijOSta.Shell KajijOSta.Keyboard KajijOSta.Runs

/-! ## The two together -/

/-- The driver and the shell, between two polls. -/
structure Display where
  console : Console
  session : Session

/-- A step of the shell on the driver. -/
def Action.show (s : Console) : Action → Console
  | .text event => (Keyboard.serve s event).2
  | _ => s

def play (s : Console) (actions : List Action) : Console := actions.foldl Action.show s

/-- A key press, and what lies in memory for the command it may start. -/
structure Stroke where
  env : Environment
  scancode : UInt8

def Stroke.char (stroke : Stroke) : UInt8 := keyboardScancode1ToAsciiMap stroke.scancode

/-- A key press, the poll behind it and the turn of the loop. -/
def press (d : Display) (stroke : Stroke) : Except Stop Display :=
  let console := keyboardIsr d.console stroke.scancode
  let (polled, console) := getKeyboardBuffer console
  let (actions, result) := mainTurn stroke.env d.session polled
  result.map fun session => ⟨play console actions, session⟩

/-- The first poll, after the prompt; `input` holds any bytes. -/
def opened (s : System) (g : Fin 256 → UInt8) : Display :=
  ⟨play loaded (mainStart s).actions, ⟨s, List.ofFn g, 0⟩⟩

/-! ## The property -/

def promptLength : Nat := 18

/-- The column is behind the prompt and the characters of the line. -/
def Aligned (d : Display) : Prop :=
  d.console.keyboard.keyboardCol = promptLength + d.session.i

def cellAt (s : Console) (col : Int) : Nat :=
  ((toByte s.keyboard.keyboardRow).toNat * 80 + (toByte col).toNat) * 2

def inputCell (d : Display) (k : Nat) : Nat := cellAt d.console (promptLength + k)

def glyph (cell : Nat) (c color : UInt8) : List CellWrite :=
  [⟨cell, c⟩, ⟨cell + 1, ((0 : UInt8) <<< 4) ||| (color &&& 0x0F)⟩]

/-- A character is written into its cell. A backspace puts a blank into the cell of the
character it takes off the line, which is no cell of the prompt, or nothing anywhere on
an empty line. The row stays. -/
structure Tracks (d : Display) (stroke : Stroke) : Prop where
  types : stroke.char ≠ 0 → stroke.char ≠ backspace → stroke.char ≠ lineFeed →
    ∀ d', press d stroke = .ok d' → d'.session.i = d.session.i + 1 ∧
      d'.console.keyboard.keyboardRow = d.console.keyboard.keyboardRow ∧
      d'.console.stored = d.console.stored ++ glyph (inputCell d d.session.i) stroke.char 0xF
  erases : stroke.char = backspace → 0 < d.session.i → ∀ d', press d stroke = .ok d' →
    d'.session.i = d.session.i - 1 ∧
      d'.console.keyboard.keyboardRow = d.console.keyboard.keyboardRow ∧
      d'.console.stored =
        d.console.stored ++ glyph (inputCell d (d.session.i - 1)) 32 0xF ∧
      ∀ j, j < promptLength → inputCell d (d.session.i - 1) ≠ cellAt d.console j
  leaves : stroke.char = backspace → d.session.i = 0 → ∀ d', press d stroke = .ok d' →
    d'.session.i = 0 ∧ d'.console.keyboard.keyboardRow = d.console.keyboard.keyboardRow ∧
      d'.console.stored = d.console.stored

/-- `cd` with an argument prints a message and no new line: no folder has the name, or
the stack is full. -/
def CdPrints (env : Environment) (a : Argument) (s : System) : Prop :=
  a.chars ≠ dotDot ∧
    ∀ i, cdSlot (readDirectory s.machine (currentRequest s.shell env.dirTable)).2 a.chars =
      some i → stackSize ≤ s.shell.directoryStack.length

/-- The line in `input` is such a `cd`. -/
def LinePrints (env : Environment) (s : Session) : Prop :=
  ∃ start first word rest, getString s.input 0 = some (start, first) ∧
    getString s.input 1 = some (word, rest) ∧ reads s.input "clear" = false ∧
    reads s.input "ls" = false ∧ reads first "cd" = true ∧
    CdPrints env (argumentAt env rest env.behindTemp word) s.system

/-- The keys that keep the two together: a backspace while the column of the last
character is below 256, and no new line at a `cd` that prints. -/
def KeepsColumn (d : Display) (stroke : Stroke) : Prop :=
  (stroke.char = backspace → promptLength + d.session.i ≤ 256) ∧
  (stroke.char = lineFeed → ¬ LinePrints stroke.env d.session)

/-! ## What the shell's text does to the driver -/

section Play
variable {s : Console}

theorem play_append (s : Console) (xs ys : List Action) :
    play s (xs ++ ys) = play (play s xs) ys := List.foldl_append

/-- Text, if any, that a program puts on the screen. -/
def Outputs (x : Action) : Prop := ∀ e, x = .text e → IsOutput e

theorem Quiet.outputs {x : Action} (h : Quiet x) : Outputs x := by
  intro e he
  subst he
  exact h

theorem show_same {x : Action} (h : Outputs x) : SameInput s (Action.show s x) := by
  cases x with
  | call request => exact SameInput.refl s
  | nullRead => exact SameInput.refl s
  | text event =>
    have hout := h event rfl
    cases event with
    | putsChar c color => exact ⟨rfl, rfl⟩
    | puts str size color => exact puts_same s str size color
    | putsNewline => exact ⟨rfl, rfl⟩
    | resetKeyboardState => exact ⟨rfl, rfl⟩
    | framebufferClear => exact framebufferClear_same s
    | _ => exact hout.elim

/-- Output leaves the input of the driver alone. -/
theorem play_same {xs : List Action} (h : ∀ x ∈ xs, Outputs x) : SameInput s (play s xs) := by
  induction xs generalizing s with
  | nil => exact SameInput.refl s
  | cons x xs ih =>
    have hx : SameInput s (Action.show s x) := show_same (h x List.mem_cons_self)
    exact hx.trans (ih fun y hy => h y (List.mem_cons_of_mem _ hy))

/-- A typed character on the screen. -/
theorem play_character (s : Console) (c : UInt8) :
    (play s [.text (.puts (memoryOf [c] fun _ => 0) 1 0xF)]).stored =
      s.stored ++ glyph (cellAt s s.keyboard.keyboardCol) c 0xF ∧
    (play s [.text (.puts (memoryOf [c] fun _ => 0) 1 0xF)]).keyboard.keyboardRow =
      s.keyboard.keyboardRow ∧
    (play s [.text (.puts (memoryOf [c] fun _ => 0) 1 0xF)]).keyboard.keyboardCol =
      s.keyboard.keyboardCol + 1 := ⟨putHere_stored c 0xF, rfl, rfl⟩

theorem play_newline (xs : List Action) :
    (play s (xs ++ [newline])).keyboard.keyboardCol = 0 := by
  rw [play_append]
  rfl

theorem show_puts (str : Memory) (size color : UInt8) :
    (Action.show s (.text (.puts str size color))).keyboard.keyboardCol =
      s.keyboard.keyboardCol + size.toNat := (putsLoop_keyboard str color size.toNat).2

/-- A message moves the column by its length. -/
theorem show_message (str : String) (color : UInt8) :
    (Action.show s (message str color)).keyboard.keyboardCol =
      s.keyboard.keyboardCol + (UInt8.ofNat (ascii str).length).toNat := by
  unfold message
  exact show_puts _ _ _

theorem show_letter (c color : UInt8) :
    (Action.show s (letter c color)).keyboard.keyboardCol = s.keyboard.keyboardCol + 1 := rfl

theorem play_showHome (sys : System) : (play s (showHome sys).actions).keyboard.keyboardCol =
    s.keyboard.keyboardCol + promptLength := by
  have hprompt := show_message (s := s) "root@kajijOSta" 0x2
  have hlength : (UInt8.ofNat (ascii "root@kajijOSta").length).toNat = 14 := by decide
  rw [hlength] at hprompt
  unfold showHome emit play
  simp only [List.foldl_cons, List.foldl_nil, show_letter, hprompt, promptLength]
  omega

end Play

/-! ## Where a command leaves the column -/

section Commands
variable {env : Environment} {x : Effect} {s : System} {a b : Argument}

/-- Code that returns leaves the column at 0 if it was there. -/
def Effect.KeepsZero (x : Effect) : Prop := ∀ s, x.result = .ok s → ∀ c : Console,
  c.keyboard.keyboardCol = 0 → (play c x.actions).keyboard.keyboardCol = 0

/-- Code that returns leaves the column at 0. -/
def Effect.Zero (x : Effect) : Prop := ∀ s, x.result = .ok s → ∀ c : Console,
  (play c x.actions).keyboard.keyboardCol = 0

theorem play_silent {xs : List Action} (h : ∀ x ∈ xs, ∀ e, x ≠ .text e) (c : Console) :
    play c xs = c := by
  induction xs with
  | nil => rfl
  | cons x xs ih =>
    have hx : Action.show c x = c := by
      cases x with
      | text event => exact absurd rfl (h _ List.mem_cons_self event)
      | call request => rfl
      | nullRead => rfl
    show play (Action.show c x) xs = c
    rw [hx]
    exact ih fun y hy => h y (List.mem_cons_of_mem _ hy)

theorem deref_silent (a : Argument) : ∀ x ∈ deref a, ∀ e, x ≠ .text e := by
  intro x hx e he
  unfold deref at hx
  split at hx
  · rw [List.mem_singleton.mp hx] at he
    cases he
  · cases hx

theorem keepsZero_emit : (emit [] s).KeepsZero := fun _ _ _ hc => hc

theorem Effect.KeepsZero.after (h : x.KeepsZero) {actions : List Action}
    (hs : ∀ y ∈ actions, ∀ e, y ≠ .text e) : (x.after actions).KeepsZero := by
  intro s hr c hc
  show (play c (actions ++ x.actions)).keyboard.keyboardCol = 0
  rw [play_append, play_silent hs]
  exact h s hr c hc

theorem keepsZero_driverCall {call : Fat32.Call} {k : Reply → System → Effect}
    (hk : ∀ reply m, Fat32.serve s.machine call = .ok (reply, m) →
      (k reply { s with machine := m }).KeepsZero) : (driverCall call s k).KeepsZero := by
  unfold driverCall
  have hcall : ∀ y ∈ [Action.call call], ∀ e, y ≠ .text e := by
    intro y hy e he
    rw [List.mem_singleton.mp hy] at he
    cases he
  cases hserve : Fat32.serve s.machine call with
  | ok y => exact (hk y.1 y.2 hserve).after hcall
  | error e => exact nofun

theorem keepsZero_readFile {r : FAT32DriverRequest} {k : Reply → System → Effect}
    (hk : ∀ reply s, (k reply s).KeepsZero) : (readFile r s k).KeepsZero := by
  refine keepsZero_driverCall fun reply m _ => ?_
  split
  · exact nofun
  · exact hk _ _

theorem cat_keepsZero : (cat env a s).KeepsZero := by
  refine (keepsZero_readFile fun reply s => ?_).after (deref_silent a)
  split
  · split
    · exact fun _ _ c _ => play_newline _
    · exact nofun
  · exact keepsZero_emit

theorem copy_keepsZero {k : FAT32DriverRequest → System → Effect}
    (hk : ∀ r s, (k r s).KeepsZero) : (copy env a b s k).KeepsZero := by
  refine keepsZero_driverCall fun reply m _ => ?_
  refine (keepsZero_readFile fun reply s => ?_).after (deref_silent a)
  refine (keepsZero_readFile fun reply s => ?_).after (deref_silent b)
  exact keepsZero_driverCall fun reply m _ => hk _ _

theorem mv_keepsZero : (mv env a b s).KeepsZero :=
  copy_keepsZero fun _ _ => keepsZero_driverCall fun _ _ _ => keepsZero_emit

/-- `cd` without a message. -/
theorem cd_keepsZero (h : ¬ CdPrints env a s) : (cd env a s).KeepsZero := by
  unfold cd
  refine Effect.KeepsZero.after ?_ (deref_silent a)
  split
  · exact keepsZero_emit
  · rename_i hup
    refine keepsZero_driverCall fun reply m hserve => ?_
    cases hserve
    have hslot : ∃ i, cdSlot (readDirectory s.machine (currentRequest s.shell env.dirTable)).2
        a.chars = some i ∧ ¬ stackSize ≤ s.shell.directoryStack.length := by
      by_contra hno
      exact h ⟨hup, fun i hi => by_contra fun hfull => hno ⟨i, hi, hfull⟩⟩
    obtain ⟨i, hi, hroom⟩ := hslot
    simp only [hi, pushMessage, if_neg hroom]
    exact keepsZero_emit

theorem zero_newline : (x.andThen (emit [newline])).Zero := by
  intro s hr c
  unfold Effect.andThen at hr ⊢
  cases hx : x.result with
  | ok s' =>
    dsimp only
    exact play_newline _
  | error e =>
    rw [hx] at hr
    cases hr

theorem Effect.KeepsZero.zero (h : x.KeepsZero) : (x.after [newline]).Zero := by
  intro s hr c
  show (play c ([newline] ++ x.actions)).keyboard.keyboardCol = 0
  rw [play_append]
  exact h s hr _ rfl

/-- Whatever the line, what `handle_command` puts on the screen is text. -/
theorem withWord_all {P : Action → Prop} {arr : List UInt8} {behind : Memory} {idx : UInt8}
    {k : Argument → System → Effect} (h : ∀ a, (k a s).All P) :
    (withWord env arr behind idx s k).All P := by
  unfold withWord
  cases getString arr idx with
  | none => exact List.forall_mem_nil _
  | some y => exact h _

theorem handleCommand_outputs (env : Environment) (input : List UInt8) (s : System) :
    (handleCommand env input s).All Outputs := by
  have hq : ∀ x, Quiet x → Outputs x := fun _ hx => hx.outputs
  have hderef : ∀ a, ∀ x ∈ deref a, Outputs x := fun a x hx e he =>
    absurd he (deref_silent a x hx e)
  have hcall : ∀ c, Outputs (.call c) := fun c e he => by cases he
  have hline : ∀ x ∈ [newline], Outputs x := fun x hx => (quiet_newline x hx).outputs
  have hend : ∀ s, (emit [newline] s).All Outputs := fun _ => all_emit hline
  cases hget : getString input 0 with
  | none =>
    unfold handleCommand
    rw [hget]
    exact List.forall_mem_nil _
  | some y =>
    rw [handleCommand_at hget]
    refine Effect.All.andThen ?_ fun s x hx => (showHome_quiet s x hx).outputs
    cases commandAt input y.2 with
    | clear => exact all_emit (by simp [Outputs, IsOutput])
    | ls => exact ((ls_all hq).after hline).andThen hend
    | mkdir => exact (withWord_all fun a => mkdir_all (hderef a) fun _ _ => hcall _).andThen hend
    | rm => exact (withWord_all fun a => rm_all (hderef a) fun _ _ => hcall _).andThen hend
    | cat => exact (withWord_all fun a => cat_all hq (hderef a)).after hline
    | cd => exact (withWord_all fun a => cd_all hq (hderef a)).after hline
    | find => exact ((withWord_all fun a => find_all hq (hderef a)).after hline).andThen hend
    | cp =>
      exact Effect.All.after (withWord_all fun a => withWord_all fun b =>
        copy_all (hderef a) (hderef b) hq (fun _ _ => hcall _)
          fun _ _ _ => all_emit (List.forall_mem_nil _)) hline
    | mv =>
      exact Effect.All.after (withWord_all fun a => withWord_all fun b =>
        mv_all (hderef a) (hderef b) hq (fun _ _ => hcall _) fun _ _ => hcall _) hline
    | other => exact all_emit (by simp [Outputs, IsOutput, newline, message])

theorem withWord_keepsZero {arr : List UInt8} {behind : Memory} {idx : UInt8}
    {k : Argument → System → Effect}
    (h : ∀ word rest, getString arr idx = some (word, rest) →
      (k (argumentAt env rest behind word) s).KeepsZero) :
    (withWord env arr behind idx s k).KeepsZero := by
  unfold withWord
  cases hget : getString arr idx with
  | none => exact nofun
  | some y => exact h y.1 y.2 hget

/-- The prompt behind code that leaves the column at 0. -/
theorem Effect.Zero.prompt (h : x.Zero) {s : System} (hr : (x.andThen showHome).result = .ok s)
    (c : Console) :
    (play c (x.andThen showHome).actions).keyboard.keyboardCol = promptLength := by
  unfold Effect.andThen at hr ⊢
  cases hx : x.result with
  | error e =>
    rw [hx] at hr
    cases hr
  | ok s' =>
    dsimp only
    rw [play_append, play_showHome, h s' hx]
    rfl

/-- A line that is no `cd` with a message leaves the column behind the prompt. -/
theorem handleCommand_column {input : List UInt8} {i : Nat}
    (h : ¬ LinePrints env ⟨s, input, i⟩) {s' : System}
    (hr : (handleCommand env input s).result = .ok s') (c : Console) :
    (play c (handleCommand env input s).actions).keyboard.keyboardCol = promptLength := by
  cases hget : getString input 0 with
  | none =>
    unfold handleCommand at hr
    rw [hget] at hr
    cases hr
  | some y =>
    obtain ⟨start, first⟩ := y
    rw [handleCommand_at hget] at hr ⊢
    refine Effect.Zero.prompt ?_ hr c
    cases hcommand : commandAt input first with
    | clear => exact fun _ _ _ => rfl
    | ls => exact zero_newline
    | mkdir => exact zero_newline
    | rm => exact zero_newline
    | cat => exact (withWord_keepsZero fun _ _ _ => cat_keepsZero).zero
    | cd =>
      obtain ⟨hclear, hls, hcd⟩ := commandAt_cd hcommand
      refine (withWord_keepsZero fun word rest hword => cd_keepsZero fun hprints => ?_).zero
      exact h ⟨start, first, word, rest, hget, hword, hclear, hls, hcd, hprints⟩
    | find => exact zero_newline
    | cp =>
      exact (withWord_keepsZero fun _ _ _ => withWord_keepsZero fun _ _ _ =>
        copy_keepsZero fun _ _ => keepsZero_emit).zero
    | mv =>
      exact (withWord_keepsZero fun _ _ _ => withWord_keepsZero fun _ _ _ => mv_keepsZero).zero
    | other =>
      intro _ _ c
      exact play_newline [newline, message "command not found" 0xC]

/-- A string in memory is one literal only. -/
theorem strcmp_unique : ∀ {m : Memory} {l l' : List UInt8}, 0 ∉ l → 0 ∉ l' →
    strcmp m l = true → strcmp m l' = true → l = l'
  | _, [], [], _, _, _, _ => rfl
  | m, [], c :: l', _, h', hm, hm' => by
    simp only [strcmp, beq_iff_eq, Bool.and_eq_true] at hm hm'
    exact absurd (hm.symm.trans hm'.1) (List.ne_and_not_mem_of_not_mem_cons h').1
  | m, c :: l, [], h, _, hm, hm' => by
    simp only [strcmp, beq_iff_eq, Bool.and_eq_true] at hm hm'
    exact absurd (hm'.symm.trans hm.1) (List.ne_and_not_mem_of_not_mem_cons h).1
  | m, c :: l, d :: l', h, h', hm, hm' => by
    simp only [strcmp, beq_iff_eq, Bool.and_eq_true] at hm hm'
    have ih := strcmp_unique (List.ne_and_not_mem_of_not_mem_cons h).2
      (List.ne_and_not_mem_of_not_mem_cons h').2 hm.2 hm'.2
    rw [← hm.1, ← hm'.1, ih]

/-- `cd` with a message returns, and the message is the last of its steps. -/
theorem cd_prints (h : CdPrints env a s) : ∃ s' str, (str = "Stack Overflow" ∨
    str = "Directory not found") ∧ ∃ xs, (∀ x ∈ xs, ∀ e, x ≠ .text e) ∧
      cd env a s = ⟨xs ++ [message str 0xC], .ok s'⟩ := by
  obtain ⟨hup, hslot⟩ := h
  have hxs : ∀ x ∈ deref a ++ [.call (.readDirectory (currentRequest s.shell env.dirTable))],
      ∀ e, x ≠ .text e := by
    intro x hx e he
    rcases List.mem_append.mp hx with hx | hx
    · exact deref_silent a x hx e he
    · rw [List.mem_singleton.mp hx] at he
      cases he
  unfold cd
  rw [if_neg hup, driverCall_ok rfl]
  dsimp only
  cases hc : cdSlot (readDirectory s.machine (currentRequest s.shell env.dirTable)).2 a.chars with
  | none =>
    refine ⟨s, _, Or.inr rfl, _, hxs, ?_⟩
    simp only [Effect.after, emit, List.append_assoc]
  | some i =>
    refine ⟨{ s with shell := enter s.shell ((FAT32DirectoryTable.ofBytes (readDirectory s.machine
      (currentRequest s.shell env.dirTable)).2).table i) a }, _, Or.inl rfl, _, hxs, ?_⟩
    simp only [Effect.after, emit, pushMessage, if_pos (hslot i hc), List.append_assoc]

/-- A line that is such a `cd` leaves the prompt behind the message. -/
theorem handleCommand_prints {input : List UInt8} {i : Nat} (h : LinePrints env ⟨s, input, i⟩) :
    ∃ s', (handleCommand env input s).result = .ok s' ∧ ∀ c,
      (play c (handleCommand env input s).actions).keyboard.keyboardCol ≠ promptLength := by
  obtain ⟨start, first, word, rest, hget, hword, hclear, hls, hcd, hprints⟩ := h
  have hother : ∀ t, 0 ∉ ascii t → ascii t ≠ ascii "cd" → reads first t = false := by
    intro t ht hne
    refine Bool.eq_false_of_not_eq_true fun hreads => hne ?_
    exact strcmp_unique ht (by decide) hreads hcd
  obtain ⟨s', str, hstr, xs, hxs, heq⟩ := cd_prints hprints
  have hwith : withWord env input env.behindTemp 1 s (cd env) =
      ⟨xs ++ [message str 0xC], .ok s'⟩ := by
    unfold withWord
    rw [hword]
    exact heq
  have hhandle : handleCommand env input s =
      ⟨[newline] ++ (xs ++ [message str 0xC]) ++ (showHome s').actions, .ok s'⟩ := by
    have hcommand : commandAt input first = .cd := by
      unfold commandAt
      rw [hclear, hls, hother "mkdir" (by decide) (by decide), hother "rm" (by decide) (by decide),
        hother "cat" (by decide) (by decide), hcd]
      rfl
    rw [handleCommand_at hget, hcommand, runCommand, hwith]
    rfl
  refine ⟨s', by rw [hhandle], fun c => ?_⟩
  rw [hhandle]
  dsimp only
  rw [play_append, play_showHome, ← List.append_assoc, play_append, play_append, play_silent hxs]
  show (Action.show (play c [newline]) (message str 0xC)).keyboard.keyboardCol + _ ≠ _
  rw [show_message]
  have hzero : (play c [newline]).keyboard.keyboardCol = 0 := rfl
  rw [hzero]
  rcases hstr with rfl | rfl <;> decide

end Commands

/-! ## Each key press -/

section Press
variable {d : Display} {stroke : Stroke}

/-- The invariant of a run that keeps the two together. -/
structure InStep (d : Display) : Prop where
  idle : Idle d.console
  aligned : Aligned d
  bound : d.session.i ≤ 256

/-- What the poll behind a key press returns. -/
theorem polled_eq (h : Idle d.console) :
    (getKeyboardBuffer (keyboardIsr d.console stroke.scancode)).1 =
      if stroke.char = 0 then ⟨0, false⟩ else ⟨stroke.char, stroke.char ≠ backspace⟩ := by
  have hslot := (keyboardIsr_input d.console stroke.scancode h.inputOn).2
  show (keyboardIsr d.console stroke.scancode).slot = _
  rw [hslot, h.empty]
  unfold Stroke.char
  split_ifs with h0 hb
  · rfl
  · simp [hb]
  · simp [hb]

/-- A poll leaves nothing behind, and the rest as it was. -/
theorem polled_idle (h : Idle d.console) :
    Idle (getKeyboardBuffer (keyboardIsr d.console stroke.scancode)).2 :=
  ⟨(keyboardIsr_input d.console stroke.scancode h.inputOn).1, rfl⟩

theorem idle_play {s : Console} (h : Idle s) {xs : List Action} (hxs : ∀ x ∈ xs, Outputs x) :
    Idle (play s xs) :=
  ⟨(play_same hxs).inputOn.trans h.inputOn, (play_same hxs).slot.trans h.empty⟩

/-- The driver behind the poll of a key press. -/
def polledConsole (d : Display) (stroke : Stroke) : Console :=
  (getKeyboardBuffer (keyboardIsr d.console stroke.scancode)).2

/-- A key press is a turn of the loop on what the poll returns. -/
theorem press_turn (h : Idle d.console) {polled : Polled}
    (hp : (if stroke.char = 0 then ⟨0, false⟩
      else ⟨stroke.char, stroke.char ≠ backspace⟩) = polled) :
    press d stroke = (mainTurn stroke.env d.session polled).2.map fun session =>
      ⟨play (polledConsole d stroke) (mainTurn stroke.env d.session polled).1, session⟩ := by
  have hpolled := @polled_eq d stroke h
  rw [hp] at hpolled
  rw [← hpolled]
  rfl

/-- A key that takes nothing off the screen. -/
theorem polledConsole_keeps (h : ¬ Erases d.console stroke.scancode) :
    (polledConsole d stroke).stored = d.console.stored ∧
    (polledConsole d stroke).keyboard.keyboardRow = d.console.keyboard.keyboardRow ∧
    (polledConsole d stroke).keyboard.keyboardCol = d.console.keyboard.keyboardCol :=
  keyboardIsr_keeps h

/-- A key that does: the last character of the line. -/
theorem polledConsole_erases (h : InStep d) (hpos : 0 < d.session.i)
    (he : Erases d.console stroke.scancode) :
    (polledConsole d stroke).stored =
      d.console.stored ++ glyph (inputCell d (d.session.i - 1)) 32 0xF ∧
    (polledConsole d stroke).keyboard.keyboardRow = d.console.keyboard.keyboardRow ∧
    (polledConsole d stroke).keyboard.keyboardCol = d.console.keyboard.keyboardCol - 1 := by
  obtain ⟨hstored, hrow, hcol⟩ := keyboardIsr_erases he
  have hlast : d.console.keyboard.keyboardCol - 1 = promptLength + (d.session.i - 1 : Nat) := by
    have := h.aligned
    unfold Aligned at this
    omega
  refine ⟨hstored.trans ?_, hrow, hcol⟩
  rw [printed, if_pos he, List.flatMap_cons, List.flatMap_nil, List.append_nil, hlast]
  rfl

theorem not_erases (h : stroke.char ≠ backspace) : ¬ Erases d.console stroke.scancode :=
  fun he => h he.2.1

/-- An empty poll changes nothing. -/
theorem press_ignored (h : InStep d) (hc : stroke.char = 0) :
    ∃ c, press d stroke = .ok ⟨c, d.session⟩ ∧ InStep ⟨c, d.session⟩ := by
  have hkeep := polledConsole_keeps (d := d) (not_erases (by rw [hc]; decide))
  refine ⟨polledConsole d stroke, ?_, polled_idle h.idle, hkeep.2.2.trans h.aligned, h.bound⟩
  rw [press_turn h.idle (if_pos hc), mainTurn_none]
  rfl

theorem press_character (h : InStep d) (h0 : stroke.char ≠ 0) (hb : stroke.char ≠ backspace)
    (hfeed : stroke.char ≠ lineFeed) {d' : Display} (hp : press d stroke = .ok d') :
    InStep d' ∧ d'.session.i = d.session.i + 1 ∧
      d'.console.keyboard.keyboardRow = d.console.keyboard.keyboardRow ∧
      d'.console.stored = d.console.stored ++ glyph (inputCell d d.session.i) stroke.char 0xF := by
  obtain ⟨hstored, hrow, hcol⟩ := polledConsole_keeps (d := d) (not_erases hb)
  have hpolled : (if stroke.char = 0 then ⟨0, false⟩
      else ⟨stroke.char, stroke.char ≠ backspace⟩) = (⟨stroke.char, true⟩ : Polled) := by
    rw [if_neg h0, decide_eq_true hb]
  rw [press_turn h.idle hpolled, mainTurn_character _ _ h0 hfeed] at hp
  by_cases hlt : d.session.i < 256
  · rw [storeInput_lt hlt] at hp
    cases hp
    obtain ⟨htext, hrow', hcol'⟩ := play_character (polledConsole d stroke) stroke.char
    have haligned := h.aligned
    have hcell : cellAt (polledConsole d stroke) (polledConsole d stroke).keyboard.keyboardCol =
        inputCell d d.session.i := by
      unfold cellAt inputCell cellAt
      rw [hrow, hcol, haligned]
    refine ⟨⟨idle_play (polled_idle h.idle) ?_, ?_, hlt⟩, rfl, hrow'.trans hrow, ?_⟩
    · exact fun x hx e he => by
        rw [List.mem_singleton.mp hx] at he
        cases he
        trivial
    · show (play (polledConsole d stroke) _).keyboard.keyboardCol =
        (promptLength : Int) + (d.session.i + 1 : Nat)
      rw [hcol', hcol, haligned]
      omega
    · rw [htext, hstored, hcell]
  · unfold storeInput at hp
    rw [if_neg hlt] at hp
    cases hp

theorem press_backspace (h : InStep d) (hb : stroke.char = backspace) :
    ∃ d', press d stroke = .ok d' ∧ InStep d' ∧
      d'.console.keyboard.keyboardRow = d.console.keyboard.keyboardRow ∧
      (d.session.i = 0 → d'.session.i = 0 ∧ d'.console.stored = d.console.stored) ∧
      (0 < d.session.i → d'.session.i = d.session.i - 1 ∧ d'.console.stored =
        d.console.stored ++ glyph (inputCell d (d.session.i - 1)) 32 0xF) := by
  have hbound := h.bound
  have haligned := h.aligned
  unfold Aligned promptLength at haligned
  have hpolled : (if stroke.char = 0 then ⟨0, false⟩
      else ⟨stroke.char, stroke.char ≠ backspace⟩) = (⟨backspace, false⟩ : Polled) := by
    rw [hb]
    decide
  rw [press_turn h.idle hpolled, mainTurn_backspace]
  by_cases hpos : 0 < d.session.i
  · have he : Erases d.console stroke.scancode := ⟨h.idle.inputOn, hb, by omega⟩
    obtain ⟨hstored, hrow, hcol⟩ := polledConsole_erases h hpos he
    rw [if_pos hpos, storeInput_lt (by omega)]
    refine ⟨_, rfl, ⟨polled_idle h.idle, ?_, ?_⟩, hrow, fun h0 => by omega,
      fun _ => ⟨rfl, hstored⟩⟩
    · show (polledConsole d stroke).keyboard.keyboardCol = (18 : Int) + (d.session.i - 1 : Nat)
      omega
    · show d.session.i - 1 ≤ 256
      omega
  · have he : ¬ Erases d.console stroke.scancode := fun he => by
      have := he.2.2
      omega
    obtain ⟨hstored, hrow, hcol⟩ := polledConsole_keeps (d := d) he
    rw [if_neg hpos]
    refine ⟨_, rfl, ⟨polled_idle h.idle, hcol.trans h.aligned, hbound⟩, hrow,
      fun h0 => ⟨h0, hstored⟩, fun h1 => absurd h1 hpos⟩

/-- A new line: the command, and an empty line behind its prompt. -/
theorem press_newLine (h : Idle d.console) (hfeed : stroke.char = lineFeed) : press d stroke =
    match (handleCommand stroke.env d.session.input d.session.system).result with
    | .ok s => .ok ⟨play (polledConsole d stroke)
        (handleCommand stroke.env d.session.input d.session.system).actions,
        ⟨s, List.replicate 256 0, 0⟩⟩
    | .error f => .error (.command f) := by
  have hpolled : (if stroke.char = 0 then ⟨0, false⟩
      else ⟨stroke.char, stroke.char ≠ backspace⟩) = (⟨lineFeed, true⟩ : Polled) := by
    rw [hfeed]
    decide
  rw [press_turn h hpolled, mainTurn_newLine]
  cases (handleCommand stroke.env d.session.input d.session.system).result <;> rfl

/-- The cell of the last character is one of the prompt when its column does not fit
into a byte. -/
theorem inputCell_prompt (h : InStep d) (hpos : 0 < d.session.i) :
    (∀ j, j < promptLength → inputCell d (d.session.i - 1) ≠ cellAt d.console j) ↔
      promptLength + d.session.i ≤ 256 := by
  have hbound := h.bound
  have hlast : (toByte ((promptLength : Int) + (d.session.i - 1 : Nat))).toNat =
      (promptLength + d.session.i - 1) % 256 := by
    unfold toByte UInt8.ofInt promptLength
    rw [UInt8.toNat_ofNat']
    omega
  have hsmall : ∀ j, j < promptLength → (toByte (j : Int)).toNat = j := by
    intro j hj
    unfold promptLength at hj
    exact (toByte_toNat (Int.natCast_nonneg j) (by omega)).trans (Int.toNat_natCast j)
  have hlen : promptLength = 18 := rfl
  unfold inputCell cellAt
  constructor
  · intro hall
    by_contra hover
    refine hall (promptLength + d.session.i - 1 - 256) (by omega) ?_
    rw [hlast, hsmall _ (by omega)]
    omega
  · intro hle j hj
    rw [hlast, hsmall j hj]
    omega

/-- **What each key press needs.** -/
theorem press_keeps (h : InStep d) (hok : KeepsColumn d stroke) :
    Tracks d stroke ∧ ∀ d', press d stroke = .ok d' → InStep d' := by
  obtain ⟨hback, hline⟩ := hok
  by_cases h0 : stroke.char = 0
  · obtain ⟨c, hp, hstep⟩ := press_ignored h h0
    refine ⟨⟨fun h1 => absurd h0 h1, fun hb => ?_, fun hb => ?_⟩, fun d' hd' => ?_⟩
    · exact absurd (h0.symm.trans hb) (by decide)
    · exact absurd (h0.symm.trans hb) (by decide)
    · cases hp.symm.trans hd'
      exact hstep
  by_cases hb : stroke.char = backspace
  · obtain ⟨t, ht, hstep, hrow, hleave, herase⟩ := press_backspace h hb
    refine ⟨⟨fun _ h1 => absurd hb h1, fun _ hpos d' hp => ?_, fun _ hzero d' hp => ?_⟩,
      fun d' hp => ?_⟩
    · cases ht.symm.trans hp
      obtain ⟨hi, hstored⟩ := herase hpos
      exact ⟨hi, hrow, hstored, (inputCell_prompt h hpos).mpr (hback hb)⟩
    · cases ht.symm.trans hp
      obtain ⟨hi, hstored⟩ := hleave hzero
      exact ⟨hi, hrow, hstored⟩
    · cases ht.symm.trans hp
      exact hstep
  by_cases hfeed : stroke.char = lineFeed
  · refine ⟨⟨fun _ _ h1 => absurd hfeed h1, fun h1 => absurd h1 hb, fun h1 => absurd h1 hb⟩,
      fun d' hp => ?_⟩
    rw [press_newLine h.idle hfeed] at hp
    cases hr : (handleCommand stroke.env d.session.input d.session.system).result with
    | error f =>
      rw [hr] at hp
      cases hp
    | ok s =>
      rw [hr] at hp
      cases hp
      refine ⟨idle_play (polled_idle h.idle) (handleCommand_outputs _ _ _), ?_, Nat.zero_le _⟩
      exact handleCommand_column (hline hfeed) hr _
  · refine ⟨⟨fun _ _ _ d' hp => (press_character h h0 hb hfeed hp).2, fun h1 => absurd h1 hb,
      fun h1 => absurd h1 hb⟩, fun d' hp => (press_character h h0 hb hfeed hp).1⟩

theorem press_loses (h : InStep d) (hbad : ¬ KeepsColumn d stroke) (htrack : Tracks d stroke) :
    ∃ d', press d stroke = .ok d' ∧ ¬ Aligned d' := by
  unfold KeepsColumn at hbad
  rw [not_and_or] at hbad
  rcases hbad with hbad | hbad
  · obtain ⟨hb, hover⟩ := Classical.not_imp.mp hbad
    have hpos : 0 < d.session.i := by
      unfold promptLength at hover
      omega
    obtain ⟨d', hp, _⟩ := press_backspace h hb
    have hcells := (htrack.erases hb hpos d' hp).2.2.2
    exact absurd ((inputCell_prompt h hpos).mp hcells) hover
  · obtain ⟨hfeed, hprints⟩ := Classical.not_imp.mp hbad
    obtain ⟨s', hr, hcol⟩ := handleCommand_prints (Classical.not_not.mp hprints)
    refine ⟨_, (press_newLine h.idle hfeed).trans (by rw [hr]), fun haligned => ?_⟩
    exact hcol _ haligned

end Press

/-! ## Runs -/

/-- `main` begins with the prompt. -/
theorem opened_inStep (s : System) (g : Fin 256 → UInt8) : InStep (opened s g) :=
  ⟨⟨rfl, rfl⟩, rfl, Nat.zero_le _⟩

theorem columns_run_iff {d : Display} (h : InStep d) (strokes : List Stroke) :
    (Throughout press Aligned d strokes ∧ Meets press Tracks d strokes) ↔
      Meets press KeepsColumn d strokes :=
  throughout_iff_meets (fun _ h => h.aligned) (fun _ _ h hok => press_keeps h hok)
    (fun _ _ h hbad htrack => press_loses h hbad htrack) h

/-- **The column and the index.** In a run of key presses, each polled before the next,
the column is always 18 behind the index, and every backspace takes exactly its own
character off the screen, if and only if each key keeps the column. -/
theorem columns_iff (s : System) (g : Fin 256 → UInt8) (strokes : List Stroke) :
    (Throughout press Aligned (opened s g) strokes ∧ Meets press Tracks (opened s g) strokes) ↔
      Meets press KeepsColumn (opened s g) strokes :=
  columns_run_iff (opened_inStep s g) strokes

/-- In an empty root `cd x` prints. -/
theorem cdX_prints : LinePrints unwritten
    ⟨emptyRoot, [0x63, 0x64, 0x20, 0x78] ++ List.replicate 252 0, 4⟩ := by
  refine ⟨some 0, [0x63, 0x64] ++ List.replicate 254 0, some 3,
    [0x63, 0x64, 0x20, 0x78] ++ List.replicate 252 0, rfl, rfl, rfl, rfl, rfl, ?_, ?_⟩
  · decide
  · intro i hi
    -- READ_DIR leaves the table of the root
    have hw := rootedMachine_wellFormed rootName
    have hmatch : Matches emptyRoot.machine emptyRoot.shell := rooted_trail.matches hw.image
    have htable : FAT32DirectoryTable.ofBytes (readDirectory emptyRoot.machine
        (currentRequest emptyRoot.shell unwritten.dirTable)).2 =
        (rootedDisk rootName).table rootClusterNumber :=
      FAT32DirectoryTable.ofBytes_congr (hmatch unwritten.dirTable).2
    have hslot := mem_dataSlots.mp (List.mem_of_find?_eq_some hi)
    have hfound := List.find?_some hi
    rw [namedBy, Bool.and_eq_true, Bool.and_eq_true, decide_eq_true_eq, decide_eq_true_eq,
      htable] at hfound
    have hl : (rootedDisk rootName).LiveAt rootClusterNumber i :=
      ⟨Disk.reachable_root _, hslot, hfound.2.1⟩
    exact absurd hl (rootedDisk_not_live rootName)

def cdX : List Stroke := [0x2E, 0x20, 0x39, 0x2D, 0x1C].map fun scancode => ⟨unwritten, scancode⟩

/-- The prompt behind "Directory not found". -/
theorem cdX_not_aligned : emptyRoot.machine.WellFormed ∧
    ¬ (Throughout press Aligned (opened emptyRoot fun _ => 0) cdX ∧
      Meets press Tracks (opened emptyRoot fun _ => 0) cdX) := by
  refine ⟨rootedMachine_wellFormed rootName, fun h => ?_⟩
  have hkeeps := (columns_run_iff (opened_inStep emptyRoot _) _).mp h
  have hlast := ((((hkeeps.2 _ rfl).2 _ rfl).2 _ rfl).2 _ rfl).1
  refine hlast.2 rfl ?_
  have hinput : ((((List.ofFn fun _ : Fin 256 => (0 : UInt8)).set 0 0x63).set 1 0x64).set 2
      0x20).set 3 0x78 = [0x63, 0x64, 0x20, 0x78] ++ List.replicate 252 0 := by
    rw [List.ofFn_const]
    rfl
  have hprints := cdX_prints
  rw [← hinput] at hprints
  exact hprints

end KajijOSta.Terminal
