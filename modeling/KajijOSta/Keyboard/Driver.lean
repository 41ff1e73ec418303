import KajijOSta.Fat32.Layout

/-! # The keyboard and the text screen

`keyboard.c`, and what it calls of `framebuffer.c` and `interrupt.c`. The driver
works on its static state; what it sends to the hardware, the bytes of the
framebuffer and the bytes for the ports, is kept in order. -/
namespace KajijOSta.Keyboard
open KajijOSta.Fat32

structure KeyboardDriverState where
  readExtendedMode : Bool
  keyboardInputOn : Bool
  printMode : Bool
  keyboardBuffer : UInt8
  keyboardRow : Int
  keyboardCol : Int

structure CellWrite where
  offset : Nat
  data : UInt8

structure PortWrite where
  port : UInt16
  data : UInt8

/-- The driver, with the bytes stored and sent so far. -/
structure Console where
  keyboard : KeyboardDriverState
  stored : List CellWrite
  sent : List PortWrite

/-! ## Ports and framebuffer -/

def cursorPortCmd : UInt16 := 0x03D4
def cursorPortData : UInt16 := 0x03D5
def pic1Offset : UInt8 := 0x20
def pic1Command : UInt16 := 0x20
def pic2Command : UInt16 := 0xA0
def picAckByte : UInt8 := 0x20
def irqKeyboard : UInt8 := 1

def out (s : Console) (port : UInt16) (data : UInt8) : Console :=
  { s with sent := s.sent ++ [⟨port, data⟩] }

def picAck (s : Console) (irq : UInt8) : Console :=
  let s := if 8 ≤ irq then out s pic2Command picAckByte else s
  out s pic1Command picAckByte

def store (s : Console) (offset : Nat) (data : UInt8) : Console :=
  { s with stored := s.stored ++ [⟨offset, data⟩] }

def framebufferWrite (s : Console) (row col c fg bg : UInt8) : Console :=
  let s := store s ((row.toNat * 80 + col.toNat) * 2) c
  store s ((row.toNat * 80 + col.toNat) * 2 + 1) ((bg <<< 4) ||| (fg &&& 0x0F))

def framebufferSetCursor (s : Console) (r c : UInt8) : Console :=
  let pos : UInt16 := r.toUInt16 * 80 + c.toUInt16
  let s := out s cursorPortCmd 0x0F
  let s := out s cursorPortData (pos &&& 0xFF).toUInt8
  let s := out s cursorPortCmd 0x0E
  out s cursorPortData ((pos >>> 8) &&& 0xFF).toUInt8

/-- `memset(FRAMEBUFFER_MEMORY_OFFSET + offset, 0, n)`. -/
def clearBytes (s : Console) (offset n : Nat) : Console :=
  (List.range n).foldl (fun s j => store s (offset + j) 0) s

/-- The first loop of `framebuffer_clear`. -/
def clearRows (s : Console) : Console :=
  (List.range (25 * 2)).foldl (fun s i => clearBytes s (i * 80) (80 * 2)) s

/-- The second loop of `framebuffer_clear`. -/
def blankCells (s : Console) : Console :=
  (List.range (25 * 80)).foldl (fun s i =>
    framebufferWrite s (UInt8.ofNat (i / 80)) (UInt8.ofNat (i % 80)) 32 0x07 0x00) s

def framebufferClear (s : Console) : Console :=
  framebufferSetCursor (blankCells (clearRows s)) 0 0

/-! ## The driver -/

/-- The characters of the first 79 scancodes; 0 for none. -/
def scancodeCharacters : List Nat :=
  [0, 0x1B] ++ ['1', '2', '3', '4', '5', '6', '7', '8', '9', '0', '-', '='].map Char.toNat ++
  [8, 9] ++ ['q', 'w', 'e', 'r', 't', 'y', 'u', 'i', 'o', 'p', '[', ']'].map Char.toNat ++
  [10, 0] ++ ['a', 's', 'd', 'f', 'g', 'h', 'j', 'k', 'l', ';'].map Char.toNat ++
  -- an apostrophe, a grave accent and a backslash
  [39, 96, 0, 92] ++ ['z', 'x', 'c', 'v', 'b', 'n', 'm', ',', '.', '/'].map Char.toNat ++
  [0, 42, 0, 32] ++ List.replicate 16 0 ++ [45, 0, 0, 0, 43]

def keyboardScancode1ToAsciiMap (scancode : UInt8) : UInt8 :=
  UInt8.ofNat (scancodeCharacters.getD scancode.toNat 0)

def backspace : UInt8 := 8

/-- An `int` passed as a `uint8_t`. -/
def toByte (n : Int) : UInt8 := UInt8.ofInt n

def showCursor (s : Console) : Console :=
  framebufferSetCursor s (toByte s.keyboard.keyboardRow) (toByte s.keyboard.keyboardCol)

def putHere (s : Console) (c color : UInt8) : Console :=
  framebufferWrite s (toByte s.keyboard.keyboardRow) (toByte s.keyboard.keyboardCol) c color 0

def keyboardIsr (s : Console) (scancode : UInt8) : Console :=
  let s :=
    if s.keyboard.keyboardInputOn then
      let asciiChar := keyboardScancode1ToAsciiMap scancode
      if asciiChar ≠ 0 then
        let s :=
          if asciiChar = backspace then
            if 18 < s.keyboard.keyboardCol then
              let s := { s with keyboard.keyboardCol := s.keyboard.keyboardCol - 1 }
              showCursor (putHere s 32 0xF)
            else s
          else { s with keyboard.printMode := true }
        { s with keyboard.keyboardBuffer := asciiChar }
      else s
    else s
  picAck s (pic1Offset + irqKeyboard)

def keyboardStateActivate (s : Console) : Console :=
  { s with keyboard.keyboardInputOn := true }

structure Polled where
  char : UInt8
  printMode : Bool
deriving DecidableEq

def getKeyboardBuffer (s : Console) : Polled × Console :=
  (⟨s.keyboard.keyboardBuffer, s.keyboard.printMode⟩,
    { s with keyboard.keyboardBuffer := 0, keyboard.printMode := false })

/-- The loop of `puts`. -/
def putsLoop (s : Console) (str : Memory) (color : UInt8) : Nat → Console
  | 0 => s
  | i + 1 =>
    let s := putHere (putsLoop s str color i) (str i) color
    { s with keyboard.keyboardCol := s.keyboard.keyboardCol + 1 }

def puts (s : Console) (str : Memory) (size color : UInt8) : Console :=
  showCursor (putsLoop s str color size.toNat)

def putsChar (s : Console) (c color : UInt8) : Console :=
  let s := putHere s c color
  showCursor { s with keyboard.keyboardCol := s.keyboard.keyboardCol + 1 }

def putsNewline (s : Console) : Console :=
  showCursor { s with
    keyboard.keyboardRow := s.keyboard.keyboardRow + 1
    keyboard.keyboardCol := 0 }

def resetKeyboardState (s : Console) : Console :=
  showCursor { s with keyboard.keyboardRow := 0, keyboard.keyboardCol := 0 }

/-! ## Interrupts and system calls -/

/-- What reaches the driver: a keyboard interrupt with its scancode, or one of the
system calls 4 to 10. -/
inductive Event
  | interrupt (scancode : UInt8)
  | keyboardBuffer
  | putsChar (c color : UInt8)
  | puts (str : Memory) (size color : UInt8)
  | keyboardActivate
  | putsNewline
  | resetKeyboardState
  | framebufferClear

/-- Carry out one event; a poll has a result. -/
def serve (s : Console) : Event → Option Polled × Console
  | .interrupt scancode => (none, keyboardIsr s scancode)
  | .keyboardBuffer => (some (getKeyboardBuffer s).1, (getKeyboardBuffer s).2)
  | .putsChar c color => (none, putsChar s c color)
  | .puts str size color => (none, puts s str size color)
  | .keyboardActivate => (none, keyboardStateActivate s)
  | .putsNewline => (none, putsNewline s)
  | .resetKeyboardState => (none, resetKeyboardState s)
  | .framebufferClear => (none, framebufferClear s)

def polls : Console → List Event → List Polled
  | _, [] => []
  | s, e :: es => (serve s e).1.toList ++ polls (serve s e).2 es

/-- The driver as it is loaded. -/
def loaded : Console := ⟨⟨false, false, false, 0, 0, 0⟩, [], []⟩

/-! ## What the driver keeps for a poll -/

def Console.slot (s : Console) : Polled := ⟨s.keyboard.keyboardBuffer, s.keyboard.printMode⟩

/-- The two consoles differ at most in what was stored and sent, and in where the
driver writes next. -/
structure SameInput (s s' : Console) : Prop where
  slot : s'.slot = s.slot
  inputOn : s'.keyboard.keyboardInputOn = s.keyboard.keyboardInputOn

namespace SameInput
variable {s s' s'' : Console}

theorem refl (s : Console) : SameInput s s := ⟨rfl, rfl⟩

theorem trans (h : SameInput s s') (h' : SameInput s' s'') : SameInput s s'' :=
  ⟨h'.slot.trans h.slot, h'.inputOn.trans h.inputOn⟩

theorem of_keyboard (h : s'.keyboard = s.keyboard) : SameInput s s' := by
  refine ⟨?_, ?_⟩
  · unfold Console.slot
    rw [h]
  · rw [h]

/-- A loop of steps that leave the input alone. -/
theorem foldl {A : Type} {f : Console → A → Console} (hf : ∀ s a, SameInput s (f s a)) :
    ∀ (l : List A) (s : Console), SameInput s (l.foldl f s)
  | [], s => refl s
  | a :: l, s => (hf s a).trans (foldl hf l (f s a))

end SameInput

section Frames
variable (s : Console)

theorem picAck_keyboard (irq : UInt8) : (picAck s irq).keyboard = s.keyboard := by
  unfold picAck
  split <;> rfl

theorem framebufferWrite_same (row col c fg bg : UInt8) :
    SameInput s (framebufferWrite s row col c fg bg) := SameInput.of_keyboard rfl

theorem framebufferSetCursor_same (r c : UInt8) : SameInput s (framebufferSetCursor s r c) :=
  SameInput.of_keyboard rfl

theorem putsLoop_same (str : Memory) (color : UInt8) :
    ∀ n, SameInput s (putsLoop s str color n)
  | 0 => SameInput.refl s
  | n + 1 => (putsLoop_same str color n).trans ⟨rfl, rfl⟩

theorem puts_same (str : Memory) (size color : UInt8) : SameInput s (puts s str size color) :=
  (putsLoop_same s str color _).trans (framebufferSetCursor_same _ _ _)

theorem store_same (offset : Nat) (data : UInt8) : SameInput s (store s offset data) :=
  SameInput.of_keyboard rfl

theorem clearBytes_same (offset n : Nat) : SameInput s (clearBytes s offset n) := by
  unfold clearBytes
  exact SameInput.foldl (fun s j => store_same s (offset + j) 0) _ s

theorem clearRows_same : SameInput s (clearRows s) := by
  unfold clearRows
  exact SameInput.foldl (fun s i => clearBytes_same s (i * 80) (80 * 2)) _ s

theorem blankCells_same : SameInput s (blankCells s) := by
  unfold blankCells
  exact SameInput.foldl (fun s i => framebufferWrite_same s _ _ _ _ _) _ s

theorem framebufferClear_same : SameInput s (framebufferClear s) :=
  ((clearRows_same s).trans (blankCells_same _)).trans (framebufferSetCursor_same _ _ _)

/-- An interrupt keeps the input on, and puts an accepted key press into the slot. -/
theorem keyboardIsr_input (scancode : UInt8) (hon : s.keyboard.keyboardInputOn = true) :
    (keyboardIsr s scancode).keyboard.keyboardInputOn = true ∧
    (keyboardIsr s scancode).slot =
      if keyboardScancode1ToAsciiMap scancode = 0 then s.slot
      else ⟨keyboardScancode1ToAsciiMap scancode,
        if keyboardScancode1ToAsciiMap scancode = backspace then s.slot.printMode else true⟩ := by
  unfold keyboardIsr Console.slot
  rw [if_pos hon, picAck_keyboard]
  by_cases h0 : keyboardScancode1ToAsciiMap scancode = 0
  · rw [if_neg (not_not.mpr h0), if_pos h0]
    exact ⟨hon, rfl⟩
  · rw [if_pos h0, if_neg h0]
    by_cases hb : keyboardScancode1ToAsciiMap scancode = backspace
    · rw [if_pos hb, if_pos hb]
      split <;> exact ⟨hon, rfl⟩
    · rw [if_neg hb, if_neg hb]
      exact ⟨hon, rfl⟩

end Frames

end KajijOSta.Keyboard
