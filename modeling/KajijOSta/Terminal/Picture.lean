import KajijOSta.Lib.WriteLog
import KajijOSta.Terminal.Columns

/-! # What the screen shows

The bytes stored so far are replayed over what the memory of the screen held before, the
bytes sent to the ports on the registers of the display. `shows_iff` says in which
sequences of key presses the driver's row reads as the prompt and the line in `input`,
with the cursor of the display behind it, whatever was on the screen. -/
namespace KajijOSta.Terminal
open KajijOSta.Fat32 KajijOSta.Shell KajijOSta.Keyboard KajijOSta.Runs KajijOSta.WriteLog

/-! ## The display -/

/-- The registers of the display: one is chosen through port 0x3D4 and written through
port 0x3D5. -/
structure Crt where
  index : UInt8
  registers : UInt8 → UInt8

namespace Crt

def take (crt : Crt) (w : PortWrite) : Crt :=
  if w.port = cursorPortCmd then { crt with index := w.data }
  else if w.port = cursorPortData then
    { crt with registers := Function.update crt.registers crt.index w.data }
  else crt

/-- The character that blinks, counted from the start of the screen. -/
def cursor (crt : Crt) : Nat := 256 * (crt.registers 0x0E).toNat + (crt.registers 0x0F).toNat

end Crt

def poke (m : Memory) (w : CellWrite) : Memory := Function.update m w.offset w.data

def screen (m : Memory) (s : Console) : Memory := replay poke m s.stored

def display (crt : Crt) (s : Console) : Crt := replay Crt.take crt s.sent

/-- A character with its color. -/
structure Glyph where
  c : UInt8
  color : UInt8
deriving DecidableEq

def colored (color : UInt8) (chars : List UInt8) : List Glyph := chars.map fun c => ⟨c, color⟩

def promptGlyphs : List Glyph :=
  colored 0x2 (ascii "root@kajijOSta") ++ colored 0x8 (ascii ":") ++ colored 0x1 (ascii "~") ++
    colored 0x8 (ascii "$ ")

def lineGlyphs (s : Session) : List Glyph := promptGlyphs ++ colored 0xF (s.input.take s.i)

/-- The driver's row begins with these characters, and the driver is behind them. -/
structure RowHolds (m : Memory) (s : Console) (glyphs : List Glyph) : Prop where
  col : s.keyboard.keyboardCol = glyphs.length
  shown : ∀ (j : Nat) (hj : j < glyphs.length), screen m s (cellAt s j) = glyphs[j].c ∧
    screen m s (cellAt s j + 1) = glyphs[j].color

/-- The cursor is where the driver writes next. -/
def CursorFollows (crt : Crt) (s : Console) : Prop :=
  2 * (display crt s).cursor = cellAt s s.keyboard.keyboardCol

/-- Between two polls: the row is the prompt and the line, the cursor behind it. -/
structure Shows (m : Memory) (crt : Crt) (d : Display) : Prop where
  row : RowHolds m d.console (lineGlyphs d.session)
  cursor : CursorFollows crt d.console

/-- A character comes at a line of at most 237 characters, and no new line at a `cd` that
prints. -/
def Legible (d : Display) (stroke : Stroke) : Prop :=
  (stroke.char ≠ 0 → stroke.char ≠ backspace → stroke.char ≠ lineFeed →
    promptLength + d.session.i < 256) ∧
  (stroke.char = lineFeed → ¬ LinePrints stroke.env d.session)

/-! ## The row -/

section Row
variable {m : Memory} {s s' : Console} {glyphs : List Glyph} {c color : UInt8}

/-- A cell of the row. -/
theorem cellAt_small {j : Nat} (hj : j < 256) :
    cellAt s j = ((toByte s.keyboard.keyboardRow).toNat * 80 + j) * 2 := by
  have hcol : (toByte (j : Int)).toNat = j :=
    (toByte_toNat (Int.natCast_nonneg j) (by omega)).trans (Int.toNat_natCast j)
  unfold cellAt
  rw [hcol]

theorem cellAt_congr (hrow : s'.keyboard.keyboardRow = s.keyboard.keyboardRow) (col : Int) :
    cellAt s' col = cellAt s col := by
  unfold cellAt
  rw [hrow]

/-- A character on the screen. -/
theorem screen_glyph {cell : Nat} (hstored : s'.stored = s.stored ++ glyph cell c color) :
    screen m s' cell = c ∧ screen m s' (cell + 1) = color &&& 0x0F ∧
    ∀ i, i ≠ cell → i ≠ cell + 1 → screen m s' i = screen m s i := by
  have hreplay : screen m s' = Function.update (Function.update (screen m s) cell c) (cell + 1)
      (((0 : UInt8) <<< 4) ||| (color &&& 0x0F)) := by
    unfold screen
    rw [hstored, replay_append]
    rfl
  rw [hreplay]
  refine ⟨?_, ?_, fun i h h' => ?_⟩
  · rw [Function.update_of_ne (Nat.succ_ne_self cell).symm, Function.update_self]
  · rw [Function.update_self]
    exact UInt8.zero_or
  · rw [Function.update_of_ne h', Function.update_of_ne h]

theorem rowHolds_nil (hcol : s.keyboard.keyboardCol = 0) : RowHolds m s [] :=
  ⟨hcol, fun j hj => absurd hj (Nat.not_lt_zero j)⟩

/-- The row is that of the bytes stored, the row and the column. -/
theorem RowHolds.keep (h : RowHolds m s glyphs) (hstored : s'.stored = s.stored)
    (hrow : s'.keyboard.keyboardRow = s.keyboard.keyboardRow)
    (hcol : s'.keyboard.keyboardCol = s.keyboard.keyboardCol) : RowHolds m s' glyphs := by
  refine ⟨hcol.trans h.col, fun j hj => ?_⟩
  unfold screen
  rw [hstored, cellAt_congr hrow]
  exact h.shown j hj

/-- A character behind the row. -/
theorem RowHolds.put (h : RowHolds m s glyphs) (hlt : glyphs.length < 256)
    (hstored : s'.stored = s.stored ++ glyph (cellAt s s.keyboard.keyboardCol) c color)
    (hrow : s'.keyboard.keyboardRow = s.keyboard.keyboardRow)
    (hcol : s'.keyboard.keyboardCol = s.keyboard.keyboardCol + 1) :
    RowHolds m s' (glyphs ++ [⟨c, color &&& 0x0F⟩]) := by
  rw [h.col] at hstored hcol
  obtain ⟨hchar, hcolor, hother⟩ := screen_glyph (m := m) hstored
  refine ⟨?_, fun j hj => ?_⟩
  · rw [hcol, List.length_append, List.length_singleton]
    rfl
  · rw [List.length_append, List.length_singleton] at hj
    rw [cellAt_congr hrow]
    by_cases hlast : j = glyphs.length
    · subst hlast
      simp only [List.getElem_append_right (Nat.le_refl _), Nat.sub_self, List.getElem_cons_zero]
      exact ⟨hchar, hcolor⟩
    · have hin : j < glyphs.length := by omega
      have hcell := cellAt_small (s := s) (j := j) (by omega)
      have hend := cellAt_small (s := s) hlt
      rw [List.getElem_append_left hin, hother _ (by omega) (by omega),
        hother _ (by omega) (by omega)]
      exact h.shown j hin

/-- A blank over the last character of the row. -/
theorem RowHolds.erase (h : RowHolds m s glyphs) (hne : glyphs ≠ []) (hle : glyphs.length ≤ 256)
    (hstored : s'.stored = s.stored ++ glyph (cellAt s (s.keyboard.keyboardCol - 1)) c color)
    (hrow : s'.keyboard.keyboardRow = s.keyboard.keyboardRow)
    (hcol : s'.keyboard.keyboardCol = s.keyboard.keyboardCol - 1) :
    RowHolds m s' glyphs.dropLast := by
  have hpos := List.length_pos_of_ne_nil hne
  have hlast : s.keyboard.keyboardCol - 1 = (glyphs.length - 1 : Nat) := by
    rw [h.col]
    omega
  rw [hlast] at hstored hcol
  obtain ⟨_, _, hother⟩ := screen_glyph (m := m) hstored
  refine ⟨hcol.trans (by rw [List.length_dropLast]), fun j hj => ?_⟩
  rw [List.length_dropLast] at hj
  have hcell := cellAt_small (s := s) (j := j) (by omega)
  have hend := cellAt_small (s := s) (j := glyphs.length - 1) (by omega)
  rw [cellAt_congr hrow, List.getElem_dropLast, hother _ (by omega) (by omega),
    hother _ (by omega) (by omega)]
  exact h.shown j (by omega)

/-- A string behind the row. -/
theorem RowHolds.puts (h : RowHolds m s glyphs) (str : Memory) (color : UInt8) {n : Nat}
    (hle : glyphs.length + n ≤ 256) : RowHolds m (putsLoop s str color n)
      (glyphs ++ colored (color &&& 0x0F) ((List.range n).map str)) := by
  induction n with
  | zero => exact (List.append_nil glyphs).symm ▸ h
  | succ n ih =>
    have hn := ih (by omega)
    have hlt : (glyphs ++ colored (color &&& 0x0F) ((List.range n).map str)).length < 256 := by
      simp [colored]
      omega
    have hput : RowHolds m (putsLoop s str color (n + 1)) _ :=
      hn.put hlt (putHere_stored (str n) color) rfl rfl
    rw [List.append_assoc] at hput
    rw [List.range_succ, List.map_append, List.map_singleton, colored, List.map_append]
    exact hput

theorem RowHolds.show_puts (h : RowHolds m s glyphs) (str : Memory) (size color : UInt8)
    (hle : glyphs.length + size.toNat ≤ 256) :
    RowHolds m (Action.show s (.text (.puts str size color)))
      (glyphs ++ colored (color &&& 0x0F) ((List.range size.toNat).map str)) :=
  (h.puts str color hle).keep rfl rfl rfl

theorem range_memoryOf (arr : List UInt8) (behind : Memory) :
    (List.range arr.length).map (memoryOf arr behind) = arr := by
  refine List.ext_getElem (by rw [List.length_map, List.length_range]) fun j hj hj' => ?_
  rw [List.getElem_map, List.getElem_range]
  unfold memoryOf
  rw [List.getElem?_eq_getElem hj', Option.getD_some]

theorem RowHolds.message (h : RowHolds m s glyphs) (str : String) (color : UInt8)
    (hle : glyphs.length + (ascii str).length < 256) :
    RowHolds m (Action.show s (message str color))
      (glyphs ++ colored (color &&& 0x0F) (ascii str)) := by
  have hsize : (UInt8.ofNat (ascii str).length).toNat = (ascii str).length :=
    UInt8.toNat_ofNat_of_lt' (show (ascii str).length < 256 by omega)
  have hputs := h.show_puts (memoryOf (ascii str) fun _ => 0) (UInt8.ofNat (ascii str).length)
    color (by rw [hsize]; omega)
  rwa [hsize, range_memoryOf] at hputs

theorem RowHolds.letter (h : RowHolds m s glyphs) (c color : UInt8) (hlt : glyphs.length < 256) :
    RowHolds m (Action.show s (letter c color)) (glyphs ++ [⟨c, color &&& 0x0F⟩]) :=
  h.put hlt (putHere_stored c color) rfl rfl

/-- The prompt in an empty row. -/
theorem RowHolds.prompt (h : RowHolds m s []) (sys : System) :
    RowHolds m (play s (showHome sys).actions) promptGlyphs := by
  have hname := h.message "root@kajijOSta" 0x2 (by decide)
  have hcolon := hname.letter 0x3A 0x8 (by decide)
  have htilde := hcolon.letter 0x7E 0x1 (by decide)
  have hdollar := htilde.letter 0x24 0x8 (by decide)
  exact hdollar.letter 0x20 0x8 (by decide)

end Row

/-! ## The cursor -/

section Cursor
variable {crt : Crt} {s s' : Console}

theorem display_out (port : UInt16) (data : UInt8) :
    display crt (out s port data) = (display crt s).take ⟨port, data⟩ :=
  replay_append Crt.take crt s.sent [⟨port, data⟩]

/-- A position goes to the display in two bytes. -/
theorem two_bytes (pos : UInt16) :
    256 * ((pos >>> 8) &&& 0xFF).toUInt8.toNat + (pos &&& 0xFF).toUInt8.toNat = pos.toNat := by
  have hpos := pos.toNat_lt
  have hand : ∀ n : Nat, n &&& 255 = n % 256 := fun n => Nat.and_two_pow_sub_one_eq_mod n 8
  have hlow : (pos &&& 0xFF).toUInt8.toNat = pos.toNat % 256 := by
    rw [UInt16.toNat_toUInt8, UInt16.toNat_and, show (0xFF : UInt16).toNat = 255 from rfl, hand,
      Nat.mod_mod]
  have hhigh : ((pos >>> 8) &&& 0xFF).toUInt8.toNat = pos.toNat / 256 % 256 := by
    rw [UInt16.toNat_toUInt8, UInt16.toNat_and, show (0xFF : UInt16).toNat = 255 from rfl, hand,
      Nat.mod_mod, UInt16.toNat_shiftRight, show (8 : UInt16).toNat % 16 = 8 from rfl,
      Nat.shiftRight_eq_div_pow]
  omega

theorem display_setCursor (r c : UInt8) :
    (display crt (framebufferSetCursor s r c)).cursor = r.toNat * 80 + c.toNat := by
  have hpos : (r.toUInt16 * 80 + c.toUInt16).toNat = r.toNat * 80 + c.toNat := by
    have hr := r.toNat_lt
    have hc := c.toNat_lt
    rw [UInt16.toNat_add, UInt16.toNat_mul, UInt8.toNat_toUInt16, UInt8.toNat_toUInt16,
      show (80 : UInt16).toNat = 80 from rfl]
    omega
  unfold framebufferSetCursor
  dsimp only
  rw [← hpos, ← two_bytes, display_out, display_out, display_out, display_out]
  rfl

theorem cursor_showCursor : CursorFollows crt (showCursor s) := by
  have hcell : cellAt (showCursor s) (showCursor s).keyboard.keyboardCol =
      cellAt s s.keyboard.keyboardCol := rfl
  unfold CursorFollows
  rw [hcell, showCursor, display_setCursor, cellAt, Nat.mul_comm]

/-- The cursor is that of the bytes sent, the row and the column. -/
theorem CursorFollows.keep (h : CursorFollows crt s) (hsent : display crt s' = display crt s)
    (hrow : s'.keyboard.keyboardRow = s.keyboard.keyboardRow)
    (hcol : s'.keyboard.keyboardCol = s.keyboard.keyboardCol) : CursorFollows crt s' := by
  unfold CursorFollows
  rw [hsent, hcol, cellAt_congr hrow]
  exact h

/-- What the interrupt controllers get is nothing to the display. -/
theorem display_picAck (irq : UInt8) : display crt (picAck s irq) = display crt s := by
  have hpic1 : ∀ s, display crt (out s pic1Command picAckByte) = display crt s := fun s =>
    display_out _ _
  have hpic2 : ∀ s, display crt (out s pic2Command picAckByte) = display crt s := fun s =>
    display_out _ _
  unfold picAck
  split
  · exact (hpic1 _).trans (hpic2 _)
  · exact hpic1 _

/-- A key press moves the cursor with the driver. -/
theorem CursorFollows.keyboardIsr (h : CursorFollows crt s) (scancode : UInt8) :
    CursorFollows crt (Keyboard.keyboardIsr s scancode) := by
  have hack : ∀ {s}, CursorFollows crt s → ∀ irq, CursorFollows crt (picAck s irq) := fun h irq =>
    h.keep (display_picAck irq) (by rw [picAck_keyboard]) (by rw [picAck_keyboard])
  unfold Keyboard.keyboardIsr
  refine hack ?_ _
  by_cases hon : s.keyboard.keyboardInputOn = true
  · rw [if_pos hon]
    by_cases h0 : keyboardScancode1ToAsciiMap scancode = 0
    · rw [if_neg (not_not.mpr h0)]
      exact h
    · rw [if_pos h0]
      by_cases hb : keyboardScancode1ToAsciiMap scancode = backspace
      · rw [if_pos hb]
        by_cases hcol : 18 < s.keyboard.keyboardCol
        · rw [if_pos hcol]
          exact cursor_showCursor.keep rfl rfl rfl
        · rw [if_neg hcol]
          exact h.keep rfl rfl rfl
      · rw [if_neg hb]
        exact h.keep rfl rfl rfl
  · rw [if_neg hon]
    exact h

end Cursor

/-! ## Each key press -/

section Press
variable {m : Memory} {crt : Crt} {d d' : Display} {stroke : Stroke}

/-- The invariant of a run in which the screen shows the line. -/
structure Pictured (m : Memory) (crt : Crt) (d : Display) : Prop where
  idle : Idle d.console
  shows : Shows m crt d
  room : promptLength + d.session.i ≤ 256
  length : d.session.input.length = 256

theorem promptGlyphs_length : promptGlyphs.length = promptLength := by decide

theorem Pictured.lineLength (h : Pictured m crt d) :
    (lineGlyphs d.session).length = promptLength + d.session.i := by
  have hroom := h.room
  have hlength := h.length
  unfold lineGlyphs colored
  rw [List.length_append, promptGlyphs_length, List.length_map, List.length_take]
  omega

theorem Pictured.inStep (h : Pictured m crt d) : InStep d := by
  have hroom := h.room
  refine ⟨h.idle, ?_, by unfold promptLength at hroom; omega⟩
  unfold Aligned
  rw [h.shows.row.col, h.lineLength]
  rfl

/-- The driver behind the poll of a key that takes nothing off the screen. -/
theorem Pictured.polled (h : Pictured m crt d) (he : ¬ Erases d.console stroke.scancode) :
    RowHolds m (polledConsole d stroke) (lineGlyphs d.session) ∧
      CursorFollows crt (polledConsole d stroke) := by
  obtain ⟨hstored, hrow, hcol⟩ := polledConsole_keeps he
  refine ⟨h.shows.row.keep hstored hrow hcol, ?_⟩
  exact (h.shows.cursor.keyboardIsr stroke.scancode).keep rfl rfl rfl

/-- A character behind the line. -/
theorem lineGlyphs_append {s : Session} (hi : s.i < s.input.length) (c : UInt8) :
    lineGlyphs ⟨s.system, s.input.set s.i c, s.i + 1⟩ = lineGlyphs s ++ [⟨c, 0xF⟩] := by
  have htake : (s.input.set s.i c).take (s.i + 1) = s.input.take s.i ++ [c] := by
    rw [List.take_add_one, List.take_set_of_le (le_refl _), List.getElem?_set_self hi]
    rfl
  unfold lineGlyphs colored
  dsimp only
  rw [htake, List.map_append, List.append_assoc]
  rfl

/-- The last character of the line goes. -/
theorem lineGlyphs_dropLast {s : Session} (hi : s.i ≤ s.input.length) (hpos : 0 < s.i) (c : UInt8) :
    lineGlyphs ⟨s.system, s.input.set (s.i - 1) c, s.i - 1⟩ = (lineGlyphs s).dropLast := by
  have hlen : (s.input.take s.i).length = s.i := List.length_take_of_le hi
  have htake : (s.input.set (s.i - 1) c).take (s.i - 1) = (s.input.take s.i).dropLast := by
    rw [List.take_set_of_le (le_refl _), List.dropLast_eq_take, hlen, List.take_take,
      Nat.min_eq_left (Nat.sub_le _ _)]
  have hne : (s.input.take s.i).map (fun c => (⟨c, 0xF⟩ : Glyph)) ≠ [] := by
    rw [Ne, List.map_eq_nil_iff, ← List.length_eq_zero_iff, hlen]
    exact hpos.ne'
  unfold lineGlyphs colored
  dsimp only
  rw [htake, List.dropLast_append_of_ne_nil hne, List.map_dropLast]

/-- The line begins with the prompt. -/
theorem lineGlyphs_first (s : Session) :
    ∃ h : 0 < (lineGlyphs s).length, ((lineGlyphs s)[0]).color = 0x2 :=
  ⟨Nat.succ_pos _, rfl⟩

/-- A line begins behind its prompt. -/
theorem lineGlyphs_empty (sys : System) (input : List UInt8) :
    lineGlyphs ⟨sys, input, 0⟩ = promptGlyphs := by
  unfold lineGlyphs colored
  rw [List.take_zero, List.map_nil, List.append_nil]

/-- The prompt with its end in column 18. -/
theorem shows_prompt {s : Console} {sys : System}
    (hcol : (play s (showHome sys).actions).keyboard.keyboardCol = promptLength) :
    RowHolds m (play s (showHome sys).actions) promptGlyphs ∧
      CursorFollows crt (play s (showHome sys).actions) := by
  rw [play_showHome] at hcol
  exact ⟨(rowHolds_nil (by omega)).prompt sys, cursor_showCursor⟩

/-- What a line prints ends with the prompt. -/
theorem handleCommand_ends {env : Environment} {input : List UInt8} {s s' : System}
    (hr : (handleCommand env input s).result = .ok s') :
    ∃ xs, (handleCommand env input s).actions = xs ++ (showHome s').actions := by
  cases hget : getString input 0 with
  | none =>
    unfold handleCommand at hr
    rw [hget] at hr
    cases hr
  | some y =>
    rw [handleCommand_at hget] at hr ⊢
    unfold Effect.andThen at hr ⊢
    cases hx : (runCommand env input s (commandAt input y.2)).result with
    | error e =>
      rw [hx] at hr
      cases hr
    | ok t =>
      rw [hx] at hr
      cases hr
      exact ⟨_, rfl⟩

theorem Pictured.character (h : Pictured m crt d) (h0 : stroke.char ≠ 0)
    (hb : stroke.char ≠ backspace) (hfeed : stroke.char ≠ lineFeed)
    (hroom : promptLength + d.session.i < 256) (hp : press d stroke = .ok d') :
    Pictured m crt d' := by
  have hpolled : (if stroke.char = 0 then ⟨0, false⟩
      else ⟨stroke.char, stroke.char ≠ backspace⟩) = (⟨stroke.char, true⟩ : Polled) := by
    rw [if_neg h0, decide_eq_true hb]
  have hi : d.session.i < 256 := by omega
  have hidle := (press_character h.inStep h0 hb hfeed hp).1.idle
  rw [press_turn h.idle hpolled, mainTurn_character _ _ h0 hfeed, storeInput_lt hi] at hp
  cases hp
  obtain ⟨hstored, hrow, hcol⟩ := play_character (polledConsole d stroke) stroke.char
  have hline := (h.polled (not_erases hb)).1.put (by rw [h.lineLength]; exact hroom)
    hstored hrow hcol
  refine ⟨hidle, ⟨?_, cursor_showCursor⟩, hroom, (List.length_set ..).trans h.length⟩
  dsimp only
  rw [lineGlyphs_append (h.length ▸ hi)]
  exact hline

theorem Pictured.backspace (h : Pictured m crt d) (hb : stroke.char = Keyboard.backspace)
    (hp : press d stroke = .ok d') : Pictured m crt d' := by
  have hroom := h.room
  have hpolled : (if stroke.char = 0 then ⟨0, false⟩
      else ⟨stroke.char, stroke.char ≠ Keyboard.backspace⟩) =
        (⟨Keyboard.backspace, false⟩ : Polled) := by
    rw [hb]
    decide
  have haligned := h.inStep.aligned
  unfold Aligned at haligned
  rw [press_turn h.idle hpolled, mainTurn_backspace] at hp
  by_cases hpos : 0 < d.session.i
  · have he : Erases d.console stroke.scancode :=
      ⟨h.idle.inputOn, hb, by unfold promptLength at haligned; omega⟩
    obtain ⟨hstored, hrow, hcol⟩ := polledConsole_erases h.inStep hpos he
    rw [if_pos hpos, storeInput_lt (by omega)] at hp
    cases hp
    have hne : lineGlyphs d.session ≠ [] := by
      rw [← List.length_pos_iff, h.lineLength]
      omega
    have hcell : inputCell d (d.session.i - 1) =
        cellAt d.console (d.console.keyboard.keyboardCol - 1) := by
      rw [haligned]
      unfold inputCell
      congr 1
      omega
    rw [hcell] at hstored
    refine ⟨polled_idle h.idle, ⟨?_, ?_⟩, ?_, (List.length_set ..).trans h.length⟩
    · dsimp only
      rw [lineGlyphs_dropLast (by rw [h.length]; omega) hpos]
      exact h.shows.row.erase hne (by rw [h.lineLength]; exact hroom) hstored hrow hcol
    · exact (h.shows.cursor.keyboardIsr stroke.scancode).keep rfl rfl rfl
    · show promptLength + (d.session.i - 1) ≤ 256
      omega
  · have he : ¬ Erases d.console stroke.scancode := fun he => by
      have := he.2.2
      unfold promptLength at haligned
      omega
    rw [if_neg hpos] at hp
    cases hp
    obtain ⟨hrow, hcursor⟩ := h.polled he
    exact ⟨polled_idle h.idle, ⟨hrow, hcursor⟩, hroom, h.length⟩

theorem Pictured.newLine (h : Pictured m crt d) (hfeed : stroke.char = lineFeed)
    (hprints : ¬ LinePrints stroke.env d.session) (hp : press d stroke = .ok d') :
    Pictured m crt d' := by
  rw [press_newLine h.idle hfeed] at hp
  cases hr : (handleCommand stroke.env d.session.input d.session.system).result with
  | error f =>
    rw [hr] at hp
    cases hp
  | ok s =>
    rw [hr] at hp
    cases hp
    have hcol := handleCommand_column hprints hr (polledConsole d stroke)
    have hidle := idle_play (@polled_idle d stroke h.idle)
      (handleCommand_outputs stroke.env d.session.input d.session.system)
    obtain ⟨xs, hxs⟩ := handleCommand_ends hr
    rw [hxs] at hidle hcol ⊢
    rw [play_append] at hcol
    obtain ⟨hrow, hcursor⟩ := @shows_prompt m crt _ _ hcol
    refine ⟨hidle, ⟨?_, ?_⟩, (by decide : promptLength + 0 ≤ 256), List.length_replicate⟩
    · dsimp only
      rw [play_append, lineGlyphs_empty]
      exact hrow
    · dsimp only
      rw [play_append]
      exact hcursor

/-- A character in column 256 goes over the first of the prompt. -/
theorem Pictured.wraps (h : Pictured m crt d) (h0 : stroke.char ≠ 0)
    (hb : stroke.char ≠ Keyboard.backspace) (hfeed : stroke.char ≠ lineFeed)
    (hfull : promptLength + d.session.i = 256) :
    ∃ d', press d stroke = .ok d' ∧ ¬ Shows m crt d' := by
  have hpolled : (if stroke.char = 0 then ⟨0, false⟩
      else ⟨stroke.char, stroke.char ≠ Keyboard.backspace⟩) = (⟨stroke.char, true⟩ : Polled) := by
    rw [if_neg h0, decide_eq_true hb]
  have hi : d.session.i < 256 := by
    unfold promptLength at hfull
    omega
  refine ⟨_, by rw [press_turn h.idle hpolled, mainTurn_character _ _ h0 hfeed,
    storeInput_lt hi]; rfl, fun hshows => ?_⟩
  obtain ⟨hstored, hrow, _⟩ := play_character (polledConsole d stroke) stroke.char
  have hcol : (polledConsole d stroke).keyboard.keyboardCol = 256 := by
    rw [(h.polled (not_erases hb)).1.col, h.lineLength, hfull]
    rfl
  have hcell : cellAt (polledConsole d stroke) (polledConsole d stroke).keyboard.keyboardCol =
      cellAt (polledConsole d stroke) 0 := by
    rw [hcol]
    rfl
  rw [hcell] at hstored
  have hcolor := (screen_glyph (m := m) hstored).2.1
  obtain ⟨hpos, hprompt⟩ := lineGlyphs_first
    ⟨d.session.system, d.session.input.set d.session.i stroke.char, d.session.i + 1⟩
  have hfirst := (hshows.row.shown 0 hpos).2
  rw [cellAt_congr hrow] at hfirst
  have hcolors : (0xF : UInt8) &&& 0x0F = 0x2 := hcolor.symm.trans (hfirst.trans hprompt)
  exact absurd hcolors (by decide)

/-- **What each key press needs.** -/
theorem press_shows (h : Pictured m crt d) (hok : Legible d stroke)
    (hp : press d stroke = .ok d') : Pictured m crt d' := by
  obtain ⟨htypes, hline⟩ := hok
  by_cases h0 : stroke.char = 0
  · have he : ¬ Erases d.console stroke.scancode := not_erases (by rw [h0]; decide)
    rw [press_turn h.idle (if_pos h0), mainTurn_none] at hp
    cases hp
    obtain ⟨hrow, hcursor⟩ := h.polled he
    exact ⟨polled_idle h.idle, ⟨hrow, hcursor⟩, h.room, h.length⟩
  by_cases hb : stroke.char = backspace
  · exact h.backspace hb hp
  by_cases hfeed : stroke.char = lineFeed
  · exact h.newLine hfeed (hline hfeed) hp
  · exact h.character h0 hb hfeed (htypes h0 hb hfeed) hp

theorem press_hides (h : Pictured m crt d) (hbad : ¬ Legible d stroke) :
    ∃ d', press d stroke = .ok d' ∧ ¬ Shows m crt d' := by
  unfold Legible at hbad
  rw [not_and_or] at hbad
  rcases hbad with hbad | hbad
  · push Not at hbad
    obtain ⟨h0, hb, hfeed, hfull⟩ := hbad
    exact h.wraps h0 hb hfeed (le_antisymm h.room hfull)
  · obtain ⟨hfeed, hprints⟩ := Classical.not_imp.mp hbad
    obtain ⟨s', hr, hcol⟩ := handleCommand_prints (Classical.not_not.mp hprints)
    refine ⟨_, (press_newLine h.idle hfeed).trans (by rw [hr]), fun hshows => ?_⟩
    have hlast := hshows.row.col
    rw [lineGlyphs_empty, promptGlyphs_length] at hlast
    exact hcol _ hlast

end Press

/-! ## Runs -/

/-- `main` begins with the prompt. -/
theorem opened_pictured (s : System) (g : Fin 256 → UInt8) (m : Memory) (crt : Crt) :
    Pictured m crt (opened s g) := by
  have hcol : (play loaded (showHome s).actions).keyboard.keyboardCol = promptLength := rfl
  obtain ⟨hrow, hcursor⟩ := @shows_prompt m crt _ _ hcol
  have hstart : (opened s g).console =
      keyboardStateActivate (play loaded (showHome s).actions) := rfl
  have hline : lineGlyphs (opened s g).session = promptGlyphs := lineGlyphs_empty s _
  have hlength : (opened s g).session.input.length = 256 := by
    unfold opened
    rw [List.length_ofFn]
  obtain ⟨hidle, _, _⟩ := opened_inStep s g
  generalize play loaded (showHome s).actions = c at hrow hcursor hstart
  refine ⟨hidle, ⟨?_, ?_⟩, (by decide : promptLength + 0 ≤ 256), hlength⟩
  · rw [hstart, hline]
    exact hrow.keep rfl rfl rfl
  · rw [hstart]
    exact hcursor.keep rfl rfl rfl

/-- **What the screen shows.** In a run of key presses, each polled before the next, the
driver's row always reads as the prompt and the line in `input`, with the cursor of the
display behind it, if and only if each key is legible; whatever the screen showed before
and wherever the cursor was. -/
theorem shows_iff (s : System) (g : Fin 256 → UInt8) (m : Memory) (crt : Crt)
    (strokes : List Stroke) : Throughout press (Shows m crt) (opened s g) strokes ↔
      Meets press Legible (opened s g) strokes := by
  have hboth : (Throughout press (Shows m crt) (opened s g) strokes ∧
      Meets press (fun _ _ => True) (opened s g) strokes) ↔
        Meets press Legible (opened s g) strokes :=
    throughout_iff_meets (fun _ h => h.shows)
      (fun _ _ h hok => ⟨trivial, fun _ hp => press_shows h hok hp⟩)
      (fun _ _ h hbad _ => press_hides h hbad) (opened_pictured s g m crt)
  exact (and_iff_left meets_true).symm.trans hboth

end KajijOSta.Terminal
