import KajijOSta.Keyboard.Driver
import KajijOSta.Lib.Runs

/-! # Text on the screen

The screen has 25 rows of 80 cells of two bytes. The driver counts rows and columns
as `int`s, never wraps or scrolls, and passes them on as bytes; `framebuffer_clear`
zeroes 160 bytes from each of 50 starts that lie 80 bytes apart. `onScreen_iff` says
which events write no byte outside the screen and each character in its own cell,
`text_stays_iff` which runs consist of such events. -/
namespace KajijOSta.Keyboard
open KajijOSta.Fat32 KajijOSta.Runs

/-! ## The screen -/

def screenRows : Nat := 25
def screenCols : Nat := 80

/-- The bytes of the screen. -/
def screenBytes : Nat := screenRows * screenCols * 2

/-- A character written while the driver was at a row and a column. -/
structure Placement where
  row : Int
  col : Int
  c : UInt8
  color : UInt8

namespace Placement

def Fits (p : Placement) : Prop :=
  0 ≤ p.row ∧ p.row < screenRows ∧ 0 ≤ p.col ∧ p.col < screenCols

def bytes (p : Placement) : List CellWrite :=
  [⟨(p.row.toNat * screenCols + p.col.toNat) * 2, p.c⟩,
    ⟨(p.row.toNat * screenCols + p.col.toNat) * 2 + 1, p.color &&& 0x0F⟩]

/-- The bytes `framebuffer_write` stores, which takes the row and the column as bytes. -/
def stored (p : Placement) : List CellWrite :=
  [⟨((toByte p.row).toNat * 80 + (toByte p.col).toNat) * 2, p.c⟩,
    ⟨((toByte p.row).toNat * 80 + (toByte p.col).toNat) * 2 + 1,
      ((0 : UInt8) <<< 4) ||| (p.color &&& 0x0F)⟩]

end Placement

/-- A key press that takes a character off the screen. -/
def Erases (s : Console) (scancode : UInt8) : Prop :=
  s.keyboard.keyboardInputOn = true ∧ keyboardScancode1ToAsciiMap scancode = backspace ∧
    18 < s.keyboard.keyboardCol

instance (s : Console) (scancode : UInt8) : Decidable (Erases s scancode) :=
  inferInstanceAs (Decidable (_ ∧ _))

def line (s : Console) (str : Memory) (color : UInt8) (n : Nat) : List Placement :=
  (List.range n).map fun i =>
    ⟨s.keyboard.keyboardRow, s.keyboard.keyboardCol + (i : Nat), str i, color⟩

def printed (s : Console) : Event → List Placement
  | .interrupt scancode =>
    if Erases s scancode then
      [⟨s.keyboard.keyboardRow, s.keyboard.keyboardCol - 1, 32, 0xF⟩]
    else []
  | .putsChar c color => [⟨s.keyboard.keyboardRow, s.keyboard.keyboardCol, c, color⟩]
  | .puts str size color => line s str color size.toNat
  | _ => []

/-- The bytes an event stores. -/
def newly (s : Console) (e : Event) : List CellWrite :=
  (serve s e).2.stored.drop s.stored.length

/-- An event writes no byte outside the screen, and each character into the cell of
the driver's row and column. -/
structure OnScreen (s : Console) (e : Event) : Prop where
  inside : ∀ w ∈ newly s e, w.offset < screenBytes
  fits : ∀ p ∈ printed s e, p.Fits
  inCells : printed s e ≠ [] → newly s e = (printed s e).flatMap Placement.bytes

/-- The events that have room for what they write. `framebuffer_clear` never has. -/
def HasRoom (s : Console) : Event → Prop
  | .interrupt scancode => Erases s scancode →
      s.keyboard.keyboardRow < screenRows ∧ s.keyboard.keyboardCol ≤ screenCols
  | .putsChar _ _ => s.keyboard.keyboardRow < screenRows ∧ s.keyboard.keyboardCol < screenCols
  | .puts _ size _ => size = 0 ∨
      (s.keyboard.keyboardRow < screenRows ∧ s.keyboard.keyboardCol + size.toNat ≤ screenCols)
  | .framebufferClear => False
  | _ => True

/-- One event, without its result. -/
def step (s : Console) (e : Event) : Except Empty Console := .ok (serve s e).2

def cleared (s : Console) : Console := resetKeyboardState (framebufferClear s)

/-! ## What each event stores -/

section Stores
variable {s : Console}

theorem framebufferWrite_stored (row col c fg bg : UInt8) :
    (framebufferWrite s row col c fg bg).stored = s.stored ++
      [⟨(row.toNat * 80 + col.toNat) * 2, c⟩,
        ⟨(row.toNat * 80 + col.toNat) * 2 + 1, (bg <<< 4) ||| (fg &&& 0x0F)⟩] :=
  List.append_assoc _ [_] [_]

theorem framebufferSetCursor_stored (r c : UInt8) :
    (framebufferSetCursor s r c).stored = s.stored := rfl

theorem putHere_stored (c color : UInt8) : (putHere s c color).stored =
    s.stored ++ (Placement.mk s.keyboard.keyboardRow s.keyboard.keyboardCol c color).stored :=
  framebufferWrite_stored _ _ _ _ _

/-- A loop of steps that store. -/
theorem foldl_stored {A : Type} {f : Console → A → Console} {g : A → List CellWrite}
    (hf : ∀ s a, (f s a).stored = s.stored ++ g a) (l : List A) :
    ∀ s : Console, (l.foldl f s).stored = s.stored ++ l.flatMap g := by
  induction l with
  | nil => exact fun s => (List.append_nil _).symm
  | cons a l ih =>
    intro s
    rw [List.foldl_cons, ih, hf, List.flatMap_cons, List.append_assoc]

/-- A loop of steps that leave the driver's state alone. -/
theorem foldl_keyboard {A : Type} {f : Console → A → Console}
    (hf : ∀ s a, (f s a).keyboard = s.keyboard) (l : List A) :
    ∀ s : Console, (l.foldl f s).keyboard = s.keyboard := by
  induction l with
  | nil => exact fun _ => rfl
  | cons a l ih => exact fun s => (ih (f s a)).trans (hf s a)

theorem putsLoop_keyboard (str : Memory) (color : UInt8) (n : Nat) :
    (putsLoop s str color n).keyboard.keyboardRow = s.keyboard.keyboardRow ∧
    (putsLoop s str color n).keyboard.keyboardCol = s.keyboard.keyboardCol + n := by
  induction n with
  | zero => exact ⟨rfl, (Int.add_zero _).symm⟩
  | succ n ih =>
    refine ⟨ih.1, ?_⟩
    show (putsLoop s str color n).keyboard.keyboardCol + 1 = _
    rw [ih.2, Int.add_assoc]
    rfl

theorem putsLoop_stored (str : Memory) (color : UInt8) (n : Nat) :
    (putsLoop s str color n).stored =
      s.stored ++ (line s str color n).flatMap Placement.stored := by
  induction n with
  | zero => exact (List.append_nil _).symm
  | succ n ih =>
    show (putHere (putsLoop s str color n) (str n) color).stored = _
    obtain ⟨hrow, hcol⟩ := putsLoop_keyboard (s := s) str color n
    rw [putHere_stored, ih, hrow, hcol]
    simp only [line, List.range_succ, List.map_append, List.flatMap_append, List.append_assoc,
      List.map_cons, List.map_nil, List.flatMap_cons, List.flatMap_nil, List.append_nil]

theorem clearBytes_stored (offset n : Nat) : (clearBytes s offset n).stored =
    s.stored ++ (List.range n).flatMap fun j => [⟨offset + j, 0⟩] := by
  unfold clearBytes
  exact foldl_stored (fun _ _ => rfl) _ s

theorem clearRows_stored : (clearRows s).stored = s.stored ++
    (List.range (25 * 2)).flatMap fun i =>
      (List.range (80 * 2)).flatMap fun j => [⟨i * 80 + j, 0⟩] := by
  unfold clearRows
  rw [foldl_stored fun s i => clearBytes_stored (s := s) (i * 80) (80 * 2)]

/-- What `framebuffer_clear` stores begins with all that its first loop stores. -/
theorem framebufferClear_stored : ∃ blanks, (framebufferClear s).stored =
    (clearRows s).stored ++ blanks := by
  unfold framebufferClear blankCells
  rw [framebufferSetCursor_stored, foldl_stored fun s i =>
    framebufferWrite_stored (s := s) (UInt8.ofNat (i / 80)) (UInt8.ofNat (i % 80)) 32 0x07 0x00]
  exact ⟨_, rfl⟩

theorem clearBytes_keyboard (offset n : Nat) : (clearBytes s offset n).keyboard = s.keyboard := by
  have hstore : ∀ (s : Console) (j : Nat), (store s (offset + j) 0).keyboard = s.keyboard :=
    fun _ _ => rfl
  unfold clearBytes
  exact foldl_keyboard hstore _ s

theorem framebufferClear_keyboard : (framebufferClear s).keyboard = s.keyboard := by
  have hset : ∀ s : Console, (framebufferSetCursor s 0 0).keyboard = s.keyboard := fun _ => rfl
  have hwrite : ∀ (s : Console) (row col c fg bg : UInt8),
      (framebufferWrite s row col c fg bg).keyboard = s.keyboard := fun _ _ _ _ _ _ => rfl
  unfold framebufferClear blankCells clearRows
  rw [hset, foldl_keyboard fun s i =>
    hwrite s (UInt8.ofNat (i / 80)) (UInt8.ofNat (i % 80)) 32 0x07 0x00,
    foldl_keyboard fun s i => clearBytes_keyboard (s := s) (i * 80) (80 * 2)]

theorem newly_eq {e : Event} {l : List CellWrite} (h : (serve s e).2.stored = s.stored ++ l) :
    newly s e = l := by
  unfold newly
  rw [h, List.drop_left]

theorem picAck_stored (irq : UInt8) : (picAck s irq).stored = s.stored := by
  unfold picAck
  split <;> rfl

/-- A key press that erases. -/
theorem keyboardIsr_erases {scancode : UInt8} (h : Erases s scancode) :
    (keyboardIsr s scancode).stored =
      s.stored ++ (printed s (.interrupt scancode)).flatMap Placement.stored ∧
    (keyboardIsr s scancode).keyboard.keyboardRow = s.keyboard.keyboardRow ∧
    (keyboardIsr s scancode).keyboard.keyboardCol = s.keyboard.keyboardCol - 1 := by
  have hne : keyboardScancode1ToAsciiMap scancode ≠ 0 := h.2.1 ▸ by decide
  unfold keyboardIsr
  rw [if_pos h.1, if_pos hne, if_pos h.2.1, if_pos h.2.2, picAck_keyboard, picAck_stored]
  refine ⟨?_, rfl, rfl⟩
  rw [printed, if_pos h]
  exact putHere_stored _ _

/-- Any other interrupt. -/
theorem keyboardIsr_keeps {scancode : UInt8} (h : ¬ Erases s scancode) :
    (keyboardIsr s scancode).stored = s.stored ∧
    (keyboardIsr s scancode).keyboard.keyboardRow = s.keyboard.keyboardRow ∧
    (keyboardIsr s scancode).keyboard.keyboardCol = s.keyboard.keyboardCol := by
  unfold keyboardIsr
  rw [picAck_keyboard, picAck_stored]
  by_cases hon : s.keyboard.keyboardInputOn = true
  · rw [if_pos hon]
    by_cases h0 : keyboardScancode1ToAsciiMap scancode = 0
    · rw [if_neg (not_not.mpr h0)]
      exact ⟨rfl, rfl, rfl⟩
    · rw [if_pos h0]
      by_cases hb : keyboardScancode1ToAsciiMap scancode = backspace
      · rw [if_pos hb, if_neg fun hcol => h ⟨hon, hb, hcol⟩]
        exact ⟨rfl, rfl, rfl⟩
      · rw [if_neg hb]
        exact ⟨rfl, rfl, rfl⟩
  · rw [if_neg hon]
    exact ⟨rfl, rfl, rfl⟩

end Stores

/-! ## Which events stay on the screen -/

section Events
variable {s : Console}

theorem toByte_toNat {n : Int} (h0 : 0 ≤ n) (h : n < 256) : (toByte n).toNat = n.toNat := by
  unfold toByte UInt8.ofInt
  rw [UInt8.toNat_ofNat']
  omega

/-- In a cell, what is stored is what belongs there. -/
theorem Placement.Fits.stored_eq {p : Placement} (h : p.Fits) : p.stored = p.bytes := by
  obtain ⟨hr0, hr, hc0, hc⟩ := h
  have hrow : (toByte p.row).toNat = p.row.toNat :=
    toByte_toNat hr0 (hr.trans (by decide))
  have hcol : (toByte p.col).toNat = p.col.toNat :=
    toByte_toNat hc0 (hc.trans (by decide))
  have hcolor : ((0 : UInt8) <<< 4) ||| (p.color &&& 0x0F) = p.color &&& 0x0F := UInt8.zero_or
  unfold Placement.stored Placement.bytes
  rw [hrow, hcol, hcolor]
  rfl

theorem Placement.Fits.offset_lt {p : Placement} (h : p.Fits) :
    ∀ w ∈ p.bytes, w.offset < screenBytes := by
  obtain ⟨hr0, hr, hc0, hc⟩ := h
  have hrows : screenRows = 25 := rfl
  have hcols : screenCols = 80 := rfl
  have hbytes : screenBytes = 4000 := rfl
  rw [hrows] at hr
  rw [hcols] at hc
  intro w hw
  unfold Placement.bytes at hw
  rw [hcols] at hw
  rcases List.mem_pair.mp hw with rfl | rfl <;> simp only <;> omega

/-- What every event but the clearing stores: its characters. -/
theorem serve_stored {e : Event} (h : e ≠ .framebufferClear) :
    (serve s e).2.stored = s.stored ++ (printed s e).flatMap Placement.stored := by
  cases e with
  | interrupt scancode =>
    by_cases hpress : Erases s scancode
    · exact (keyboardIsr_erases hpress).1
    · rw [printed, if_neg hpress]
      exact (keyboardIsr_keeps hpress).1.trans (List.append_nil _).symm
  | putsChar c color => exact putHere_stored c color
  | puts str size color => exact putsLoop_stored str color size.toNat
  | framebufferClear => exact absurd rfl h
  | _ => exact (List.append_nil _).symm

/-- An event that stores its characters stays on the screen when they all fit. -/
theorem onScreen_iff_fits {e : Event} (h : e ≠ .framebufferClear) :
    OnScreen s e ↔ ∀ p ∈ printed s e, p.Fits := by
  constructor
  · exact OnScreen.fits
  · intro hfits
    have hnew : newly s e = (printed s e).flatMap Placement.bytes := by
      rw [newly_eq (serve_stored h)]
      exact List.flatMap_congr fun p hp => (hfits p hp).stored_eq
    refine ⟨fun w hw => ?_, hfits, fun _ => hnew⟩
    rw [hnew] at hw
    obtain ⟨p, hp, hw⟩ := List.mem_flatMap.mp hw
    exact (hfits p hp).offset_lt w hw

/-- The last of the 50 starts lies less than 160 bytes before the end. -/
theorem clear_not_onScreen : ¬ OnScreen s .framebufferClear := by
  intro h
  obtain ⟨blanks, hblanks⟩ := framebufferClear_stored (s := s)
  rw [clearRows_stored, List.append_assoc] at hblanks
  have hnew := newly_eq (e := .framebufferClear) hblanks
  have hmem : (⟨49 * 80 + 80, 0⟩ : CellWrite) ∈ newly s .framebufferClear := by
    rw [hnew]
    refine List.mem_append_left _ (List.mem_flatMap.mpr ⟨49, List.mem_range.mpr (by decide), ?_⟩)
    exact List.mem_flatMap.mpr ⟨80, List.mem_range.mpr (by decide), List.mem_singleton.mpr rfl⟩
  exact absurd (h.inside _ hmem) (by decide)

/-- The driver has gone neither up nor left of the screen. -/
structure Below (s : Console) : Prop where
  row : 0 ≤ s.keyboard.keyboardRow
  col : 0 ≤ s.keyboard.keyboardCol

theorem line_fits (h : Below s) (str : Memory) (color : UInt8) (n : Nat) :
    (∀ p ∈ line s str color n, p.Fits) ↔
      n = 0 ∨ (s.keyboard.keyboardRow < screenRows ∧ s.keyboard.keyboardCol + n ≤ screenCols) := by
  have hrow := h.row
  have hcol := h.col
  simp only [line, List.forall_mem_map, List.mem_range, Placement.Fits]
  constructor
  · intro hall
    by_cases h0 : n = 0
    · exact Or.inl h0
    · -- the last character decides
      obtain ⟨_, hr, _, hc⟩ := hall (n - 1) (by omega)
      exact Or.inr ⟨hr, by omega⟩
  · intro hroom i hi
    obtain ⟨hr, hc⟩ := hroom.resolve_left (by omega)
    exact ⟨hrow, hr, by omega, by omega⟩

/-- **Which events stay on the screen.** -/
theorem onScreen_iff (h : Below s) (e : Event) : OnScreen s e ↔ HasRoom s e := by
  have hrow := h.row
  have hcol := h.col
  cases e with
  | interrupt scancode =>
    rw [onScreen_iff_fits (e := .interrupt scancode) nofun, printed]
    by_cases hpress : Erases s scancode
    · have hpast := hpress.2.2
      rw [if_pos hpress, List.forall_mem_singleton]
      constructor
      · intro hfits _
        obtain ⟨_, hr, _, hc⟩ := hfits
        exact ⟨hr, Int.le_of_sub_one_lt hc⟩
      · intro hroom
        obtain ⟨hr, hc⟩ := hroom hpress
        exact ⟨hrow, hr, Int.sub_nonneg_of_le (by omega), Int.sub_one_lt_of_le hc⟩
    · rw [if_neg hpress]
      exact iff_of_true nofun fun hp => absurd hp hpress
  | putsChar c color =>
    rw [onScreen_iff_fits (e := .putsChar c color) nofun, printed, List.forall_mem_singleton]
    exact ⟨fun hfits => ⟨hfits.2.1, hfits.2.2.2⟩, fun hroom => ⟨hrow, hroom.1, hcol, hroom.2⟩⟩
  | puts str size color =>
    have hsize : size.toNat = 0 ↔ size = 0 := UInt8.toNat_inj (b := 0)
    rw [onScreen_iff_fits (e := .puts str size color) nofun, printed, line_fits h, hsize]
    rfl
  | framebufferClear => exact iff_of_false clear_not_onScreen id
  | _ =>
    refine (onScreen_iff_fits fun he => ?_).trans (iff_of_true (List.forall_mem_nil _) trivial)
    cases he

/-- No event takes the driver up or left of the screen. -/
theorem serve_below (h : Below s) (e : Event) : Below (serve s e).2 := by
  have hrow := h.row
  have hcol := h.col
  cases e with
  | interrupt scancode =>
    by_cases hpress : Erases s scancode
    · obtain ⟨_, hr, hc⟩ := keyboardIsr_erases hpress
      have hpast := hpress.2.2
      refine ⟨hr ▸ hrow, ?_⟩
      show 0 ≤ (keyboardIsr s scancode).keyboard.keyboardCol
      omega
    · obtain ⟨_, hr, hc⟩ := keyboardIsr_keeps hpress
      exact ⟨hr ▸ hrow, hc ▸ hcol⟩
  | keyboardBuffer => exact ⟨hrow, hcol⟩
  | putsChar c color => exact ⟨hrow, Int.add_nonneg hcol Int.one_nonneg⟩
  | puts str size color =>
    obtain ⟨hr, hc⟩ := putsLoop_keyboard (s := s) str color size.toNat
    exact ⟨hr ▸ hrow, hc ▸ Int.add_nonneg hcol (Int.natCast_nonneg _)⟩
  | keyboardActivate => exact ⟨hrow, hcol⟩
  | putsNewline => exact ⟨Int.add_nonneg hrow Int.one_nonneg, Int.le_refl 0⟩
  | resetKeyboardState => exact ⟨Int.le_refl 0, Int.le_refl 0⟩
  | framebufferClear =>
    rw [← framebufferClear_keyboard] at hrow hcol
    exact ⟨hrow, hcol⟩

theorem cleared_below (s : Console) : Below (cleared s) := ⟨Int.le_refl 0, Int.le_refl 0⟩

theorem events_stay_iff (h : Below s) (es : List Event) :
    Meets step OnScreen s es ↔ Meets step HasRoom s es := by
  refine meets_iff (fun s e s' hs _ he => ?_) (fun s e hs => onScreen_iff hs e) h
  cases he
  exact serve_below hs e

end Events

/-! ## Runs -/

/-- **When text stays on the screen.** In a run from a cleared screen, every event
stays on the screen exactly when each one has room for the characters it writes and
none is `framebuffer_clear`. -/
theorem text_stays_iff (s : Console) (es : List Event) :
    Meets step OnScreen (cleared s) es ↔ Meets step HasRoom (cleared s) es :=
  events_stay_iff (cleared_below s) es

/-- New lines take the driver down, below the last row as well. -/
theorem newlines_down {s : Console} {es : List Event} (n : Nat)
    (h : Meets step HasRoom s (List.replicate n .putsNewline ++ es)) :
    ∃ s', s'.keyboard.keyboardRow = s.keyboard.keyboardRow + n ∧ Meets step HasRoom s' es := by
  induction n generalizing s with
  | zero => exact ⟨s, (Int.add_zero _).symm, h⟩
  | succ n ih =>
    obtain ⟨s', hrow, h'⟩ := ih (h.2 (putsNewline s) rfl)
    refine ⟨s', hrow.trans ?_, h'⟩
    show s.keyboard.keyboardRow + 1 + n = _
    omega

/-- A character after 25 new lines is stored behind the screen. -/
theorem below_last_row_not_onScreen :
    ¬ Meets step OnScreen (cleared loaded)
      (List.replicate 25 .putsNewline ++ [.putsChar 0x61 0xF]) := by
  intro h
  obtain ⟨s', hrow, hroom⟩ := newlines_down 25 ((events_stay_iff (cleared_below loaded) _).mp h)
  have hlast : s'.keyboard.keyboardRow < screenRows := hroom.1.1
  rw [hrow] at hlast
  exact absurd hlast (by decide)

end KajijOSta.Keyboard
