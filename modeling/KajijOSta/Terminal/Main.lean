import KajijOSta.Keyboard.Delivery
import KajijOSta.Lib.Runs
import KajijOSta.Terminal.FileRequests

/-! # The main loop

`main` of `user-shell.c`: one turn of its loop for what a poll returns, on the 256
bytes of `input` and the index `i`. `line_editing_iff` says for which sequences of
keys a line is handed to `handle_command` as it was typed. -/
namespace KajijOSta.Terminal
open KajijOSta.Fat32 KajijOSta.Shell KajijOSta.Keyboard KajijOSta.Runs

/-! ## The loop -/

def lineFeed : UInt8 := 0x0A

structure Session where
  system : System
  input : List UInt8
  i : Nat

inductive Stop
  | command (f : Fault)
  /-- `input` is written at an index that it does not have. -/
  | inputIndex (k : Nat)

def storeInput (s : Session) (k : Nat) (c : UInt8) : Except Stop Session :=
  if k < 256 then .ok { s with input := s.input.set k c } else .error (.inputIndex k)

/-- What `main` does before its loop: the prompt, and KEYBOARD_ACTIVATE. -/
def mainStart (s : System) : Effect := (showHome s).andThen (emit [.text .keyboardActivate])

/-- One turn of the loop, with the character and the mode it polls: its steps, and the
session afterwards. -/
def mainTurn (env : Environment) (s : Session) (polled : Polled) :
    List Action × Except Stop Session :=
  if polled.char ≠ 0 ∧ polled.printMode = true then
    if polled.char = lineFeed then
      let effect := handleCommand env s.input s.system
      (effect.actions, match effect.result with
        | .ok system => .ok ⟨system, List.replicate 256 0, 0⟩
        | .error f => .error (.command f))
    else
      ([.text (.puts (memoryOf [polled.char] fun _ => 0) 1 0xF)],
        (storeInput s s.i polled.char).map fun s => { s with i := s.i + 1 })
  else if polled.char ≠ 0 ∧ polled.printMode = false then
    if 0 < s.i then ([], storeInput { s with i := s.i - 1 } (s.i - 1) 0)
    else ([], .ok s)
  else ([], .ok s)

/-! ## Typing -/

/-- What a poll returns for a key, with its mode, or for none. A backspace comes with the
mode of the character that it was pressed behind, if that was not polled before. -/
inductive Key
  | character (c : UInt8) (zero : c ≠ 0) (erase : c ≠ backspace) (feed : c ≠ lineFeed)
  | newLine
  | backspace (printMode : Bool)
  | none

def Key.polled : Key → Polled
  | .character c _ _ _ => ⟨c, true⟩
  | .newLine => ⟨lineFeed, true⟩
  | .backspace printMode => ⟨Keyboard.backspace, printMode⟩
  | .none => ⟨0, false⟩

/-- The text of the line after a key. -/
def Key.edit (text : List UInt8) : Key → List UInt8
  | .character c _ _ _ => text ++ [c]
  | .newLine => []
  | .backspace _ => text.dropLast
  | .none => text

/-- A session, with the text typed since the last new line, the highest index since then,
whether a backspace has come with mode `true` since the index was 0, and whether there has
been no new line. -/
structure Typing where
  session : Session
  text : List UInt8
  longest : Nat
  stray : Bool
  first : Bool

/-- A key, and what lies in memory for the command it may start. -/
structure KeyPress where
  env : Environment
  key : Key

/-- The highest index after a key that leaves the index at `i`. -/
def Key.longest (longest i : Nat) : Key → Nat
  | .newLine => 0
  | _ => max longest i

def Key.stray (stray : Bool) (i : Nat) : Key → Bool
  | .newLine => false
  | .backspace true => decide (0 < i)
  | _ => stray && decide (0 < i)

def Key.first (first : Bool) : Key → Bool
  | .newLine => false
  | _ => first

/-- One turn of the loop, and the text. -/
def typing (t : Typing) (press : KeyPress) : Except Stop Typing :=
  (mainTurn press.env t.session press.key.polled).2.map fun session =>
    { session
      text := press.key.edit t.text
      longest := press.key.longest t.longest session.i
      stray := press.key.stray t.stray session.i
      first := press.key.first t.first }

/-- The loop begins with any bytes in `input`. -/
def untyped (s : System) (g : Fin 256 → UInt8) : Typing :=
  ⟨⟨s, List.ofFn g, 0⟩, [], 0, false, true⟩

/-- An array holds a string, and the zero behind it. -/
def Holds (arr text : List UInt8) : Prop := 0 ∉ text ∧ ∃ tail, arr = text ++ 0 :: tail

/-- A turn stores into `input` at its own indices only, and gives `handle_command`
the text as a string. -/
structure Edits (t : Typing) (press : KeyPress) : Prop where
  inside : ∀ k, (mainTurn press.env t.session press.key.polled).2 ≠ .error (.inputIndex k)
  line : press.key = .newLine → Holds t.session.input t.text

/-- A new line comes when each backspace with mode `true` has been taken back, at a text
with room for its zero, and on the first line the index has been higher or the byte of
`input` behind the text was zero from the start. -/
structure Ends (g : Fin 256 → UInt8) (t : Typing) : Prop where
  clean : t.stray = false
  room : t.text.length < 256
  zero : t.first = true → t.text.length < t.longest ∨ g ⟨t.text.length, room⟩ = 0

/-- A key that `main` stores, a backspace with mode `true` among them, finds an index of
`input`, and a new line finds the text as a string. -/
def Fits (g : Fin 256 → UInt8) (t : Typing) (press : KeyPress) : Prop :=
  match press.key with
  | .character _ _ _ _ | .backspace true => t.session.i ≤ 255
  | .newLine => Ends g t
  | .backspace false | .none => True

/-! ## What the driver returns -/

/-- An accepted press is a character. -/
theorem mail_put_ne_zero {e : Event} {c : UInt8} (h : mail e = some (.put c)) : c ≠ 0 := by
  cases e with
  | interrupt scancode =>
    rw [mail_interrupt] at h
    by_cases h0 : keyboardScancode1ToAsciiMap scancode = 0
    · rw [if_pos h0] at h
      cases h
    · rw [if_neg h0] at h
      cases h
      exact h0
  | keyboardBuffer | putsChar | puts | keyboardActivate | putsNewline | resetKeyboardState
  | framebufferClear => cases h

/-- A press over what is in the buffer. -/
theorem Key.receive (key : Key) {c : UInt8} (h0 : c ≠ 0) :
    ∃ key' : Key, key'.polled = Keyboard.receive key.polled c := by
  by_cases hb : c = Keyboard.backspace
  · exact ⟨.backspace key.polled.printMode, by simp [Key.polled, Keyboard.receive, hb]⟩
  by_cases hfeed : c = lineFeed
  · exact ⟨.newLine, by simp [Key.polled, Keyboard.receive, hb, hfeed.symm]⟩
  · exact ⟨.character c h0 hb hfeed, by simp [Key.polled, Keyboard.receive, hb]⟩

/-- All polls of a run return a key or none, whatever the interrupts are between them. -/
theorem polls_keys : ∀ (es : List Event) {s : Console}, s.keyboard.keyboardInputOn = true →
    (∃ key : Key, key.polled = s.slot) → ∀ polled ∈ polls s es, ∃ key : Key, key.polled = polled
  | [], _, _, _, polled, hmem => nomatch hmem
  | e :: es, s, hon, hslot, polled, hmem => by
    have hstep := serve_slot hon e
    have hput := @mail_put_ne_zero e
    rw [polls, List.mem_append] at hmem
    generalize mail e = a at hstep hput
    generalize (serve s e).1 = result at hstep hmem
    generalize (serve s e).2 = s' at hstep hmem
    cases hstep with
    | keep hon' hs =>
      refine polls_keys es hon' (hs ▸ hslot) polled (hmem.resolve_left ?_)
      exact List.not_mem_nil
    | put hon' hs =>
      obtain ⟨key, hkey⟩ := hslot
      have hnew := key.receive (hput rfl)
      rw [hkey, ← hs] at hnew
      refine polls_keys es hon' hnew polled (hmem.resolve_left ?_)
      exact List.not_mem_nil
    | take hon' hs =>
      rcases hmem with hmem | hmem
      · rw [List.mem_singleton.mp hmem]
        exact hslot
      · exact polls_keys es hon' ⟨.none, hs.symm⟩ polled hmem

/-! ## What `input` holds -/

/-- The byte of `input` at an index: one that was kept, or a zero behind them, but on the
first line no byte has been stored behind the highest index. -/
def typedByte (g : Fin 256 → UInt8) (kept : List UInt8) (longest : Nat) (first : Bool)
    (k : Fin 256) : UInt8 :=
  if k < kept.length then kept.getD k 0
  else if first = true ∧ longest ≤ k then g k else 0

/-- What `main` has of the line: `i` bytes of `input`. -/
structure Keeps (g : Fin 256 → UInt8) (s : Session) (kept : List UInt8) (longest : Nat)
    (first : Bool) : Prop where
  index : s.i = kept.length
  nonzero : 0 ∉ kept
  bound : kept.length ≤ longest ∧ longest ≤ 256
  input : s.input = List.ofFn (typedByte g kept longest first)

/-- The invariant of the loop. Behind a backspace with mode `true`, more is kept than is in
the text. -/
structure Typed (g : Fin 256 → UInt8) (t : Typing) (kept : List UInt8) : Prop where
  keeps : Keeps g t.session kept t.longest t.first
  same : t.stray = false → t.text = kept
  ahead : t.stray = true → t.text.length < kept.length

section Keeps
variable {g : Fin 256 → UInt8} {s : Session} {kept : List UInt8} {longest : Nat} {first : Bool}

theorem set_ofFn {n : Nat} {f f' : Fin n → UInt8} {k : Nat} {c : UInt8} (hk : k < n)
    (hset : f' ⟨k, hk⟩ = c) (hkeep : ∀ j : Fin n, j.val ≠ k → f' j = f j) :
    (List.ofFn f).set k c = List.ofFn f' := by
  refine List.ext_getElem (by rw [List.length_set, List.length_ofFn, List.length_ofFn])
    fun j hj hj' => ?_
  rw [List.getElem_set, List.getElem_ofFn, List.getElem_ofFn]
  split
  · rename_i he
    subst he
    exact hset.symm
  · rename_i hne
    exact (hkeep _ (Ne.symm hne)).symm

theorem storeInput_lt {k : Nat} {c : UInt8} (hk : k < 256) :
    storeInput s k c = .ok { s with input := s.input.set k c } := if_pos hk

/-- A byte behind the ones kept. -/
theorem Keeps.store (h : Keeps g s kept longest first) {c : UInt8} (h0 : c ≠ 0)
    (hlt : s.i < 256) :
    Keeps g ⟨s.system, s.input.set s.i c, s.i + 1⟩ (kept ++ [c]) (max longest (s.i + 1))
      first := by
  have hi := h.index
  have hlen : (kept ++ [c]).length = kept.length + 1 := by simp
  have hbound := h.bound
  have hmax : max longest (s.i + 1) ≤ 256 := by omega
  refine ⟨by rw [hlen, hi], by simp [h.nonzero, h0.symm], ⟨by omega, hmax⟩, ?_⟩
  dsimp only
  rw [h.input]
  refine set_ofFn hlt ?_ fun j hj => ?_
  · unfold typedByte
    rw [if_pos (by simp [hi])]
    simp [hi]
  · unfold typedByte
    by_cases hin : j.val < kept.length
    · rw [if_pos (by omega), if_pos hin, List.getD_eq_getElem?_getD,
        List.getElem?_append_left hin, ← List.getD_eq_getElem?_getD]
    · have hle : max longest (s.i + 1) ≤ j.val ↔ longest ≤ j.val := by omega
      rw [if_neg (by omega), if_neg hin]
      simp only [hle]

/-- A zero over the last byte kept. -/
theorem Keeps.erase (h : Keeps g s kept longest first) (hpos : 0 < s.i) :
    Keeps g ⟨s.system, s.input.set (s.i - 1) 0, s.i - 1⟩ kept.dropLast (max longest (s.i - 1))
      first := by
  have hi := h.index
  have hlen : kept.dropLast.length = kept.length - 1 := List.length_dropLast
  have hbound := h.bound
  have hmax : max longest (s.i - 1) = longest := by omega
  have hend : kept.dropLast.length ≤ s.i - 1 := by omega
  rw [hmax]
  refine ⟨by rw [hlen, hi], fun h0 => h.nonzero (List.mem_of_mem_dropLast h0), ⟨?_, hbound.2⟩, ?_⟩
  · omega
  dsimp only
  rw [h.input]
  refine set_ofFn (by omega) ?_ fun j hj => ?_
  · unfold typedByte
    rw [if_neg (Nat.not_lt.mpr hend), if_neg fun h1 => ?_]
    have := h1.2
    dsimp only at this
    omega
  · unfold typedByte
    by_cases hin : j.val < kept.length - 1
    · rw [if_pos (by omega), if_pos (by omega), List.getD_eq_getElem?_getD,
        List.getElem?_dropLast, if_pos hin, ← List.getD_eq_getElem?_getD]
    · have hout : ¬ j.val < kept.dropLast.length := by omega
      have hout' : ¬ j.val < kept.length := by omega
      rw [if_neg hout, if_neg hout']

/-- Nothing is kept of a line that was handed over. -/
theorem keeps_newLine (sys : System) :
    Keeps g ⟨sys, List.replicate 256 0, 0⟩ [] 0 false := by
  refine ⟨rfl, List.not_mem_nil, ⟨Nat.le_refl 0, Nat.zero_le _⟩, ?_⟩
  have hbyte : typedByte g [] 0 false = fun _ => 0 := by
    funext k
    exact (if_neg (Nat.not_lt_zero _)).trans (if_neg fun h => Bool.false_ne_true h.1)
  show List.replicate 256 0 = List.ofFn (typedByte g [] 0 false)
  rw [hbyte, List.ofFn_const]

theorem Keeps.input_get (h : Keeps g s kept longest first) {k : Nat} (hk : k < 256) :
    s.input[k]? = some (typedByte g kept longest first ⟨k, hk⟩) := by
  rw [h.input, List.getElem?_ofFn, dif_pos hk]

/-- What is kept is a string in `input` exactly when the byte behind it is zero. -/
theorem Keeps.holds_iff (h : Keeps g s kept longest first) : Holds s.input kept ↔
    ∃ hlt : kept.length < 256, typedByte g kept longest first ⟨kept.length, hlt⟩ = 0 := by
  have hlen : s.input.length = 256 := by rw [h.input, List.length_ofFn]
  constructor
  · intro hx
    obtain ⟨_, tail, htail⟩ := hx
    have hlt : kept.length < 256 := by
      rw [← hlen, htail, List.length_append, List.length_cons]
      omega
    refine ⟨hlt, ?_⟩
    have hget : s.input[kept.length]? = some 0 := by
      rw [htail]
      simp
    rw [h.input_get hlt] at hget
    exact Option.some.inj hget
  · intro hx
    obtain ⟨hlt, hzero⟩ := hx
    have hsplit := List.take_append_drop kept.length (List.ofFn (typedByte g kept longest first))
    refine ⟨h.nonzero, (List.ofFn (typedByte g kept longest first)).drop (kept.length + 1), ?_⟩
    have htake : (List.ofFn (typedByte g kept longest first)).take kept.length = kept := by
      refine List.ext_getElem ?_ fun j hj hj' => ?_
      · rw [List.length_take, List.length_ofFn]
        omega
      rw [List.getElem_take, List.getElem_ofFn]
      unfold typedByte
      rw [if_pos hj', List.getD_eq_getElem?_getD, List.getElem?_eq_getElem hj', Option.getD_some]
    have hdrop : (List.ofFn (typedByte g kept longest first)).drop kept.length =
        0 :: (List.ofFn (typedByte g kept longest first)).drop (kept.length + 1) := by
      rw [List.drop_eq_getElem_cons (by rwa [List.length_ofFn]), List.getElem_ofFn, hzero]
    rw [h.input, ← hdrop]
    rw [htake] at hsplit
    conv_lhs => rw [← hsplit]

/-- The byte behind what is kept is zero, but for one of the first line that was there
from the start. -/
theorem typedByte_end (hlt : kept.length < 256) :
    typedByte g kept longest first ⟨kept.length, hlt⟩ = 0 ↔
      (first = true → kept.length < longest ∨ g ⟨kept.length, hlt⟩ = 0) := by
  unfold typedByte
  rw [if_neg (Nat.lt_irrefl _)]
  by_cases hfirst : first = true
  · by_cases hle : longest ≤ kept.length
    · rw [if_pos ⟨hfirst, hle⟩]
      exact ⟨fun h0 _ => Or.inr h0, fun h0 => (h0 hfirst).resolve_left (Nat.not_lt.mpr hle)⟩
    · rw [if_neg fun h0 => hle h0.2]
      exact iff_of_true rfl fun _ => Or.inl (Nat.lt_of_not_le hle)
  · rw [if_neg fun h0 => hfirst h0.1]
    exact iff_of_true rfl fun h0 => absurd h0 hfirst

/-- Less than what is kept is no string in `input`. -/
theorem Keeps.not_holds (h : Keeps g s kept longest first) {text : List UInt8}
    (hlt : text.length < kept.length) : ¬ Holds s.input text := by
  rintro ⟨_, tail, htail⟩
  have hbound := h.bound
  have hget : s.input[text.length]? = some 0 := by
    rw [htail]
    simp
  rw [h.input_get (by omega)] at hget
  have hzero := Option.some.inj hget
  unfold typedByte at hzero
  rw [if_pos hlt, List.getD_eq_getElem?_getD, List.getElem?_eq_getElem hlt,
    Option.getD_some] at hzero
  exact h.nonzero (hzero ▸ List.getElem_mem hlt)

end Keeps

/-! ## Each key -/

theorem mainTurn_character (env : Environment) (s : Session) {c : UInt8} (h0 : c ≠ 0)
    (hfeed : c ≠ lineFeed) : mainTurn env s ⟨c, true⟩ =
      ([.text (.puts (memoryOf [c] fun _ => 0) 1 0xF)],
        (storeInput s s.i c).map fun s => { s with i := s.i + 1 }) := by
  unfold mainTurn
  rw [if_pos ⟨h0, rfl⟩, if_neg hfeed]

theorem mainTurn_newLine (env : Environment) (s : Session) : mainTurn env s ⟨lineFeed, true⟩ =
    ((handleCommand env s.input s.system).actions,
      match (handleCommand env s.input s.system).result with
      | .ok system => .ok ⟨system, List.replicate 256 0, 0⟩
      | .error f => .error (.command f)) := rfl

theorem mainTurn_backspace (env : Environment) (s : Session) :
    mainTurn env s ⟨Keyboard.backspace, false⟩ =
      if 0 < s.i then ([], storeInput { s with i := s.i - 1 } (s.i - 1) 0) else ([], .ok s) := rfl

theorem mainTurn_none (env : Environment) (s : Session) :
    mainTurn env s ⟨0, false⟩ = ([], .ok s) := rfl

/-- The turn of a key that `main` stores. -/
theorem turn_stores {env : Environment} {s : Session} {c : UInt8} (h0 : c ≠ 0)
    (hfeed : c ≠ lineFeed) (hlt : s.i < 256) :
    (mainTurn env s ⟨c, true⟩).2 = .ok ⟨s.system, s.input.set s.i c, s.i + 1⟩ := by
  rw [mainTurn_character env s h0 hfeed, storeInput_lt hlt]
  rfl

/-- A key stored at the index is inside exactly when the index is one of `input`. -/
theorem turn_inside_iff {env : Environment} {s : Session} {c : UInt8} (h0 : c ≠ 0)
    (hfeed : c ≠ lineFeed) :
    (∀ k, (mainTurn env s ⟨c, true⟩).2 ≠ .error (.inputIndex k)) ↔ s.i ≤ 255 := by
  constructor
  · intro hx
    by_contra hfull
    have hge : ¬ s.i < 256 := fun hlt => hfull (Nat.le_of_lt_succ hlt)
    refine hx s.i ?_
    rw [mainTurn_character env s h0 hfeed]
    unfold storeInput
    rw [if_neg hge]
    rfl
  · intro hle k hk
    rw [turn_stores h0 hfeed (Nat.lt_succ_of_le hle)] at hk
    cases hk

section Turns
variable {g : Fin 256 → UInt8} {t t' : Typing} {kept : List UInt8} {env : Environment}

theorem untyped_input (s : System) : (untyped s g).session.input = List.ofFn g := by
  unfold untyped
  dsimp only

theorem untyped_typed (s : System) : Typed g (untyped s g) [] := by
  have hbyte : typedByte g [] 0 true = g := by
    funext k
    exact (if_neg (Nat.not_lt_zero _)).trans (if_pos ⟨rfl, Nat.zero_le _⟩)
  refine ⟨⟨rfl, List.not_mem_nil, ⟨Nat.le_refl 0, Nat.zero_le _⟩, ?_⟩, fun _ => rfl, nofun⟩
  rw [untyped_input]
  exact congrArg List.ofFn hbyte.symm

/-- No less is kept than is in the text. -/
theorem Typed.le (h : Typed g t kept) : t.text.length ≤ kept.length := by
  cases hs : t.stray with
  | false => rw [h.same hs]
  | true => exact (h.ahead hs).le

/-- An ordinary character, with room for it. -/
theorem Typed.character (h : Typed g t kept) {c : UInt8} (h0 : c ≠ 0)
    (hb : c ≠ Keyboard.backspace) (hfeed : c ≠ lineFeed) (hle : t.session.i ≤ 255)
    (hstep : typing t ⟨env, .character c h0 hb hfeed⟩ = .ok t') : Typed g t' (kept ++ [c]) := by
  have hlt := Nat.lt_succ_of_le hle
  unfold typing Key.polled at hstep
  dsimp only at hstep
  rw [turn_stores h0 hfeed hlt] at hstep
  cases hstep
  refine ⟨h.keeps.store h0 hlt, fun hs => ?_, fun hs => ?_⟩
  · have hsame := h.same (by simpa [Key.stray] using hs)
    exact congrArg (· ++ [c]) hsame
  · have hahead := h.ahead (by simpa [Key.stray] using hs)
    simpa [Key.edit] using hahead

/-- A backspace that `main` stores: one more is kept, and the text is one shorter. -/
theorem Typed.stored (h : Typed g t kept) (hle : t.session.i ≤ 255)
    (hstep : typing t ⟨env, .backspace true⟩ = .ok t') :
    Typed g t' (kept ++ [Keyboard.backspace]) := by
  have hlt := Nat.lt_succ_of_le hle
  have h0 : Keyboard.backspace ≠ 0 := by decide
  have hmore := h.le
  unfold typing Key.polled at hstep
  dsimp only at hstep
  rw [turn_stores h0 (by decide) hlt] at hstep
  cases hstep
  refine ⟨h.keeps.store h0 hlt, fun hs => absurd hs (by simp [Key.stray]), fun _ => ?_⟩
  simp only [Key.edit, List.length_dropLast, List.length_append, List.length_singleton]
  omega

/-- A backspace that takes one back. -/
theorem Typed.erased (h : Typed g t kept) (hstep : typing t ⟨env, .backspace false⟩ = .ok t') :
    ∃ kept', Typed g t' kept' := by
  have hi := h.keeps.index
  have hbound := h.keeps.bound
  unfold typing Key.polled at hstep
  dsimp only at hstep
  rw [mainTurn_backspace] at hstep
  by_cases hpos : 0 < t.session.i
  · rw [if_pos hpos, storeInput_lt (by omega)] at hstep
    cases hstep
    refine ⟨_, h.keeps.erase hpos, fun hs => ?_, fun hs => ?_⟩
    · dsimp only [Key.edit, Key.stray] at hs ⊢
      cases hstray : t.stray with
      | false => rw [h.same hstray]
      | true =>
        -- the index is 0 again: nothing is kept, and nothing is in the text
        have hahead := h.ahead hstray
        rw [hstray, Bool.true_and, decide_eq_false_iff_not] at hs
        have htext : t.text = [] := List.eq_nil_of_length_eq_zero (by omega)
        have hkept : kept.dropLast = [] :=
          List.eq_nil_of_length_eq_zero (by rw [List.length_dropLast]; omega)
        rw [htext, hkept, List.dropLast_nil]
    · dsimp only [Key.edit, Key.stray] at hs ⊢
      rw [Bool.and_eq_true, decide_eq_true_eq] at hs
      have hahead := h.ahead hs.1
      rw [List.length_dropLast, List.length_dropLast]
      omega
  · rw [if_neg hpos] at hstep
    cases hstep
    have hkept : kept = [] := List.eq_nil_of_length_eq_zero (by omega)
    have hle := h.le
    have htext : t.text = [] :=
      List.eq_nil_of_length_eq_zero (by rw [hkept] at hle; simpa using hle)
    refine ⟨kept, ?_, fun _ => ?_, fun hs => ?_⟩
    · have hmax : max t.longest t.session.i = t.longest := by omega
      simpa only [Key.longest, Key.first, hmax] using h.keeps
    · simp [Key.edit, htext, hkept]
    · exact absurd hs (by simp [Key.stray, hpos])

/-- No key. -/
theorem Typed.stay (h : Typed g t kept) (hstep : typing t ⟨env, .none⟩ = .ok t') :
    Typed g t' kept := by
  have hi := h.keeps.index
  have hbound := h.keeps.bound
  unfold typing Key.polled at hstep
  dsimp only at hstep
  rw [mainTurn_none] at hstep
  cases hstep
  refine ⟨?_, fun hs => ?_, fun hs => ?_⟩
  · have hmax : max t.longest t.session.i = t.longest := by omega
    simpa only [Key.longest, Key.first, hmax] using h.keeps
  · dsimp only [Key.edit, Key.stray] at hs ⊢
    cases hstray : t.stray with
    | false => exact h.same hstray
    | true =>
      have hahead := h.ahead hstray
      rw [hstray, Bool.true_and, decide_eq_false_iff_not] at hs
      omega
  · dsimp only [Key.edit, Key.stray] at hs ⊢
    exact h.ahead (Bool.and_eq_true .. ▸ hs).1

/-- A turn with room for its key keeps the invariant. -/
theorem typing_typed {press : KeyPress} (h : ∃ kept, Typed g t kept) (hfits : Fits g t press)
    (hstep : typing t press = .ok t') : ∃ kept, Typed g t' kept := by
  obtain ⟨kept, h⟩ := h
  obtain ⟨env, key⟩ := press
  cases key with
  | character c h0 hb hfeed => exact ⟨_, h.character h0 hb hfeed hfits hstep⟩
  | newLine =>
    unfold typing Key.polled at hstep
    dsimp only at hstep
    rw [mainTurn_newLine] at hstep
    cases hr : (handleCommand env t.session.input t.session.system).result with
    | error f =>
      rw [hr] at hstep
      cases hstep
    | ok s =>
      rw [hr] at hstep
      cases hstep
      exact ⟨[], keeps_newLine s, fun _ => rfl, nofun⟩
  | backspace printMode =>
    cases printMode with
    | false => exact h.erased hstep
    | true => exact ⟨_, h.stored hfits hstep⟩
  | none => exact ⟨kept, h.stay hstep⟩

/-- A new line finds the text as a string exactly when the line ends so. -/
theorem Typed.ends_iff (h : Typed g t kept) : Holds t.session.input t.text ↔ Ends g t := by
  cases hstray : t.stray with
  | true =>
    refine iff_of_false (h.keeps.not_holds (h.ahead hstray)) fun hends => ?_
    rw [hends.clean] at hstray
    cases hstray
  | false =>
    have hsame := h.same hstray
    rw [hsame, h.keeps.holds_iff]
    constructor
    · rintro ⟨hlt, hzero⟩
      have hend := (typedByte_end hlt).mp hzero
      subst hsame
      exact ⟨hstray, hlt, hend⟩
    · rintro ⟨_, hlt, hend⟩
      subst hsame
      exact ⟨hlt, (typedByte_end hlt).mpr hend⟩

/-- **What each key needs.** -/
theorem edits_iff (press : KeyPress) (h : ∃ kept, Typed g t kept) :
    Edits t press ↔ Fits g t press := by
  obtain ⟨kept, h⟩ := h
  obtain ⟨env, key⟩ := press
  have hi := h.keeps.index
  have hbound := h.keeps.bound
  cases key with
  | character c h0 hb hfeed =>
    have hin := @turn_inside_iff env t.session c h0 hfeed
    exact ⟨fun hx => hin.mp hx.inside, fun hle => ⟨hin.mpr hle, nofun⟩⟩
  | newLine =>
    refine ⟨fun hx => h.ends_iff.mp (hx.line rfl), fun hx => ⟨fun k hk => ?_, fun _ =>
      h.ends_iff.mpr hx⟩⟩
    dsimp only [Key.polled] at hk
    rw [mainTurn_newLine] at hk
    cases hr : (handleCommand env t.session.input t.session.system).result with
    | error f =>
      rw [hr] at hk
      cases hk
    | ok s =>
      rw [hr] at hk
      cases hk
  | backspace printMode =>
    cases printMode with
    | true =>
      have hin := @turn_inside_iff env t.session Keyboard.backspace (by decide) (by decide)
      exact ⟨fun hx => hin.mp hx.inside, fun hle => ⟨hin.mpr hle, nofun⟩⟩
    | false =>
      refine iff_of_true ⟨fun k hk => ?_, nofun⟩ trivial
      dsimp only [Key.polled] at hk
      rw [mainTurn_backspace] at hk
      by_cases hpos : 0 < t.session.i
      · rw [if_pos hpos, storeInput_lt (by omega)] at hk
        cases hk
      · rw [if_neg hpos] at hk
        cases hk
  | none =>
    refine iff_of_true ⟨fun k hk => ?_, nofun⟩ trivial
    dsimp only [Key.polled] at hk
    rw [mainTurn_none] at hk
    cases hk

theorem edits_run_iff (h : ∃ kept, Typed g t kept) (presses : List KeyPress) :
    Meets typing Edits t presses ↔ Meets typing (Fits g) t presses :=
  meets_iff (fun _ _ _ hI hfits hstep => typing_typed hI hfits hstep)
    (fun _ press hI => edits_iff press hI) h

end Turns

/-- **Line editing.** From the start of the loop, with any bytes in `input` and any keys that
the driver can return, all turns of a run store at indices of `input` and hand over the typed
lines exactly when every key fits. -/
theorem line_editing_iff (s : System) (g : Fin 256 → UInt8) (presses : List KeyPress) :
    Meets typing Edits (untyped s g) presses ↔ Meets typing (Fits g) (untyped s g) presses :=
  edits_run_iff ⟨[], untyped_typed s⟩ presses

/-- "ls" as the first line, in an `input` that was not zero behind it. -/
theorem first_line_not_edited : ¬ Meets typing Edits (untyped emptyRoot fun _ => 0x78)
    [⟨unwritten, .character 0x6C (by decide) (by decide) (by decide)⟩,
      ⟨unwritten, .character 0x73 (by decide) (by decide) (by decide)⟩,
      ⟨unwritten, .newLine⟩] := by
  intro h
  have hfits := (edits_run_iff ⟨[], untyped_typed emptyRoot⟩ _).mp h
  have hends := ((hfits.2 _ rfl).2 _ rfl).1
  rcases hends.zero rfl with hlt | h0
  · exact absurd hlt (by decide)
  · exact absurd h0 (by decide : ¬ (0x78 : UInt8) = 0)

end KajijOSta.Terminal
