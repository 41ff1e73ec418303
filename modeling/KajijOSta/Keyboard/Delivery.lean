import KajijOSta.Keyboard.Driver
import KajijOSta.Lib.Mailbox
import Mathlib.Data.List.Forall2

/-! # From key presses to polls

The interrupt puts an accepted key press into the buffer of one character, over
what may be there, and a poll takes it out. Seen as a mailbox (`polls_eq`), a poll
returns the last press since the poll before; the mode with it tells whether any
of these presses was an ordinary character (`receive_foldl`). -/
namespace KajijOSta.Keyboard
open KajijOSta.Mailbox

def press : Event → Option UInt8
  | .interrupt scancode =>
    if keyboardScancode1ToAsciiMap scancode = 0 then none
    else some (keyboardScancode1ToAsciiMap scancode)
  | _ => none

def accepted (es : List Event) : List UInt8 := es.filterMap press

/-- An event as the buffer sees it. -/
def mail : Event → Option (Mailbox.Event UInt8)
  | .keyboardBuffer => some .take
  | e => (press e).map .put

theorem mail_interrupt (scancode : UInt8) : mail (.interrupt scancode) =
    if keyboardScancode1ToAsciiMap scancode = 0 then none
    else some (.put (keyboardScancode1ToAsciiMap scancode)) := by
  unfold mail press
  dsimp only
  split <;> rfl

/-- The accepted key presses between one poll and the next; the last stretch ends
with the run. -/
def stretches (es : List Event) : List (List UInt8) := batches [] (es.filterMap mail)

/-- The characters the polls return, zeros left out. -/
def received (results : List Polled) : List UInt8 := (results.map Polled.char).filter (· ≠ 0)

/-- The input is on and there is nothing to be polled: so it is when the input has
been activated, and after every poll. -/
structure Idle (s : Console) : Prop where
  inputOn : s.keyboard.keyboardInputOn = true
  empty : s.slot = ⟨0, false⟩

/-- Every accepted key press is polled, once and in order, and the mode is false
with a backspace only. -/
def DeliversAll (s : Console) (es : List Event) : Prop :=
  received (polls s (es ++ [.keyboardBuffer])) = accepted es ∧
    ∀ result ∈ polls s (es ++ [.keyboardBuffer]), result.char ≠ 0 →
      (result.printMode = false ↔ result.char = backspace)

/-- What a poll returns for the presses since the last one: the last of them, 0 for
none. The mode is true with an ordinary character, and false where there were only
backspaces. -/
structure Delivers (presses : List UInt8) (result : Polled) : Prop where
  char : result.char = presses.getLast?.getD 0
  ordinary : result.char ≠ 0 → result.char ≠ backspace → result.printMode = true
  backspaces : (∀ c ∈ presses, c = backspace) → result.printMode = false

/-! ## The buffer as a mailbox -/

/-- What a press makes of the buffer. -/
def receive (slot : Polled) (c : UInt8) : Polled :=
  ⟨c, if c = backspace then slot.printMode else true⟩

/-- What one event does to the buffer. -/
inductive SlotStep (s : Console) :
    Option (Mailbox.Event UInt8) → Option Polled → Console → Prop
  | keep {s' : Console} (hon : s'.keyboard.keyboardInputOn = true) (hs : s'.slot = s.slot) :
      SlotStep s none none s'
  | put {s' : Console} {c : UInt8} (hon : s'.keyboard.keyboardInputOn = true)
      (hs : s'.slot = receive s.slot c) : SlotStep s (some (.put c)) none s'
  | take {s' : Console} (hon : s'.keyboard.keyboardInputOn = true) (hs : s'.slot = ⟨0, false⟩) :
      SlotStep s (some .take) (some s.slot) s'

theorem SlotStep.of_same {s s' : Console} (hon : s.keyboard.keyboardInputOn = true)
    (h : SameInput s s') : SlotStep s none none s' := .keep (h.inputOn.trans hon) h.slot

theorem serve_slot {s : Console} (hon : s.keyboard.keyboardInputOn = true) (e : Event) :
    SlotStep s (mail e) (serve s e).1 (serve s e).2 := by
  cases e with
  | interrupt scancode =>
    obtain ⟨hon', hslot⟩ := keyboardIsr_input s scancode hon
    rw [mail_interrupt]
    by_cases h0 : keyboardScancode1ToAsciiMap scancode = 0
    · rw [if_pos h0] at hslot ⊢
      exact .keep hon' hslot
    · rw [if_neg h0] at hslot ⊢
      exact .put hon' hslot
  | keyboardBuffer => exact .take hon rfl
  | putsChar c color => exact .keep hon rfl
  | puts str size color => exact SlotStep.of_same hon (puts_same s str size color)
  | keyboardActivate => exact .keep rfl rfl
  | putsNewline => exact .keep hon rfl
  | resetKeyboardState => exact .keep hon rfl
  | framebufferClear => exact SlotStep.of_same hon (framebufferClear_same s)

/-- The polls of a run are the takes of its mailbox. -/
theorem polls_eq : ∀ (es : List Event) {s : Console}, s.keyboard.keyboardInputOn = true →
    polls s es = takes receive ⟨0, false⟩ s.slot (es.filterMap mail)
  | [], _, _ => rfl
  | e :: es, s, hon => by
    have hstep := serve_slot hon e
    rw [polls, List.filterMap_cons]
    generalize mail e = a at hstep
    generalize (serve s e).1 = result at hstep
    generalize (serve s e).2 = s' at hstep
    cases hstep with
    | keep hon' hs => rw [polls_eq es hon', hs]; rfl
    | put hon' hs => rw [polls_eq es hon', hs]; rfl
    | take hon' hs => rw [polls_eq es hon', hs]; rfl

/-- The folded buffer: the last press, and whether one was no backspace. -/
theorem receive_foldl (b : List UInt8) :
    (b.foldl receive ⟨0, false⟩).char = b.getLast?.getD 0 ∧
      ((b.foldl receive ⟨0, false⟩).printMode = true ↔ ∃ c ∈ b, c ≠ backspace) := by
  induction b using List.reverseRecOn with
  | nil => simp
  | append_singleton b a ih =>
    rw [List.foldl_append, List.foldl_cons, List.foldl_nil, List.getLast?_concat]
    refine ⟨rfl, ?_⟩
    rw [show ∀ slot, (receive slot a).printMode =
      if a = backspace then slot.printMode else true from fun _ => rfl]
    by_cases ha : a = backspace
    · rw [if_pos ha, ih.2]
      simp [ha]
    · rw [if_neg ha]
      exact ⟨fun _ => ⟨a, by simp, ha⟩, fun _ => rfl⟩

/-! ## Delivery -/

theorem puts_mail : ∀ es : List Event, Mailbox.puts (es.filterMap mail) = accepted es
  | [] => rfl
  | e :: es => by
    have ih := puts_mail es
    unfold accepted at ih ⊢
    rw [List.filterMap_cons, List.filterMap_cons]
    cases e with
    | interrupt scancode =>
      rw [show mail (.interrupt scancode) = (press (.interrupt scancode)).map .put from rfl]
      cases press (.interrupt scancode) with
      | none => exact ih
      | some c => exact congrArg (c :: ·) ih
    | _ => exact ih

theorem accepted_ne_zero {es : List Event} {c : UInt8} (hc : c ∈ accepted es) : c ≠ 0 := by
  obtain ⟨e, _, he⟩ := List.mem_filterMap.mp hc
  cases e with
  | interrupt scancode =>
    by_cases h0 : keyboardScancode1ToAsciiMap scancode = 0
    · rw [press, if_pos h0] at he
      cases he
    · rw [press, if_neg h0] at he
      rw [← Option.some.inj he]
      exact h0
  | _ => cases he

theorem flatten_stretches (es : List Event) : (stretches es).flatten = accepted es := by
  unfold stretches
  rw [flatten_batches, puts_mail, List.nil_append]

section Delivery
variable {s : Console} (h : Idle s) (es : List Event)

include h in
/-- Each poll, and the last one at the end, returns its stretch, folded. -/
theorem polls_stretches : polls s (es ++ [.keyboardBuffer]) =
    (stretches es).map (·.foldl receive ⟨0, false⟩) := by
  rw [polls_eq _ h.inputOn, List.filterMap_append, h.empty]
  exact takes_eq receive ⟨0, false⟩ (es.filterMap mail) []

theorem received_folds : ∀ bs : List (List UInt8), (∀ b ∈ bs, ∀ c ∈ b, c ≠ 0) →
    received (bs.map (·.foldl receive ⟨0, false⟩)) = lasts bs
  | [], _ => rfl
  | b :: bs, hne => by
    have ih := received_folds bs fun b hb => hne b (List.mem_cons_of_mem _ hb)
    have hchar := (receive_foldl b).1
    unfold received at ih ⊢
    rw [List.map_cons, List.map_cons, List.filter_cons, hchar]
    rcases List.eq_nil_or_concat b with rfl | ⟨l, a, rfl⟩
    · exact ih
    · have ha : a ≠ 0 := hne _ List.mem_cons_self a (by simp)
      rw [List.concat_eq_append, List.getLast?_concat, Option.getD_some, lasts_cons_concat,
        if_pos (decide_eq_true ha), ih]

include h in
theorem received_eq : received (polls s (es ++ [.keyboardBuffer])) = lasts (stretches es) := by
  rw [polls_stretches h]
  refine received_folds _ fun b hb c hc => ?_
  have hmem : c ∈ accepted es := by
    rw [← flatten_stretches]
    exact List.mem_flatten.mpr ⟨b, hb, hc⟩
  exact accepted_ne_zero hmem

theorem delivers_foldl (b : List UInt8) : Delivers b (b.foldl receive ⟨0, false⟩) := by
  obtain ⟨hchar, hmode⟩ := receive_foldl b
  refine ⟨hchar, fun h0 hb => hmode.mpr ?_, fun hall => ?_⟩
  · rw [hchar] at h0 hb
    cases hlast : b.getLast? with
    | none => rw [hlast] at h0; exact absurd rfl h0
    | some c =>
      rw [hlast, Option.getD_some] at hb
      exact ⟨c, List.mem_of_getLast? hlast, hb⟩
  · rw [Bool.eq_false_iff]
    intro ht
    obtain ⟨c, hc, hne⟩ := hmode.mp ht
    exact hne (hall c hc)

end Delivery

/-- **What the polls deliver.** Once a final poll has been made, the nonzero
characters polled are the last accepted key press of every stretch between polls,
in order: no press is repeated or moved, and all are there exactly when a poll lies
between any two. An ordinary character comes with the mode true, and a backspace
after nothing but backspaces with the mode false. -/
theorem keyboard_delivers {s : Console} (h : Idle s) (es : List Event) :
    received (polls s (es ++ [.keyboardBuffer])) = lasts (stretches es) ∧
    (received (polls s (es ++ [.keyboardBuffer]))).Sublist (accepted es) ∧
    (received (polls s (es ++ [.keyboardBuffer])) = accepted es ↔
      ∀ b ∈ stretches es, b.length ≤ 1) ∧
    List.Forall₂ Delivers (stretches es) (polls s (es ++ [.keyboardBuffer])) := by
  rw [received_eq h, ← flatten_stretches]
  refine ⟨rfl, lasts_sublist _, lasts_eq_flatten_iff _, ?_⟩
  rw [polls_stretches h, List.forall₂_map_right_iff]
  exact List.forall₂_same.mpr fun b _ => delivers_foldl b

/-- The driver with the input on and nothing typed. -/
def activated : Console := keyboardStateActivate loaded

theorem keyboard_delivers_activated :
    received (polls activated ([.interrupt 0x1E, .keyboardBuffer, .interrupt 0x30] ++
      [.keyboardBuffer])) = [97, 98] := by
  have hall := (keyboard_delivers (s := activated) ⟨rfl, rfl⟩
    [.interrupt 0x1E, .keyboardBuffer, .interrupt 0x30]).2.2.1
  refine (hall.mpr ?_).trans (by decide)
  decide

/-- Of two keys typed before a poll the first is lost. -/
theorem two_keys_not_delivered :
    Idle activated ∧ ¬ DeliversAll activated [.interrupt 0x1E, .interrupt 0x30] := by
  refine ⟨⟨rfl, rfl⟩, fun hall => ?_⟩
  exact absurd hall.1 (by decide)

end KajijOSta.Keyboard
