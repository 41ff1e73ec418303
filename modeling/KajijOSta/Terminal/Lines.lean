import KajijOSta.Terminal.Commands

/-! # Command lines

`handle_command` on a line of at most 255 characters: which command it is
(`commandOf`), what the arguments are (`withWord_word`, `withWord_missing`), and for
which lines the file system is changed under the words of the line only
(`touches_iff`). -/
namespace KajijOSta.Terminal
open KajijOSta.Fat32 KajijOSta.Shell

/-! ## Lines -/

/-- The characters of a line, as `main` collects them. -/
structure CommandLine where
  chars : List UInt8
  short : chars.length ≤ 255
  nonzero : 0 ∉ chars

namespace CommandLine

def buffer (line : CommandLine) : List UInt8 :=
  line.chars ++ List.replicate (256 - line.chars.length) 0

/-- The word of a number; the command is word 0. -/
def word? (line : CommandLine) (k : Nat) : Option (List UInt8) := (fields line.chars)[k]?

end CommandLine

def padded (w : List UInt8) : Fin 8 → UInt8 := fun i => w.getD i 0

inductive Command
  | clear
  | ls
  | mkdir
  | rm
  | cat
  | cd
  | find
  | cp
  | mv
  | other
deriving DecidableEq

/-- The command of a line: "clear" and "ls" have the line to themselves. -/
def commandOf (line : List UInt8) : Command :=
  let word := (fields line).headD []
  if line = ascii "clear" then .clear
  else if line = ascii "ls" then .ls
  else if word = ascii "mkdir" then .mkdir
  else if word = ascii "rm" then .rm
  else if word = ascii "cat" then .cat
  else if word = ascii "cd" then .cd
  else if word = ascii "find" then .find
  else if word = ascii "cp" then .cp
  else if word = ascii "mv" then .mv
  else .other

/-- What `handle_command` does for a command, up to the prompt. -/
def runCommand (env : Environment) (temp : List UInt8) (s : System) : Command → Effect
  | .clear => emit [.text .framebufferClear, .text .resetKeyboardState] s
  | .ls => ((ls env s).after [newline]).andThen (emit [newline])
  | .mkdir => (withWord env temp env.behindTemp 1 s (mkdir env)).andThen (emit [newline])
  | .rm => (withWord env temp env.behindTemp 1 s (rm env)).andThen (emit [newline])
  | .cat => (withWord env temp env.behindTemp 1 s (cat env)).after [newline]
  | .cd => (withWord env temp env.behindTemp 1 s (cd env)).after [newline]
  | .find =>
    ((withWord env temp env.behindTemp 1 s (find env)).after [newline]).andThen (emit [newline])
  | .cp => (withWords env temp s (cp env)).after [newline]
  | .mv => (withWords env temp s (mv env)).after [newline]
  | .other => emit [newline, message "command not found" 0xC, newline] s

/-! ## Strings in arrays -/

section Strings

theorem memoryOf_from_one (c : UInt8) (arr : List UInt8) (behind : Memory) :
    (memoryOf (c :: arr) behind).from 1 = memoryOf arr behind := by
  funext i
  have hsub : 1 + i - (arr.length + 1) = i - arr.length := by omega
  simp only [memoryOf, Memory.from_apply, Nat.add_comm 1 i, List.getElem?_cons_succ,
    List.length_cons, Nat.add_sub_add_right]

/-- `strcmp` of two strings, the first in an array. -/
theorem strcmp_string (tail : List UInt8) (behind : Memory) :
    ∀ {w cs : List UInt8}, 0 ∉ w → 0 ∉ cs →
      strcmp (memoryOf (w ++ 0 :: tail) behind) cs = decide (w = cs)
  | [], [], _, _ => rfl
  | [], c :: cs, _, hcs => by
    have hc : ¬ 0 = c := (List.ne_and_not_mem_of_not_mem_cons hcs).1
    simp [strcmp, memoryOf, hc]
  | x :: w, [], hw, _ => by
    have hx : ¬ x = 0 := (List.ne_and_not_mem_of_not_mem_cons hw).1.symm
    simp [strcmp, memoryOf, hx]
  | x :: w, c :: cs, hw, hcs => by
    have ih := strcmp_string tail behind (List.ne_and_not_mem_of_not_mem_cons hw).2
      (List.ne_and_not_mem_of_not_mem_cons hcs).2
    rw [strcmp, List.cons_append, memoryOf_from_one, ih]
    by_cases hx : x = c
    · simp [memoryOf, hx]
    · simp [memoryOf, hx]

/-- A string of an array is one literal or another. -/
theorem reads_eq (tail : List UInt8) {w : List UInt8} {s : String} (hw : 0 ∉ w)
    (hs : 0 ∉ ascii s) : reads (w ++ 0 :: tail) s = decide (w = ascii s) :=
  strcmp_string tail _ hw hs

theorem takeWhile_string (tail : List UInt8) {w : List UInt8} (hw : 0 ∉ w) :
    (w ++ 0 :: tail).takeWhile (· ≠ 0) = w := by
  have hall : ∀ c ∈ w, decide (c ≠ 0) = true := fun c hc =>
    decide_eq_true fun h0 => hw (h0 ▸ hc)
  rw [List.takeWhile_append_of_pos hall, List.takeWhile_cons]
  simp

theorem zeros_cons (n : Nat) (tail : List UInt8) :
    List.replicate n 0 ++ 0 :: tail = 0 :: (List.replicate n 0 ++ tail) := by
  rw [List.append_cons, ← List.replicate_succ', List.replicate_succ, List.cons_append]

end Strings

/-! ## The command of a line -/

section Dispatch
variable (line : CommandLine)

/-- The zeros behind a line. -/
theorem buffer_eq : ∃ tail, line.buffer = line.chars ++ 0 :: tail ∧
    tail = List.replicate (255 - line.chars.length) 0 := by
  have h := line.short
  refine ⟨_, ?_, rfl⟩
  have hsucc : 256 - line.chars.length = 255 - line.chars.length + 1 := by omega
  unfold CommandLine.buffer
  rw [hsucc, List.replicate_succ]

theorem fields_cons_head (l : List UInt8) : ∃ w rest, fields l = w :: rest :=
  List.exists_cons_of_ne_nil (List.splitOn_ne_nil blank l)

/-- The command that `handle_command` takes for what it reads: in the whole of its input,
then in the first word. -/
def commandAt (temp first : List UInt8) : Command :=
  if reads temp "clear" then .clear
  else if reads temp "ls" then .ls
  else if reads first "mkdir" then .mkdir
  else if reads first "rm" then .rm
  else if reads first "cat" then .cat
  else if reads first "cd" then .cd
  else if reads first "find" then .find
  else if reads first "cp" then .cp
  else if reads first "mv" then .mv
  else .other

/-- It does one command, and shows the prompt. -/
theorem handleCommand_at {env : Environment} {s : System} {input first : List UInt8}
    {start : Option Nat} (hget : getString input 0 = some (start, first)) :
    handleCommand env input s =
      (runCommand env input s (commandAt input first)).andThen showHome := by
  unfold handleCommand commandAt
  rw [hget]
  simp only [apply_ite (runCommand env input s)]
  rfl

/-- A comparison of the dispatch that gives another command has failed. -/
theorem other_ite {b : Bool} {c d e : Command} (h : (if b then c else d) = e) (hne : c ≠ e) :
    b = false ∧ d = e := by
  cases b with
  | true => exact absurd h hne
  | false => exact ⟨rfl, h⟩

/-- `cd` is told by the first word, when the whole input is neither "clear" nor "ls". -/
theorem commandAt_cd {temp first : List UInt8} (h : commandAt temp first = .cd) :
    reads temp "clear" = false ∧ reads temp "ls" = false ∧ reads first "cd" = true := by
  unfold commandAt at h
  obtain ⟨hclear, h⟩ := other_ite h nofun
  obtain ⟨hls, h⟩ := other_ite h nofun
  obtain ⟨_, h⟩ := other_ite h nofun
  obtain ⟨_, h⟩ := other_ite h nofun
  obtain ⟨_, h⟩ := other_ite h nofun
  refine ⟨hclear, hls, ?_⟩
  cases hcd : reads first "cd" with
  | true => rfl
  | false =>
    rw [hcd, if_neg Bool.false_ne_true] at h
    obtain ⟨_, h⟩ := other_ite h nofun
    obtain ⟨_, h⟩ := other_ite h nofun
    obtain ⟨_, h⟩ := other_ite h nofun
    cases h

/-- The command of a line, from its strings. -/
theorem commandAt_eq {w first : List UInt8} (hw : w = (fields line.chars).headD [])
    (hline : ∀ t, 0 ∉ ascii t → reads line.buffer t = decide (line.chars = ascii t))
    (hword : ∀ t, 0 ∉ ascii t → reads first t = decide (w = ascii t)) :
    commandAt line.buffer first = commandOf line.chars := by
  unfold commandAt commandOf
  rw [← hw, hline "clear" (by decide), hline "ls" (by decide), hword "mkdir" (by decide),
    hword "rm" (by decide), hword "cat" (by decide), hword "cd" (by decide),
    hword "find" (by decide), hword "cp" (by decide), hword "mv" (by decide)]
  simp only [decide_eq_true_eq]

/-- **The command of a line** is told by its first word, or by the whole of it. -/
theorem handleCommand_eq (env : Environment) (s : System) :
    handleCommand env line.buffer s =
      (runCommand env line.buffer s (commandOf line.chars)).andThen showHome := by
  obtain ⟨tail, hbuf, _⟩ := buffer_eq line
  obtain ⟨w, rest, hfields⟩ := fields_cons_head line.chars
  have hfirst : (fields line.chars)[(0 : UInt8).toNat]? = some w := by
    rw [hfields]
    rfl
  obtain ⟨front, back, hat, hget⟩ := getString_field tail line.nonzero hfirst
  obtain rfl : front = [] := List.eq_nil_of_length_eq_zero hat.start
  have hw : 0 ∉ w := fun h => line.nonzero (hat.line_eq ▸ by simp [h])
  have hzero : List.replicate back.length 0 ++ 0 :: tail =
      0 :: (List.replicate back.length 0 ++ tail) := zeros_cons _ _
  rw [← hbuf, hzero, List.nil_append] at hget
  have hhead : w = (fields line.chars).headD [] := by
    rw [hfields, List.headD_cons]
  rw [handleCommand_at hget, commandAt_eq line hhead
    (fun t ht => hbuf ▸ reads_eq tail line.nonzero ht) fun t ht => reads_eq _ hw ht]

end Dispatch

/-! ## The arguments of a line -/

section Words
variable {line : CommandLine} {idx : UInt8} {w : List UInt8} (env : Environment)
  (behind : Memory) (s : System) (k : Argument → System → Effect)

/-- A word that is not there is NULL. -/
theorem withWord_missing (h : line.word? idx.toNat = none) :
    withWord env line.buffer behind idx s k = k (argumentAt env line.buffer behind none) s := by
  obtain ⟨tail, hbuf, _⟩ := buffer_eq line
  unfold withWord
  rw [hbuf, getString_missing tail line.nonzero (List.getElem?_eq_none_iff.mp h)]

/-- The byte behind the start of a word: one of the word, a zero of the buffer, or
one behind the buffer. -/
theorem memoryOf_word {front zeros : List UInt8} (hz : ∀ z ∈ zeros, z = 0) (i : Nat) :
    memoryOf (front ++ (w ++ zeros)) behind (front.length + i) =
      if i < w.length + zeros.length then w.getD i 0
      else behind (i - (w.length + zeros.length)) := by
  have hsub : front.length + i - (front.length + (w.length + zeros.length)) =
      i - (w.length + zeros.length) := by omega
  unfold memoryOf
  rw [List.getElem?_append_right (Nat.le_add_right _ _), Nat.add_sub_cancel_left,
    List.length_append, List.length_append, hsub]
  by_cases hw : i < w.length
  · rw [List.getElem?_append_left hw, if_pos (Nat.lt_add_right _ hw), List.getElem?_eq_getElem hw,
      Option.getD_some, List.getD_eq_getElem?_getD, List.getElem?_eq_getElem hw, Option.getD_some]
  · have hge : w.length ≤ i := Nat.le_of_not_lt hw
    rw [List.getElem?_append_right hge, List.getD_eq_getElem?_getD, List.getElem?_eq_none hge,
      Option.getD_none]
    by_cases hi : i - w.length < zeros.length
    · rw [List.getElem?_eq_getElem hi, Option.getD_some, if_pos (by omega)]
      exact hz _ (List.getElem_mem hi)
    · rw [List.getElem?_eq_none (Nat.le_of_not_lt hi), Option.getD_none, if_neg (by omega)]

/-- The 8 bytes from the start of a word on, also those behind the buffer. -/
def nameAt (behind : Memory) (start : Nat) (w : List UInt8) : Fin 8 → UInt8 := fun i =>
  if start + i < 256 then padded w i else behind (start + i - 256)

theorem nameAt_eq {start : Nat} (h : start + 8 ≤ 256) (w : List UInt8) :
    nameAt behind start w = padded w := by
  funext i
  unfold nameAt
  rw [if_pos (by omega)]

/-- A word that is there. -/
theorem withWord_word (h : line.word? idx.toNat = some w) :
    withWord env line.buffer behind idx s k =
      k ⟨false, w, nameAt behind (fieldStart line.chars idx.toNat) w⟩ s := by
  obtain ⟨tail, hbuf, htail⟩ := buffer_eq line
  obtain ⟨front, back, hat, hget⟩ := getString_field tail line.nonzero h
  have hshort := line.short
  have hlen : line.chars.length = front.length + w.length + back.length := by
    rw [hat.line_eq, List.length_append, List.length_append]
  have hw : 0 ∉ w := fun hz => line.nonzero (hat.line_eq ▸ by simp [hz])
  obtain ⟨zeros, hzeros⟩ : ∃ zeros, zeros = List.replicate back.length 0 ++ 0 :: tail := ⟨_, rfl⟩
  have hall : ∀ z ∈ zeros, z = 0 := by
    intro z hz
    rw [hzeros, zeros_cons, htail, List.mem_cons, List.mem_append] at hz
    rcases hz with hz | hz | hz
    · exact hz
    · exact List.eq_of_mem_replicate hz
    · exact List.eq_of_mem_replicate hz
  have hzlen : w.length + zeros.length = 256 - front.length := by
    rw [hzeros, htail, List.length_append, List.length_cons, List.length_replicate,
      List.length_replicate]
    omega
  have harg : argumentAt env (front ++ (w ++ zeros)) behind (some front.length) =
      ⟨false, w, nameAt behind (fieldStart line.chars idx.toNat) w⟩ := by
    have hname : (fun i : Fin 8 => memoryOf (front ++ (w ++ zeros)) behind (front.length + i)) =
        nameAt behind (fieldStart line.chars idx.toNat) w := by
      funext i
      rw [memoryOf_word behind hall, hzlen, ← hat.start]
      unfold nameAt
      by_cases hi : front.length + i < 256
      · rw [if_pos hi, if_pos (by omega)]
        rfl
      · have hsub : i.val - (256 - front.length) = front.length + i - 256 := by omega
        rw [if_neg hi, if_neg (by omega), hsub]
    have hchars : ((front ++ (w ++ zeros)).drop front.length).takeWhile (· ≠ 0) = w := by
      rw [List.drop_left, hzeros, zeros_cons, takeWhile_string _ hw]
    show Argument.mk false _ _ = _
    rw [hname, hchars]
  unfold withWord
  rw [hbuf, hget, ← hzeros, List.append_assoc]
  exact congrArg (fun a => k a s) harg

end Words

end KajijOSta.Terminal
