import KajijOSta.Keyboard.Driver
import KajijOSta.Shell.Navigation
import KajijOSta.Terminal.Strings

/-! # The commands with all they do

`user-shell.c` from the line typed to the system calls: `handle_command`, which
finds the words of the line, and the commands with what they print. A command
takes what lies at its `char *` arguments, an `Argument`, also when one is NULL.
The effect of a piece of code is the list of its system calls, in order, and the
state it leaves. What lies in memory that the program has not written is a
parameter (`Environment`).

A read or a system call that leaves an array is a `Fault`, and so is a READ that
stores behind the 2048 bytes of a `struct ClusterBuffer`: what follows it on the
stack is not part of the state. -/
namespace KajijOSta.Terminal
open KajijOSta.Fat32 KajijOSta.Shell

/-! ## Arguments -/

def ascii (s : String) : List UInt8 := s.toList.map fun c => UInt8.ofNat c.toNat

def memoryOf (arr : List UInt8) (behind : Memory) : Memory :=
  fun i => arr[i]?.getD (behind (i - arr.length))

/-- What a command reads through a `char *`: the string there, and the 8 bytes. -/
structure Argument where
  null : Bool
  chars : List UInt8
  name : Fin 8 → UInt8

def wordArgument (w : Word) : Argument := ⟨false, w.chars, w.name⟩

/-- What lies in memory the program has not written: behind the arrays of
`handle_command`, in the local buffers of the commands, for `find` in those of each
of its calls, and at address 0. `find` is called at most to a depth. -/
structure Environment where
  behindTemp : Memory
  behindTemp2 : Memory
  dirTable : Memory
  clusterBuffer : Memory
  findTable : List (Fin 64) → Memory
  findDepth : Nat
  null : Memory
  nullString : List UInt8

/-- The argument `get_string` has found in an array. -/
def argumentAt (env : Environment) (arr : List UInt8) (behind : Memory) : Option Nat → Argument
  | none => ⟨true, env.nullString, fun i => env.null i⟩
  | some start => ⟨false, (arr.drop start).takeWhile (· ≠ 0),
      fun i => memoryOf arr behind (start + i)⟩

/-! ## Effects -/

/-- What the shell does, one step at a time. -/
inductive Action
  /-- System calls 0 to 3. -/
  | call (request : Fat32.Call)
  /-- System calls 4 to 10. -/
  | text (event : Keyboard.Event)
  /-- A read at address 0. -/
  | nullRead

inductive Fault
  | driver (f : Fat32.Fault)
  /-- `get_string` runs off its array. -/
  | leavesArray
  /-- A `struct ClusterBuffer` is written or read behind its end. -/
  | leavesBuffer
  /-- `find` is called to a greater depth. -/
  | noReturn

/-- The steps of some code, and the state it leaves. -/
structure Effect where
  actions : List Action
  result : Except Fault System

namespace Effect

def andThen (x : Effect) (f : System → Effect) : Effect :=
  match x.result with
  | .ok s => ⟨x.actions ++ (f s).actions, (f s).result⟩
  | .error e => ⟨x.actions, .error e⟩

def after (actions : List Action) (x : Effect) : Effect := ⟨actions ++ x.actions, x.result⟩

end Effect

def emit (actions : List Action) (s : System) : Effect := ⟨actions, .ok s⟩

def driverCall (c : Fat32.Call) (s : System) (k : Reply → System → Effect) : Effect :=
  match Fat32.serve s.machine c with
  | .error f => ⟨[.call c], .error (.driver f)⟩
  | .ok (reply, m) => (k reply { s with machine := m }).after [.call c]

/-- A READ stores behind a `struct ClusterBuffer`: the byte there is the same
whatever it was. -/
def overruns (m : Machine) (r : FAT32DriverRequest) : Bool :=
  match Fat32.read m { r with buf := fun _ => 0 }, Fat32.read m { r with buf := fun _ => 1 } with
  | .ok (_, buf), .ok (_, buf') => buf clusterSize == buf' clusterSize
  | _, _ => false

def readFile (r : FAT32DriverRequest) (s : System) (k : Reply → System → Effect) : Effect :=
  driverCall (.read r) s fun reply s =>
    if overruns s.machine r then ⟨[], .error .leavesBuffer⟩ else k reply s

/-- Reads through a `char *`. -/
def deref (a : Argument) : List Action := if a.null then [.nullRead] else []

section All
variable {P : Action → Prop} {x : Effect} {f : System → Effect} {actions : List Action} {s : System}

def Effect.All (P : Action → Prop) (x : Effect) : Prop := ∀ a ∈ x.actions, P a

theorem all_emit (h : ∀ a ∈ actions, P a) : (emit actions s).All P := h

theorem Effect.All.after (hx : x.All P) (h : ∀ a ∈ actions, P a) : (x.after actions).All P := by
  intro a ha
  rcases List.mem_append.mp ha with ha | ha
  · exact h a ha
  · exact hx a ha

theorem Effect.All.andThen (hx : x.All P) (hf : ∀ s, (f s).All P) : (x.andThen f).All P := by
  unfold Effect.andThen
  cases x.result with
  | ok s =>
    intro a ha
    rcases List.mem_append.mp ha with ha | ha
    · exact hx a ha
    · exact hf s a ha
  | error e => exact hx

theorem all_driverCall {c : Fat32.Call} {k : Reply → System → Effect} (hc : P (.call c))
    (hk : ∀ reply s, (k reply s).All P) : (driverCall c s k).All P := by
  unfold driverCall
  have hcall : ∀ a ∈ [Action.call c], P a := fun a ha => List.mem_singleton.mp ha ▸ hc
  cases Fat32.serve s.machine c with
  | ok y => exact (hk _ _).after hcall
  | error e => exact hcall

theorem all_readFile {r : FAT32DriverRequest} {k : Reply → System → Effect}
    (hr : P (.call (.read r))) (hk : ∀ reply s, (k reply s).All P) : (readFile r s k).All P := by
  refine all_driverCall hr fun reply s => ?_
  split
  · exact List.forall_mem_nil _
  · exact hk reply s

end All

/-! ## Printing -/

def newline : Action := .text .putsNewline

def message (s : String) (color : UInt8) : Action :=
  .text (.puts (memoryOf (ascii s) fun _ => 0) (UInt8.ofNat (ascii s).length) color)

def letter (c color : UInt8) : Action := .text (.putsChar c color)

def entryName (buf : Memory) (i : Fin 64) : Action := .text (.puts (buf.from (32 * i)) 8 0xF)

def showHome (s : System) : Effect :=
  emit [message "root@kajijOSta" 0x2, letter 0x3A 0x8, letter 0x7E 0x1, letter 0x24 0x8,
    letter 0x20 0x8] s

/-- The loop of `cat` from an index on, over what is left of the buffer: what it
prints, and whether it stops before the end. -/
def catLoop (buf : Memory) (i : Nat) : Nat → List Action × Bool
  | 0 => ([], false)
  | n + 1 =>
    if buf i = 0 then ([], true)
    else
      let (rest, stops) := catLoop buf (i + 1) n
      ((if buf i = 0x0A then newline else letter (buf i) 0xF) :: rest, stops)

/-- The entry of a table read into a buffer, as a live one of a name. -/
def namedBy (buf : Memory) (chars : List UInt8) (i : Fin 64) : Bool :=
  decide ((FAT32DirectoryTable.ofBytes buf).table i).Live && strcmp (buf.from (32 * i)) chars

/-! ## Commands -/

def mkdir (env : Environment) (a : Argument) (s : System) : Effect :=
  let r := Shell.request env.null a.name s.shell.currentDirectory.clusterNumber 0
  (driverCall (.write r) s fun _ s => emit [] s).after (deref a)

def rm (env : Environment) (a : Argument) (s : System) : Effect :=
  let r := Shell.request env.null a.name s.shell.currentDirectory.clusterNumber 0
  (driverCall (.delete r) s fun _ s => emit [] s).after (deref a)

def fileRequest (s : System) (buf : Memory) (a : Argument) : FAT32DriverRequest :=
  Shell.request buf a.name s.shell.currentDirectory.parentClusterNumber 0x100000

def cat (env : Environment) (a : Argument) (s : System) : Effect :=
  (readFile (fileRequest s env.clusterBuffer a) s fun reply s =>
    if reply.code = 0 then
      match catLoop reply.buf 0 clusterSize with
      | (printed, true) => emit (printed ++ [newline]) s
      | (printed, false) => ⟨printed, .error .leavesBuffer⟩
    else emit [] s).after (deref a)

def ls (env : Environment) (s : System) : Effect :=
  driverCall (.readDirectory (currentRequest s.shell env.dirTable)) s fun reply s =>
    let entries := FAT32DirectoryTable.ofBytes reply.buf
    emit (dataSlots.flatMap fun i =>
      if (entries.table i).Live then
        (if (entries.table i).IsFolder then [letter 0x2F 0xF] else []) ++
          [entryName reply.buf i, letter 0x20 0xF]
      else []) s

def cdSlot (buf : Memory) (chars : List UInt8) : Option (Fin 64) :=
  dataSlots.find? fun i =>
    decide ((FAT32DirectoryTable.ofBytes buf).table i).IsFolder && namedBy buf chars i

def enter (s : ShellState) (e : FAT32DirectoryEntry) (a : Argument) : ShellState :=
  { pushDirectory s s.currentDirectory with
    currentDirectory := ⟨a.name, e.cluster, s.currentDirectory.clusterNumber⟩ }

def pushMessage (s : ShellState) : List Action :=
  if stackSize ≤ s.directoryStack.length then [message "Stack Overflow" 0xC] else []

def cd (env : Environment) (a : Argument) (s : System) : Effect :=
  (if a.chars = dotDot then emit [] { s with shell := cdUp s.shell }
  else
    driverCall (.readDirectory (currentRequest s.shell env.dirTable)) s fun reply s =>
      match cdSlot reply.buf a.chars with
      | some i => emit (pushMessage s.shell)
          { s with shell := enter s.shell ((FAT32DirectoryTable.ofBytes reply.buf).table i) a }
      | none => emit [message "Directory not found" 0xC] s).after (deref a)

/-- The size `cp` and `mv` give the new file. -/
def namedSize (buf : Memory) (chars : List UInt8) : UInt32 :=
  dataSlots.foldl (fun filesize i =>
    if namedBy buf chars i then ((FAT32DirectoryTable.ofBytes buf).table i).filesize
    else filesize) 0

/-- The lines that `cp` and `mv` share; `k` is what the command does with its first
file request in the end. -/
def copy (env : Environment) (source destination : Argument) (s : System)
    (k : FAT32DriverRequest → System → Effect) : Effect :=
  let parent := s.shell.currentDirectory.parentClusterNumber
  let requestDir := Shell.request env.dirTable s.shell.currentDirectory.name parent 0
  driverCall (.readDirectory requestDir) s fun reply s =>
    let filesize := namedSize reply.buf source.chars
    let request1 := fileRequest s env.clusterBuffer source
    (readFile request1 s fun reply s =>
      -- `flag` goes to READ by value: it stays 2, and no DELETE is requested here
      let request2 := Shell.request reply.buf destination.name parent filesize
      (readFile request2 s fun reply s =>
        driverCall (.write { request2 with buf := reply.buf }) s fun _ s =>
          k { request1 with buf := reply.buf } s).after (deref destination)).after (deref source)

def cp (env : Environment) (source destination : Argument) (s : System) : Effect :=
  copy env source destination s fun _ s => emit [] s

def mv (env : Environment) (source destination : Argument) (s : System) : Effect :=
  copy env source destination s fun request1 s =>
    driverCall (.delete request1) s fun _ s => emit [] s

/-! ## The search -/

/-- What `find` does: the READ_DIR of a call, with the cluster the call is for, a
comparison with the name, and PUTS of an entry. -/
inductive FindStep
  | visit (request : FAT32DriverRequest) (nextCluster : UInt32)
  | compare
  | print (buf : Memory) (i : Fin 64)

/-- The loop of `find` over the slots, and whether it ends. -/
def findSlots (descend : Fin 64 → List FindStep × Bool) (buf : Memory) (chars : List UInt8) :
    List (Fin 64) → List FindStep × Bool
  | [] => ([], true)
  | i :: is =>
    if ((FAT32DirectoryTable.ofBytes buf).table i).Live then
      if strcmp (buf.from (32 * i)) chars then ([.compare, .print buf i], true)
      else if ((FAT32DirectoryTable.ofBytes buf).table i).IsFolder then
        match descend i with
        | (below, false) => (.compare :: below, false)
        | (below, true) =>
          let (rest, ends) := findSlots descend buf chars is
          (.compare :: below ++ rest, ends)
      else
        let (rest, ends) := findSlots descend buf chars is
        (.compare :: rest, ends)
    else findSlots descend buf chars is

/-- `find`, called to a depth; the path is that of the slots it was called for. -/
def findFrom (m : Machine) (tables : List (Fin 64) → Memory) (chars : List UInt8) :
    Nat → List (Fin 64) → UInt32 → (Fin 8 → UInt8) → UInt32 → List FindStep × Bool
  | 0, _, _, _, _ => ([], false)
  | depth + 1, path, clusterNumber, currentDir, nextCluster =>
    let r := Shell.request (tables path) currentDir clusterNumber (UInt32.ofNat clusterSize)
    let buf := (readDirectory m r).2
    let entries := FAT32DirectoryTable.ofBytes buf
    let (steps, ends) := findSlots (fun i =>
      findFrom m tables chars depth (i :: path) nextCluster (entries.table i).name
        (entries.table i).cluster) buf chars dataSlots
    (.visit r nextCluster :: steps, ends)

/-- The system calls of a step of `find`. -/
def FindStep.actions (a : Argument) : FindStep → List Action
  | .visit r _ => [.call (.readDirectory r)]
  | .compare => deref a
  | .print buf i => [entryName buf i]

/-- `find`, as `handle_command` calls it. -/
def find (env : Environment) (a : Argument) (s : System) : Effect :=
  let (steps, ends) := findFrom s.machine env.findTable a.chars env.findDepth []
    rootClusterNumber s.shell.currentDirectory.name rootClusterNumber
  ⟨steps.flatMap (FindStep.actions a), if ends then .ok s else .error .noReturn⟩

/-! ## The command line -/

/-- A command on the word `get_string` finds in an array. -/
def withWord (env : Environment) (arr : List UInt8) (behind : Memory) (idx : UInt8) (s : System)
    (k : Argument → System → Effect) : Effect :=
  match getString arr idx with
  | none => ⟨[], .error .leavesArray⟩
  | some (start, arr) => k (argumentAt env arr behind start) s

/-- `cp` or `mv` on the words it finds, each in an array of its own. -/
def withWords (env : Environment) (temp : List UInt8) (s : System)
    (k : Argument → Argument → System → Effect) : Effect :=
  withWord env temp env.behindTemp 1 s fun test s =>
    withWord env temp env.behindTemp2 2 s fun test2 s => k test test2 s

def reads (arr : List UInt8) (s : String) : Bool := strcmp (memoryOf arr fun _ => 0) (ascii s)

def handleCommand (env : Environment) (input : List UInt8) (s : System) : Effect :=
  let temp := input
  match getString input 0 with
  | none => ⟨[], .error .leavesArray⟩
  | some (_, input) =>
    let effect :=
      if reads temp "clear" then emit [.text .framebufferClear, .text .resetKeyboardState] s
      else if reads temp "ls" then ((ls env s).after [newline]).andThen (emit [newline])
      else if reads input "mkdir" then
        (withWord env temp env.behindTemp 1 s (mkdir env)).andThen (emit [newline])
      else if reads input "rm" then
        (withWord env temp env.behindTemp 1 s (rm env)).andThen (emit [newline])
      else if reads input "cat" then
        (withWord env temp env.behindTemp 1 s (cat env)).after [newline]
      else if reads input "cd" then
        (withWord env temp env.behindTemp 1 s (cd env)).after [newline]
      else if reads input "find" then
        ((withWord env temp env.behindTemp 1 s (find env)).after [newline]).andThen (emit [newline])
      else if reads input "cp" then (withWords env temp s (cp env)).after [newline]
      else if reads input "mv" then (withWords env temp s (mv env)).after [newline]
      else emit [newline, message "command not found" 0xC, newline] s
    effect.andThen showHome

end KajijOSta.Terminal
