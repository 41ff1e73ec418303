import KajijOSta.Fat32.Requests

/-! # The commands of the shell

`user-shell.c`: the current directory, the stack of the directories above it,
and the commands that make driver requests. A word of the command line is the
string up to a blank; the command buffer is zero behind it, so the 8 bytes that
`memcpy` takes as a name are the word padded with zeros. The local buffers of
the commands are not initialised: what they hold is a parameter (`garbage`). -/
namespace KajijOSta.Shell
open KajijOSta.Fat32

/-! ## Strings -/

/-- A word of the command line that fits a name: 1 to 8 characters. -/
structure Word where
  chars : List UInt8
  nonempty : chars ≠ []
  short : chars.length ≤ 8
  nonzero : ∀ c ∈ chars, c ≠ 0

def Word.name (w : Word) : Fin 8 → UInt8 := fun i => w.chars.getD i 0

/-- `strcmp` of the string at `s1` with a string of given characters: true for
equal ones. -/
def strcmp (s1 : Memory) : List UInt8 → Bool
  | [] => s1 0 == 0
  | c :: cs => s1 0 == c && strcmp (s1.from 1) cs

/-! ## The state of the shell -/

structure DirectoryState where
  name : Fin 8 → UInt8
  clusterNumber : UInt32
  parentClusterNumber : UInt32

/-- The static state of the shell; the top of the stack comes first. -/
structure ShellState where
  currentDirectory : DirectoryState
  directoryStack : List DirectoryState

def stackSize : Nat := 100

def rootName : Fin 8 → UInt8 := fun i =>
  UInt8.ofNat ((['r', 'o', 'o', 't'][i.val]?.map Char.toNat).getD 0)

def initialShell : ShellState := ⟨⟨rootName, rootClusterNumber, rootClusterNumber⟩, []⟩

def pushDirectory (s : ShellState) (directory : DirectoryState) : ShellState :=
  if stackSize ≤ s.directoryStack.length then s
  else { s with directoryStack := directory :: s.directoryStack }

def popDirectory (s : ShellState) : DirectoryState × ShellState :=
  match s.directoryStack with
  | [] => (⟨fun _ => 0, 0, 0⟩, s)
  | directory :: rest => (directory, { s with directoryStack := rest })

/-! ## Requests -/

def request (buf : Memory) (name : Fin 8 → UInt8) (parentClusterNumber bufferSize : UInt32) :
    FAT32DriverRequest := ⟨buf, name, fun _ => 0, parentClusterNumber, bufferSize⟩

/-- The READ_DIR request of `ls` and `cd` for the current directory. -/
def currentRequest (s : ShellState) (buf : Memory) : FAT32DriverRequest :=
  request buf s.currentDirectory.name s.currentDirectory.parentClusterNumber
    (UInt32.ofNat clusterSize)

def currentTable (m : Machine) (garbage : Memory) (s : ShellState) : Memory :=
  (readDirectory m (currentRequest s garbage)).2

/-- The slots of a table read into a buffer whose live entries are named by the
word. -/
def named (buf : Memory) (w : Word) (i : Fin 64) : Bool :=
  decide ((FAT32DirectoryTable.ofBytes buf).table i).Live && strcmp (buf.from (32 * i)) w.chars

/-! ## Commands -/

def cdSlot (buf : Memory) (w : Word) : Option (Fin 64) :=
  dataSlots.find? fun i =>
    decide ((FAT32DirectoryTable.ofBytes buf).table i).IsFolder && named buf w i

/-- `cd` with a name other than "..". -/
def cdName (m : Machine) (garbage : Memory) (s : ShellState) (w : Word) : ShellState :=
  let buf := currentTable m garbage s
  match cdSlot buf w with
  | some i =>
    { pushDirectory s s.currentDirectory with
      currentDirectory :=
        { name := w.name
          clusterNumber := ((FAT32DirectoryTable.ofBytes buf).table i).cluster
          parentClusterNumber := s.currentDirectory.clusterNumber } }
  | none => s

def cdUp (s : ShellState) : ShellState :=
  if s.directoryStack = [] then s
  else
    let (directory, s) := popDirectory s
    { s with currentDirectory := directory }

def dotDot : List UInt8 := ['.', '.'].map fun c => UInt8.ofNat c.toNat

def cd (m : Machine) (garbage : Memory) (s : ShellState) (w : Word) : ShellState :=
  if w.chars = dotDot then cdUp s else cdName m garbage s w

/-- `mkdir`; the buffer of its request is at NULL. -/
def mkdir (m : Machine) (null : Memory) (s : ShellState) (w : Word) :
    Except Fault (Int8 × Machine) :=
  write m (request null w.name s.currentDirectory.clusterNumber 0)

/-- `rm`; the buffer of its request is at NULL. -/
def rm (m : Machine) (null : Memory) (s : ShellState) (w : Word) :
    Except Fault (Int8 × Machine) :=
  delete m (request null w.name s.currentDirectory.clusterNumber 0)

/-- The READ request of `cat`, `cp` and `mv` for a file. -/
def fileRequest (s : ShellState) (buf : Memory) (w : Word) : FAT32DriverRequest :=
  request buf w.name s.currentDirectory.parentClusterNumber 0x100000

/-- The size `cp` and `mv` give the new file: that of the last slot named so. -/
def namedSize (buf : Memory) (w : Word) : UInt32 :=
  dataSlots.foldl (fun filesize i =>
    if named buf w i then ((FAT32DirectoryTable.ofBytes buf).table i).filesize else filesize) 0

/-- `cat`: the request it makes, and the reply it prints from. -/
def cat (m : Machine) (garbage : Memory) (s : ShellState) (w : Word) :
    List Call × Except Fault Reply :=
  let request := fileRequest s garbage w
  ([.read request], (read m request).map fun x => ⟨x.1, x.2⟩)

/-- `cp`: the requests it makes, and the state after them. -/
def cp (m : Machine) (dirGarbage garbage : Memory) (s : ShellState) (source destination : Word) :
    List Call × Except Fault Machine :=
  let requestDir := request dirGarbage s.currentDirectory.name
    s.currentDirectory.parentClusterNumber 0
  let filesize := namedSize (readDirectory m requestDir).2 source
  let request1 := fileRequest s garbage source
  let calls := [.readDirectory requestDir, .read request1]
  match read m request1 with
  | .error f => (calls, .error f)
  | .ok (_, buf) =>
    let request2 := request buf destination.name s.currentDirectory.parentClusterNumber filesize
    -- `flag` is passed by value where its address belongs: it stays 2, and the
    -- DELETE of an existing destination is never requested
    let calls := calls ++ [.read request2]
    match read m request2 with
    | .error f => (calls, .error f)
    | .ok (_, buf) =>
      let request2 := { request2 with buf := buf }
      (calls ++ [.write request2], (write m request2).map Prod.snd)

/-- `mv`: what `cp` does, then the DELETE of the source. -/
def mv (m : Machine) (dirGarbage garbage : Memory) (s : ShellState) (source destination : Word) :
    List Call × Except Fault Machine :=
  match cp m dirGarbage garbage s source destination with
  | (calls, .error f) => (calls, .error f)
  | (calls, .ok m) =>
    let request1 := fileRequest s garbage source
    (calls ++ [.delete request1], (delete m request1).map Prod.snd)

end KajijOSta.Shell
