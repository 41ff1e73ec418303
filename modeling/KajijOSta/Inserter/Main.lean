import KajijOSta.Fat32.Crash
import Mathlib.Data.List.TakeWhile

/-! # The image inserter

`external-inserter.c`: mount the image, delete "shell" from its root, write one
host file into the given parent, and save the image. The image is kept in
memory, and the block transfers over it are `readBlocks` and `writeBlocks`. A
text is the bytes of a C string without its NUL. -/
namespace KajijOSta.Inserter
open KajijOSta.Fat32 KajijOSta.NamedTree

/-! ## `sscanf` -/

def isSpace (c : UInt8) : Bool := c == 32 || (9 ≤ c && c ≤ 13)

def isDigit (c : UInt8) : Bool := 48 ≤ c && c ≤ 57

/-- What `%8s` takes from a text: up to 8 characters, behind leading blanks. -/
def scanWord (text : List UInt8) : List UInt8 :=
  ((text.dropWhile isSpace).takeWhile fun c => !isSpace c).take 8

def decimal (digits : List UInt8) : Nat :=
  digits.foldl (fun value c => 10 * value + (c.toNat - 48)) 0

/-- What `%u` makes of a text, if it starts with a number: an `unsigned long`,
saturated, with its sign, cut to 32 bits. -/
def scanUnsigned (text : List UInt8) : Option UInt32 :=
  let text := text.dropWhile isSpace
  let negative : Bool := text.head? = some 45
  let text := if negative ∨ text.head? = some 43 then text.tail else text
  let digits := text.takeWhile isDigit
  if digits = [] then none
  else
    let value := decimal digits
    if 2 ^ 64 ≤ value then some (UInt32.ofNat (2 ^ 64 - 1))
    else if negative then some (UInt32.ofNat (2 ^ 64 - value))
    else some (UInt32.ofNat value)

/-! ## `main` -/

/-- What a run finds: the image, the content of the file to insert if it opens,
and the memory it does not initialise. -/
structure Host where
  image : Disk
  target : Option (List UInt8)
  beyond : Fin 3 → UInt8
  fileBuffer : Memory
  buf : Memory
  temp : UInt32

/-- How a run ends: the status, the last line printed, and the image file. -/
structure Exit where
  status : Nat
  message : String
  image : Disk

/-- The line printed for a return code of `write`. -/
def message (retcode : Int8) : String :=
  if retcode = 0 then "Write success"
  else if retcode = 1 then "Error: File/folder name already exist"
  else if retcode = 2 then "Error: Invalid parent cluster"
  else "Error: Unknown error"

/-- The 8 bytes of `name` after `sscanf`; they were zero before, and so is the
first byte of `ext`, where the NUL of a full name goes. -/
def scanName (text : List UInt8) : Fin 8 → UInt8 := fun i => (scanWord text).getD i 0

/-- `file_buffer` after `fread`, for a file of less than 4 MiB. -/
def loadFile (fileBuffer : Memory) (content : List UInt8) : Memory := fun i =>
  (content[i]?).getD (fileBuffer i)

def shellRequest (buf : Memory) : FAT32DriverRequest where
  buf := buf
  name := fun i => UInt8.ofNat ((['s', 'h', 'e', 'l', 'l'][i.val]?.map Char.toNat).getD 0)
  ext := fun _ => 0
  parentClusterNumber := 0x02
  bufferSize := 0x100000

def fileRequest (host : Host) (target parent : List UInt8) : FAT32DriverRequest :=
  let content := host.target.getD []
  { buf := loadFile host.fileBuffer content
    name := scanName target
    ext := fun _ => 0
    parentClusterNumber := (scanUnsigned parent).getD host.temp
    bufferSize := UInt32.ofNat content.length }

def main (host : Host) : List (List UInt8) → Except Fault Exit
  | _ :: target :: parent :: _ :: _ => do
    let m := initializeFilesystemFat32 host.beyond ⟨⟨0, 0⟩, host.image, []⟩
    -- the code of the delete is kept in `err` and not looked at
    let (_, m) ← delete m (shellRequest host.buf)
    let (retcode, m) ← write m (fileRequest host target parent)
    return ⟨0, message retcode, m.disk⟩
  | _ => .ok ⟨1, "inserter: ./inserter <file to insert> <parent cluster index> <storage>", host.image⟩

theorem message_eq_zero {retcode : Int8} : message retcode = message 0 ↔ retcode = 0 := by
  constructor
  · intro hm
    by_contra h0
    unfold message at hm
    rw [if_neg h0, if_pos rfl] at hm
    split at hm
    · exact absurd hm (by decide)
    · split at hm <;> exact absurd hm (by decide)
  · intro h0
    rw [h0]

/-! ## Host files -/

/-- A file of the host: a name without blanks, and 1 to 255 clusters of bytes. -/
structure HostFile where
  name : List UInt8
  content : List UInt8
  nonempty : name ≠ []
  plain : ∀ c ∈ name, c ≠ 0 ∧ isSpace c = false
  bytes : content ≠ []
  small : content.length ≤ 255 * clusterSize

namespace HostFile
variable (f : HostFile)

def key : Key := ⟨scanName f.name, fun _ => 0⟩

theorem scanWord_name : scanWord f.name = f.name.take 8 := by
  have hd : f.name.dropWhile isSpace = f.name := by
    rw [List.dropWhile_eq_self_iff]
    intro hlen
    rw [(f.plain _ (List.getElem_mem _)).2]
    exact Bool.false_ne_true
  have ht : f.name.takeWhile (fun c => !isSpace c) = f.name := by
    rw [List.takeWhile_eq_self_iff]
    intro c hc
    rw [(f.plain c hc).2]
    rfl
  rw [scanWord, hd, ht]

theorem key_ne_zero : f.key ≠ 0 := by
  intro h
  have h0 : scanName f.name 0 = 0 := congrFun (congrArg Key.name h) 0
  obtain ⟨c, cs, hn⟩ := List.exists_cons_of_ne_nil f.nonempty
  rw [scanName, scanWord_name, hn] at h0
  exact (f.plain c (by rw [hn]; exact List.mem_cons_self)).1 h0

theorem size_toNat : (UInt32.ofNat f.content.length).toNat = f.content.length := by
  have hs := f.small
  simp only [clusterSize_eq] at hs
  rw [UInt32.toNat_ofNat']
  omega

end HostFile

/-- The name `main` deletes. -/
def shellKey : Key := (shellRequest fun _ => 0).key

theorem shellRequest_key (buf : Memory) : (shellRequest buf).key = shellKey := rfl

theorem shellRequest_parent (buf : Memory) :
    (shellRequest buf).parentClusterNumber = rootClusterNumber := rfl

theorem shellKey_ne_zero : shellKey ≠ 0 := by decide

end KajijOSta.Inserter
