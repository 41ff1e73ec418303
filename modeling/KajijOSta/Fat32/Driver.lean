import KajijOSta.Fat32.Disk
import Mathlib.Data.Rat.Floor

/-! # The FAT32 driver

`fat32.c`, function by function. The driver works on its static state (the
cached FAT and a directory table buffer) and on the disk; the calls of
`write_clusters` are also kept in order (`Machine.issued`), each one being one
write that reaches the disk as a whole.

A C array index outside `cluster_map` or outside `slot_buf`, and a chain loop
that never ends, are a `Fault`: the function does not return. -/
namespace KajijOSta.Fat32

/-! ## The file system signature -/

/-- The text at the start of `fs_signature`. -/
def signatureText : List Char :=
  ['C', 'o', 'u', 'r', 's', 'e', ' ', ' ', ' ', ' ', ' ', ' ', ' ', ' ', ' ', ' ',
   'D', 'e', 's', 'i', 'g', 'n', 'e', 'd', ' ', 'b', 'y', ' ', ' ', ' ', ' ', ' ',
   'L', 'a', 'b', ' ', 'S', 'i', 's', 't', 'e', 'r', ' ', 'I', 'T', 'B', ' ', ' ',
   'M', 'a', 'd', 'e', ' ', 'w', 'i', 't', 'h', ' ', '<', '3', ' ', ' ', ' ', ' ',
   '-', '-', '-', '-', '-', '-', '-', '-', '-', '-', '-', '2', '0', '2', '4', '\n']

def fsSignature : Memory := fun i =>
  if i = blockSize - 2 then UInt8.ofNat 'O'.toNat
  else if i = blockSize - 1 then UInt8.ofNat 'k'.toNat
  else UInt8.ofNat ((signatureText[i]?.map Char.toNat).getD 0)

/-! ## State and requests -/

/-- `struct FAT32DriverState`, without the cluster buffer, which no function uses. -/
structure FAT32DriverState where
  fatTable : FAT32FileAllocationTable
  dirTableBuf : FAT32DirectoryTable

/-- `struct FAT32DriverRequest`; `buf` is the memory it points to. -/
structure FAT32DriverRequest where
  buf : Memory
  name : Fin 8 → UInt8
  ext : Fin 3 → UInt8
  parentClusterNumber : UInt32
  bufferSize : UInt32

def FAT32DriverRequest.key (r : FAT32DriverRequest) : Key := ⟨r.name, r.ext⟩

/-- One call of `write_clusters`: the cluster and the memory it is written from. -/
structure DiskWrite where
  clusterNumber : UInt32
  data : Memory

/-- The driver with its disk, and the cluster writes issued so far. -/
structure Machine where
  driver : FAT32DriverState
  disk : Disk
  issued : List DiskWrite

inductive Fault
  /-- `cluster_map` is indexed outside its 512 entries. -/
  | clusterMapIndex (c : UInt32)
  /-- `slot_buf[0]` is read when the array has no elements. -/
  | slotBufIndex
  /-- A loop along a chain never meets the end marker. -/
  | noReturn
deriving DecidableEq

namespace Machine

abbrev fat (m : Machine) : FAT32FileAllocationTable := m.driver.fatTable

def writeClusters (m : Machine) (ptr : Memory) (c : UInt32) : Machine :=
  { m with
    disk := Fat32.writeClusters m.disk ptr c 1
    issued := m.issued ++ [⟨c, ptr⟩] }

def setFat (m : Machine) (c v : UInt32) : Machine :=
  { m with driver.fatTable := m.driver.fatTable.set c v }

def flushFat (m : Machine) : Machine := m.writeClusters m.fat.bytes fatClusterNumber

end Machine

/-! ## Helpers -/

/-- `memcmp`: the sign of the first difference, 0 when there is none. -/
def memcmp : {n : Nat} → (Fin n → UInt8) → (Fin n → UInt8) → Int
  | 0, _, _ => 0
  | _ + 1, s1, s2 =>
    if s1 0 < s2 0 then -1
    else if s2 0 < s1 0 then 1
    else memcmp (fun i => s1 i.succ) (fun i => s2 i.succ)

def sameKey (e : FAT32DirectoryEntry) (r : FAT32DriverRequest) : Bool :=
  memcmp e.name r.name == 0 && memcmp e.ext r.ext == 0

def sameName (e : FAT32DirectoryEntry) (r : FAT32DriverRequest) : Bool :=
  memcmp e.name r.name == 0

/-- A 32-bit size as a `float`: 24 significant bits, ties to even. -/
def toFloat (n : UInt32) : ℚ :=
  if n.toNat < 2 ^ 24 then n.toNat
  else
    let e := Nat.log2 n.toNat - 23
    let q := n.toNat / 2 ^ e
    let r := n.toNat % 2 ^ e
    let up := 2 ^ e < 2 * r ∨ (2 * r = 2 ^ e ∧ q % 2 = 1)
    ((if up then q + 1 else q) * 2 ^ e : ℕ)

/-- `ceil`; the result is a `uint8_t`. -/
def ceil (n : ℚ) : UInt8 :=
  if (⌊n⌋ : ℚ) = n then UInt8.ofNat ⌊n⌋.toNat else UInt8.ofNat (⌊n⌋.toNat + 1)

def clustersFor (size : UInt32) : UInt8 := ceil (toFloat size / clusterSize)

/-- Read a directory table from the disk into a zeroed local one. -/
def readTable (disk : Disk) (c : UInt32) : FAT32DirectoryTable :=
  FAT32DirectoryTable.ofBytes (readClusters disk (0 : FAT32DirectoryTable).bytes c 1)

/-! ## Formatting and mounting -/

def initDirectoryTable (name : Fin 8 → UInt8) (parentDirCluster : UInt32) :
    FAT32DirectoryTable :=
  (0 : FAT32DirectoryTable).set 0
    { (0 : FAT32DirectoryEntry) with
      name := name
      attr := attrSubdirectory
      clusterLow := low16 parentDirCluster
      clusterHigh := high16 parentDirCluster }

/-- The 8 bytes `memcpy` takes from the literal "ROOT": its five, and the three
that happen to lie behind it. -/
def rootName (beyond : Fin 3 → UInt8) : Fin 8 → UInt8 := fun i =>
  if h : 5 ≤ i.val then beyond ⟨i.val - 5, by omega⟩
  else UInt8.ofNat ((['R', 'O', 'O', 'T'][i.val]?.map Char.toNat).getD 0)

def createFat32 (beyond : Fin 3 → UInt8) (m : Machine) : Machine :=
  let m := { m with disk := writeBlocks m.disk fsSignature bootSector 1 }
  let fat : FAT32FileAllocationTable := ⟨fun i =>
    if i.val = 0 then cluster0Value else if i.val = 1 then cluster1Value else 0⟩
  let m := { m with driver.fatTable := fat }
  let m := m.writeClusters fat.bytes fatClusterNumber
  let dir := initDirectoryTable (rootName beyond) rootClusterNumber
  let m := { m with driver.dirTableBuf := dir }
  m.writeClusters dir.bytes rootClusterNumber

def isEmptyStorage (disk : Disk) : Bool :=
  let boot := readBlocks disk (fun _ => 0) bootSector 1
  memcmp (fun i : Fin blockSize => boot i) (fun i : Fin blockSize => fsSignature i) != 0

def initializeFilesystemFat32 (beyond : Fin 3 → UInt8) (m : Machine) : Machine :=
  if isEmptyStorage m.disk then createFat32 beyond m
  else
    let fat := readClusters m.disk m.fat.bytes fatClusterNumber 1
    { m with driver.fatTable := FAT32FileAllocationTable.ofBytes fat }

/-! ## Reading -/

/-- Enough iterations for any chain loop of `read` that ends: every one of them
visits another of the 512 entries. -/
def chainFuel : Nat := clusterMapSize + 1

/-- The loop of `read`: copy the clusters of a chain to `buf`, one behind the
other. `clustersRead` of them are there already. -/
def readChain (m : Machine) : Nat → UInt32 → Nat → Memory → Except Fault Memory
  | 0, c, _, buf => if c = fat32FatEndOfFile then .ok buf else .error .noReturn
  | fuel + 1, c, clustersRead, buf =>
    if c = fat32FatEndOfFile then .ok buf
    else
      let off := clusterSize * clustersRead
      let buf' : Memory := fun i =>
        if i < off then buf i else readClusters m.disk (buf.from off) c 1 (i - off)
      match m.fat.get? c with
      | none => .error (.clusterMapIndex c)
      | some next => readChain m fuel next (clustersRead + 1) buf'

/-- What `read` does with the entry it has found. -/
def readEntry (m : Machine) (request : FAT32DriverRequest) (dirEntry : FAT32DirectoryEntry) :
    Except Fault (Int8 × Memory) :=
  if dirEntry.attr = attrSubdirectory then .ok (1, request.buf)
  else if request.bufferSize.toNat / clusterSize < (clustersFor dirEntry.filesize).toNat then
    .ok (-1, request.buf)
  else do
    let buf ← readChain m chainFuel dirEntry.cluster 0 request.buf
    return (0, buf)

/-- `read`: the return code and the memory behind `buf` afterwards. -/
def read (m : Machine) (request : FAT32DriverRequest) : Except Fault (Int8 × Memory) :=
  match m.fat.get? request.parentClusterNumber with
  | none => .error (.clusterMapIndex request.parentClusterNumber)
  | some v =>
    if v ≠ fat32FatEndOfFile then .ok (2, request.buf)
    else
      let dirTable := readTable m.disk request.parentClusterNumber
      match (List.finRange 64).find? fun i => sameKey (dirTable.table i) request with
      | some i => readEntry m request (dirTable.table i)
      | none => .ok (2, request.buf)

/-- `read_directory`: the return code and the memory behind `buf` afterwards. -/
def readDirectory (m : Machine) (request : FAT32DriverRequest) : Int8 × Memory :=
  let dir := readTable m.disk request.parentClusterNumber
  match (List.finRange 64).find? fun i => sameName (dir.table i) request with
  | some i =>
    let entry := dir.table i
    if entry.attr &&& attrSubdirectory = 0 then (1, request.buf)
    else if request.bufferSize < entry.filesize then (-1, request.buf)
    else (0, readClusters m.disk request.buf entry.cluster 1)
  | none => (2, request.buf)

/-! ## Writing -/

/-- The loop of `write` over the slots: `none` when the name is taken, else the
first slot not in use (0 when there is none so far). -/
def scanSlots (t : FAT32DirectoryTable) (request : FAT32DriverRequest) :
    List (Fin 64) → Fin 64 → Option (Fin 64)
  | [], emptySlot => some emptySlot
  | i :: is, emptySlot =>
    let dirEntry := t.table i
    let emptySlot := if dirEntry.userAttribute ≠ uattrNotEmpty ∧ emptySlot = 0 then i else emptySlot
    if sameKey dirEntry request then none else scanSlots t request is emptySlot

/-- The slots that hold files and folders: slots 0 and 1 are the table's own. -/
def dataSlots : List (Fin 64) := (List.finRange 64).drop 2

/-- The loop of `write` over the cluster map: the free clusters found, up to
`required` of them. -/
def findClusters (fat : FAT32FileAllocationTable) (required : Nat) :
    List (Fin clusterMapSize) → List UInt32 → List UInt32
  | [], slotBuf => slotBuf
  | i :: is, slotBuf =>
    if slotBuf.length < required then
      if fat.clusterMap i = fat32FatEmptyEntry then
        findClusters fat required is (slotBuf ++ [UInt32.ofNat i])
      else findClusters fat required is slotBuf
    else slotBuf

/-- The part of `write` for a folder: its table, then its FAT entry. -/
def writeFolder (m : Machine) (request : FAT32DriverRequest) (cluster : UInt32) : Machine :=
  let childDir := initDirectoryTable request.name request.parentClusterNumber
  let childDir := childDir.set 0 { childDir.table 0 with
    clusterLow := low16 cluster
    clusterHigh := high16 cluster }
  let m := m.writeClusters childDir.bytes cluster
  let m := m.setFat cluster fat32FatEndOfFile
  m.flushFat

/-- The loop of `write` for a file: link the cluster, flush the FAT, write the
data, for each cluster in turn. -/
def writeFile (m : Machine) (buf : Memory) : List UInt32 → Machine
  | [] => m
  | clusterNum :: rest =>
    let nextCluster := rest.headD fat32FatEndOfFile
    let m := m.setFat clusterNum nextCluster
    let m := m.flushFat
    let m := m.writeClusters buf clusterNum
    writeFile m (buf.from clusterSize) rest

def newEntry (request : FAT32DriverRequest) (isFolder : Bool) (cluster : UInt32) :
    FAT32DirectoryEntry :=
  { (0 : FAT32DirectoryEntry) with
    name := request.name
    ext := request.ext
    attr := if isFolder then attrSubdirectory else 0
    userAttribute := uattrNotEmpty
    clusterLow := low16 cluster
    clusterHigh := high16 cluster
    filesize := request.bufferSize }

def write (m : Machine) (request : FAT32DriverRequest) : Except Fault (Int8 × Machine) :=
  match m.fat.get? request.parentClusterNumber with
  | none => .error (.clusterMapIndex request.parentClusterNumber)
  | some v =>
    if v ≠ fat32FatEndOfFile then .ok (2, m)
    else
      let dirTable := readTable m.disk request.parentClusterNumber
      match scanSlots dirTable request dataSlots 0 with
      | none => .ok (1, m)
      | some emptySlot =>
        if emptySlot = 0 then .ok (-1, m)
        else
          let isFolder : Bool := request.bufferSize = 0
          let required : UInt8 := clustersFor request.bufferSize + if isFolder then 1 else 0
          let slotBuf := findClusters m.fat required.toNat (List.finRange clusterMapSize) []
          if slotBuf.length < required.toNat then .ok (-1, m)
          else
            match slotBuf with
            | [] => .error .slotBufIndex
            | first :: _ =>
              let m := if isFolder then writeFolder m request first
                else writeFile m request.buf slotBuf
              let dirTable := dirTable.set emptySlot (newEntry request isFolder first)
              .ok (0, m.writeClusters dirTable.bytes request.parentClusterNumber)

/-! ## Deleting -/

/-- The loop of `delete`: clear the FAT entries of a chain. An entry that was
cleared before sends the loop to cluster 0, so it is left after at most that
many iterations more than there are entries. -/
def freeChain : Nat → UInt32 → FAT32FileAllocationTable → Except Fault FAT32FileAllocationTable
  | 0, c, fat => if c = fat32FatEndOfFile then .ok fat else .error .noReturn
  | fuel + 1, c, fat =>
    if c = fat32FatEndOfFile then .ok fat
    else
      match fat.get? c with
      | none => .error (.clusterMapIndex c)
      | some next => freeChain fuel next (fat.set c 0)

/-- What `delete` does with the slot it has found. -/
def deleteSlot (m : Machine) (request : FAT32DriverRequest) (i : Fin 64) :
    Except Fault (Int8 × Machine) := do
  let entry := m.driver.dirTableBuf.table i
  let fat ← freeChain (2 * chainFuel) entry.cluster m.fat
  let m := { m with driver := ⟨fat, m.driver.dirTableBuf.set i 0⟩ }
  let m := m.writeClusters m.driver.dirTableBuf.bytes request.parentClusterNumber
  return (0, m.flushFat)

def delete (m : Machine) (request : FAT32DriverRequest) : Except Fault (Int8 × Machine) :=
  let m := { m with driver.dirTableBuf := readTable m.disk request.parentClusterNumber }
  match (List.finRange 64).find? fun i => sameKey (m.driver.dirTableBuf.table i) request with
  | some i => deleteSlot m request i
  | none => .ok (1, m)

end KajijOSta.Fat32
