import Mathlib.Data.Fintype.Pi
import Mathlib.Tactic.IntervalCases
import Mathlib.Tactic.FinCases

/-! # The on-disk structures of the file system

The constants, structures and byte layouts of `header/cpu/fat32.h`. A pointer
argument is the memory from the pointer on (`Memory`), and a packed structure
is the record of its fields together with its bytes in that memory. -/
namespace KajijOSta.Fat32

/-! ## Constants -/

def blockSize : Nat := 512
def clusterBlockCount : Nat := 4
def clusterSize : Nat := blockSize * clusterBlockCount
def clusterMapSize : Nat := 512

theorem blockSize_eq : blockSize = 512 := rfl
theorem clusterBlockCount_eq : clusterBlockCount = 4 := rfl
theorem clusterSize_eq : clusterSize = 2048 := rfl
theorem clusterMapSize_eq : clusterMapSize = 512 := rfl

theorem clusterSize_pos : 0 < clusterSize := by decide

instance : NeZero clusterMapSize := ⟨by decide⟩

/-- The slots of a directory table are numbered from 0. -/
instance neZeroSlots : NeZero (64 : Nat) := ⟨by decide⟩

def bootSector : UInt32 := 0
def cluster0Value : UInt32 := 0x0FFFFFF0
def cluster1Value : UInt32 := 0x0FFFFFFF
def fat32FatEndOfFile : UInt32 := 0x0FFFFFFF
def fat32FatEmptyEntry : UInt32 := 0x00000000
def fatClusterNumber : UInt32 := 1
def rootClusterNumber : UInt32 := 2
def attrSubdirectory : UInt8 := 0b00010000
def uattrNotEmpty : UInt8 := 0b10101010

theorem fat_lt : fatClusterNumber.toNat < clusterMapSize := by decide
theorem root_lt : rootClusterNumber.toNat < clusterMapSize := by decide

theorem two_le_root : 2 ≤ rootClusterNumber.toNat := le_refl _

theorem ne_fat {c : UInt32} (h : 2 ≤ c.toNat) : c ≠ fatClusterNumber := by
  intro he
  rw [he] at h
  exact absurd h (by decide)

theorem ne_root {c : UInt32} (h : 3 ≤ c.toNat) : c ≠ rootClusterNumber := by
  intro he
  rw [he] at h
  exact absurd h (by decide)

/-- The end mark is no cluster number. -/
theorem ne_end {c : UInt32} (h : c.toNat < clusterMapSize) : c ≠ fat32FatEndOfFile := by
  intro he
  rw [he] at h
  exact absurd h (by decide)

theorem free_ne_end : fat32FatEmptyEntry ≠ fat32FatEndOfFile := by decide

/-! ## Memory and little-endian words -/

abbrev Memory := Nat → UInt8

def Memory.from (m : Memory) (k : Nat) : Memory := fun i => m (k + i)

@[simp] theorem Memory.from_apply (m : Memory) (k i : Nat) : m.from k i = m (k + i) := rfl

def byte16 (x : UInt16) (i : Nat) : UInt8 := UInt8.ofNat (x.toNat / 256 ^ i)

def byte32 (x : UInt32) (i : Nat) : UInt8 := UInt8.ofNat (x.toNat / 256 ^ i)

def word16 (m : Memory) : UInt16 := UInt16.ofNat ((m 0).toNat + 256 * (m 1).toNat)

def word32 (m : Memory) : UInt32 :=
  UInt32.ofNat ((m 0).toNat + 256 * (m 1).toNat + 256 ^ 2 * (m 2).toNat + 256 ^ 3 * (m 3).toNat)

theorem word16_of_bytes {m : Memory} {x : UInt16} (h : ∀ i, i < 2 → m i = byte16 x i) :
    word16 m = x := by
  apply UInt16.toNat_inj.mp
  have := x.toNat_lt
  simp [word16, h 0 (by omega), h 1 (by omega), byte16]
  omega

theorem word32_of_bytes {m : Memory} {x : UInt32} (h : ∀ i, i < 4 → m i = byte32 x i) :
    word32 m = x := by
  apply UInt32.toNat_inj.mp
  have := x.toNat_lt
  simp [word32, h 0 (by omega), h 1 (by omega), h 2 (by omega), h 3 (by omega), byte32]
  omega

theorem byte16_word16 (m : Memory) {i : Nat} (hi : i < 2) : byte16 (word16 m) i = m i := by
  apply UInt8.toNat_inj.mp
  have h0 := (m 0).toNat_lt
  have h1 := (m 1).toNat_lt
  interval_cases i
  · simp [byte16, word16]
  · simp [byte16, word16]
    omega

theorem byte32_word32 (m : Memory) {i : Nat} (hi : i < 4) : byte32 (word32 m) i = m i := by
  apply UInt8.toNat_inj.mp
  have h0 := (m 0).toNat_lt
  have h1 := (m 1).toNat_lt
  have h2 := (m 2).toNat_lt
  have h3 := (m 3).toNat_lt
  interval_cases i <;> (simp [byte32, word32]; omega)

/-! ## Directory entries -/

/-- `struct FAT32DirectoryEntry`: the 8.3 format, 32 bytes. -/
structure FAT32DirectoryEntry where
  name : Fin 8 → UInt8
  ext : Fin 3 → UInt8
  attr : UInt8
  userAttribute : UInt8
  undelete : UInt8
  createTime : UInt16
  createDate : UInt16
  accessDate : UInt16
  clusterHigh : UInt16
  modifiedTime : UInt16
  modifiedDate : UInt16
  clusterLow : UInt16
  filesize : UInt32
deriving DecidableEq

/-- The pair of byte strings the driver compares to find an entry. -/
structure Key where
  name : Fin 8 → UInt8
  ext : Fin 3 → UInt8
deriving DecidableEq

instance : Zero Key := ⟨⟨fun _ => 0, fun _ => 0⟩⟩

namespace FAT32DirectoryEntry

instance : Zero FAT32DirectoryEntry := ⟨⟨fun _ => 0, fun _ => 0, 0, 0, 0, 0, 0, 0, 0, 0, 0, 0, 0⟩⟩

def key (e : FAT32DirectoryEntry) : Key := ⟨e.name, e.ext⟩

/-- The cluster number of an entry, `(cluster_high << 16) | cluster_low`. -/
def cluster (e : FAT32DirectoryEntry) : UInt32 :=
  (e.clusterHigh.toUInt32 <<< 16) ||| e.clusterLow.toUInt32

def Live (e : FAT32DirectoryEntry) : Prop := e.userAttribute = uattrNotEmpty

instance (e : FAT32DirectoryEntry) : Decidable e.Live :=
  inferInstanceAs (Decidable (e.userAttribute = uattrNotEmpty))

def IsFolder (e : FAT32DirectoryEntry) : Prop := e.attr = attrSubdirectory

instance (e : FAT32DirectoryEntry) : Decidable e.IsFolder :=
  inferInstanceAs (Decidable (e.attr = attrSubdirectory))

def bytes (e : FAT32DirectoryEntry) : Memory := fun i =>
  if h : i < 8 then e.name ⟨i, h⟩
  else if h : i - 8 < 3 then e.ext ⟨i - 8, h⟩
  else if i = 11 then e.attr
  else if i = 12 then e.userAttribute
  else if i = 13 then e.undelete
  else if i < 16 then byte16 e.createTime (i - 14)
  else if i < 18 then byte16 e.createDate (i - 16)
  else if i < 20 then byte16 e.accessDate (i - 18)
  else if i < 22 then byte16 e.clusterHigh (i - 20)
  else if i < 24 then byte16 e.modifiedTime (i - 22)
  else if i < 26 then byte16 e.modifiedDate (i - 24)
  else if i < 28 then byte16 e.clusterLow (i - 26)
  else byte32 e.filesize (i - 28)

def ofBytes (m : Memory) : FAT32DirectoryEntry where
  name i := m i
  ext i := m (8 + i)
  attr := m 11
  userAttribute := m 12
  undelete := m 13
  createTime := word16 (m.from 14)
  createDate := word16 (m.from 16)
  accessDate := word16 (m.from 18)
  clusterHigh := word16 (m.from 20)
  modifiedTime := word16 (m.from 22)
  modifiedDate := word16 (m.from 24)
  clusterLow := word16 (m.from 26)
  filesize := word32 (m.from 28)

theorem ofBytes_congr {m m' : Memory} (h : ∀ i, i < 32 → m i = m' i) :
    ofBytes m = ofBytes m' := by
  simp only [ofBytes, word16, word32, Memory.from_apply, mk.injEq]
  refine ⟨funext fun i => h i (by omega), funext fun i => h (8 + i) (by omega), ?_⟩
  simp only [h 11 (by omega), h 12 (by omega), h 13 (by omega), h (14 + 0) (by omega),
    h (14 + 1) (by omega), h (16 + 0) (by omega), h (16 + 1) (by omega), h (18 + 0) (by omega),
    h (18 + 1) (by omega), h (20 + 0) (by omega), h (20 + 1) (by omega), h (22 + 0) (by omega),
    h (22 + 1) (by omega), h (24 + 0) (by omega), h (24 + 1) (by omega), h (26 + 0) (by omega),
    h (26 + 1) (by omega), h (28 + 0) (by omega), h (28 + 1) (by omega), h (28 + 2) (by omega),
    h (28 + 3) (by omega), and_self]

@[simp] theorem ofBytes_bytes (e : FAT32DirectoryEntry) : ofBytes e.bytes = e := by
  cases e
  simp only [ofBytes, mk.injEq]
  refine ⟨funext fun i => ?_, funext fun i => ?_, ?_, ?_, ?_, ?_, ?_, ?_, ?_, ?_, ?_, ?_, ?_⟩
  · simp [bytes]
  · simp [bytes]
  · simp [bytes]
  · simp [bytes]
  · simp [bytes]
  · exact word16_of_bytes fun i hi => by interval_cases i <;> simp [bytes]
  · exact word16_of_bytes fun i hi => by interval_cases i <;> simp [bytes]
  · exact word16_of_bytes fun i hi => by interval_cases i <;> simp [bytes]
  · exact word16_of_bytes fun i hi => by interval_cases i <;> simp [bytes]
  · exact word16_of_bytes fun i hi => by interval_cases i <;> simp [bytes]
  · exact word16_of_bytes fun i hi => by interval_cases i <;> simp [bytes]
  · exact word16_of_bytes fun i hi => by interval_cases i <;> simp [bytes]
  · exact word32_of_bytes fun i hi => by interval_cases i <;> simp [bytes]

theorem bytes_ofBytes (m : Memory) {i : Nat} (hi : i < 32) : (ofBytes m).bytes i = m i := by
  interval_cases i <;> simp [bytes, ofBytes, byte16_word16, byte32_word32]

end FAT32DirectoryEntry

def low16 (c : UInt32) : UInt16 := (c &&& 0xFFFF).toUInt16

def high16 (c : UInt32) : UInt16 := ((c >>> 16) &&& 0xFFFF).toUInt16

/-- The two halves give the cluster number back. -/
theorem halves_cluster (c : UInt32) :
    ((high16 c).toUInt32 <<< 16) ||| (low16 c).toUInt32 = c := by
  have hand : ∀ n : Nat, n &&& 65535 = n % 65536 := fun n => by
    simpa using Nat.and_two_pow_sub_one_eq_mod n 16
  apply UInt32.toNat_inj.mp
  have hc := c.toNat_lt
  have hor := Nat.shiftLeft_add_eq_or_of_lt (b := c.toNat % 65536) (i := 16) (by omega)
    (c.toNat / 65536)
  simp only [high16, low16, UInt32.toNat_or, UInt32.toNat_shiftLeft, UInt16.toNat_toUInt32,
    UInt32.toNat_toUInt16, UInt32.toNat_and, UInt32.toNat_shiftRight, UInt32.reduceToNat,
    Nat.reduceMod, hand, Nat.shiftRight_eq_div_pow, Nat.reducePow]
  rw [show c.toNat / 65536 % 65536 % 65536 = c.toNat / 65536 by omega, Nat.mod_mod,
    Nat.mod_eq_of_lt (by rw [Nat.shiftLeft_eq]; omega), ← hor, Nat.shiftLeft_eq]
  omega

/-! ## The directory table and the file allocation table -/

/-- `struct FAT32DirectoryTable`: the 64 entries of a cluster. -/
@[ext] structure FAT32DirectoryTable where
  table : Fin 64 → FAT32DirectoryEntry

namespace FAT32DirectoryTable

instance : Zero FAT32DirectoryTable := ⟨⟨fun _ => 0⟩⟩

def bytes (t : FAT32DirectoryTable) : Memory := fun i =>
  (t.table (Fin.ofNat 64 (i / 32))).bytes (i % 32)

def ofBytes (m : Memory) : FAT32DirectoryTable where
  table k := FAT32DirectoryEntry.ofBytes (m.from (32 * k))

def set (t : FAT32DirectoryTable) (i : Fin 64) (e : FAT32DirectoryEntry) : FAT32DirectoryTable where
  table := Function.update t.table i e

@[simp] theorem set_same (t : FAT32DirectoryTable) (i : Fin 64) (e : FAT32DirectoryEntry) :
    (t.set i e).table i = e := by simp [set]

@[simp] theorem set_other (t : FAT32DirectoryTable) {i j : Fin 64} (e : FAT32DirectoryEntry)
    (h : j ≠ i) : (t.set i e).table j = t.table j := by simp [set, h]

@[simp] theorem ofBytes_bytes (t : FAT32DirectoryTable) : ofBytes t.bytes = t := by
  ext1
  funext k
  refine Eq.trans (FAT32DirectoryEntry.ofBytes_congr ?_)
    (FAT32DirectoryEntry.ofBytes_bytes (t.table k))
  intro i hi
  have h1 : (32 * (k : Nat) + i) / 32 = k := by omega
  have h2 : (32 * (k : Nat) + i) % 32 = i := by omega
  simp [bytes, h1, h2]

theorem bytes_ofBytes (m : Memory) {i : Nat} (hi : i < clusterSize) :
    (ofBytes m).bytes i = m i := by
  simp only [clusterSize_eq] at hi
  have hk : (i / 32) % 64 = i / 32 := Nat.mod_eq_of_lt (by omega)
  simp only [bytes, ofBytes, Fin.ofNat, hk]
  rw [FAT32DirectoryEntry.bytes_ofBytes _ (by omega)]
  simp only [Memory.from_apply]
  congr 1
  omega

theorem ofBytes_congr {m m' : Memory} (h : ∀ i, i < clusterSize → m i = m' i) :
    ofBytes m = ofBytes m' := by
  ext1
  funext k
  exact FAT32DirectoryEntry.ofBytes_congr fun i hi => h _ (by simp only [clusterSize_eq]; omega)

end FAT32DirectoryTable

/-- `struct FAT32FileAllocationTable`: the cluster map. -/
@[ext] structure FAT32FileAllocationTable where
  clusterMap : Fin clusterMapSize → UInt32

namespace FAT32FileAllocationTable

instance : Zero FAT32FileAllocationTable := ⟨⟨fun _ => 0⟩⟩

def bytes (t : FAT32FileAllocationTable) : Memory := fun i =>
  byte32 (t.clusterMap (Fin.ofNat clusterMapSize (i / 4))) (i % 4)

def ofBytes (m : Memory) : FAT32FileAllocationTable where
  clusterMap k := word32 (m.from (4 * k))

/-- `cluster_map[c]`, when `c` indexes the array. -/
def get? (t : FAT32FileAllocationTable) (c : UInt32) : Option UInt32 :=
  if h : c.toNat < clusterMapSize then some (t.clusterMap ⟨c.toNat, h⟩) else none

/-- `cluster_map[c] = v`, for a `c` that indexes the array. -/
def set (t : FAT32FileAllocationTable) (c v : UInt32) : FAT32FileAllocationTable where
  clusterMap k := if k = c.toNat then v else t.clusterMap k

@[simp] theorem ofBytes_bytes (t : FAT32FileAllocationTable) : ofBytes t.bytes = t := by
  ext1
  funext k
  refine word32_of_bytes fun i hi => ?_
  have h1 : (4 * (k : Nat) + i) / 4 = k := by omega
  have h2 : (4 * (k : Nat) + i) % 4 = i := by omega
  simp [bytes, h1, h2]

theorem bytes_ofBytes (m : Memory) {i : Nat} (hi : i < clusterSize) :
    (ofBytes m).bytes i = m i := by
  simp only [clusterSize_eq] at hi
  have hk : (i / 4) % clusterMapSize = i / 4 :=
    Nat.mod_eq_of_lt (by simp only [clusterMapSize_eq]; omega)
  simp only [bytes, ofBytes, Fin.ofNat, hk]
  rw [byte32_word32 _ (by omega)]
  simp only [Memory.from_apply]
  congr 1
  omega

theorem ofBytes_congr {m m' : Memory} (h : ∀ i, i < clusterSize → m i = m' i) :
    ofBytes m = ofBytes m' := by
  ext1
  funext k
  have hk := k.isLt
  simp only [clusterMapSize_eq] at hk
  simp only [ofBytes, word32, Memory.from_apply]
  rw [h (4 * k + 0) (by simp only [clusterSize_eq]; omega),
    h (4 * k + 1) (by simp only [clusterSize_eq]; omega),
    h (4 * k + 2) (by simp only [clusterSize_eq]; omega),
    h (4 * k + 3) (by simp only [clusterSize_eq]; omega)]

theorem get?_eq_none {t : FAT32FileAllocationTable} {c : UInt32} :
    t.get? c = none ↔ clusterMapSize ≤ c.toNat := by
  unfold get?
  split <;> simp <;> omega

theorem get?_eq_some {t : FAT32FileAllocationTable} {c v : UInt32} :
    t.get? c = some v ↔ ∃ h : c.toNat < clusterMapSize, t.clusterMap ⟨c.toNat, h⟩ = v := by
  unfold get?
  split <;> simp_all

theorem get?_set {t : FAT32FileAllocationTable} {c v x : UInt32} :
    (t.set c v).get? x =
      if x = c ∧ x.toNat < clusterMapSize then some v else t.get? x := by
  unfold get? set
  by_cases hx : x = c
  · subst hx
    split <;> simp_all
  · have hn : x.toNat ≠ c.toNat := fun h => hx (UInt32.toNat_inj.mp h)
    simp [hx, hn]

end FAT32FileAllocationTable

end KajijOSta.Fat32
