import KajijOSta.Lib.Scan
import Mathlib.Data.Nat.Bitwise
import Mathlib.Logic.Function.Basic

/-! # Page frames

`paging.c` on its static state and the kernel's page directory: one entry for
each 4 MiB of virtual memory, one flag for each 4 MiB frame of the 128 MiB of
physical memory. The TLB is not part of the state.

A C array index outside `page_frame_map` is a `Fault`. -/
namespace KajijOSta.Paging

/-! ## Data -/

def pageEntryCount : Nat := 1024

/-- `PAGE_FRAME_SIZE`: 4 MiB. -/
def pageFrameSize : Nat := 1 <<< (2 + 10 + 10)

def systemMemoryMb : Nat := 128

def pageFrameMaxCount : Nat := (systemMemoryMb <<< 20) / pageFrameSize

theorem pageEntryCount_eq : pageEntryCount = 1024 := rfl

theorem pageFrameMaxCount_eq : pageFrameMaxCount = 32 := rfl

instance : NeZero pageEntryCount := ⟨by decide⟩

instance : NeZero pageFrameMaxCount := ⟨by decide⟩

structure PageDirectoryEntryFlag where
  presentBit : Bool
  writeBit : Bool
  userSupervisorBit : Bool
  pwtBit : Bool
  pcdBit : Bool
  accessedBit : Bool
  dirtyBit : Bool
  usePagesize4Mb : Bool
deriving DecidableEq

/-- `struct PageDirectoryEntry`: what the code here writes of it. -/
structure PageDirectoryEntry where
  flag : PageDirectoryEntryFlag
  lowerAddress : BitVec 10
deriving DecidableEq

structure PageDirectory where
  table : Fin pageEntryCount → PageDirectoryEntry

structure PageManagerState where
  pageFrameMap : Fin pageFrameMaxCount → Bool
  freePageFrameCount : UInt32

structure PagingState where
  manager : PageManagerState
  pageDir : PageDirectory

inductive Fault
  /-- `page_frame_map` is indexed outside its 32 flags. -/
  | pageFrameMapIndex (index : UInt32)
deriving DecidableEq

/-! ## The initial state -/

def zeroEntry : PageDirectoryEntry := ⟨⟨false, false, false, false, false, false, false, false⟩, 0⟩

/-- The kernel's mapping of frame 0. -/
def kernelEntry : PageDirectoryEntry := ⟨⟨true, true, false, false, false, false, false, true⟩, 0⟩

def kernelIndex : Fin pageEntryCount := 0x300

def pagingKernelPageDirectory : PageDirectory where
  table i := if i = 0 ∨ i = kernelIndex then kernelEntry else zeroEntry

def pageManagerState : PageManagerState where
  pageFrameMap i := i = 0
  freePageFrameCount := UInt32.ofNat (pageFrameMaxCount - 1)

/-- The state `kernel_setup` begins with: the entry point has cleared the
identity mapping of the first page. -/
def bootState : PagingState where
  manager := pageManagerState
  pageDir := ⟨Function.update pagingKernelPageDirectory.table 0 zeroEntry⟩

/-! ## Functions -/

/-- `((uint32_t) virtual_addr >> 22) & 0x3FF`. -/
def pageIndex (virtualAddr : UInt32) : Fin pageEntryCount :=
  Fin.ofNat pageEntryCount ((virtualAddr >>> 22) &&& 0x3FF).toNat

def updatePageDirectoryEntry (pageDir : PageDirectory) (physicalAddr virtualAddr : UInt32)
    (flag : PageDirectoryEntryFlag) : PageDirectory :=
  let lowerAddress := BitVec.ofNat 10 ((physicalAddr >>> 22) &&& 0x3FF).toNat
  ⟨Function.update pageDir.table (pageIndex virtualAddr) ⟨flag, lowerAddress⟩⟩

def pagingAllocateUserPageFrame (s : PagingState) (virtualAddr : UInt32) : Bool × PagingState :=
  match (List.finRange pageFrameMaxCount).find? fun i => !s.manager.pageFrameMap i with
  | some i =>
    let manager : PageManagerState :=
      { pageFrameMap := Function.update s.manager.pageFrameMap i true
        freePageFrameCount := s.manager.freePageFrameCount - 1 }
    let flag : PageDirectoryEntryFlag := ⟨true, true, true, false, false, false, false, true⟩
    let physicalAddr := UInt32.ofNat (i.val * pageFrameSize)
    (true, ⟨manager, updatePageDirectoryEntry s.pageDir physicalAddr virtualAddr flag⟩)
  | none => (false, s)

def pagingFreeUserPageFrame (s : PagingState) (virtualAddr : UInt32) :
    Except Fault (Bool × PagingState) :=
  let index := virtualAddr / UInt32.ofNat pageFrameSize
  if h : index.toNat < pageFrameMaxCount then
    let i : Fin pageFrameMaxCount := ⟨index.toNat, h⟩
    if !s.manager.pageFrameMap i then .ok (false, s)
    else
      let manager : PageManagerState :=
        { pageFrameMap := Function.update s.manager.pageFrameMap i false
          freePageFrameCount := s.manager.freePageFrameCount + 1 }
      let flag : PageDirectoryEntryFlag :=
        ⟨false, false, false, false, false, false, false, false⟩
      let physicalAddr := index * UInt32.ofNat pageFrameSize
      .ok (true, ⟨manager, updatePageDirectoryEntry s.pageDir physicalAddr virtualAddr flag⟩)
  else .error (.pageFrameMapIndex index)

/-! ## Addresses -/

theorem mask_toNat (x : UInt32) : ((x >>> 22) &&& 0x3FF).toNat = x.toNat / 2 ^ 22 := by
  have hlt := x.toNat_lt
  have hmask : ((x >>> 22) &&& 0x3FF).toNat = x.toNat >>> 22 &&& (2 ^ 10 - 1) := by
    rw [UInt32.toNat_and, UInt32.toNat_shiftRight]
    rfl
  rw [hmask, Nat.and_two_pow_sub_one_eq_mod, Nat.shiftRight_eq_div_pow]
  omega

/-- The entry for an address is that of its 4 MiB. -/
theorem pageIndex_val (virtualAddr : UInt32) :
    (pageIndex virtualAddr).val = virtualAddr.toNat / 2 ^ 22 := by
  have hlt := virtualAddr.toNat_lt
  unfold pageIndex
  rw [Fin.val_ofNat, mask_toNat, pageEntryCount_eq]
  omega

/-- `free` takes the same number for the index of a frame. -/
theorem index_toNat (virtualAddr : UInt32) :
    (virtualAddr / UInt32.ofNat pageFrameSize).toNat = (pageIndex virtualAddr).val := by
  rw [pageIndex_val, UInt32.toNat_div]
  rfl

theorem lowerAddress_frame (i : Fin pageFrameMaxCount) :
    (BitVec.ofNat 10 ((UInt32.ofNat (i.val * pageFrameSize) >>> 22) &&& 0x3FF).toNat).toNat =
      i.val := by
  have hi := i.isLt
  have hsize : pageFrameSize = 4194304 := rfl
  simp only [pageFrameMaxCount_eq] at hi
  rw [mask_toNat, UInt32.toNat_ofNat', BitVec.toNat_ofNat, hsize]
  omega

end KajijOSta.Paging
