import KajijOSta.Lib.BitField
import KajijOSta.Paging.Isolation

/-! # Translation

What the processor makes of the page directory: it reads an entry as 32 bits
(`PageDirectoryEntry.ofWord`), remembers what it read in its TLB, and marks the entries it
used. What the code does to both, store by store, is `Call.ops`. -/
namespace KajijOSta.Paging
open KajijOSta.BitField

/-! ## Entries, bit by bit -/

def PageDirectoryEntryFlag.fields (f : PageDirectoryEntryFlag) : List Field :=
  [⟨1, .ofBool f.presentBit⟩, ⟨1, .ofBool f.writeBit⟩, ⟨1, .ofBool f.userSupervisorBit⟩,
    ⟨1, .ofBool f.pwtBit⟩, ⟨1, .ofBool f.pcdBit⟩, ⟨1, .ofBool f.accessedBit⟩,
    ⟨1, .ofBool f.dirtyBit⟩, ⟨1, .ofBool f.usePagesize4Mb⟩]

/-- The fields of `struct PageDirectoryEntry`: behind the flags `global_page`,
`reserved_1`, `pat_support`, `higher_address` and `reserved_2`, which stay zero. -/
def PageDirectoryEntry.fields (e : PageDirectoryEntry) : List Field :=
  e.flag.fields ++ [⟨1, 0⟩, ⟨3, 0⟩, ⟨1, 0⟩, ⟨8, 0⟩, ⟨1, 0⟩, ⟨10, e.lowerAddress⟩]

def PageDirectoryEntry.word (e : PageDirectoryEntry) : Nat := pack e.fields

structure Mapping where
  frame : Nat
  writable : Bool
  user : Bool
deriving DecidableEq

/-- An entry as the processor reads it: bit 0 says that it is present, bit 7 that it is for
4 MiB, bits 22 to 31 and above them bits 13 to 20 number the frame. -/
def Mapping.ofWord (w : Nat) : Option Mapping :=
  if bits 0 1 w = 1 ∧ bits 7 1 w = 1 then
    some ⟨bits 22 10 w + 2 ^ 10 * bits 13 8 w, bits 1 1 w = 1, bits 2 1 w = 1⟩
  else none

theorem toNat_ofBool_eq_one (b : Bool) : (BitVec.ofBool b).toNat = 1 ↔ b = true := by
  cases b <;> decide

/-- **The processor reads the entry that was written.** -/
theorem PageDirectoryEntry.ofWord (e : PageDirectoryEntry) : Mapping.ofWord e.word =
    if e.flag.presentBit = true ∧ e.flag.usePagesize4Mb = true then
      some ⟨e.lowerAddress.toNat, e.flag.writeBit, e.flag.userSupervisorBit⟩
    else none := by
  have hpresent : bits 0 1 e.word = (BitVec.ofBool e.flag.presentBit).toNat :=
    bits_field [] rfl rfl
  have hwrite : bits 1 1 e.word = (BitVec.ofBool e.flag.writeBit).toNat :=
    bits_field (e.fields.take 1) rfl rfl
  have huser : bits 2 1 e.word = (BitVec.ofBool e.flag.userSupervisorBit).toNat :=
    bits_field (e.fields.take 2) rfl rfl
  have hsize : bits 7 1 e.word = (BitVec.ofBool e.flag.usePagesize4Mb).toNat :=
    bits_field (e.fields.take 7) rfl rfl
  have hhigher : bits 13 8 e.word = 0 := bits_field (e.fields.take 11) rfl rfl
  have hlower : bits 22 10 e.word = e.lowerAddress.toNat :=
    bits_field (e.fields.take 13) rfl rfl
  unfold Mapping.ofWord
  simp only [hpresent, hwrite, huser, hsize, hhigher, hlower, toNat_ofBool_eq_one, Nat.mul_zero,
    Nat.add_zero, Bool.decide_eq_true]

/-- An entry as the code wrote it, without the processor's marks. -/
def PageDirectoryEntry.unmarked (e : PageDirectoryEntry) : PageDirectoryEntry :=
  { e with flag := { e.flag with accessedBit := false, dirtyBit := false } }

def PageDirectoryEntry.mapping (e : PageDirectoryEntry) : Option Mapping := Mapping.ofWord e.word

theorem PageDirectoryEntry.mapping_unmarked (e : PageDirectoryEntry) :
    e.unmarked.mapping = e.mapping := by
  unfold PageDirectoryEntry.mapping
  rw [PageDirectoryEntry.ofWord, PageDirectoryEntry.ofWord]
  rfl

/-! ## The processor -/

/-- The memory of `paging.c`, and the TLB of the processor. -/
structure Mmu where
  paging : PagingState
  tlb : Fin pageEntryCount → Option Mapping

/-- Memory with one entry changed. -/
def PagingState.edit (s : PagingState) (i : Fin pageEntryCount)
    (f : PageDirectoryEntry → PageDirectoryEntry) : PagingState :=
  { s with pageDir := ⟨Function.update s.pageDir.table i (f (s.pageDir.table i))⟩ }

def PageDirectoryEntry.marked (e : PageDirectoryEntry) (write : Bool) : PageDirectoryEntry :=
  { e with flag := { e.flag with
      accessedBit := true
      dirtyBit := e.flag.dirtyBit || write } }

/-- What the processor does by itself. -/
inductive Hardware
  /-- It reads an entry, for a write or not, marks it and remembers it. -/
  | walk (i : Fin pageEntryCount) (write : Bool)
  | evict (i : Fin pageEntryCount)

/-- Only entries that map something are marked and remembered. -/
def Mmu.hardware (m : Mmu) : Hardware → Mmu
  | .walk i write =>
    match (m.paging.pageDir.table i).mapping with
    | some v => ⟨m.paging.edit i (·.marked write), Function.update m.tlb i (some v)⟩
    | none => m
  | .evict i => { m with tlb := Function.update m.tlb i none }

/-! ## The code, store by store -/

/-- What the code does to its memory and the TLB. -/
inductive Op
  | pageFrameMap (i : Fin pageFrameMaxCount) (used : Bool)
  | freePageFrameCount (count : UInt32)
  | flag (virtualAddr : UInt32) (flag : PageDirectoryEntryFlag)
  | lowerAddress (virtualAddr physicalAddr : UInt32)
  | clear (i : Fin pageEntryCount)
  | invlpg (virtualAddr : UInt32)

def Op.store (s : PagingState) : Op → PagingState
  | .pageFrameMap i used =>
    { s with manager := { s.manager with
        pageFrameMap := Function.update s.manager.pageFrameMap i used } }
  | .freePageFrameCount count =>
    { s with manager := { s.manager with freePageFrameCount := count } }
  | .flag virtualAddr f => s.edit (pageIndex virtualAddr) fun e => { e with flag := f }
  | .lowerAddress virtualAddr physicalAddr => s.edit (pageIndex virtualAddr) fun e =>
    { e with lowerAddress := BitVec.ofNat 10 ((physicalAddr >>> 22) &&& 0x3FF).toNat }
  | .clear i => s.edit i fun _ => zeroEntry
  | .invlpg _ => s

def Mmu.op (m : Mmu) (op : Op) : Mmu where
  paging := op.store m.paging
  tlb := match op with
    | .invlpg virtualAddr => Function.update m.tlb (pageIndex virtualAddr) none
    | _ => m.tlb

/-- `update_page_directory_entry`, `flush_single_tlb` in it. -/
def updateOps (physicalAddr virtualAddr : UInt32) (flag : PageDirectoryEntryFlag) : List Op :=
  [.flag virtualAddr flag, .lowerAddress virtualAddr physicalAddr, .invlpg virtualAddr]

/-- What a call does, as the manager has it. -/
def Call.ops (manager : PageManagerState) : Call → List Op
  | .allocate virtualAddr =>
    match (List.finRange pageFrameMaxCount).find? fun i => !manager.pageFrameMap i with
    | some i =>
      [.pageFrameMap i true, .freePageFrameCount (manager.freePageFrameCount - 1)] ++
        updateOps (UInt32.ofNat (i.val * pageFrameSize)) virtualAddr
          ⟨true, true, true, false, false, false, false, true⟩ ++
        [.invlpg virtualAddr]
    | none => []
  | .free virtualAddr =>
    let index := virtualAddr / UInt32.ofNat pageFrameSize
    if h : index.toNat < pageFrameMaxCount then
      let i : Fin pageFrameMaxCount := ⟨index.toNat, h⟩
      if !manager.pageFrameMap i then []
      else
        [.pageFrameMap i false, .freePageFrameCount (manager.freePageFrameCount + 1)] ++
          updateOps (index * UInt32.ofNat pageFrameSize) virtualAddr
            ⟨false, false, false, false, false, false, false, false⟩ ++
          [.invlpg virtualAddr]
    else []

/-- `loader_virtual`: it removes the identity mapping. -/
def loaderOps : List Op := [.clear 0, .invlpg 0]

/-- The loader, then calls. -/
def Call.opsOf : PagingState → List Call → List Op
  | _, [] => []
  | s, call :: calls =>
    call.ops s.manager ++
      match step s call with
      | .ok s' => Call.opsOf s' calls
      | .error _ => []

/-! ## What the code does to memory -/

theorem edit_edit (s : PagingState) (i : Fin pageEntryCount)
    (f g : PageDirectoryEntry → PageDirectoryEntry) :
    (s.edit i f).edit i g = s.edit i fun e => g (f e) := by
  simp [PagingState.edit]

/-- The two stores make the entry. -/
theorem updateOps_store (s : PagingState) (physicalAddr virtualAddr : UInt32)
    (flag : PageDirectoryEntryFlag) :
    (updateOps physicalAddr virtualAddr flag).foldl Op.store s =
      { s with pageDir := updatePageDirectoryEntry s.pageDir physicalAddr virtualAddr flag } := by
  simp only [updateOps, List.foldl_cons, List.foldl_nil, Op.store, edit_edit]
  rfl

/-- **Store by store, a call does what it should.** -/
theorem call_store {s s' : PagingState} {call : Call} (h : step s call = .ok s') :
    (call.ops s.manager).foldl Op.store s = s' := by
  cases call with
  | allocate virtualAddr =>
    obtain rfl := Except.ok.inj h
    unfold Call.ops pagingAllocateUserPageFrame
    cases (List.finRange pageFrameMaxCount).find? fun i => !s.manager.pageFrameMap i with
    | some i =>
      simp only [List.foldl_append, updateOps_store]
      rfl
    | none => rfl
  | free virtualAddr =>
    simp only [step, pagingFreeUserPageFrame] at h
    unfold Call.ops
    by_cases hlt : (virtualAddr / UInt32.ofNat pageFrameSize).toNat < pageFrameMaxCount
    · simp only [dif_pos hlt] at h ⊢
      split at h
      next hused =>
        simp only [Except.map, Except.ok.injEq] at h
        rw [if_pos hused]
        exact h
      next hused =>
        simp only [Except.map, Except.ok.injEq] at h
        simp only [if_neg hused, List.foldl_append, updateOps_store, ← h]
        rfl
    · simp only [dif_neg hlt, Except.map, reduceCtorEq] at h

/-- What each operation writes of the directory. -/
def Op.key : Op → Option (Fin pageEntryCount)
  | .flag virtualAddr _ | .lowerAddress virtualAddr _ => some (pageIndex virtualAddr)
  | .clear i => some i
  | _ => none

def Call.virtualAddr : Call → UInt32
  | .allocate virtualAddr | .free virtualAddr => virtualAddr

/-- Only the entry at `k` is written, and its mapping invalidated at last. -/
def Flushes (k : Fin pageEntryCount) (ops : List Op) : Prop :=
  ops = [] ∨ ∃ pre virtualAddr, ops = pre ++ [.invlpg virtualAddr] ∧ pageIndex virtualAddr = k ∧
    ∀ op ∈ pre, ∀ i, op.key = some i → i = k

theorem updateOps_flushes (manager : List Op) (hmanager : ∀ op ∈ manager, op.key = none)
    (physicalAddr virtualAddr : UInt32) (flag : PageDirectoryEntryFlag) :
    Flushes (pageIndex virtualAddr)
      (manager ++ updateOps physicalAddr virtualAddr flag ++ [.invlpg virtualAddr]) := by
  refine Or.inr ⟨_, virtualAddr, rfl, rfl, fun op hop i hi => ?_⟩
  rcases List.mem_append.mp hop with hop | hop
  · rw [hmanager op hop] at hi
    cases hi
  · simp only [updateOps, List.mem_cons, List.not_mem_nil, or_false] at hop
    rcases hop with rfl | rfl | rfl
    · exact (Option.some.inj hi).symm
    · exact (Option.some.inj hi).symm
    · cases hi

theorem call_flushes (manager : PageManagerState) (call : Call) :
    Flushes (pageIndex call.virtualAddr) (call.ops manager) := by
  have hmanager : ∀ i b n op, op ∈ [Op.pageFrameMap i b, Op.freePageFrameCount n] →
      op.key = none := by
    simp [Op.key]
  cases call with
  | allocate virtualAddr =>
    simp only [Call.ops]
    split
    · exact updateOps_flushes _ (hmanager _ _ _) _ _ _
    · exact Or.inl rfl
  | free virtualAddr =>
    simp only [Call.ops]
    split_ifs
    · exact Or.inl rfl
    · exact updateOps_flushes _ (hmanager _ _ _) _ _ _
    · exact Or.inl rfl

end KajijOSta.Paging
