import KajijOSta.Paging.Isolation

/-! # The memory check

`paging_allocate_check` compares the amount with all of physical memory and does
not look at `page_frame_map`. How many of the next allocations succeed is the
number of clear flags (`allocateAll_all_iff`), so the check predicts them for an
amount beyond physical memory and for one that fits the free frames, and for no
other (`check_predicts_iff`). -/
namespace KajijOSta.Paging
open KajijOSta.Ownership

/-! ## The check and the calls it is for -/

def pagingAllocateCheck (amount : UInt32) : Bool :=
  amount ≤ UInt32.ofNat (pageFrameSize * pageFrameMaxCount)

/-- The number of frames that hold an amount of memory. -/
def framesFor (amount : UInt32) : Nat := (amount.toNat + (pageFrameSize - 1)) / pageFrameSize

/-- Calls of `paging_allocate_user_page_frame` in turn: what each returns, and the
state after the last. -/
def allocateAll : PagingState → List UInt32 → List Bool × PagingState
  | s, [] => ([], s)
  | s, virtualAddr :: rest =>
    let (returned, s) := pagingAllocateUserPageFrame s virtualAddr
    let (others, s) := allocateAll s rest
    (returned :: others, s)

/-- The state after allocations at any addresses since boot. -/
def reached (before : List UInt32) : PagingState := (allocateAll bootState before).2

/-- Addresses for an amount of memory: as many as it takes frames, distinct and
not mapped. -/
structure Requested (s : PagingState) (amount : UInt32) (addrs : List UInt32) : Prop where
  length : addrs.length = framesFor amount
  distinct : (addrs.map pageIndex).Nodup
  unmapped : ∀ virtualAddr ∈ addrs,
    (s.pageDir.table (pageIndex virtualAddr)).flag.presentBit = false

/-- The check says what the allocations will return. -/
def Predicts (s : PagingState) (amount : UInt32) (addrs : List UInt32) : Prop :=
  pagingAllocateCheck amount = true ↔ ∀ returned ∈ (allocateAll s addrs).1, returned = true

/-! ## How far the frames go -/

section Frames
variable {s : PagingState}

theorem pageFrameSize_eq : pageFrameSize = 4194304 := rfl

theorem check_iff (amount : UInt32) :
    pagingAllocateCheck amount = true ↔ amount.toNat ≤ pageFrameSize * pageFrameMaxCount := by
  unfold pagingAllocateCheck
  rw [decide_eq_true_iff, UInt32.le_iff_toNat_le]
  rfl

theorem framesFor_le (amount : UInt32) (n : Nat) :
    framesFor amount ≤ n ↔ amount.toNat ≤ pageFrameSize * n := by
  unfold framesFor
  rw [pageFrameSize_eq]
  omega

theorem full_iff : Full s.manager ↔ freeCount s.manager.pageFrameMap = 0 := by
  unfold freeCount Full
  rw [Finset.card_eq_zero, Finset.filter_eq_empty_iff]
  constructor
  · intro h i _
    rw [h i]
    exact Bool.noConfusion
  · intro h i
    exact Bool.of_not_eq_false (h (Finset.mem_univ i))

theorem freeCount_le_max (manager : PageManagerState) :
    freeCount manager.pageFrameMap ≤ pageFrameMaxCount :=
  (freeCount_le _).trans (Fintype.card_fin pageFrameMaxCount).le

/-- As many allocations succeed as there are clear flags, wherever they map. -/
theorem allocateAll_all_iff (addrs : List UInt32) :
    (∀ returned ∈ (allocateAll s addrs).1, returned = true) ↔
      addrs.length ≤ freeCount s.manager.pageFrameMap := by
  induction addrs generalizing s with
  | nil => simp [allocateAll]
  | cons virtualAddr rest ih =>
    rcases allocate_cases s virtualAddr with ⟨hfull, he⟩ | ⟨i, hi, _, he⟩
    · rw [full_iff.mp hfull]
      simp [allocateAll, he]
    · have hcount := freeCount_acquire hi
      have hrest := ih (s := allocated s virtualAddr i)
      simp only [allocateAll, he, List.mem_cons, forall_eq_or_imp, true_and, List.length_cons]
      rw [hrest, ← hcount]
      exact (Nat.add_le_add_iff_right).symm

theorem allocateAll_counted (h : Counted s) (addrs : List UInt32) :
    Counted (allocateAll s addrs).2 := by
  induction addrs generalizing s with
  | nil => exact h
  | cons virtualAddr rest ih => exact ih (@step_counted _ _ (.allocate virtualAddr) h rfl)

end Frames

/-- **When the check predicts allocation.** After any allocations since boot, the
check says whether the frames of an amount can be allocated at distinct addresses
that are not mapped exactly when the amount is more than all of physical memory,
or fits the free frames. -/
theorem check_predicts_iff (before addrs : List UInt32) (amount : UInt32)
    (hreq : Requested (reached before) amount addrs) :
    Predicts (reached before) amount addrs ↔
      pageFrameSize * pageFrameMaxCount < amount.toNat ∨
      amount.toNat ≤ pageFrameSize * (reached before).manager.freePageFrameCount.toNat := by
  have hcounted : Counted (reached before) := allocateAll_counted boot_counted before
  have hmax := freeCount_le_max (reached before).manager
  have hall := allocateAll_all_iff (s := reached before) addrs
  have hfits := framesFor_le amount (freeCount (reached before).manager.pageFrameMap)
  rw [hreq.length] at hall
  unfold Predicts
  rw [hall, check_iff, hfits, hcounted]
  constructor
  · intro h
    by_cases hle : amount.toNat ≤ pageFrameSize * pageFrameMaxCount
    · exact Or.inr (h.mp hle)
    · exact Or.inl (Nat.lt_of_not_le hle)
  · intro h
    have hmul := Nat.mul_le_mul_left pageFrameSize hmax
    constructor
    · intro hle
      exact h.resolve_left (Nat.not_lt.mpr hle)
    · intro hle
      exact hle.trans hmul

def firstPages (n : Nat) : List UInt32 :=
  (List.range n).map fun i => UInt32.ofNat (i * pageFrameSize)

theorem unmapped_of_all {s : PagingState} {addrs : List UInt32}
    (h : addrs.all (fun virtualAddr =>
      !(s.pageDir.table (pageIndex virtualAddr)).flag.presentBit) = true) :
    ∀ virtualAddr ∈ addrs, (s.pageDir.table (pageIndex virtualAddr)).flag.presentBit = false := by
  intro virtualAddr hmem
  have hbit := List.all_eq_true.mp h virtualAddr hmem
  rwa [Bool.not_eq_true'] at hbit

/-- Three allocations after one earlier one, for an amount that is not a multiple
of the size of a frame. -/
theorem check_predicts_three : Predicts (reached [0x10000000]) 0x800001 (firstPages 3) :=
  (check_predicts_iff [0x10000000] (firstPages 3) 0x800001
    ⟨by decide, by decide, unmapped_of_all (by decide)⟩).mpr (Or.inr (by decide))

/-- At boot the check allows all of physical memory, and the kernel has one of its
frames. -/
theorem check_at_boot : Requested (reached []) 0x8000000 (firstPages 32) ∧
    ¬ Predicts (reached []) 0x8000000 (firstPages 32) := by
  refine ⟨⟨by decide, by decide, unmapped_of_all (by decide)⟩, fun h => ?_⟩
  have hcheck : pagingAllocateCheck 0x8000000 = true := by decide
  have hlen := (allocateAll_all_iff (firstPages 32)).mp (h.mp hcheck)
  exact absurd hlen (by decide)

end KajijOSta.Paging
