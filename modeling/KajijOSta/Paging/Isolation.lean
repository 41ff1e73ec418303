import KajijOSta.Lib.Ownership
import KajijOSta.Lib.Runs
import KajijOSta.Paging.PageFrames

/-! # Page-frame isolation

User entries own the frames they map, one each, and frame 0 is the kernel's:
`Isolated`, which is exclusive ownership (`isolated_iff_exclusive`).
`paging_allocate_user_page_frame` keeps it unless the address is mapped already.
`paging_free_user_page_frame` takes the index of the address for that of the
frame, so it keeps it only where the two agree; `isolation_iff` says exactly in
which runs. -/
namespace KajijOSta.Paging
open KajijOSta.Ownership KajijOSta.Runs

/-! ## The property -/

/-- An entry through which user mode reaches memory. -/
def PageDirectoryEntry.User (e : PageDirectoryEntry) : Prop :=
  e.flag.presentBit = true ∧ e.flag.userSupervisorBit = true

instance (e : PageDirectoryEntry) : Decidable e.User := inferInstanceAs (Decidable (_ ∧ _))

def PageDirectoryEntry.frame (e : PageDirectoryEntry) : Option Nat :=
  if e.User then some e.lowerAddress.toNat else none

/-- The frame each user entry maps. -/
def PageDirectory.frameAt (pageDir : PageDirectory) (i : Fin pageEntryCount) : Option Nat :=
  (pageDir.table i).frame

/-- The flag of a frame, none beyond the last. -/
def PageManagerState.used (manager : PageManagerState) (f : Nat) : Bool :=
  if h : f < pageFrameMaxCount then manager.pageFrameMap ⟨f, h⟩ else false

/-- Frames are not shared, and their flags say which are mapped. -/
structure Isolated (s : PagingState) : Prop where
  flagged : ∀ i f, s.pageDir.frameAt i = some f → s.manager.used f = true
  unshared : ∀ i j f, s.pageDir.frameAt i = some f → s.pageDir.frameAt j = some f → i = j
  kernelFlagged : s.manager.pageFrameMap 0 = true
  kernelUnmapped : ∀ i, s.pageDir.frameAt i ≠ some 0
  mapped : ∀ f, s.manager.pageFrameMap f = true → f ≠ 0 → ∃ i, s.pageDir.frameAt i = some f.val

inductive Call
  | allocate (virtualAddr : UInt32)
  | free (virtualAddr : UInt32)

def step (s : PagingState) : Call → Except Fault PagingState
  | .allocate virtualAddr => .ok (pagingAllocateUserPageFrame s virtualAddr).2
  | .free virtualAddr => (pagingFreeUserPageFrame s virtualAddr).map Prod.snd

/-- Freeing a mapped address clears its entry and the flag of its frame, and no
other flag. -/
def Releases (s : PagingState) : Call → Prop
  | .allocate _ => True
  | .free virtualAddr => ∀ f, s.pageDir.frameAt (pageIndex virtualAddr) = some f →
      ∃ s', step s (.free virtualAddr) = .ok s' ∧ s'.pageDir.frameAt (pageIndex virtualAddr) = none ∧
        ∀ g, s'.manager.used g = (s.manager.used g && g != f)

/-- Isolation throughout a run, which does not leave `page_frame_map`. -/
structure Isolation (s : PagingState) (calls : List Call) : Prop where
  isolated : Always step Isolated s calls
  releasing : Meets step Releases s calls

def Full (manager : PageManagerState) : Prop := ∀ i, manager.pageFrameMap i = true

/-- The calls that do what they should: an allocation at an address that is not
mapped, or with no frame left; freeing an address mapped to the frame of its own
index, or one that is not mapped while that frame is free. -/
def OwnFrame (s : PagingState) : Call → Prop
  | .allocate virtualAddr =>
      s.pageDir.frameAt (pageIndex virtualAddr) = none ∨ Full s.manager
  | .free virtualAddr =>
      (pageIndex virtualAddr).val < pageFrameMaxCount ∧
      ((s.pageDir.frameAt (pageIndex virtualAddr) = some (pageIndex virtualAddr).val) ∨
        (s.pageDir.frameAt (pageIndex virtualAddr) = none ∧
          s.manager.used (pageIndex virtualAddr).val = false))

/-! ## Ownership of frames -/

section Owners
variable {s : PagingState}

theorem used_val (manager : PageManagerState) (f : Fin pageFrameMaxCount) :
    manager.used f.val = manager.pageFrameMap f := by
  unfold PageManagerState.used
  rw [dif_pos f.isLt]

theorem isolated_iff_exclusive :
    Isolated s ↔ Exclusive s.pageDir.frameAt s.manager.used (fun f => f = 0) := by
  have hzero : s.manager.used 0 = s.manager.pageFrameMap 0 := used_val s.manager 0
  constructor
  · intro h
    refine ⟨h.flagged, h.unshared, ?_, ?_, ?_⟩
    · rintro f rfl
      exact hzero.trans h.kernelFlagged
    · rintro i f hf rfl
      exact h.kernelUnmapped i hf
    · intro f hf h0
      have hlt : f < pageFrameMaxCount := by
        by_contra hge
        unfold PageManagerState.used at hf
        rw [dif_neg hge] at hf
        cases hf
      exact h.mapped ⟨f, hlt⟩ ((used_val s.manager ⟨f, hlt⟩).symm.trans hf)
        fun he => h0 (congrArg Fin.val he)
  · intro h
    refine ⟨h.held_taken, h.unique, hzero.symm.trans (h.aside_taken 0 rfl), ?_, ?_⟩
    · exact fun i hi => h.aside_not_held i 0 hi rfl
    · intro f hf h0
      exact h.taken_held f.val ((used_val s.manager f).trans hf) fun he => h0 (Fin.ext he)

/-- At boot nothing is mapped for user mode, and only frame 0 is in use. -/
theorem boot_isolated : Isolated bootState := by
  have hnone : ∀ i, bootState.pageDir.frameAt i = none := by
    intro i
    have huser : (bootState.pageDir.table i).flag.userSupervisorBit = false := by
      simp only [bootState, Function.update_apply, pagingKernelPageDirectory]
      split_ifs <;> rfl
    exact if_neg fun h => Bool.false_ne_true (huser.symm.trans h.2)
  refine ⟨?_, ?_, rfl, ?_, ?_⟩
  · intro i f hf
    rw [hnone i] at hf
    cases hf
  · intro i j f hf
    rw [hnone i] at hf
    cases hf
  · intro i hi
    rw [hnone i] at hi
    cases hi
  · exact fun f hf h0 => absurd (of_decide_eq_true hf) h0

end Owners

/-! ## What each function does -/

section Functions
variable {s : PagingState} {virtualAddr : UInt32}

theorem update_frameAt (pageDir : PageDirectory) (physicalAddr virtualAddr : UInt32)
    (flag : PageDirectoryEntryFlag) :
    (updatePageDirectoryEntry pageDir physicalAddr virtualAddr flag).frameAt =
      Function.update pageDir.frameAt (pageIndex virtualAddr)
        (PageDirectoryEntry.mk flag
          (BitVec.ofNat 10 ((physicalAddr >>> 22) &&& 0x3FF).toNat)).frame := by
  funext i
  by_cases hi : i = pageIndex virtualAddr
  · subst hi
    simp only [PageDirectory.frameAt, updatePageDirectoryEntry, Function.update_self]
  · simp only [PageDirectory.frameAt, updatePageDirectoryEntry, Function.update_of_ne hi]

theorem update_used (manager : PageManagerState) (i : Fin pageFrameMaxCount) (b : Bool)
    (count : UInt32) :
    (PageManagerState.mk (Function.update manager.pageFrameMap i b) count).used =
      Function.update manager.used i.val b := by
  funext f
  by_cases hf : f = i.val
  · subst hf
    simp only [used_val, Function.update_self]
  · rw [Function.update_of_ne hf]
    by_cases hlt : f < pageFrameMaxCount
    · have hne : (⟨f, hlt⟩ : Fin pageFrameMaxCount) ≠ i := fun he => hf (congrArg Fin.val he)
      simp only [PageManagerState.used, dif_pos hlt, Function.update_of_ne hne]
    · simp only [PageManagerState.used, dif_neg hlt]

def allocated (s : PagingState) (virtualAddr : UInt32) (i : Fin pageFrameMaxCount) : PagingState :=
  ⟨⟨Function.update s.manager.pageFrameMap i true, s.manager.freePageFrameCount - 1⟩,
    updatePageDirectoryEntry s.pageDir (UInt32.ofNat (i.val * pageFrameSize)) virtualAddr
      ⟨true, true, true, false, false, false, false, true⟩⟩

def freed (s : PagingState) (virtualAddr : UInt32) (i : Fin pageFrameMaxCount) : PagingState :=
  ⟨⟨Function.update s.manager.pageFrameMap i false, s.manager.freePageFrameCount + 1⟩,
    updatePageDirectoryEntry s.pageDir
      (virtualAddr / UInt32.ofNat pageFrameSize * UInt32.ofNat pageFrameSize) virtualAddr
      ⟨false, false, false, false, false, false, false, false⟩⟩

theorem allocated_frameAt (i : Fin pageFrameMaxCount) :
    (allocated s virtualAddr i).pageDir.frameAt =
      Function.update s.pageDir.frameAt (pageIndex virtualAddr) (some i.val) := by
  unfold allocated
  rw [update_frameAt]
  congr 1
  exact congrArg some (lowerAddress_frame i)

theorem allocated_used (i : Fin pageFrameMaxCount) : (allocated s virtualAddr i).manager.used =
    Function.update s.manager.used i.val true := update_used _ _ _ _

theorem freed_frameAt (i : Fin pageFrameMaxCount) : (freed s virtualAddr i).pageDir.frameAt =
    Function.update s.pageDir.frameAt (pageIndex virtualAddr) none := by
  unfold freed
  rw [update_frameAt]
  rfl

theorem freed_used (i : Fin pageFrameMaxCount) : (freed s virtualAddr i).manager.used =
    Function.update s.manager.used i.val false := update_used _ _ _ _

/-- Allocation fails when no frame is free, else it maps the first free one. -/
theorem allocate_cases (s : PagingState) (virtualAddr : UInt32) :
    (Full s.manager ∧ pagingAllocateUserPageFrame s virtualAddr = (false, s)) ∨
    ∃ i, s.manager.pageFrameMap i = false ∧ (∀ j, j < i → s.manager.pageFrameMap j = true) ∧
      pagingAllocateUserPageFrame s virtualAddr = (true, allocated s virtualAddr i) := by
  cases hfind : (List.finRange pageFrameMaxCount).find? fun i => !s.manager.pageFrameMap i with
  | none =>
    refine Or.inl ⟨fun i => ?_, by simp only [pagingAllocateUserPageFrame, hfind]⟩
    simpa using List.find?_eq_none.mp hfind i (List.mem_finRange i)
  | some i =>
    obtain ⟨_, hi, hfirst⟩ :=
      (Scan.find?_eq_some_iff (List.pairwise_lt_finRange pageFrameMaxCount)).mp hfind
    refine Or.inr ⟨i, by simpa using hi, fun j hj => ?_, ?_⟩
    · simpa using hfirst j (List.mem_finRange j) hj
    · simp only [pagingAllocateUserPageFrame, hfind, allocated]

/-- Freeing goes by the flag at the index of the address. -/
theorem free_cases (s : PagingState) (virtualAddr : UInt32) :
    (¬ (pageIndex virtualAddr).val < pageFrameMaxCount ∧
      pagingFreeUserPageFrame s virtualAddr =
        .error (.pageFrameMapIndex (virtualAddr / UInt32.ofNat pageFrameSize))) ∨
    ∃ i : Fin pageFrameMaxCount, i.val = (pageIndex virtualAddr).val ∧
      ((s.manager.pageFrameMap i = false ∧
        pagingFreeUserPageFrame s virtualAddr = .ok (false, s)) ∨
      (s.manager.pageFrameMap i = true ∧
        pagingFreeUserPageFrame s virtualAddr = .ok (true, freed s virtualAddr i))) := by
  have hindex := index_toNat virtualAddr
  by_cases h : (virtualAddr / UInt32.ofNat pageFrameSize).toNat < pageFrameMaxCount
  · refine Or.inr ⟨⟨_, h⟩, hindex, ?_⟩
    cases hf : s.manager.pageFrameMap ⟨_, h⟩ with
    | false =>
      refine Or.inl ⟨rfl, ?_⟩
      simp only [pagingFreeUserPageFrame, dif_pos h, hf, Bool.not_false, if_true]
    | true =>
      refine Or.inr ⟨rfl, ?_⟩
      simp only [pagingFreeUserPageFrame, dif_pos h, hf, Bool.not_true, Bool.false_eq_true,
        if_false, freed]
  · refine Or.inl ⟨hindex ▸ h, ?_⟩
    simp only [pagingFreeUserPageFrame, dif_neg h]

end Functions

/-! ## Steps and runs -/

section Steps
variable {s s' : PagingState}

/-- A call that uses a frame of its own does its work and keeps the frames apart. -/
theorem step_isolated (s : PagingState) (call : Call) (h : Isolated s) (hok : OwnFrame s call) :
    Releases s call ∧ ∃ s', step s call = .ok s' ∧ Isolated s' := by
  have hex := isolated_iff_exclusive.mp h
  cases call with
  | allocate virtualAddr =>
    refine ⟨trivial, _, rfl, ?_⟩
    rcases allocate_cases s virtualAddr with ⟨_, he⟩ | ⟨i, hi, _, he⟩
    · rw [he]
      exact h
    · rw [he, isolated_iff_exclusive, allocated_frameAt, allocated_used]
      refine hex.acquire (hok.resolve_right fun hfull => ?_) ((used_val _ i).trans hi)
      rw [hfull i] at hi
      cases hi
  | free virtualAddr =>
    obtain ⟨hlt, hown⟩ := hok
    rcases free_cases s virtualAddr with ⟨hge, _⟩ | ⟨i, hi, ⟨hf, he⟩ | ⟨hf, he⟩⟩
    · exact absurd hlt hge
    · -- the flag is clear: the address is not mapped
      have hfree : s.manager.used (pageIndex virtualAddr).val = false := by
        rw [← hi, used_val, hf]
      have hnone : s.pageDir.frameAt (pageIndex virtualAddr) = none := by
        rcases hown with hown | ⟨hown, _⟩
        · have := h.flagged _ _ hown
          rw [hfree] at this
          cases this
        · exact hown
      refine ⟨fun f hf' => ?_, s, by simp only [step, he, Except.map], h⟩
      rw [hnone] at hf'
      cases hf'
    · -- the flag is set: the address is mapped to that frame
      have hmap : s.pageDir.frameAt (pageIndex virtualAddr) = some i.val := by
        rcases hown with hown | ⟨_, hfree⟩
        · rw [hown, hi]
        · rw [← hi, used_val, hf] at hfree
          cases hfree
      have hstep : step s (.free virtualAddr) = .ok (freed s virtualAddr i) := by
        simp only [step, he, Except.map]
      refine ⟨fun f hf' => ⟨_, hstep, ?_, fun g => ?_⟩, _, hstep, ?_⟩
      · rw [freed_frameAt, Function.update_self]
      · obtain rfl : i.val = f := Option.some.inj (hmap.symm.trans hf')
        rw [freed_used]
        by_cases hg : g = i.val
        · simp [hg]
        · simp [hg]
      · rw [isolated_iff_exclusive, freed_frameAt, freed_used]
        exact hex.release hmap

/-- Any other call leaves `page_frame_map`, frees a frame under its owner or
loses one, or does not free what it should. -/
theorem step_not_isolated {call : Call} (h : Isolated s) (hbad : ¬ OwnFrame s call)
    (hrel : Releases s call) (hstep : step s call = .ok s') : ¬ Isolated s' := by
  have hex := isolated_iff_exclusive.mp h
  cases call with
  | allocate virtualAddr =>
    obtain ⟨hmap, hfull⟩ := not_or.mp hbad
    cases hstep
    rcases allocate_cases s virtualAddr with ⟨hfull', _⟩ | ⟨i, hi, _, he⟩
    · exact absurd hfull' hfull
    · rw [he, isolated_iff_exclusive, allocated_frameAt, allocated_used,
        hex.acquire_iff ((used_val _ i).trans hi)]
      exact hmap
  | free virtualAddr =>
    rcases free_cases s virtualAddr with ⟨_, he⟩ | ⟨i, hi, ⟨hf, he⟩ | ⟨hf, he⟩⟩
    · simp only [step, he, Except.map] at hstep
      cases hstep
    · -- nothing was freed, though the address is mapped
      have hfree : s.manager.used (pageIndex virtualAddr).val = false := by
        rw [← hi, used_val, hf]
      have hlt : (pageIndex virtualAddr).val < pageFrameMaxCount := hi ▸ i.isLt
      cases hmap : s.pageDir.frameAt (pageIndex virtualAddr) with
      | none => exact absurd ⟨hlt, Or.inr ⟨hmap, hfree⟩⟩ hbad
      | some f =>
        obtain ⟨t, ht, hgone, _⟩ := hrel f hmap
        simp only [step, he, Except.map, Except.ok.injEq] at ht
        rw [← ht, hmap] at hgone
        cases hgone
    · have hlt : (pageIndex virtualAddr).val < pageFrameMaxCount := hi ▸ i.isLt
      simp only [step, he, Except.map, Except.ok.injEq] at hstep
      rw [← hstep, isolated_iff_exclusive, freed_frameAt, freed_used,
        hex.release_iff ((used_val _ i).trans hf), hi]
      exact fun hmap => hbad ⟨hlt, Or.inl hmap⟩

end Steps

/-- **When frames stay isolated.** In a run from boot, frames stay isolated, every
freed address gives back its frame and `page_frame_map` is not left, exactly
when each allocation is at an address not mapped, or with no frame left, and
each freed address is mapped to the frame of its own index, or not mapped while
that frame is free. -/
theorem isolation_iff (calls : List Call) :
    Isolation bootState calls ↔ Meets step OwnFrame bootState calls := by
  have hpre : Meets step (fun _ _ => True) bootState calls := meets_true
  have hiff : (Always step Isolated bootState calls ∧ Meets step Releases bootState calls) ↔
      Meets step OwnFrame bootState calls :=
    always_iff_meets (fun _ h => h) (fun s call h _ hok => step_isolated s call h hok)
      (fun _ _ _ h _ hbad hrel hstep => step_not_isolated h hbad hrel hstep) boot_isolated hpre
  exact ⟨fun h => hiff.mp ⟨h.isolated, h.releasing⟩, fun h => ⟨(hiff.mpr h).1, (hiff.mpr h).2⟩⟩

/-- Freeing the page the kernel maps first gives frame 0 away: it is free, and
the next allocation maps it for user mode. -/
theorem free_first_page_not_isolation :
    ¬ Isolation bootState [.allocate 0, .free 0] ∧
    ∃ s, run step bootState [.allocate 0, .free 0, .allocate 0x400000] = .ok s ∧
      s.pageDir.frameAt 1 = some 0 := by
  refine ⟨fun h => ?_, _, rfl, rfl⟩
  obtain ⟨s, hs, hi⟩ := h.isolated.run
  cases hs
  exact Bool.false_ne_true hi.kernelFlagged

/-! ## The kernel's entry and the number of free frames -/

/-- The address is not one of the kernel's. -/
def Call.OutsideKernel : Call → Prop
  | .allocate virtualAddr | .free virtualAddr => pageIndex virtualAddr ≠ kernelIndex

def KernelMapped (s : PagingState) : Prop := s.pageDir.table kernelIndex = kernelEntry

/-- The count of free frames is the number of clear flags. -/
def Counted (s : PagingState) : Prop :=
  s.manager.freePageFrameCount.toNat = freeCount s.manager.pageFrameMap

section Frames
variable {s : PagingState} {virtualAddr : UInt32} {i : Fin pageFrameMaxCount}

theorem allocated_counted (h : Counted s) (hi : s.manager.pageFrameMap i = false) :
    Counted (allocated s virtualAddr i) := by
  have hcount := freeCount_acquire hi
  have hpos : 1 ≤ s.manager.freePageFrameCount := by
    rw [UInt32.le_iff_toNat_le, h, ← hcount]
    exact Nat.le_add_left 1 _
  unfold Counted
  rw [allocated, UInt32.toNat_sub_of_le _ _ hpos, h, ← hcount]
  rfl

theorem freed_counted (h : Counted s) (hi : s.manager.pageFrameMap i = true) :
    Counted (freed s virtualAddr i) := by
  have hcount := freeCount_release hi
  have hle : freeCount s.manager.pageFrameMap ≤ 32 :=
    (freeCount_le _).trans (Fintype.card_fin pageFrameMaxCount).le
  have hone : (1 : UInt32).toNat = 1 := rfl
  unfold Counted
  rw [freed, hcount, UInt32.toNat_add, h, hone]
  omega

/-- A call outside the kernel's addresses leaves its entry alone. -/
theorem step_kernelEntry {s' : PagingState} {call : Call} (hout : call.OutsideKernel)
    (hstep : step s call = .ok s') :
    s'.pageDir.table kernelIndex = s.pageDir.table kernelIndex := by
  cases call with
  | allocate virtualAddr =>
    cases hstep
    rcases allocate_cases s virtualAddr with ⟨_, he⟩ | ⟨i, _, _, he⟩
    · rw [he]
    · rw [he]
      exact Function.update_of_ne hout.symm _ _
  | free virtualAddr =>
    rcases free_cases s virtualAddr with ⟨_, he⟩ | ⟨i, _, ⟨_, he⟩ | ⟨_, he⟩⟩ <;>
      simp only [step, he, Except.map, Except.ok.injEq, reduceCtorEq] at hstep
    · rw [hstep]
    · rw [← hstep]
      exact Function.update_of_ne hout.symm _ _

theorem step_counted {s' : PagingState} {call : Call} (h : Counted s)
    (hstep : step s call = .ok s') : Counted s' := by
  cases call with
  | allocate virtualAddr =>
    cases hstep
    rcases allocate_cases s virtualAddr with ⟨_, he⟩ | ⟨i, hi, _, he⟩
    · rw [he]
      exact h
    · rw [he]
      exact allocated_counted h hi
  | free virtualAddr =>
    rcases free_cases s virtualAddr with ⟨_, he⟩ | ⟨i, _, ⟨_, he⟩ | ⟨hf, he⟩⟩ <;>
      simp only [step, he, Except.map, Except.ok.injEq, reduceCtorEq] at hstep
    · exact hstep ▸ h
    · exact hstep ▸ freed_counted h hf

end Frames

theorem boot_counted : Counted bootState := by
  show (UInt32.ofNat 31).toNat = freeCount pageManagerState.pageFrameMap
  decide

/-- The count of free frames is right after any calls at all. -/
theorem run_counted {s : PagingState} (calls : List Call)
    (h : run step bootState calls = .ok s) : Counted s :=
  of_run (fun _ _ _ hI _ hs => step_counted hI hs) boot_counted meets_true h

/-- No call outside the kernel's addresses opens its entry to user mode. -/
theorem run_kernelEntry {s : PagingState} (calls : List Call)
    (hout : Meets step (fun _ call => call.OutsideKernel) bootState calls)
    (h : run step bootState calls = .ok s) : KernelMapped s := by
  have hboot : KernelMapped bootState := by
    show bootState.pageDir.table kernelIndex = kernelEntry
    decide
  have hkeep : ∀ s call s', KernelMapped s → call.OutsideKernel →
      step s call = .ok s' → KernelMapped s' :=
    fun _ _ _ hI ho hs => (step_kernelEntry ho hs).trans hI
  exact of_run hkeep hboot hout h

end KajijOSta.Paging
