import KajijOSta.Fat32.Invariant

/-! # Crashes

An operation that stops after any of its cluster writes leaves a disk that
mounts again, with the tree from before the operation or the tree from after
it: in `write` the tree changes with the last write, the parent's table, and in
`delete` with the first. -/
namespace KajijOSta.Fat32
open KajijOSta.NamedTree KajijOSta.Runs KajijOSta.WriteLog

/-! ## Mounting -/

theorem isEmptyStorage_eq_false {d : Disk} :
    isEmptyStorage d = false ↔ ∀ i, i < blockSize → d i = fsSignature i := by
  have hboot : ∀ i : Fin blockSize, readBlocks d (fun _ => 0) bootSector 1 i = d i := by
    intro i
    have h0 : blockSize * bootSector.toNat + i.val = i.val := Nat.zero_add _
    rw [readBlocks_apply, h0, if_pos (by omega)]
  simp only [isEmptyStorage, bne_eq_false_iff_eq, memcmp_eq_zero, funext_iff, hboot]
  exact ⟨fun h i hi => h ⟨i, hi⟩, fun h i => h i i.isLt⟩

def remount (beyond : Fin 3 → UInt8) (driver : FAT32DriverState) (d : Disk) : Machine :=
  initializeFilesystemFat32 beyond ⟨driver, d, []⟩

/-- Mounting a well-formed image only reads it. -/
theorem remount_wellFormed (beyond : Fin 3 → UInt8) (driver : FAT32DriverState) {d : Disk}
    (h : d.WellFormed) : (remount beyond driver d).disk = d ∧
      (remount beyond driver d).issued = [] ∧ (remount beyond driver d).WellFormed := by
  have he : isEmptyStorage d = false := isEmptyStorage_eq_false.mpr h.signature
  have hr : remount beyond driver d = ⟨⟨d.fatTable, driver.dirTableBuf⟩, d, []⟩ := by
    simp only [remount, initializeFilesystemFat32, he, Bool.false_eq_true, if_false, fatTable_read]
  rw [hr]
  exact ⟨rfl, rfl, rfl, h⟩

/-! ## Crash points -/

/-- A well-formed image whose tree is one of two. -/
def EitherTree (t t' : Tree Key (List UInt8)) (d : Disk) : Prop :=
  ∃ h : d.WellFormed, d.tree h = t ∨ d.tree h = t'

section Operations
variable {m m' : Machine} {r : FAT32DriverRequest} (h : m.WellFormed)

/-- The crash points of a successful write. -/
theorem Storable.crashes {i : Fin 64} (hst : Storable m r i)
    (hs : r.bufferSize.toNat ≤ 255 * clusterSize) (h' : (stored m r i).disk.WellFormed) :
    Passes (EitherTree (m.disk.tree h.image) ((stored m r i).disk.tree h')) m (stored m r i) := by
  refine (stored_passes h hs hst.space).mono ?_
  rintro d (q | rfl)
  · exact ⟨q.wellFormed h.image, Or.inl (q.tree_eq h.image _)⟩
  · exact ⟨h', Or.inr rfl⟩

/-- The crash points of a successful delete. -/
theorem deleted_crashes {i : Fin 64} (hl : m.disk.LiveAt r.parentClusterNumber i)
    (h' : (deleted m r i).disk.WellFormed) :
    Passes (EitherTree (m.disk.tree h.image) ((deleted m r i).disk.tree h')) m
      (deleted m r i) := by
  obtain ⟨⟨p, hp⟩, hi, hlive⟩ := hl
  have hw := Disk.unlink_wellFormed h.image hp hi hlive
  refine (deleted_passes h hp hi hlive).mono ?_
  rintro d (rfl | q)
  · exact ⟨h.image, Or.inl rfl⟩
  · refine ⟨q.wellFormed hw, Or.inr ?_⟩
    rw [q.tree_eq hw, (deleted_quiet h hp hi hlive).tree_eq hw h']

/-- No write is issued. -/
theorem passes_same (hd : m'.disk = m.disk) (hi : m'.issued = m.issued)
    (h' : m'.disk.WellFormed) :
    Passes (EitherTree (m.disk.tree h.image) (m'.disk.tree h')) m m' :=
  Passes.of_same hd hi ⟨h.image, Or.inl rfl⟩

include h in
/-- Every admissible request passes through crash points with the tree from
before it or the tree from after it. -/
theorem step_crashes {call : Call} (ha : call.Admissible m.disk)
    (hstep : step m call = .ok m') (h' : m'.WellFormed) :
    Passes (EitherTree (m.disk.tree h.image) (m'.disk.tree h'.image)) m m' := by
  cases call with
  | write r =>
    obtain ⟨hc, hs⟩ := ha
    rcases write_cases h hc hs with ⟨_, hw⟩ | ⟨_, _, hw⟩ | ⟨i, hst, hw⟩
    · cases (step_write hw).symm.trans hstep
      exact passes_same h rfl rfl _
    · cases (step_write hw).symm.trans hstep
      exact passes_same h rfl rfl _
    · cases (step_write hw).symm.trans hstep
      exact hst.crashes h hs _
  | delete r =>
    obtain ⟨hc, hk, ho⟩ := ha
    rcases delete_cases h hc hk ho with ⟨_, hd⟩ | ⟨i, _, hl, hd⟩
    · cases (step_delete hd).symm.trans hstep
      exact passes_same h rfl rfl _
    · cases (step_delete hd).symm.trans hstep
      exact deleted_crashes h hl _
  | read r =>
    have hm := step_read_same hstep
    subst hm
    exact passes_same h rfl rfl _
  | readDirectory r =>
    cases hstep
    exact passes_same h rfl rfl _

end Operations

/-- **Crash consistency.** An admissible request returns, with the cached FAT
equal to the one on the disk. Whatever number of its cluster writes got through
before a crash, the disk mounts without being formatted, to a well-formed state,
and shows the tree from before the request or the tree from after it. -/
theorem crash_consistent {m : Machine} {call : Call} (h : m.WellFormed)
    (ha : call.Admissible m.disk) :
    ∃ m' ws, ∃ h' : m'.WellFormed, step m call = .ok m' ∧ m'.issued = m.issued ++ ws ∧
      m'.disk = replay diskStep m.disk ws ∧ m'.disk.fatTable = m'.fat ∧
      ∀ (k : Nat) (beyond : Fin 3 → UInt8) (driver : FAT32DriverState) (d : Disk),
        d = replay diskStep m.disk (ws.take k) →
        isEmptyStorage d = false ∧ (remount beyond driver d).disk = d ∧
        ∃ hk : (remount beyond driver d).WellFormed,
          (remount beyond driver d).disk.tree hk.image = m.disk.tree h.image ∨
          (remount beyond driver d).disk.tree hk.image = m'.disk.tree h'.image := by
  obtain ⟨m', hstep, h'⟩ := step_wellFormed m call h ha
  obtain ⟨ws, hi, hd, hall⟩ := step_crashes h ha hstep h'
  refine ⟨m', ws, h', hstep, hi, hd, h'.coherent, ?_⟩
  rintro k beyond driver d rfl
  obtain ⟨hw, ht⟩ := hall.take k
  obtain ⟨hdisk, _, hk⟩ := remount_wellFormed beyond driver hw
  have hsame : (remount beyond driver (replay diskStep m.disk (ws.take k))).disk.tree hk.image =
      Disk.tree _ hw := by
    congr 1
  refine ⟨isEmptyStorage_eq_false.mpr hw.signature, hdisk, hk, ?_⟩
  rw [hsame]
  exact ht

theorem crash_consistent_rooted :
    ∃ m' ws, ∃ h' : m'.WellFormed,
      write (rootedMachine (letterName 'r')) (letterRequest 'a' 5000) = .ok (0, m') ∧
      m'.disk = replay diskStep (rootedMachine (letterName 'r')).disk ws ∧
      ∀ (k : Nat) (d : Disk),
        d = replay diskStep (rootedMachine (letterName 'r')).disk (ws.take k) →
        ∃ hk : (remount (fun _ => 0) ⟨0, 0⟩ d).WellFormed,
          ((remount (fun _ => 0) ⟨0, 0⟩ d).disk.tree hk.image =
              (rootedDisk (letterName 'r')).tree (rootedDisk_wellFormed _) ∨
            (remount (fun _ => 0) ⟨0, 0⟩ d).disk.tree hk.image = m'.disk.tree h'.image) ∧
          (k = 0 → (remount (fun _ => 0) ⟨0, 0⟩ d).disk.tree hk.image =
            (rootedDisk (letterName 'r')).tree (rootedDisk_wellFormed _)) ∧
          (ws.length ≤ k →
            (remount (fun _ => 0) ⟨0, 0⟩ d).disk.tree hk.image = m'.disk.tree h'.image) := by
  have hwrite := @letterRequest_written 5000 (by decide)
  obtain ⟨m', ws, h', hstep, _, hd, _, hk⟩ := crash_consistent (rootedMachine_wellFormed _)
    (show Call.Admissible _ (.write (letterRequest 'a' 5000)) from
      ⟨Disk.reachable_root _, by decide⟩)
  obtain rfl : stored _ _ 2 = m' := Except.ok.inj ((step_write hwrite).symm.trans hstep)
  refine ⟨_, ws, h', hwrite, hd, fun k d he => ?_⟩
  obtain ⟨_, hdisk, hw, htree⟩ := hk k (fun _ => 0) ⟨0, 0⟩ d he
  refine ⟨hw, htree, fun h0 => ?_, fun hall => ?_⟩
  · rw [h0, List.take_zero] at he
    exact Disk.tree_congr (hdisk.trans he) (rootedDisk_wellFormed _) hw.image
  · rw [List.take_of_length_le hall, ← hd] at he
    exact Disk.tree_congr (hdisk.trans he) h'.image hw.image

end KajijOSta.Fat32
