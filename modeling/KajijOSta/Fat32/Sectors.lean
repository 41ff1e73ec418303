import KajijOSta.Fat32.Crash
import KajijOSta.Lib.TornWrite

/-! # Crashes within a cluster write

A cluster is four sectors, and only a sector reaches the disk as a whole. A crash within
one of the cluster writes leaves any of its sectors behind and the others not. It does not
matter: a FAT entry and a slot of a table each lie in one sector (`next_tear`,
`putEntry_tear`), and a write that changes more than one of them changes nothing that the
tree uses. -/
namespace KajijOSta.Fat32
open KajijOSta.NamedTree KajijOSta.TornWrite KajijOSta.WriteLog

def sectorOf (a : Nat) : Nat := a / blockSize

/-- The disk when the write between two states is cut short. -/
abbrev Disk.tear (d d' : Disk) (through : Nat → Bool) : Disk := TornWrite.tear sectorOf d d' through

namespace Disk
variable {d₀ d d' : Disk} {through : Nat → Bool} {c : UInt32} {i : Fin 64}
  {e : FAT32DirectoryEntry}

/-! ## What lies in one sector -/

/-- A FAT entry is its four bytes. -/
theorem next_congr {x : UInt32} (h : ∀ j, j < 4 →
    d'.cluster fatClusterNumber (4 * x.toNat + j) = d.cluster fatClusterNumber (4 * x.toNat + j)) :
    d'.next x = d.next x := by
  unfold next FAT32FileAllocationTable.get?
  split
  · refine congrArg some (word32_of_bytes fun j hj => (h j hj).trans ?_)
    exact (byte32_word32 (Memory.from (d.cluster fatClusterNumber) (4 * x.toNat)) hj).symm
  · rfl

/-- A torn FAT has each entry as it was or as it is written. -/
theorem next_tear (d d' : Disk) (through : Nat → Bool) (x : UInt32) :
    (d.tear d' through).next x = d.next x ∨ (d.tear d' through).next x = d'.next x := by
  have hsector : ∀ j, j < 4 → sectorOf (clusterBase fatClusterNumber + (4 * x.toNat + j)) =
      sectorOf (clusterBase fatClusterNumber + 4 * x.toNat) := by
    intro j hj
    simp only [sectorOf, clusterBase_eq fat_lt, clusterSize_eq, blockSize_eq]
    omega
  refine (tear_sector sectorOf d d' through
    (sectorOf (clusterBase fatClusterNumber + 4 * x.toNat))).imp (fun h => ?_) fun h => ?_
  · exact next_congr fun j hj => h _ (hsector j hj)
  · exact next_congr fun j hj => h _ (hsector j hj)

/-- Two states with what the tree uses leave it to a torn one. -/
theorem Quiet.tear (q : Quiet d₀ d) (q' : Quiet d₀ d') (through : Nat → Bool) :
    Quiet d₀ (d.tear d' through) := by
  refine ⟨fun i hi => ?_, fun x hx => ?_, fun x hx => ?_, fun i hi => ?_, fun x hx i hi => ?_⟩
  · exact tear_same sectorOf (q.boot i hi) (q'.boot i hi)
  · rcases next_tear d d' through x with h | h
    · rw [h, q.reserved x hx]
    · rw [h, q'.reserved x hx]
  · rcases next_tear d d' through x with h | h
    · rw [h, q.links x hx]
    · rw [h, q'.links x hx]
  · exact tear_same sectorOf (q.root i hi) (q'.root i hi)
  · exact tear_same sectorOf (q.data x hx i hi) (q'.data x hx i hi)

/-- A table that changes in one slot is not torn. -/
theorem putEntry_tear (hc : c.toNat < clusterMapSize) (through : Nat → Bool) :
    d.tear (d.putEntry c i e) through = d ∨
      d.tear (d.putEntry c i e) through = d.putEntry c i e := by
  refine tear_eq_or sectorOf (x := sectorOf (clusterBase c + 32 * i)) fun a ha => ?_
  unfold putEntry
  rw [writeClusters_apply]
  split
  · -- a byte of another slot
    rename_i hin
    obtain ⟨hle, hlt⟩ := hin
    have hbyte : a - clusterBase c < clusterSize := by omega
    have hslot : Fin.ofNat 64 ((a - clusterBase c) / 32) ≠ i := by
      rintro rfl
      refine ha ?_
      simp only [sectorOf, clusterBase_eq hc, clusterSize_eq, blockSize_eq, Fin.ofNat] at hle hlt ⊢
      omega
    have hsame : ((d.table c).set i e).bytes (a - clusterBase c) =
        (d.table c).bytes (a - clusterBase c) := by
      unfold FAT32DirectoryTable.bytes
      rw [FAT32DirectoryTable.set_other _ _ hslot]
    rw [hsame, table, FAT32DirectoryTable.bytes_ofBytes _ hbyte, cluster,
      Nat.add_sub_cancel' hle]
  · rfl

end Disk

/-! ## Crash points -/

/-- `m'` comes from `m` by cluster writes with `P` at every crash point, those within a
write included. -/
def TearsThrough (P : Disk → Prop) (m m' : Machine) : Prop :=
  ∃ ws, m'.issued = m.issued ++ ws ∧ m'.disk = replay diskStep m.disk ws ∧
    AlongTorn sectorOf diskStep P m.disk ws

namespace TearsThrough
variable {P Q : Disk → Prop} {m m' m'' : Machine}

/-- No write is issued. -/
theorem of_same (hd : m'.disk = m.disk) (hi : m'.issued = m.issued) (h : P m.disk) :
    TearsThrough P m m' := ⟨[], by simp [hi], by simp [hd], h⟩

theorem write (ptr : Memory) (c : UInt32) (h' : P (writeClusters m.disk ptr c 1))
    (h : ∀ through, P (m.disk.tear (writeClusters m.disk ptr c 1) through)) :
    TearsThrough P m (m.writeClusters ptr c) := ⟨[⟨c, ptr⟩], rfl, rfl, h, h'⟩

theorem trans (h : TearsThrough P m m') (h' : TearsThrough P m' m'') : TearsThrough P m m'' := by
  obtain ⟨ws, hi, hd, ha⟩ := h
  obtain ⟨vs, hi', hd', ha'⟩ := h'
  refine ⟨ws ++ vs, by rw [hi', hi, List.append_assoc], ?_, ha.append (hd ▸ ha')⟩
  rw [hd', hd, replay_append]

theorem mono (h : TearsThrough P m m') (hPQ : ∀ d, P d → Q d) : TearsThrough Q m m' := by
  obtain ⟨ws, hi, hd, ha⟩ := h
  exact ⟨ws, hi, hd, ha.mono hPQ⟩

end TearsThrough

/-- Writes that touch nothing the tree uses may be cut anywhere. -/
theorem Passes.tears {d₀ : Disk} {m m' : Machine} (h : Passes (Disk.Quiet d₀) m m') :
    TearsThrough (Disk.Quiet d₀) m m' := by
  obtain ⟨ws, hi, hd, ha⟩ := h
  exact ⟨ws, hi, hd, .of_along (fun _ _ through q q' => q.tear q' through) ha⟩

section Operations
variable {m m' : Machine} {r : FAT32DriverRequest} (h : m.WellFormed)

include h in
/-- The tree changes with one sector of the last write. -/
theorem stored_tears {i : Fin 64} {p : List Key} (hs : r.bufferSize.toNat ≤ 255 * clusterSize)
    (hf : required r ≤ (freeClusters m.fat).length)
    (hp : m.disk.dirAt p = some r.parentClusterNumber) :
    TearsThrough (fun d => Disk.Quiet m.disk d ∨ d = (stored m r i).disk) m (stored m r i) := by
  have hq := prepared_quiet h (allocated_ne_nil hs hf)
  have hr := h.image.reachable_range ⟨p, hp⟩
  have hdisk := stored_disk (i := i) h hs hf hp
  obtain ⟨ptr, hptr⟩ : ∃ ptr, stored m r i =
      (prepared m r).writeClusters ptr r.parentClusterNumber := ⟨_, rfl⟩
  rw [hptr] at hdisk ⊢
  rw [Machine.writeClusters_disk] at hdisk ⊢
  refine (hq.tears.mono fun _ q => Or.inl q).trans (.write _ _ (Or.inr rfl) fun through => ?_)
  rw [hdisk]
  refine (Disk.putEntry_tear hr.2 through).imp (fun ht => ?_) id
  rw [ht]
  exact hq.last

include h in
/-- The tree changes with one sector of the first write. -/
theorem deleted_tears {i : Fin 64} {p : List Key}
    (hp : m.disk.dirAt p = some r.parentClusterNumber) (hi : 2 ≤ i)
    (hl : ((m.disk.table r.parentClusterNumber).table i).Live) :
    TearsThrough (fun d => d = m.disk ∨
      Disk.Quiet (m.disk.putEntry r.parentClusterNumber i 0) d) m (deleted m r i) := by
  have hr := h.image.reachable_range ⟨p, hp⟩
  have q := deleted_quiet h hp hi hl
  rw [deleted_disk] at q
  have p0 : TearsThrough (fun d => d = m.disk ∨
      Disk.Quiet (m.disk.putEntry r.parentClusterNumber i 0) d) m
      { m with driver := (deleted m r i).driver } := .of_same rfl rfl (Or.inl rfl)
  refine p0.trans (.trans (.write _ _ (Or.inr (Disk.Quiet.refl _)) fun through => ?_)
    (.write _ _ (Or.inr q) fun through => Or.inr ?_))
  · rcases Disk.putEntry_tear (d := m.disk) (i := i) (e := 0) hr.2 through with ht | ht
    · exact Or.inl ht
    · refine Or.inr ?_
      show Disk.Quiet _ (m.disk.tear (m.disk.putEntry r.parentClusterNumber i 0) through)
      rw [ht]
      exact Disk.Quiet.refl _
  · exact (Disk.Quiet.refl _).tear q through

include h in
/-- **Crash points within cluster writes.** Wherever an admissible request is cut short,
the disk has the tree from before it or the tree from after it. -/
theorem step_tears {call : Call} (ha : call.Admissible m.disk) (hstep : step m call = .ok m')
    (h' : m'.WellFormed) :
    TearsThrough (EitherTree (m.disk.tree h.image) (m'.disk.tree h'.image)) m m' := by
  cases call with
  | write r =>
    obtain ⟨⟨p, hp⟩, hs⟩ := ha
    rcases write_cases h ⟨p, hp⟩ hs with ⟨_, hw⟩ | ⟨_, _, hw⟩ | ⟨i, hst, hw⟩
    · cases (step_write hw).symm.trans hstep
      exact .of_same rfl rfl ⟨h.image, Or.inl rfl⟩
    · cases (step_write hw).symm.trans hstep
      exact .of_same rfl rfl ⟨h.image, Or.inl rfl⟩
    · cases (step_write hw).symm.trans hstep
      refine (stored_tears h hs hst.space hp).mono ?_
      rintro d (q | rfl)
      · exact ⟨q.wellFormed h.image, Or.inl (q.tree_eq h.image _)⟩
      · exact ⟨h'.image, Or.inr rfl⟩
  | delete r =>
    obtain ⟨hc, hk, ho⟩ := ha
    rcases delete_cases h hc hk ho with ⟨_, hd⟩ | ⟨i, _, ⟨⟨p, hp⟩, hi, hlive⟩, hd⟩
    · cases (step_delete hd).symm.trans hstep
      exact .of_same rfl rfl ⟨h.image, Or.inl rfl⟩
    · cases (step_delete hd).symm.trans hstep
      have hw := Disk.unlink_wellFormed h.image hp hi hlive
      refine (deleted_tears h hp hi hlive).mono ?_
      rintro d (rfl | q)
      · exact ⟨h.image, Or.inl rfl⟩
      · refine ⟨q.wellFormed hw, Or.inr ?_⟩
        rw [q.tree_eq hw, (deleted_quiet h hp hi hlive).tree_eq hw h'.image]
  | read r =>
    cases step_read_same hstep
    exact .of_same rfl rfl ⟨h.image, Or.inl rfl⟩
  | readDirectory r =>
    cases hstep
    exact .of_same rfl rfl ⟨h.image, Or.inl rfl⟩

end Operations

end KajijOSta.Fat32
