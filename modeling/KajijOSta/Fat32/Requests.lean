import KajijOSta.Fat32.Deleting
import KajijOSta.Fat32.Storing

/-! # Requests on a well-formed state, and the tree file system they implement

`serve` is one request of the driver interface. For a parent that is a
directory of the tree, each operation is one of a few cases; `Answers` states
the same cases over trees, without clusters, and `serve_answers` is the
simulation between the two. -/
namespace KajijOSta.Fat32
open KajijOSta.LinkedChain KajijOSta.NamedTree KajijOSta.WriteLog

/-! ## Requests -/

inductive Call
  | write (request : FAT32DriverRequest)
  | delete (request : FAT32DriverRequest)
  | read (request : FAT32DriverRequest)
  | readDirectory (request : FAT32DriverRequest)

def Call.request : Call → FAT32DriverRequest
  | .write r | .delete r | .read r | .readDirectory r => r

/-- What the caller gets: the return code and its buffer. -/
structure Reply where
  code : Int8
  buf : Memory

def serve (m : Machine) : Call → Except Fault (Reply × Machine)
  | .write r => (write m r).map fun x => (⟨x.1, r.buf⟩, x.2)
  | .delete r => (delete m r).map fun x => (⟨x.1, r.buf⟩, x.2)
  | .read r => (read m r).map fun x => (⟨x.1, x.2⟩, m)
  | .readDirectory r => .ok (⟨(readDirectory m r).1, (readDirectory m r).2⟩, m)

/-! ## The cases of each operation -/

section Cases
variable {m : Machine} {r : FAT32DriverRequest} {p : List Key} {c : UInt32} (h : m.WellFormed)

include h in
theorem parent_marked (hc : m.disk.Reachable c) : m.fat.get? c = some fat32FatEndOfFile := by
  rw [fat_eq h]
  exact (h.image.directory c hc).marked

variable (hc : m.disk.Reachable r.parentClusterNumber)

/-- The parent has a slot under the request's name. -/
def Taken (m : Machine) (r : FAT32DriverRequest) : Prop :=
  ∃ i, 2 ≤ i ∧ ((m.disk.table r.parentClusterNumber).table i).key = r.key

/-- No slot or no space is left for what the request writes. -/
def NoRoom (m : Machine) (r : FAT32DriverRequest) : Prop :=
  vacantSlot (m.disk.table r.parentClusterNumber) = none ∨
    (freeClusters m.fat).length < required r

/-- What `write` needs to store into slot `i`. -/
structure Storable (m : Machine) (r : FAT32DriverRequest) (i : Fin 64) : Prop where
  free : ∀ j, 2 ≤ j → ((m.disk.table r.parentClusterNumber).table j).key ≠ r.key
  vacant : vacantSlot (m.disk.table r.parentClusterNumber) = some i
  space : required r ≤ (freeClusters m.fat).length

include h hc in
/-- `write` in a directory of the tree: the name is taken, or there is no room,
or the entry is stored. -/
theorem write_cases (hs : r.bufferSize.toNat ≤ 255 * clusterSize) :
    (Taken m r ∧ write m r = .ok (1, m)) ∨
    (¬ Taken m r ∧ NoRoom m r ∧ write m r = .ok (-1, m)) ∨
    ∃ i, Storable m r i ∧ write m r = .ok (0, stored m r i) := by
  have hm := parent_marked h hc
  by_cases ht : Taken m r
  · obtain ⟨i, hi, hk⟩ := ht
    exact Or.inl ⟨⟨i, hi, hk⟩, write_taken hm hi hk⟩
  · have hfree : ∀ j, 2 ≤ j → ((m.disk.table r.parentClusterNumber).table j).key ≠ r.key :=
      fun j hj hk => ht ⟨j, hj, hk⟩
    refine Or.inr ?_
    cases hv : vacantSlot (m.disk.table r.parentClusterNumber) with
    | none => exact Or.inl ⟨ht, Or.inl hv, write_full hm hfree hv⟩
    | some i =>
      by_cases hf : required r ≤ (freeClusters m.fat).length
      · exact Or.inr ⟨i, ⟨hfree, hv, hf⟩, write_stores hm hfree hv (required_pos hs) hf⟩
      · exact Or.inl ⟨ht, Or.inr (not_le.mp hf), write_no_space hm hfree hv (not_le.mp hf)⟩

include h hc in
/-- A slot is vacant only where it is zero, so a stored name is never zero. -/
theorem Storable.named {i : Fin 64} (hst : Storable m r i) : r.key ≠ 0 := by
  intro h0
  obtain ⟨hi, hl, _⟩ := vacantSlot_eq_some.mp hst.vacant
  rcases (h.image.directory _ hc).slots i hi with hz | hlive
  · exact hst.free i hi (by rw [hz, h0, key_zero])
  · exact hl hlive.1

theorem Storable.lookup {i : Fin 64} (hst : Storable m r i) :
    m.disk.lookup r.parentClusterNumber r.key = none :=
  Disk.lookup_none.mpr fun j hj _ => hst.free j hj

include h hc in
theorem Storable.wellFormed {i : Fin 64} (hst : Storable m r i)
    (hs : r.bufferSize.toNat ≤ 255 * clusterSize) : (stored m r i).WellFormed := by
  obtain ⟨p, hp⟩ := hc
  exact stored_wellFormed h hs hst.space hp (hst.named h ⟨p, hp⟩) hst.vacant hst.lookup

include h hc in
/-- `delete` in a directory of the tree acts on the entry of the name, if there
is one. -/
theorem delete_cases (hk : r.key ≠ 0) (ho : r.key ≠ m.disk.ownKey r.parentClusterNumber) :
    (m.disk.slotOf r.parentClusterNumber r.key = none ∧ delete m r =
      .ok (1, { m with driver.dirTableBuf := m.disk.table r.parentClusterNumber })) ∨
    ∃ i, m.disk.slotOf r.parentClusterNumber r.key = some i ∧
      m.disk.LiveAt r.parentClusterNumber i ∧ delete m r = .ok (0, deleted m r i) := by
  have hfind := (h.image.directory _ hc).find_slotOf hk ho
  cases hs : m.disk.slotOf r.parentClusterNumber r.key with
  | none => exact Or.inl ⟨rfl, delete_missing (hfind.trans hs)⟩
  | some i =>
    obtain ⟨hi, hl, _⟩ := Disk.slotOf_some hs
    have hlive : m.disk.LiveAt r.parentClusterNumber i := ⟨hc, hi, hl⟩
    exact Or.inr ⟨i, rfl, hlive, (delete_found (hfind.trans hs)).trans (deleteSlot_live h hlive)⟩

/-! ### Reading a file -/

theorem clusterCount_mod (size : UInt32) (hs : size.toNat < 2 ^ 24) :
    (clustersFor size).toNat ≤ clusterCount size := by
  rw [clustersFor_eq hs, UInt8.toNat_ofNat']
  exact Nat.mod_le _ _

include h in
/-- The files of an image are smaller than the exact range of `float`. -/
theorem filesize_lt {i : Fin 64} (hl : m.disk.LiveAt c i)
    (hf : ¬ ((m.disk.table c).table i).IsFolder) :
    ((m.disk.table c).table i).filesize.toNat < 2 ^ 24 := by
  have he := h.image.entry c i hl
  have hlen := he.length hf
  have hle := he.length_le
  simp only [clusterCount, clusterSize_eq, clusterMapSize_eq] at hlen hle
  omega

include h in
/-- The loop of `read` copies the bytes of a file. -/
theorem readChain_live {i : Fin 64} (hl : m.disk.LiveAt c i)
    (hf : ¬ ((m.disk.table c).table i).IsFolder) (buf : Memory) :
    ∃ buf', readChain m chainFuel ((m.disk.table c).table i).cluster 0 buf = .ok buf' ∧
      ∀ (j : Nat) (hj : j < (m.disk.content ((m.disk.table c).table i)).length),
        buf' j = (m.disk.content ((m.disk.table c).table i))[j] := by
  have he := h.image.entry c i hl
  have hch := h.image.chain hl
  have hnext : m.disk.next = m.fat.get? := funext fun x => (fat_eq h x).symm
  rw [hnext] at hch
  have hle : (m.disk.clustersOf ((m.disk.table c).table i)).length ≤ chainFuel :=
    Nat.le_succ_of_le he.length_le
  obtain ⟨buf', hrun, hbuf⟩ := @readChain_of_chain m _ _ _ 0 buf hch hle
  refine ⟨buf', hrun, fun j hj => ?_⟩
  have hj' : j < ((m.disk.table c).table i).filesize.toNat := by
    unfold Disk.content at hj
    rw [List.length_map, List.length_range] at hj
    exact hj
  have hin : clusterSize * 0 ≤ j ∧
      j < clusterSize * (0 + (m.disk.clustersOf ((m.disk.table c).table i)).length) := by
    have hlen := he.length hf
    simp only [clusterCount, clusterSize_eq] at hlen ⊢
    omega
  rw [hbuf j, if_pos hin]
  simp [Disk.content]

include h hc in
/-- `read` in a directory of the tree reads the entry of the name, if there is
one. -/
theorem read_slotOf (hk : r.key ≠ 0) (ho : r.key ≠ m.disk.ownKey r.parentClusterNumber) :
    read m r = match m.disk.lookup r.parentClusterNumber r.key with
      | some e => readEntry m r e
      | none => .ok (2, r.buf) := by
  have hfind := (h.image.directory _ hc).find_slotOf hk ho
  simp only [read, parent_marked h hc, readTable_eq, hfind, ne_eq, not_true_eq_false, if_false,
    Disk.lookup]
  cases m.disk.slotOf r.parentClusterNumber r.key <;> rfl

include h in
/-- `read` of a live entry: a folder, a buffer that is too small, or the bytes. -/
theorem readEntry_cases {i : Fin 64} (hl : m.disk.LiveAt c i) :
    let e := (m.disk.table c).table i
    (e.IsFolder ∧ readEntry m r e = .ok (1, r.buf)) ∨
    (¬ e.IsFolder ∧ r.bufferSize.toNat < clusterSize * clusterCount e.filesize ∧
      readEntry m r e = .ok (-1, r.buf)) ∨
    (¬ e.IsFolder ∧ ∃ buf, readEntry m r e = .ok (0, buf) ∧
      ∀ (j : Nat) (hj : j < (m.disk.content e).length), buf j = (m.disk.content e)[j]) := by
  intro e
  by_cases hf : e.IsFolder
  · exact Or.inl ⟨hf, if_pos hf⟩
  · refine Or.inr ?_
    have hmod := clusterCount_mod e.filesize (filesize_lt h hl hf)
    have hne : ¬ e.attr = attrSubdirectory := hf
    by_cases hb : r.bufferSize.toNat / clusterSize < (clustersFor e.filesize).toNat
    · refine Or.inl ⟨hf, ?_, ?_⟩
      · simp only [clusterSize_eq] at hb ⊢
        omega
      · unfold readEntry
        rw [if_neg hne, if_pos hb]
    · obtain ⟨buf, hrun, hbuf⟩ := readChain_live h hl hf r.buf
      refine Or.inr ⟨hf, buf, ?_, hbuf⟩
      unfold readEntry
      rw [if_neg hne, if_neg hb, hrun]
      rfl

end Cases

end KajijOSta.Fat32
