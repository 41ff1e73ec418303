import KajijOSta.Fat32.Overread
import KajijOSta.Lib.Lockstep

/-! # Replies and buffers

What a request does to the buffer behind its pointer, and what it takes from it, whatever
the disk holds: both end at the last cluster a chain can have (`replyReach`). -/
namespace KajijOSta.Fat32
open KajijOSta.Lockstep

/-- The bytes of a buffer that a request may touch. -/
def replyReach : Nat := clusterSize * chainFuel

/-! ## How far a reply reaches -/

section Reach
variable {m : Machine} {r : FAT32DriverRequest}

theorem readVisits_length : ∀ {fuel : Nat} {c : UInt32} {l : List UInt32},
    readVisits m fuel c = .ok l → l.length ≤ fuel
  | 0, c, l, h => by
    unfold readVisits at h
    split at h
    · cases h
      exact Nat.le_refl _
    · cases h
  | fuel + 1, c, l, h => by
    unfold readVisits at h
    split at h
    · cases h
      exact Nat.zero_le _
    · cases hc : m.fat.get? c with
      | none => simp [hc] at h
      | some next =>
        simp only [hc] at h
        cases hn : readVisits m fuel next with
        | error f => simp [hn, Except.map] at h
        | ok l' =>
          simp only [hn, Except.map, Except.ok.injEq] at h
          subst h
          exact Nat.succ_le_succ (readVisits_length hn)

theorem readEntry_copies {e : FAT32DirectoryEntry} {code : Int8} {buf : Memory}
    (h : readEntry m r e = .ok (code, buf)) :
    ∃ l : List UInt32, l.length ≤ chainFuel ∧ buf = copyClusters m.disk 0 r.buf l := by
  unfold readEntry at h
  split at h
  · cases h
    exact ⟨[], Nat.zero_le _, rfl⟩
  · split at h
    · cases h
      exact ⟨[], Nat.zero_le _, rfl⟩
    · rw [readChain_eq] at h
      cases hv : readVisits m chainFuel e.cluster with
      | error f => simp [hv, Except.map, bind, Except.bind] at h
      | ok l =>
        simp only [hv, Except.map, bind, Except.bind, pure, Except.pure, Except.ok.injEq,
          Prod.mk.injEq] at h
        exact ⟨l, readVisits_length hv, h.2.symm⟩

theorem read_copies {code : Int8} {buf : Memory} (h : read m r = .ok (code, buf)) :
    ∃ l : List UInt32, l.length ≤ chainFuel ∧ buf = copyClusters m.disk 0 r.buf l := by
  unfold read at h
  split at h
  · cases h
  · split at h
    · cases h
      exact ⟨[], Nat.zero_le _, rfl⟩
    · simp only [] at h
      split at h
      · exact readEntry_copies h
      · cases h
        exact ⟨[], Nat.zero_le _, rfl⟩

theorem readDirectory_copies (m : Machine) (r : FAT32DriverRequest) :
    ∃ l : List UInt32, l.length ≤ chainFuel ∧
      (readDirectory m r).2 = copyClusters m.disk 0 r.buf l := by
  unfold readDirectory
  simp only []
  split
  · split
    · exact ⟨[], Nat.zero_le _, rfl⟩
    · split
      · exact ⟨[], Nat.zero_le _, rfl⟩
      · rename_i i _ _ _
        refine ⟨[((readTable m.disk r.parentClusterNumber).table i).cluster],
          Nat.succ_le_succ (Nat.zero_le _), funext fun j => ?_⟩
        refine (readClusters_apply _ _ _ _).trans ?_
        rw [copyClusters_apply]
        split
        · rename_i hj
          rw [if_pos (by simpa using hj), Disk.byteAlong]
          simp [Nat.div_eq_of_lt hj, Nat.mod_eq_of_lt hj]
        · rename_i hj
          rw [if_neg (by simpa using hj)]
  · exact ⟨[], Nat.zero_le _, rfl⟩

/-- A reply is the buffer with some clusters of the disk copied to it. -/
theorem serve_copies {call : Call} {reply : Reply} {m' : Machine}
    (h : serve m call = .ok (reply, m')) :
    ∃ l : List UInt32, l.length ≤ chainFuel ∧
      reply.buf = copyClusters m.disk 0 call.request.buf l := by
  cases call with
  | write r =>
    cases hw : write m r with
    | error f => simp [serve, hw, Except.map] at h
    | ok x =>
      simp only [serve, hw, Except.map] at h
      cases h
      exact ⟨[], Nat.zero_le _, rfl⟩
  | delete r =>
    cases hd : delete m r with
    | error f => simp [serve, hd, Except.map] at h
    | ok x =>
      simp only [serve, hd, Except.map] at h
      cases h
      exact ⟨[], Nat.zero_le _, rfl⟩
  | read r =>
    cases hr : read m r with
    | error f => simp [serve, hr, Except.map] at h
    | ok x =>
      simp only [serve, hr, Except.map] at h
      cases h
      exact read_copies hr
  | readDirectory r =>
    cases h
    exact readDirectory_copies m r

/-- A reply leaves the buffer as it was behind the reach. -/
theorem serve_reach {call : Call} {reply : Reply} {m' : Machine}
    (h : serve m call = .ok (reply, m')) {j : Nat} (hj : replyReach ≤ j) :
    reply.buf j = call.request.buf j := by
  obtain ⟨l, hl, hbuf⟩ := serve_copies h
  rw [hbuf, copyClusters_apply, if_neg]
  have hlen := Nat.mul_le_mul_left clusterSize hl
  rw [Nat.zero_add]
  exact fun hin => Nat.not_lt.mpr (Nat.le_trans hlen hj) hin.2

end Reach

/-! ## Two memories -/

namespace Call

def withBuf : Call → Memory → Call
  | .write r, buf => .write { r with buf := buf }
  | .delete r, buf => .delete { r with buf := buf }
  | .read r, buf => .read { r with buf := buf }
  | .readDirectory r, buf => .readDirectory { r with buf := buf }

end Call

/-- Driver and disk are the same: nothing but the log of the writes may differ. -/
structure Machine.SameState (m m' : Machine) : Prop where
  driver : m'.driver = m.driver
  disk : m'.disk = m.disk

/-- Two replies are the same as far as `S` goes. -/
structure SameReply (S : Nat → Prop) (x y : Reply × Machine) : Prop where
  code : y.1.code = x.1.code
  buf : ∀ j, S j → y.1.buf j = x.1.buf j
  machine : x.2.SameState y.2

section Congruence
variable {m m' : Machine} {buf buf' : Memory}

theorem Machine.SameState.symm (h : m.SameState m') : m'.SameState m :=
  ⟨h.driver.symm, h.disk.symm⟩

theorem Machine.SameState.trans {m'' : Machine} (h : m.SameState m') (h' : m'.SameState m'') :
    m.SameState m'' := ⟨h'.driver.trans h.driver, h'.disk.trans h.disk⟩

theorem Machine.SameState.writeClusters (h : m.SameState m') (ptr : Memory) (c : UInt32) :
    (m.writeClusters ptr c).SameState (m'.writeClusters ptr c) where
  driver := h.driver
  disk := by rw [Machine.writeClusters_disk, Machine.writeClusters_disk, h.disk]

theorem writeFile_driver : ∀ (l : List UInt32) (m : Machine) (buf : Memory),
    (writeFile m buf l).driver = ⟨linkFat m.fat l, m.driver.dirTableBuf⟩
  | [], _, _ => rfl
  | c :: l, m, buf => by
    rw [writeFile, writeFile_driver l, linkFat]
    rfl

/-- The loop of `write` on two memories that are the same up to its end. -/
theorem writeFile_same (l : List UInt32) (h : m.SameState m')
    (hb : ∀ j < clusterSize * l.length, buf' j = buf j) :
    (writeFile m buf l).SameState (writeFile m' buf' l) where
  driver := by
    have hfat : m'.fat = m.fat := congrArg FAT32DriverState.fatTable h.driver
    rw [writeFile_driver, writeFile_driver, h.driver, hfat]
  disk := writeFile_congr l h.disk (congrArg FAT32DriverState.fatTable h.driver) hb

/-- `write` finds no more clusters than a request may touch. -/
theorem findClusters_length (fat : FAT32FileAllocationTable) (n : Nat) :
    clusterSize * (findClusters fat n (List.finRange clusterMapSize) []).length ≤ replyReach := by
  refine Nat.mul_le_mul_left _ (Nat.le_succ_of_le ?_)
  rw [findClusters_eq, List.length_take]
  refine (Nat.min_le_right _ _).trans ?_
  unfold freeClusters
  rw [List.length_map]
  exact (List.length_filter_le _ _).trans (List.length_finRange).le

theorem scanSlots_withBuf (t : FAT32DirectoryTable) (r : FAT32DriverRequest) (buf : Memory) :
    ∀ (l : List (Fin 64)) (i : Fin 64),
      scanSlots t { r with buf := buf } l i = scanSlots t r l i
  | [], _ => rfl
  | j :: l, i => by
    simp only [scanSlots, scanSlots_withBuf t r buf l]
    rfl

theorem write_congr (m : Machine) (r : FAT32DriverRequest) (log : List DiskWrite)
    (hbuf : ∀ j < replyReach, buf j = r.buf j) :
    Matches (fun x y => y.1 = x.1 ∧ x.2.SameState y.2) (write m r)
      (write { m with issued := log } { r with buf := buf }) := by
  have hfat : ({ m with issued := log } : Machine).fat = m.fat := rfl
  simp only [write, hfat, scanSlots_withBuf]
  split
  · exact .error _
  · rename_i v _
    by_cases hv : v ≠ fat32FatEndOfFile
    · rw [if_pos hv, if_pos hv]
      exact .ok ⟨rfl, rfl, rfl⟩
    · rw [if_neg hv, if_neg hv]
      split
      · exact .ok ⟨rfl, rfl, rfl⟩
      · rename_i slot _
        have hlen := findClusters_length m.fat
          (clustersFor r.bufferSize + if decide (r.bufferSize = 0) = true then 1 else 0).toNat
        generalize (clustersFor r.bufferSize +
          if decide (r.bufferSize = 0) = true then 1 else 0).toNat = n at hlen ⊢
        generalize findClusters m.fat n (List.finRange clusterMapSize) [] = l at hlen ⊢
        by_cases hslot : slot = 0
        · rw [if_pos hslot, if_pos hslot]
          exact .ok ⟨rfl, rfl, rfl⟩
        · rw [if_neg hslot, if_neg hslot]
          by_cases hn : l.length < n
          · rw [if_pos hn, if_pos hn]
            exact .ok ⟨rfl, rfl, rfl⟩
          · rw [if_neg hn, if_neg hn]
            cases l with
            | nil => exact .error _
            | cons c l =>
              have hsame : m.SameState { m with issued := log } := ⟨rfl, rfl⟩
              refine .ok ⟨rfl, Machine.SameState.writeClusters ?_ _ _⟩
              by_cases hf : decide (r.bufferSize = 0) = true
              · simp only [if_pos hf]
                exact ⟨rfl, rfl⟩
              · simp only [if_neg hf]
                exact writeFile_same _ hsame fun j hj => hbuf j (Nat.lt_of_lt_of_le hj hlen)

theorem deleteSlot_congr (m : Machine) (r : FAT32DriverRequest) (buf : Memory)
    (log : List DiskWrite) (i : Fin 64) :
    Matches (fun x y => y.1 = x.1 ∧ x.2.SameState y.2) (deleteSlot m r i)
      (deleteSlot { m with issued := log } { r with buf := buf } i) := by
  have hfat : ({ m with issued := log } : Machine).fat = m.fat := rfl
  simp only [deleteSlot, hfat]
  cases freeChain (2 * chainFuel) (m.driver.dirTableBuf.table i).cluster m.fat with
  | error f => exact .error f
  | ok fat => exact .ok ⟨rfl, rfl, rfl⟩

theorem delete_congr (m : Machine) (r : FAT32DriverRequest) (buf : Memory)
    (log : List DiskWrite) :
    Matches (fun x y => y.1 = x.1 ∧ x.2.SameState y.2) (delete m r)
      (delete { m with issued := log } { r with buf := buf }) := by
  unfold delete
  simp only [sameKey]
  split
  · exact deleteSlot_congr _ r buf log _
  · exact .ok ⟨rfl, rfl, rfl⟩

/-- Copying clusters keeps two memories the same wherever they are. -/
theorem copyClusters_same (d : Disk) (k : Nat) (l : List UInt32) {j : Nat} (h : buf' j = buf j) :
    copyClusters d k buf' l j = copyClusters d k buf l j := by
  rw [copyClusters_apply, copyClusters_apply, h]

theorem readEntry_withBuf (m : Machine) (r : FAT32DriverRequest) (buf : Memory)
    (e : FAT32DirectoryEntry) :
    Matches (fun x y => y.1 = x.1 ∧ ∀ j, buf j = r.buf j → y.2 j = x.2 j) (readEntry m r e)
      (readEntry m { r with buf := buf } e) := by
  unfold readEntry
  by_cases hf : e.attr = attrSubdirectory
  · rw [if_pos hf, if_pos hf]
    exact .ok ⟨rfl, fun _ h => h⟩
  · rw [if_neg hf, if_neg hf]
    by_cases hs : r.bufferSize.toNat / clusterSize < (clustersFor e.filesize).toNat
    · rw [if_pos hs, if_pos hs]
      exact .ok ⟨rfl, fun _ h => h⟩
    · rw [if_neg hs, if_neg hs, readChain_eq, readChain_eq]
      cases readVisits m chainFuel e.cluster with
      | error f => exact .error f
      | ok l => exact .ok ⟨rfl, fun _ h => copyClusters_same _ _ _ h⟩

theorem read_withBuf (m : Machine) (r : FAT32DriverRequest) (buf : Memory) :
    Matches (fun x y => y.1 = x.1 ∧ ∀ j, buf j = r.buf j → y.2 j = x.2 j) (read m r)
      (read m { r with buf := buf }) := by
  simp only [read, sameKey]
  split
  · exact .error _
  · rename_i v _
    by_cases hv : v ≠ fat32FatEndOfFile
    · rw [if_pos hv, if_pos hv]
      exact .ok ⟨rfl, fun _ h => h⟩
    · rw [if_neg hv, if_neg hv]
      split
      · exact readEntry_withBuf m r buf _
      · exact .ok ⟨rfl, fun _ h => h⟩

theorem readDirectory_withBuf (m : Machine) (r : FAT32DriverRequest) (buf : Memory) :
    (readDirectory m { r with buf := buf }).1 = (readDirectory m r).1 ∧
      ∀ j, buf j = r.buf j →
        (readDirectory m { r with buf := buf }).2 j = (readDirectory m r).2 j := by
  simp only [readDirectory, sameName]
  split
  · rename_i i _
    by_cases hf : ((readTable m.disk r.parentClusterNumber).table i).attr &&& attrSubdirectory = 0
    · rw [if_pos hf, if_pos hf]
      exact ⟨rfl, fun _ h => h⟩
    · rw [if_neg hf, if_neg hf]
      by_cases hs : r.bufferSize < ((readTable m.disk r.parentClusterNumber).table i).filesize
      · rw [if_pos hs, if_pos hs]
        exact ⟨rfl, fun _ h => h⟩
      · rw [if_neg hs, if_neg hs]
        refine ⟨rfl, fun j h => ?_⟩
        simp only [readClusters_apply, h]
  · exact ⟨rfl, fun _ h => h⟩

/-- **Requests from two memories.** -/
theorem serve_congr {S : Nat → Prop} (hm : m.SameState m') (call : Call)
    (hS : ∀ j < replyReach, S j) (hbuf : ∀ j, S j → buf j = call.request.buf j) :
    Matches (SameReply S) (serve m call) (serve m' (call.withBuf buf)) := by
  have hm' : m' = { m with issued := m'.issued } := by
    cases m'
    cases hm.driver
    cases hm.disk
    rfl
  cases call with
  | write r =>
    rw [hm']
    have hw := write_congr m r m'.issued fun j hj => hbuf j (hS j hj)
    exact hw.map fun x y h => ⟨h.1, hbuf, h.2⟩
  | delete r =>
    rw [hm']
    exact (delete_congr m r buf m'.issued).map fun x y h => ⟨h.1, hbuf, h.2⟩
  | read r =>
    have hread := read_congr hm.disk (congrArg FAT32DriverState.fatTable hm.driver)
      { r with buf := buf }
    simp only [Call.withBuf, serve, hread]
    exact (read_withBuf m r buf).map fun x y h => ⟨h.1, fun j hj => h.2 j (hbuf j hj), hm⟩
  | readDirectory r =>
    have hread := readDirectory_congr hm.disk { r with buf := buf }
    obtain ⟨hcode, hsame⟩ := readDirectory_withBuf m r buf
    simp only [Call.withBuf, serve, hread]
    exact .ok ⟨hcode, fun j hj => hsame j (hbuf j hj), hm⟩

end Congruence
end KajijOSta.Fat32
