import KajijOSta.Fat32.Outcome

/-! # What `write` takes from behind the buffer

`write` copies whole clusters from `buf`, so the last one carries the bytes that
follow the buffer in memory to the disk. Two requests that differ in those bytes
only have one and the same effect exactly when neither stores anything, or when
they agree up to the end of the last cluster too (`sameEffect_iff`). -/
namespace KajijOSta.Fat32

/-- Two requests for one name with the same buffer. -/
structure SameBuffer (r r' : FAT32DriverRequest) : Prop where
  parent : r'.parentClusterNumber = r.parentClusterNumber
  name : r'.name = r.name
  ext : r'.ext = r.ext
  size : r'.bufferSize = r.bufferSize
  bytes : ∀ j, j < r.bufferSize.toNat → r'.buf j = r.buf j

/-- What can be seen of a `write`: its code, the cached FAT and the disk. -/
def observe : Except Fault (Int8 × Machine) →
    Except Fault (Int8 × FAT32FileAllocationTable × Disk) :=
  Except.map fun x => (x.1, x.2.fat, x.2.disk)

/-- The two writes cannot be told apart, at once or by a later read. -/
structure SameEffect (m : Machine) (r r' : FAT32DriverRequest) : Prop where
  outcome : observe (write m r) = observe (write m r')
  reads : ∀ code code' m₁ m₂, write m r = .ok (code, m₁) → write m r' = .ok (code', m₂) →
    ∀ q, read m₁ q = read m₂ q ∧ readDirectory m₁ q = readDirectory m₂ q

/-- `write` finds nothing against the request. -/
def Accepted (m : Machine) (r : FAT32DriverRequest) : Prop :=
  m.fat.get? r.parentClusterNumber = some fat32FatEndOfFile ∧ ¬ Taken m r ∧ ¬ NoRoom m r

/-- The bytes from the end of the buffer to the end of its last cluster are the same. -/
def SameTail (r r' : FAT32DriverRequest) : Prop :=
  ∀ j, r.bufferSize.toNat ≤ j → j < clusterSize * clusterCount r.bufferSize →
    r'.buf j = r.buf j

/-! ## Reads look at the FAT and the disk -/

section Reads
variable {m m' : Machine} (hd : m'.disk = m.disk) (hf : m'.fat = m.fat)

include hd hf in
theorem readChain_congr : ∀ (fuel : Nat) (c : UInt32) (k : Nat) (buf : Memory),
    readChain m' fuel c k buf = readChain m fuel c k buf
  | 0, _, _, _ => rfl
  | fuel + 1, c, k, buf => by
    simp only [readChain, hd, hf]
    cases m.fat.get? c with
    | none => rfl
    | some next => simp only [readChain_congr fuel next (k + 1)]

include hd hf in
theorem read_congr (q : FAT32DriverRequest) : read m' q = read m q := by
  have hentry : ∀ e, readEntry m' q e = readEntry m q e := fun e => by
    unfold readEntry
    rw [readChain_congr hd hf]
  simp only [read, hd, hf, hentry]

include hd in
theorem readDirectory_congr (q : FAT32DriverRequest) : readDirectory m' q = readDirectory m q := by
  simp only [readDirectory, hd]

end Reads

/-- What is seen of two writes settles what is read after them. -/
theorem SameEffect.of_outcome {m : Machine} {r r' : FAT32DriverRequest}
    (h : observe (write m r) = observe (write m r')) : SameEffect m r r' := by
  refine ⟨h, fun code code' m₁ m₂ hw hw' q => ?_⟩
  rw [hw, hw'] at h
  simp only [observe, Except.map, Except.ok.injEq, Prod.mk.injEq] at h
  obtain ⟨_, hfat, hdisk⟩ := h
  exact ⟨read_congr hdisk hfat q, readDirectory_congr hdisk q⟩

/-! ## Writes from two memories -/

theorem writeClusters_congr {p p' : Memory} (d : Disk) (c : UInt32)
    (h : ∀ b, b < clusterSize → p' b = p b) : writeClusters d p' c 1 = writeClusters d p c 1 := by
  funext a
  rw [writeClusters_apply, writeClusters_apply]
  split
  · rename_i hin
    exact h _ (by omega)
  · rfl

/-- The loop of `write` sees its buffer up to the end of the last cluster. -/
theorem writeFile_congr : ∀ (l : List UInt32) {m m' : Machine} {buf buf' : Memory},
    m'.disk = m.disk → m'.fat = m.fat →
    (∀ j, j < clusterSize * l.length → buf' j = buf j) →
    (writeFile m' buf' l).disk = (writeFile m buf l).disk
  | [], _, _, _, _, hd, _, _ => hd
  | c :: l, m, m', buf, buf', hd, hf, hb => by
    simp only [writeFile]
    have hfat : (m'.setFat c (l.headD fat32FatEndOfFile)).fat =
        (m.setFat c (l.headD fat32FatEndOfFile)).fat :=
      congrArg (fun t => t.set c (l.headD fat32FatEndOfFile)) hf
    refine writeFile_congr l ?_ hfat fun j hj => ?_
    · rw [Machine.writeClusters_disk, Machine.writeClusters_disk, Machine.flushFat_disk,
        Machine.flushFat_disk, Machine.setFat_disk, Machine.setFat_disk, hd, hfat]
      refine writeClusters_congr _ c fun b hlt => hb b ?_
      simp only [clusterSize_eq, List.length_cons] at hlt ⊢
      omega
    · rw [Memory.from_apply, Memory.from_apply]
      refine hb _ ?_
      simp only [clusterSize_eq, List.length_cons] at hj ⊢
      omega

section TwoMemories
variable {m : Machine} {r : FAT32DriverRequest} {buf : Memory}

/-- Both requests are refused alike, or both store. -/
theorem observe_refused (hr : ¬ Accepted m r) :
    observe (write m r) = observe (write m { r with buf := buf }) := by
  cases hv : m.fat.get? r.parentClusterNumber with
  | none => simp only [write, hv]
  | some v =>
    by_cases hend : v = fat32FatEndOfFile
    · subst hend
      by_cases ht : Taken m r
      · obtain ⟨i, hi, hk⟩ := ht
        rw [write_taken hv hi hk, @write_taken m { r with buf := buf } hv i hi hk]
      · have hfree : ∀ j, 2 ≤ j → ((m.disk.table r.parentClusterNumber).table j).key ≠ r.key :=
          fun j hj hk => ht ⟨j, hj, hk⟩
        have hroom : NoRoom m r := by
          by_contra hno
          exact hr ⟨hv, ht, hno⟩
        cases hslot : vacantSlot (m.disk.table r.parentClusterNumber) with
        | none => rw [write_full hv hfree hslot, @write_full m { r with buf := buf } hv hfree hslot]
        | some i =>
          have hspace : (freeClusters m.fat).length < required r := by
            rcases hroom with hroom | hroom
            · rw [hslot] at hroom
              cases hroom
            · exact hroom
          rw [write_no_space hv hfree hslot hspace,
            @write_no_space m { r with buf := buf } hv hfree i hslot hspace]
    · rw [write_unmarked hv hend, @write_unmarked m { r with buf := buf } v hv hend]

variable (hs : r.bufferSize.toNat ≤ 255 * clusterSize)

include hs in
/-- An accepted request is stored, in the same slot whatever the buffer holds. -/
theorem accepted_stores (ha : Accepted m r) : ∃ i, required r ≤ (freeClusters m.fat).length ∧
    ∀ b, write m { r with buf := b } = .ok (0, stored m { r with buf := b } i) := by
  obtain ⟨hm, ht, hroom⟩ := ha
  obtain ⟨hv, hf⟩ := not_or.mp hroom
  obtain ⟨i, hv⟩ := Option.ne_none_iff_exists'.mp hv
  have hfree : ∀ j, 2 ≤ j → ((m.disk.table r.parentClusterNumber).table j).key ≠ r.key :=
    fun j hj hk => ht ⟨j, hj, hk⟩
  exact ⟨i, not_lt.mp hf, fun b => @write_stores m { r with buf := b } hm hfree i hv
    (required_pos hs) (not_lt.mp hf)⟩

variable (hn : r.bufferSize ≠ 0)

include hs hn in
theorem observe_sameTail (hb : ∀ j, j < clusterSize * clusterCount r.bufferSize →
    buf j = r.buf j) : observe (write m r) = observe (write m { r with buf := buf }) := by
  by_cases ha : Accepted m r
  · obtain ⟨i, hf, hw⟩ := accepted_stores hs ha
    have hlen : (allocated m r).length = clusterCount r.bufferSize := by
      rw [allocated_length hf, required_eq hs, if_neg hn]
    have hdata : (writeFile m buf (allocated m r)).disk =
        (writeFile m r.buf (allocated m r)).disk :=
      writeFile_congr _ rfl rfl (by rw [hlen]; exact hb)
    have hprep : (prepared m { r with buf := buf }).disk = (prepared m r).disk := by
      unfold prepared
      rw [if_neg hn, if_neg hn]
      exact hdata
    have hdisk : (stored m { r with buf := buf } i).disk = (stored m r i).disk := by
      unfold stored
      rw [Machine.writeClusters_disk, Machine.writeClusters_disk, hprep]
      rfl
    have hfat : (stored m { r with buf := buf } i).fat = (stored m r i).fat := by
      rw [@stored_fat m { r with buf := buf } i hf, stored_fat hf]
      rfl
    rw [hw buf, show write m r = .ok (0, stored m r i) from hw r.buf]
    simp only [observe, Except.map, hdisk, hfat]
  · exact observe_refused ha

variable (h : m.WellFormed)

include hs hn h in
/-- An accepted request puts the tail of its last cluster on the disk. -/
theorem sameTail_of_observe (ha : Accepted m r)
    (ho : observe (write m r) = observe (write m { r with buf := buf })) {j : Nat}
    (hj : j < clusterSize * clusterCount r.bufferSize) : buf j = r.buf j := by
  obtain ⟨i, hf, hw⟩ := accepted_stores hs ha
  rw [hw buf, show write m r = .ok (0, stored m r i) from hw r.buf] at ho
  simp only [observe, Except.map, Except.ok.injEq, Prod.mk.injEq] at ho
  obtain ⟨_, _, hdisk⟩ := ho
  have hlt : j / clusterSize < (allocated m r).length := by
    rw [allocated_length hf, required_eq hs, if_neg hn]
    simp only [clusterSize_eq] at hj ⊢
    omega
  have hx := List.getElem?_eq_getElem hlt
  have hmod : j % clusterSize < clusterSize := Nat.mod_lt _ clusterSize_pos
  have hbyte := @stored_data m { r with buf := buf } i h ha.1 hn _ _ hx _ hmod
  rw [← hdisk, stored_data h ha.1 hn hx hmod, Nat.div_add_mod] at hbyte
  exact hbyte.symm

end TwoMemories

/-- **When `write` stores only the buffer.** Two requests that agree on all but the
memory behind the buffer have the same effect exactly when they are not accepted,
or agree to the end of the last cluster. -/
theorem sameEffect_iff {m : Machine} {r r' : FAT32DriverRequest} (h : m.WellFormed)
    (hn : r.bufferSize ≠ 0) (hs : r.bufferSize.toNat ≤ 255 * clusterSize)
    (hb : SameBuffer r r') : SameEffect m r r' ↔ ¬ Accepted m r ∨ SameTail r r' := by
  have hr' : r' = { r with buf := r'.buf } := by
    obtain ⟨hp, hname, hext, hsize, _⟩ := hb
    cases r'
    simp_all
  constructor
  · intro he
    by_cases ha : Accepted m r
    · have ho := he.outcome
      rw [hr'] at ho
      exact Or.inr fun j _ hj => sameTail_of_observe hs hn h ha ho hj
    · exact Or.inl ha
  · intro hcond
    refine SameEffect.of_outcome ?_
    rw [hr']
    rcases hcond with ha | ht
    · exact observe_refused ha
    · refine observe_sameTail hs hn fun j hj => ?_
      by_cases hlt : j < r.bufferSize.toNat
      · exact hb.bytes j hlt
      · exact ht j (not_lt.mp hlt) hj

/-- A request for the file `a` with one byte, and something else behind it. -/
def tailRequest (tail : UInt8) : FAT32DriverRequest :=
  { letterRequest 'a' 1 with buf := fun j => if j = 0 then 7 else tail }

theorem tailRequest_sameBuffer (t t' : UInt8) : SameBuffer (tailRequest t) (tailRequest t') := by
  refine ⟨rfl, rfl, rfl, rfl, fun j hj => ?_⟩
  have hj0 : j = 0 := Nat.lt_one_iff.mp hj
  subst hj0
  rfl

theorem tailRequest_accepted (t : UInt8) :
    Accepted (rootedMachine (letterName 'r')) (tailRequest t) := by
  have hst : Storable (rootedMachine (letterName 'r')) (tailRequest t) 2 :=
    rooted_storable rfl (letterRequest_named 1)
  refine ⟨parent_marked (rootedMachine_wellFormed _) (Disk.reachable_root _),
    fun ⟨j, hj, hk⟩ => hst.free j hj hk, fun hno => ?_⟩
  rcases hno with hno | hno
  · rw [hst.vacant] at hno
    cases hno
  · exact absurd hst.space (not_le.mpr hno)

/-- The same up to the end of the cluster, and 9 behind it. -/
def beyondRequest : FAT32DriverRequest :=
  { tailRequest 8 with buf := fun j => if j < clusterSize then (tailRequest 8).buf j else 9 }

theorem sameEffect_rooted : beyondRequest.buf clusterSize ≠ (tailRequest 8).buf clusterSize ∧
    SameEffect (rootedMachine (letterName 'r')) (tailRequest 8) beyondRequest := by
  have hbytes : ∀ j, j < clusterSize → beyondRequest.buf j = (tailRequest 8).buf j :=
    fun j hj => if_pos hj
  have hsame : SameBuffer (tailRequest 8) beyondRequest :=
    ⟨rfl, rfl, rfl, rfl, fun j hj => hbytes j (Nat.lt_trans hj (by decide))⟩
  exact ⟨by decide, (sameEffect_iff (rootedMachine_wellFormed _)
    (by decide : (1 : UInt32) ≠ 0) (by decide : (1 : UInt32).toNat ≤ 255 * clusterSize)
    hsame).mpr (Or.inr fun j _ hj => hbytes j hj)⟩

/-- The byte behind a buffer of one byte is on the disk afterwards. -/
theorem tail_not_sameEffect :
    (rootedMachine (letterName 'r')).WellFormed ∧ SameBuffer (tailRequest 8) (tailRequest 9) ∧
    ¬ SameEffect (rootedMachine (letterName 'r')) (tailRequest 8) (tailRequest 9) := by
  have h := rootedMachine_wellFormed (letterName 'r')
  refine ⟨h, tailRequest_sameBuffer 8 9, fun he => ?_⟩
  have hbyte := @sameTail_of_observe (rootedMachine (letterName 'r')) (tailRequest 8)
    (tailRequest 9).buf (by decide : (1 : UInt32).toNat ≤ 255 * clusterSize)
    (by decide : (1 : UInt32) ≠ 0) h (tailRequest_accepted 8) he.outcome 1 (by decide)
  exact absurd hbyte (by decide)

end KajijOSta.Fat32
