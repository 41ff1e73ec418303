import KajijOSta.Fat32.Image
import KajijOSta.Lib.Scan
import KajijOSta.Lib.WriteLog

/-! # What each driver function does

One specification for each helper, loop and operation of the driver, for any
state: comparisons, the slot scan, the cluster scan, the copy and free loops,
and the cases of `write`. Later modules use these and do not unfold the code. -/
namespace KajijOSta.Fat32
open KajijOSta.LinkedChain KajijOSta.WriteLog

/-! ## Comparisons and sizes -/

theorem memcmp_eq_zero : ∀ {n : Nat} {s1 s2 : Fin n → UInt8}, memcmp s1 s2 = 0 ↔ s1 = s2
  | 0, s1, s2 => by simp [memcmp, Subsingleton.elim s1 s2]
  | n + 1, s1, s2 => by
    have ih := @memcmp_eq_zero n (fun i => s1 i.succ) (fun i => s2 i.succ)
    unfold memcmp
    by_cases h1 : s1 0 < s2 0
    · simp only [h1, if_true]
      refine ⟨fun h => absurd h (by decide), fun h => ?_⟩
      rw [h] at h1
      exact absurd h1 (by simp)
    · by_cases h2 : s2 0 < s1 0
      · simp only [h1, h2, if_true, if_false]
        refine ⟨fun h => absurd h (by decide), fun h => ?_⟩
        rw [h] at h2
        exact absurd h2 (by simp)
      · have h0 : s1 0 = s2 0 := by
          rw [← UInt8.toNat_inj]
          simp only [UInt8.lt_iff_toNat_lt] at h1 h2
          omega
        simp only [h1, h2, if_false, ih]
        constructor
        · intro h
          funext i
          refine Fin.cases h0 (fun j => ?_) i
          exact congrFun h j
        · rintro rfl; rfl

@[simp] theorem sameKey_iff {e : FAT32DirectoryEntry} {r : FAT32DriverRequest} :
    sameKey e r = true ↔ e.key = r.key := by
  simp [sameKey, memcmp_eq_zero, FAT32DirectoryEntry.key, FAT32DriverRequest.key]

@[simp] theorem sameName_iff {e : FAT32DirectoryEntry} {r : FAT32DriverRequest} :
    sameName e r = true ↔ e.name = r.name := by
  simp [sameName, memcmp_eq_zero]

/-- `ceil` of a number of bytes over the cluster size. -/
theorem ceil_div (n : Nat) :
    ceil ((n : ℚ) / clusterSize) = UInt8.ofNat ((n + (clusterSize - 1)) / clusterSize) := by
  have hfl : ⌊(n : ℚ) / clusterSize⌋ = ((n / clusterSize : ℕ) : ℤ) := by
    rw [Rat.floor_natCast_div_natCast, Int.natCast_ediv]
  have hpos : (clusterSize : ℚ) ≠ 0 := by simp [clusterSize_eq]
  have hdvd : (((n / clusterSize : ℕ) : ℤ) : ℚ) = (n : ℚ) / clusterSize ↔
      n / clusterSize * clusterSize = n := by
    rw [eq_div_iff hpos, Int.cast_natCast]
    exact_mod_cast Iff.rfl
  simp only [ceil, hfl, hdvd, Int.toNat_natCast]
  split
  · rename_i h
    congr 1
    simp only [clusterSize_eq] at h ⊢
    omega
  · rename_i h
    congr 1
    simp only [clusterSize_eq] at h ⊢
    omega

/-- Below 2^24 bytes the conversion to `float` is exact. -/
theorem clustersFor_eq {size : UInt32} (h : size.toNat < 2 ^ 24) :
    clustersFor size = UInt8.ofNat (clusterCount size) := by
  unfold clustersFor
  rw [toFloat, if_pos h, ceil_div]
  rfl

/-- Up to 255 clusters the count fits its `uint8_t`. -/
theorem clustersFor_toNat {size : UInt32} (h : size.toNat ≤ 255 * clusterSize) :
    (clustersFor size).toNat = clusterCount size := by
  simp only [clusterSize_eq] at h
  rw [clustersFor_eq (by omega)]
  simp only [clusterCount, clusterSize_eq, UInt8.toNat_ofNat']
  omega

/-! ## Tables -/

@[simp] theorem readTable_eq (disk : Disk) (c : UInt32) : readTable disk c = disk.table c :=
  table_read disk _ c

/-! ## Scans of a directory table -/

/-- A scan of all slots finds the first one that passes. -/
theorem find_slot_eq_some {f : Fin 64 → Bool} {i : Fin 64} :
    (List.finRange 64).find? f = some i ↔ f i = true ∧ ∀ j, j < i → f j = false := by
  rw [Scan.find?_eq_some_iff (List.pairwise_lt_finRange 64)]
  simp

theorem find_slot_eq_none {f : Fin 64 → Bool} :
    (List.finRange 64).find? f = none ↔ ∀ i, f i = false := by
  simp

/-- A scan of all slots finds one when there is one. -/
theorem exists_find_slot {f : Fin 64 → Bool} {i : Fin 64} (h : f i = true) :
    ∃ j, (List.finRange 64).find? f = some j := by
  cases hf : (List.finRange 64).find? f with
  | some j => exact ⟨j, rfl⟩
  | none => exact absurd h (Bool.eq_false_iff.mp (find_slot_eq_none.mp hf i))

/-- The data slots are scanned in order. -/
theorem dataSlots_sorted : dataSlots.Pairwise (· < ·) := (List.pairwise_lt_finRange 64).drop

def vacantSlot (t : FAT32DirectoryTable) : Option (Fin 64) :=
  dataSlots.find? fun i => ¬ (t.table i).Live

theorem vacantSlot_eq_some {t : FAT32DirectoryTable} {i : Fin 64} : vacantSlot t = some i ↔
    2 ≤ i ∧ ¬ (t.table i).Live ∧ ∀ j, 2 ≤ j → j < i → (t.table j).Live := by
  unfold vacantSlot
  rw [Scan.find?_eq_some_iff dataSlots_sorted]
  simp

theorem vacantSlot_eq_none {t : FAT32DirectoryTable} :
    vacantSlot t = none ↔ ∀ i, 2 ≤ i → (t.table i).Live := by
  simp [vacantSlot]

theorem scanSlots_taken {t : FAT32DirectoryTable} {r : FAT32DriverRequest} {i : Fin 64} :
    ∀ {l : List (Fin 64)} {s : Fin 64}, i ∈ l → (t.table i).key = r.key →
      scanSlots t r l s = none
  | j :: l, s, hi, hk => by
    unfold scanSlots
    by_cases hj : sameKey (t.table j) r = true
    · rw [if_pos hj]
    · rw [if_neg hj]
      rcases List.mem_cons.mp hi with rfl | hi
      · exact absurd (sameKey_iff.mpr hk) hj
      · exact scanSlots_taken hi hk

theorem scanSlots_free {t : FAT32DirectoryTable} {r : FAT32DriverRequest} :
    ∀ {l : List (Fin 64)} {s : Fin 64}, (∀ i ∈ l, i ≠ 0) → (∀ i ∈ l, (t.table i).key ≠ r.key) →
      scanSlots t r l s =
        some (if s = 0 then (l.find? fun i => ¬ (t.table i).Live).getD 0 else s)
  | [], s, _, _ => by
    by_cases hs : s = 0 <;> simp [scanSlots, hs]
  | j :: l, s, h0, hk => by
    have hj : ¬ sameKey (t.table j) r = true :=
      fun h => hk j List.mem_cons_self (sameKey_iff.mp h)
    have hj0 : j ≠ 0 := h0 j List.mem_cons_self
    simp only [scanSlots, if_neg hj]
    rw [scanSlots_free (fun i hi => h0 i (List.mem_cons_of_mem _ hi))
      fun i hi => hk i (List.mem_cons_of_mem _ hi)]
    by_cases hs : s = 0
    · by_cases hl : (t.table j).Live
      · have hu : (t.table j).userAttribute = uattrNotEmpty := hl
        simp [hs, hl, hu]
      · have hu : (t.table j).userAttribute ≠ uattrNotEmpty := hl
        simp [hs, hl, hu, hj0]
    · simp [hs]

/-- The slot scan of `write`: `none` for a name that is taken, else the first
vacant slot, or 0. -/
theorem scanSlots_none {t : FAT32DirectoryTable} {r : FAT32DriverRequest} {i : Fin 64}
    (hi : 2 ≤ i) (hk : (t.table i).key = r.key) : scanSlots t r dataSlots 0 = none :=
  scanSlots_taken (mem_dataSlots.mpr hi) hk

theorem scanSlots_some {t : FAT32DirectoryTable} {r : FAT32DriverRequest}
    (hk : ∀ i, 2 ≤ i → (t.table i).key ≠ r.key) :
    scanSlots t r dataSlots 0 = some ((vacantSlot t).getD 0) := by
  have h0 : ∀ i ∈ dataSlots, i ≠ 0 := by decide
  rw [scanSlots_free h0 fun i hi => hk i (mem_dataSlots.mp hi), if_pos rfl, vacantSlot]

/-! ## The cluster scan -/

def freeClusters (fat : FAT32FileAllocationTable) : List UInt32 :=
  ((List.finRange clusterMapSize).filter fun i => fat.clusterMap i = fat32FatEmptyEntry).map
    fun i : Fin clusterMapSize => UInt32.ofNat i.val

theorem findClusters_append (fat : FAT32FileAllocationTable) (n : Nat) :
    ∀ (l : List (Fin clusterMapSize)) (buf : List UInt32), findClusters fat n l buf =
      buf ++ ((l.filter fun i => fat.clusterMap i = fat32FatEmptyEntry).map
        fun i : Fin clusterMapSize => UInt32.ofNat i.val).take (n - buf.length)
  | [], buf => by simp [findClusters]
  | i :: l, buf => by
    unfold findClusters
    by_cases hn : buf.length < n
    · rw [if_pos hn]
      by_cases hf : fat.clusterMap i = fat32FatEmptyEntry
      · obtain ⟨k, hk⟩ : ∃ k, n - buf.length = k + 1 := ⟨n - buf.length - 1, by omega⟩
        have hk' : n - (buf ++ [UInt32.ofNat i.val]).length = k := by
          rw [List.length_append, List.length_singleton]; omega
        rw [if_pos hf, findClusters_append fat n l, hk', hk,
          List.filter_cons_of_pos (by simpa using hf), List.map_cons, List.take_succ_cons,
          List.append_assoc, List.singleton_append]
      · simp [findClusters_append fat n l, hf]
    · rw [if_neg hn, Nat.sub_eq_zero_of_le (by omega)]
      simp

/-- The cluster scan of `write` takes the first free clusters. -/
theorem findClusters_eq (fat : FAT32FileAllocationTable) (n : Nat) :
    findClusters fat n (List.finRange clusterMapSize) [] = (freeClusters fat).take n := by
  rw [findClusters_append]
  rfl

theorem mem_freeClusters {fat : FAT32FileAllocationTable} {x : UInt32} :
    x ∈ freeClusters fat ↔ fat.get? x = some fat32FatEmptyEntry := by
  simp only [freeClusters, List.mem_map, List.mem_filter, List.mem_finRange, true_and,
    decide_eq_true_eq, FAT32FileAllocationTable.get?_eq_some]
  constructor
  · intro hcase
    obtain ⟨i, hi, rfl⟩ := hcase
    have hlt := i.isLt
    simp only [clusterMapSize_eq] at hlt
    have h1 : (UInt32.ofNat i.val).toNat = i.val := by
      rw [UInt32.toNat_ofNat']; omega
    have h2 : (UInt32.ofNat i.val).toNat < clusterMapSize := by rw [h1]; exact i.isLt
    exact ⟨h2, by simpa only [h1] using hi⟩
  · intro hcase
    obtain ⟨h, hx⟩ := hcase
    exact ⟨⟨x.toNat, h⟩, hx, by simp⟩

theorem freeClusters_nodup (fat : FAT32FileAllocationTable) : (freeClusters fat).Nodup := by
  refine List.Nodup.map_on ?_ ((List.nodup_finRange _).filter _)
  intro i _ j _ hij
  have hi := i.isLt
  have hj := j.isLt
  simp only [clusterMapSize_eq] at hi hj
  have := congrArg UInt32.toNat hij
  rw [UInt32.toNat_ofNat', UInt32.toNat_ofNat'] at this
  exact Fin.ext (by omega)

/-- Any list of free clusters without repetition is no longer than that of all. -/
theorem length_le_freeClusters {fat : FAT32FileAllocationTable} {l : List UInt32} (hn : l.Nodup)
    (hl : ∀ x ∈ l, fat.get? x = some fat32FatEmptyEntry) :
    l.length ≤ (freeClusters fat).length :=
  (hn.subperm fun x hx => mem_freeClusters.mpr (hl x hx)).length_le

/-- The first free cluster is the least. -/
theorem head?_freeClusters {fat : FAT32FileAllocationTable} {x : UInt32}
    (hx : fat.get? x = some fat32FatEmptyEntry)
    (hlt : ∀ y : UInt32, y.toNat < x.toNat → fat.get? y ≠ some fat32FatEmptyEntry) :
    (freeClusters fat).head? = some x := by
  obtain ⟨h, hval⟩ := FAT32FileAllocationTable.get?_eq_some.mp hx
  have hfind : (List.finRange clusterMapSize).find?
      (fun i => fat.clusterMap i = fat32FatEmptyEntry) = some ⟨x.toNat, h⟩ := by
    rw [Scan.find?_eq_some_iff (List.pairwise_lt_finRange _)]
    refine ⟨List.mem_finRange _, decide_eq_true hval, fun j _ hj => decide_eq_false fun h0 => ?_⟩
    have hj : j.val < x.toNat := hj
    have hn : (UInt32.ofNat j.val).toNat = j.val := by
      have hlt := j.isLt
      simp only [clusterMapSize_eq] at hlt
      rw [UInt32.toNat_ofNat']
      omega
    refine hlt (UInt32.ofNat j.val) (by omega) (FAT32FileAllocationTable.get?_eq_some.mpr
      ⟨by rw [hn]; exact j.isLt, ?_⟩)
    simpa only [hn] using h0
  unfold freeClusters
  rw [List.head?_map, List.head?_filter, hfind, Option.map_some, UInt32.ofNat_toNat]

/-! ## The chain loops -/

def FAT32FileAllocationTable.clear (fat : FAT32FileAllocationTable) (l : List UInt32) :
    FAT32FileAllocationTable := l.foldl (fun t c => t.set c 0) fat

theorem FAT32FileAllocationTable.get?_clear {x : UInt32} :
    ∀ {l : List UInt32} {fat : FAT32FileAllocationTable}, (fat.clear l).get? x =
      if x ∈ l ∧ x.toNat < clusterMapSize then some 0 else fat.get? x
  | [], fat => by simp [clear]
  | c :: l, fat => by
    have ih := @get?_clear x l (fat.set c 0)
    simp only [clear, List.foldl_cons] at ih ⊢
    rw [ih, get?_set]
    by_cases hl : x ∈ l ∧ x.toNat < clusterMapSize
    · rw [if_pos hl, if_pos ⟨List.mem_cons_of_mem _ hl.1, hl.2⟩]
    · rw [if_neg hl]
      by_cases hx : x = c ∧ x.toNat < clusterMapSize
      · rw [if_pos hx, if_pos ⟨by simp [hx.1], hx.2⟩]
      · rw [if_neg hx, if_neg]
        intro hcase
        obtain ⟨hm, hlt⟩ := hcase
        rcases List.mem_cons.mp hm with h | h
        · exact hx ⟨h, hlt⟩
        · exact hl ⟨h, hlt⟩

/-- The clusters the loop of `read` copies, in order. -/
def readVisits (m : Machine) : Nat → UInt32 → Except Fault (List UInt32)
  | 0, c => if c = fat32FatEndOfFile then .ok [] else .error .noReturn
  | fuel + 1, c =>
    if c = fat32FatEndOfFile then .ok []
    else
      match m.fat.get? c with
      | none => .error (.clusterMapIndex c)
      | some next => (readVisits m fuel next).map (c :: ·)

/-- The FAT entries the loop of `delete` clears, in order. -/
def freeVisits : Nat → UInt32 → FAT32FileAllocationTable → Except Fault (List UInt32)
  | 0, c, _ => if c = fat32FatEndOfFile then .ok [] else .error .noReturn
  | fuel + 1, c, fat =>
    if c = fat32FatEndOfFile then .ok []
    else
      match fat.get? c with
      | none => .error (.clusterMapIndex c)
      | some next => (freeVisits fuel next (fat.set c 0)).map (c :: ·)

/-- Copy clusters to `buf`, one behind the other, from position `k` on. -/
def copyClusters (d : Disk) : Nat → Memory → List UInt32 → Memory
  | _, buf, [] => buf
  | k, buf, c :: l =>
    let off := clusterSize * k
    copyClusters d (k + 1)
      (fun i => if i < off then buf i else readClusters d (buf.from off) c 1 (i - off)) l

/-- The loop of `read` is a copy of the clusters it visits. -/
theorem readChain_eq (m : Machine) : ∀ (fuel : Nat) (c : UInt32) (k : Nat) (buf : Memory),
    readChain m fuel c k buf = (readVisits m fuel c).map (copyClusters m.disk k buf)
  | 0, c, k, buf => by
    unfold readChain readVisits
    split <;> rfl
  | fuel + 1, c, k, buf => by
    unfold readChain readVisits
    by_cases hc : c = fat32FatEndOfFile
    · rw [if_pos hc, if_pos hc]
      rfl
    · rw [if_neg hc, if_neg hc]
      cases hn : m.fat.get? c with
      | none => rfl
      | some next =>
        simp only [readChain_eq m fuel next (k + 1)]
        cases readVisits m fuel next <;> rfl

/-- The loop of `delete` clears the entries it visits. -/
theorem freeChain_eq : ∀ (fuel : Nat) (c : UInt32) (fat : FAT32FileAllocationTable),
    freeChain fuel c fat = (freeVisits fuel c fat).map fat.clear
  | 0, c, fat => by
    unfold freeChain freeVisits
    split <;> rfl
  | fuel + 1, c, fat => by
    unfold freeChain freeVisits
    by_cases hc : c = fat32FatEndOfFile
    · rw [if_pos hc, if_pos hc]
      rfl
    · rw [if_neg hc, if_neg hc]
      cases hn : fat.get? c with
      | none => rfl
      | some next =>
        simp only [freeChain_eq fuel next]
        cases freeVisits fuel next (fat.set c 0) <;> rfl

theorem readVisits_of_chain {m : Machine} {l : List UInt32} :
    ∀ {fuel : Nat} {c : UInt32}, Chain m.fat.get? fat32FatEndOfFile c l → l.length ≤ fuel →
      readVisits m fuel c = .ok l := by
  induction l with
  | nil =>
    intro fuel c h _
    cases fuel <;> simp_all [readVisits]
  | cons x xs ih =>
    intro fuel c h hf
    obtain ⟨rfl, hs, b, hb, hc⟩ := h
    cases fuel with
    | zero => simp at hf
    | succ fuel =>
      simp only [readVisits, if_neg hs, hb]
      rw [ih hc (by simpa using hf)]
      rfl

theorem freeVisits_of_chain {l : List UInt32} :
    ∀ {fuel : Nat} {c : UInt32} {fat : FAT32FileAllocationTable},
      Chain fat.get? fat32FatEndOfFile c l → l.length ≤ fuel → freeVisits fuel c fat = .ok l := by
  induction l with
  | nil =>
    intro fuel c fat h _
    cases fuel <;> simp_all [freeVisits]
  | cons x xs ih =>
    intro fuel c fat h hf
    have hnd := h.nodup
    obtain ⟨rfl, hs, b, hb, hc⟩ := h
    cases fuel with
    | zero => simp at hf
    | succ fuel =>
      -- the rest of the chain does not pass through the entry just cleared
      have hc' : Chain (fat.set c 0).get? fat32FatEndOfFile b xs := by
        refine hc.congr fun y hy => ?_
        rw [FAT32FileAllocationTable.get?_set, if_neg]
        intro hx
        obtain ⟨rfl, _⟩ := hx
        exact (List.nodup_cons.mp hnd).1 hy
      simp only [freeVisits, if_neg hs, hb]
      rw [ih hc' (by simpa using hf)]
      rfl

/-- The free loop of `delete` on a chain clears exactly its clusters. -/
theorem freeChain_of_chain {l : List UInt32} {fuel : Nat} {c : UInt32}
    {fat : FAT32FileAllocationTable} (h : Chain fat.get? fat32FatEndOfFile c l)
    (hf : l.length ≤ fuel) : freeChain fuel c fat = .ok (fat.clear l) := by
  rw [freeChain_eq, freeVisits_of_chain h hf]
  rfl

/-- What a copy of clusters leaves in the buffer. -/
theorem copyClusters_apply (d : Disk) : ∀ (l : List UInt32) (k : Nat) (buf : Memory) (i : Nat),
    copyClusters d k buf l i = if clusterSize * k ≤ i ∧ i < clusterSize * (k + l.length) then
      d.byteAlong l (i - clusterSize * k) else buf i
  | [], k, buf, i => by
    rw [if_neg (by simp)]
    rfl
  | c :: l, k, buf, i => by
    simp only [copyClusters]
    rw [copyClusters_apply d l (k + 1)]
    by_cases h1 : clusterSize * (k + 1) ≤ i ∧ i < clusterSize * (k + 1 + l.length)
    · -- in a later cluster
      have h2 : clusterSize * k ≤ i ∧ i < clusterSize * (k + (c :: l).length) := by
        simp only [clusterSize_eq, List.length_cons] at h1 ⊢; omega
      have hq : (i - clusterSize * k) / clusterSize =
          (i - clusterSize * (k + 1)) / clusterSize + 1 := by
        simp only [clusterSize_eq] at h1 ⊢; omega
      have hr : (i - clusterSize * k) % clusterSize =
          (i - clusterSize * (k + 1)) % clusterSize := by
        simp only [clusterSize_eq] at h1 ⊢; omega
      rw [if_pos h1, if_pos h2, Disk.byteAlong, Disk.byteAlong, hq, hr, List.getElem?_cons_succ]
    · rw [if_neg h1]
      by_cases h2 : clusterSize * k ≤ i ∧ i < clusterSize * (k + (c :: l).length)
      · -- in this cluster
        have h3 : ¬ i < clusterSize * k := by omega
        have h4 : i - clusterSize * k < clusterSize := by
          simp only [clusterSize_eq, List.length_cons] at h1 h2 ⊢; omega
        rw [if_pos h2, if_neg h3, readClusters_lt _ _ _ h4, Disk.byteAlong,
          Nat.div_eq_of_lt h4, Nat.mod_eq_of_lt h4, List.getElem?_cons_zero]
      · rw [if_neg h2]
        by_cases h3 : i < clusterSize * k
        · rw [if_pos h3]
        · have h4 : ¬ i - clusterSize * k < clusterSize := by
            simp only [clusterSize_eq, List.length_cons] at h1 h2 h3 ⊢; omega
          rw [if_neg h3, readClusters_apply, if_neg h4, Memory.from_apply]
          congr 1
          omega

/-- The copy loop of `read` on a chain: its clusters, one behind the other. -/
theorem readChain_of_chain {m : Machine} {l : List UInt32} {fuel : Nat} {c : UInt32} {k : Nat}
    {buf : Memory} (h : Chain m.fat.get? fat32FatEndOfFile c l) (hf : l.length ≤ fuel) :
    ∃ buf', readChain m fuel c k buf = .ok buf' ∧
      ∀ i, buf' i = if clusterSize * k ≤ i ∧ i < clusterSize * (k + l.length) then
        m.disk.byteAlong l (i - clusterSize * k) else buf i := by
  refine ⟨copyClusters m.disk k buf l, ?_, copyClusters_apply m.disk l k buf⟩
  rw [readChain_eq, readVisits_of_chain h hf]
  rfl

/-- What `delete` leaves when it returns from the slot it found. -/
theorem deleteSlot_inv {m m' : Machine} {r : FAT32DriverRequest} {i : Fin 64} {code : Int8}
    (h : deleteSlot m r i = .ok (code, m')) :
    code = 0 ∧ ∃ fat,
      freeChain (2 * chainFuel) (m.driver.dirTableBuf.table i).cluster m.fat = .ok fat ∧
      m' = (Machine.writeClusters { m with driver := ⟨fat, m.driver.dirTableBuf.set i 0⟩ }
        (m.driver.dirTableBuf.set i 0).bytes r.parentClusterNumber).flushFat := by
  unfold deleteSlot at h
  cases hf : freeChain (2 * chainFuel) (m.driver.dirTableBuf.table i).cluster m.fat with
  | error f => simp [hf, bind, Except.bind] at h
  | ok fat =>
    simp only [hf, bind, Except.bind, pure, Except.pure, Except.ok.injEq, Prod.mk.injEq] at h
    exact ⟨h.1.symm, fat, rfl, h.2.symm⟩

/-! ## The cases of `read_directory` -/

/-- READ_DIR looks at the first slot with the name. -/
theorem readDirectory_first {m : Machine} {r : FAT32DriverRequest} {i : Fin 64}
    (hi : ((m.disk.table r.parentClusterNumber).table i).name = r.name)
    (hfirst : ∀ j, j < i → ((m.disk.table r.parentClusterNumber).table j).name ≠ r.name) :
    let entry := (m.disk.table r.parentClusterNumber).table i
    readDirectory m r =
      if entry.attr &&& attrSubdirectory = 0 then (1, r.buf)
      else if r.bufferSize < entry.filesize then (-1, r.buf)
      else (0, readClusters m.disk r.buf entry.cluster 1) := by
  have hfind : (List.finRange 64).find?
      (fun j => sameName ((m.disk.table r.parentClusterNumber).table j) r) = some i :=
    find_slot_eq_some.mpr ⟨sameName_iff.mpr hi, fun j hj =>
      Bool.eq_false_iff.mpr fun hs => hfirst j hj (sameName_iff.mp hs)⟩
  simp only [readDirectory, readTable_eq, hfind]

theorem readDirectory_missing {m : Machine} {r : FAT32DriverRequest}
    (h : ∀ i, ((m.disk.table r.parentClusterNumber).table i).name ≠ r.name) :
    readDirectory m r = (2, r.buf) := by
  have hfind : (List.finRange 64).find?
      (fun j => sameName ((m.disk.table r.parentClusterNumber).table j) r) = none :=
    find_slot_eq_none.mpr fun i => Bool.eq_false_iff.mpr fun hs => h i (sameName_iff.mp hs)
  simp only [readDirectory, readTable_eq, hfind]

/-! ## The cases of `write` -/

/-- The number of clusters `write` looks for: one for a folder. -/
def required (r : FAT32DriverRequest) : Nat :=
  (clustersFor r.bufferSize + if decide (r.bufferSize = 0) then 1 else 0).toNat

/-- The count is a `uint8_t`. -/
theorem required_le (r : FAT32DriverRequest) : required r ≤ 255 :=
  Nat.le_of_lt_succ (UInt8.toNat_lt _)

/-- The clusters `write` takes: the first free ones. -/
def allocated (m : Machine) (r : FAT32DriverRequest) : List UInt32 :=
  (freeClusters m.fat).take (required r)

/-- The state before the parent's table is written back: the clusters of the
new file or folder are filled and linked. -/
def prepared (m : Machine) (r : FAT32DriverRequest) : Machine :=
  if r.bufferSize = 0 then writeFolder m r ((allocated m r).headD 0)
  else writeFile m r.buf (allocated m r)

def addedEntry (m : Machine) (r : FAT32DriverRequest) : FAT32DirectoryEntry :=
  newEntry r (r.bufferSize = 0) ((allocated m r).headD 0)

/-- The state after a `write` that used slot `i`. -/
def stored (m : Machine) (r : FAT32DriverRequest) (i : Fin 64) : Machine :=
  (prepared m r).writeClusters
    ((m.disk.table r.parentClusterNumber).set i (addedEntry m r)).bytes r.parentClusterNumber

section Write
variable {m : Machine} {r : FAT32DriverRequest}
theorem write_unmarked {v : UInt32} (h : m.fat.get? r.parentClusterNumber = some v)
    (hv : v ≠ fat32FatEndOfFile) : write m r = .ok (2, m) := by
  simp [write, h, hv]

variable (hm : m.fat.get? r.parentClusterNumber = some fat32FatEndOfFile)

include hm in
theorem write_taken {i : Fin 64} (hi : 2 ≤ i)
    (hk : ((m.disk.table r.parentClusterNumber).table i).key = r.key) :
    write m r = .ok (1, m) := by
  simp [write, hm, scanSlots_none hi hk]

variable (hk : ∀ i, 2 ≤ i → ((m.disk.table r.parentClusterNumber).table i).key ≠ r.key)

include hm hk in
theorem write_full (hv : vacantSlot (m.disk.table r.parentClusterNumber) = none) :
    write m r = .ok (-1, m) := by
  simp [write, hm, scanSlots_some hk, hv]

variable {i : Fin 64} (hv : vacantSlot (m.disk.table r.parentClusterNumber) = some i)

include hm hk hv in
/-- `write` past its checks: it looks for clusters, then stores. -/
theorem write_vacant : write m r =
    if (allocated m r).length < required r then .ok (-1, m)
    else match allocated m r with
      | [] => .error .slotBufIndex
      | _ :: _ => .ok (0, stored m r i) := by
  have hi : i ≠ 0 := by
    intro he
    subst he
    exact absurd (vacantSlot_eq_some.mp hv).1 (by decide)
  have hreq : (clustersFor r.bufferSize + if decide (r.bufferSize = 0) then 1 else 0).toNat =
      required r := rfl
  have halloc : (freeClusters m.fat).take (required r) = allocated m r := rfl
  simp only [write, hm, ne_eq, not_true_eq_false, if_false, readTable_eq, scanSlots_some hk, hv,
    Option.getD_some, hi, findClusters_eq, hreq, halloc]
  congr 1
  cases hl : allocated m r with
  | nil => rfl
  | cons c l =>
    simp only [stored, prepared, addedEntry, hl, List.headD_cons, decide_eq_true_eq]

include hm hk hv in
theorem write_no_space (hf : (freeClusters m.fat).length < required r) :
    write m r = .ok (-1, m) := by
  have hlen : (allocated m r).length < required r := by
    unfold allocated
    rw [List.length_take]; omega
  rw [write_vacant hm hk hv, if_pos hlen]

include hm hk hv in
theorem write_overrun (h0 : required r = 0) : write m r = .error .slotBufIndex := by
  have hnil : allocated m r = [] := by rw [allocated, h0, List.take_zero]
  rw [write_vacant hm hk hv, h0, if_neg (Nat.not_lt_zero _), hnil]

theorem head?_allocated (h0 : required r ≠ 0) :
    (allocated m r).head? = (freeClusters m.fat).head? := by
  unfold allocated
  rw [List.head?_take, if_neg h0]

theorem allocated_length (hf : required r ≤ (freeClusters m.fat).length) :
    (allocated m r).length = required r := by
  unfold allocated
  rw [List.length_take, Nat.min_eq_left hf]

include hm hk hv in
theorem write_stores (h0 : required r ≠ 0) (hf : required r ≤ (freeClusters m.fat).length) :
    write m r = .ok (0, stored m r i) := by
  have hlen := allocated_length hf
  rw [write_vacant hm hk hv, if_neg (by omega)]
  cases hl : allocated m r with
  | nil => rw [hl] at hlen; exact absurd hlen.symm h0
  | cons c l => rfl

end Write

end KajijOSta.Fat32
