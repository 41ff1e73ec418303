import KajijOSta.Fat32.Formatted
import KajijOSta.Lib.Runs

/-! # The invariant of the file system

A well-formed state stays well-formed under any sequence of requests whose
parents are directories at the time, with the sizes and names the driver can
handle. One step is the case analysis of each operation; the run follows by
`run_invariant`. -/
namespace KajijOSta.Fat32
open KajijOSta.NamedTree KajijOSta.Runs

/-- One request of a run, its reply dropped. -/
def step (m : Machine) (call : Call) : Except Fault Machine := (serve m call).map Prod.snd

/-- What a request has to meet in the state it is made in: its parent is a
directory of the tree, a write takes at most 255 clusters, and the name is not
one that `read` or `delete` would find in a slot of the table itself. -/
def Call.Admissible (d : Disk) : Call → Prop
  | .write r => d.Reachable r.parentClusterNumber ∧ r.bufferSize.toNat ≤ 255 * clusterSize
  | .delete r => d.Reachable r.parentClusterNumber ∧ r.key ≠ 0 ∧
      r.key ≠ d.ownKey r.parentClusterNumber
  | .read r => d.Reachable r.parentClusterNumber ∧ r.key ≠ 0
  | .readDirectory _ => True

section Step
variable {m m' : Machine} {r : FAT32DriverRequest}

theorem serve_write {code : Int8} (h : write m r = .ok (code, m')) :
    serve m (.write r) = .ok (⟨code, r.buf⟩, m') := by
  simp only [serve, h, Except.map]

theorem step_write {code : Int8} (h : write m r = .ok (code, m')) :
    step m (.write r) = .ok m' := by
  simp [step, serve, h, Except.map]

theorem step_delete {code : Int8} (h : delete m r = .ok (code, m')) :
    step m (.delete r) = .ok m' := by
  simp [step, serve, h, Except.map]

theorem step_read {code : Int8} {buf : Memory} (h : read m r = .ok (code, buf)) :
    step m (.read r) = .ok m := by
  simp [step, serve, h, Except.map]

theorem step_read_same (h : step m (.read r) = .ok m') : m = m' := by
  cases hr : read m r with
  | error f => simp [step, serve, hr, Except.map] at h
  | ok x => simpa [step, serve, hr, Except.map] using h

/-- A state is well-formed or not whatever the directory buffer holds. -/
theorem Machine.WellFormed.of_same (h : m.WellFormed) (hd : m'.disk = m.disk)
    (hf : m'.fat = m.fat) : m'.WellFormed :=
  ⟨by rw [hd, hf, h.coherent], hd ▸ h.image⟩

/-- The entry `read` finds under a name that is not zero: the directory's own,
or a live one. -/
theorem read_found (h : m.WellFormed) (hc : m.disk.Reachable r.parentClusterNumber)
    (hk : r.key ≠ 0) : read m r = .ok (2, r.buf) ∨ read m r = .ok (1, r.buf) ∨
      ∃ i, m.disk.LiveAt r.parentClusterNumber i ∧
        read m r = readEntry m r ((m.disk.table r.parentClusterNumber).table i) := by
  have hd := h.image.directory _ hc
  have hread : read m r = ((List.finRange 64).find? fun i =>
      sameKey ((m.disk.table r.parentClusterNumber).table i) r).elim (.ok (2, r.buf))
        fun i => readEntry m r ((m.disk.table r.parentClusterNumber).table i) := by
    simp only [read, parent_marked h hc, readTable_eq, ne_eq, not_true_eq_false, if_false]
    cases (List.finRange 64).find? fun i =>
      sameKey ((m.disk.table r.parentClusterNumber).table i) r <;> rfl
  by_cases ho : r.key = m.disk.ownKey r.parentClusterNumber
  · -- slot 0 comes first, and is a folder
    have hfind : (List.finRange 64).find?
        (fun i => sameKey ((m.disk.table r.parentClusterNumber).table i) r) = some 0 :=
      find_slot_eq_some.mpr ⟨sameKey_iff.mpr ho.symm, fun j hj => absurd hj (Fin.not_lt_zero j)⟩
    rw [hread, hfind]
    exact Or.inr (Or.inl (if_pos hd.selfFolder))
  · rw [hread, hd.find_slotOf hk ho]
    cases hs : m.disk.slotOf r.parentClusterNumber r.key with
    | none => exact Or.inl rfl
    | some i =>
      obtain ⟨hi, hl, _⟩ := Disk.slotOf_some hs
      exact Or.inr (Or.inr ⟨i, ⟨hc, hi, hl⟩, rfl⟩)

/-- An admissible request returns, to a well-formed state. -/
theorem step_wellFormed (m : Machine) (call : Call) (h : m.WellFormed)
    (ha : call.Admissible m.disk) : ∃ m', step m call = .ok m' ∧ m'.WellFormed := by
  cases call with
  | write r =>
    obtain ⟨hc, hs⟩ := ha
    rcases write_cases h hc hs with ⟨_, hw⟩ | ⟨_, _, hw⟩ | ⟨i, hst, hw⟩
    · exact ⟨m, step_write hw, h⟩
    · exact ⟨m, step_write hw, h⟩
    · exact ⟨_, step_write hw, hst.wellFormed h hc hs⟩
  | delete r =>
    obtain ⟨hc, hk, ho⟩ := ha
    rcases delete_cases h hc hk ho with ⟨_, hd⟩ | ⟨i, _, ⟨⟨p, hp⟩, hi, hl⟩, hd⟩
    · exact ⟨_, step_delete hd, h.of_same rfl rfl⟩
    · exact ⟨_, step_delete hd, deleted_wellFormed h hp hi hl⟩
  | read r =>
    obtain ⟨hc, hk⟩ := ha
    refine ⟨m, ?_, h⟩
    rcases read_found h hc hk with hr | hr | ⟨i, hl, hr⟩
    · exact step_read hr
    · exact step_read hr
    · rcases readEntry_cases (r := r) h hl with ⟨_, he⟩ | ⟨_, _, he⟩ | ⟨_, buf, he, _⟩
      · exact step_read (hr.trans he)
      · exact step_read (hr.trans he)
      · exact step_read (hr.trans he)
  | readDirectory r => exact ⟨m, rfl, h⟩

end Step

/-- **Well-formedness is an invariant.** From a well-formed state, every
sequence of admissible requests runs to its end, and ends well-formed. -/
theorem run_wellFormed (m : Machine) (calls : List Call) (h : m.WellFormed)
    (ha : Meets step (fun m call => call.Admissible m.disk) m calls) :
    ∃ m', run step m calls = .ok m' ∧ m'.WellFormed :=
  run_invariant step_wellFormed h ha

/-! ## A run on the empty file system -/

def letterName (c : Char) : Fin 8 → UInt8 := fun i =>
  if i.val = 0 then UInt8.ofNat c.toNat else 0

def letterRequest (c : Char) (size : UInt32) : FAT32DriverRequest :=
  ⟨fun _ => 7, letterName c, fun _ => 0, rootClusterNumber, size⟩

theorem letterRequest_named (size : UInt32) : (letterRequest 'a' size).key ≠ 0 :=
  (by decide : (⟨letterName 'a', fun _ => 0⟩ : Key) ≠ 0)

/-- A request has room in the root. -/
theorem letterRequest_storable (size : UInt32) :
    Storable (rootedMachine (letterName 'r')) (letterRequest 'a' size) 2 :=
  rooted_storable rfl (letterRequest_named size)

theorem letterRequest_written {size : UInt32}
    (hs : (letterRequest 'a' size).bufferSize.toNat ≤ 255 * clusterSize) :
    write (rootedMachine (letterName 'r')) (letterRequest 'a' size) =
      .ok (0, stored (rootedMachine (letterName 'r')) (letterRequest 'a' size) 2) := by
  have hst := letterRequest_storable size
  exact write_stores (parent_marked (rootedMachine_wellFormed _) (Disk.reachable_root _))
    hst.free hst.vacant (required_pos hs) hst.space

theorem letterRequest_not_own (size : UInt32) : (letterRequest 'a' size).key ≠
    (rootedMachine (letterName 'r')).disk.ownKey rootClusterNumber := by
  unfold rootedMachine
  rw [rooted_ownKey]
  exact (by decide : (⟨letterName 'a', fun _ => 0⟩ : Key) ≠ ⟨letterName 'r', fun _ => 0⟩)

theorem run_wellFormed_rooted : ∃ m', run step (rootedMachine (letterName 'r'))
    [.delete (letterRequest 'a' 0), .write (letterRequest 'a' 0), .write (letterRequest 'b' 3000),
      .read (letterRequest 'b' 4096)] = .ok m' ∧ m'.WellFormed := by
  have hroot : ∀ d : Disk, d.Reachable rootClusterNumber := fun d => Disk.reachable_root d
  refine run_wellFormed _ _ (rootedMachine_wellFormed _)
    ⟨⟨hroot _, letterRequest_named 0, letterRequest_not_own 0⟩, ?_⟩
  intro _ _
  refine ⟨⟨hroot _, by decide⟩, fun _ _ => ⟨⟨hroot _, by decide⟩, fun _ _ => ?_⟩⟩
  exact ⟨⟨hroot _, by decide⟩, fun _ _ => trivial⟩

end KajijOSta.Fat32
