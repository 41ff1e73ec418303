import KajijOSta.Fat32.Format
import KajijOSta.Fat32.Walks
import KajijOSta.Shell.Move
import KajijOSta.Terminal.Matching
import KajijOSta.Terminal.Return

/-! # Folders in folders

A file system of `n` folders, each in the one before, named `a` and `b` in turn
(`nested`), and the `cd`s down to the last of them. With more of them than the stack
of the shell holds, `cd ..` does not undo `cd`. -/
namespace KajijOSta.Terminal
open KajijOSta.Fat32 KajijOSta.Shell KajijOSta.Runs

/-! ## The way down -/

def nestWord (n : Nat) : Word := if n % 2 = 0 then aWord else bWord

/-- Slot 2 of each directory on the way is the next one. -/
inductive Nest (d : Disk) : Nat → DirectoryState → List DirectoryState → Prop
  | root (h : ShownAt d rootClusterNumber rootName 0) :
      Nest d 0 initialShell.currentDirectory []
  | folder {n : Nat} {up : DirectoryState} {rest : List DirectoryState} (h : Nest d n up rest)
      (hl : ((d.table up.clusterNumber).table 2).Live)
      (hs : ShownAt d up.clusterNumber (nestWord n).name 2) :
      Nest d (n + 1) ⟨(nestWord n).name, ((d.table up.clusterNumber).table 2).cluster,
        up.clusterNumber⟩ (up :: rest)

section Nest
variable {d d' : Disk} {m : Machine} {n : Nat} {cur : DirectoryState} {stack : List DirectoryState}

theorem Nest.trail (h : Nest d n cur stack) : ∃ p, p.length = n ∧ Trail d p cur stack := by
  induction h with
  | root h => exact ⟨[], rfl, .root h⟩
  | folder _ hl hs ih =>
    obtain ⟨p, hp, ht⟩ := ih
    exact ⟨_, congrArg (· + 1) hp, .enter ht (le_refl 2) hl hs⟩

/-- The way reads the tables above its end. -/
theorem Nest.congr (hw : d.WellFormed) (h : Nest d n cur stack)
    (hroot : ShownAt d' rootClusterNumber rootName 0)
    (htable : ∀ q c, d.dirAt q = some c → q.length < n → d'.table c = d.table c) :
    Nest d' n cur stack := by
  induction h with
  | root _ => exact .root hroot
  | @folder n up rest h hl hs ih =>
    obtain ⟨p, hp, ht⟩ := h.trail
    have hup := htable p up.clusterNumber (ht.dirAt hw) (by omega)
    have h' := ih fun q c hq hlt => htable q c hq (Nat.lt_succ_of_lt hlt)
    rw [← hup] at hl ⊢
    exact .folder h' hl (hs.congr hup)

theorem nestWord_short (n : Nat) : (nestWord n).chars.length < 8 := by
  unfold nestWord
  split
  · decide
  · decide

theorem nestWord_down (n : Nat) : (nestWord n).chars ≠ dotDot := by
  unfold nestWord
  split
  · decide
  · decide

/-- `cd` goes one step down, whatever is on the stack. -/
theorem Nest.finds {up : DirectoryState} {rest : List DirectoryState} (hw : m.disk.WellFormed)
    (h : Nest m.disk n up rest) (hl : ((m.disk.table up.clusterNumber).table 2).Live)
    (hs : ShownAt m.disk up.clusterNumber (nestWord n).name 2) (env : Environment)
    (stack : List DirectoryState) :
    FindsFolder ⟨m, ⟨up, stack⟩⟩ (env, wordArgument (nestWord n)) ∧
    cdStep ⟨m, ⟨up, stack⟩⟩ (env, wordArgument (nestWord n)) =
      .ok ⟨m, Terminal.enter ⟨up, stack⟩ ((m.disk.table up.clusterNumber).table 2)
        (wordArgument (nestWord n))⟩ := by
  obtain ⟨p, _, ht⟩ := h.trail
  have hm : Matches m ⟨up, stack⟩ := ht.matches (s := ⟨up, rest⟩) hw
  have hbytes : ∀ j, j < clusterSize →
      seen ⟨m, ⟨up, stack⟩⟩ env j = m.disk.cluster up.clusterNumber j := (hm env.dirTable).2
  have htable : FAT32DirectoryTable.ofBytes (seen ⟨m, ⟨up, stack⟩⟩ env) =
      m.disk.table up.clusterNumber := FAT32DirectoryTable.ofBytes_congr hbytes
  have hnamed : namedBy (seen ⟨m, ⟨up, stack⟩⟩ env) (nestWord n).chars 2 = true := by
    have hname : ((FAT32DirectoryTable.ofBytes (seen ⟨m, ⟨up, stack⟩⟩ env)).table 2).name =
        padded (nestWord n).chars := by
      rw [htable]
      exact hs.name_eq
    have hstring := (name_eq_padded.mp hname).stringAt_short (nestWord_short n)
    unfold namedBy
    rw [strcmp_iff.mpr hstring, htable, Bool.and_true]
    exact decide_eq_true hl
  have hslot : cdSlot (seen ⟨m, ⟨up, stack⟩⟩ env) (nestWord n).chars = some 2 := by
    refine (Scan.find?_eq_some_iff dataSlots_sorted).mpr
      ⟨mem_dataSlots.mpr (le_refl 2), ?_, fun j hj hlt => ?_⟩
    · rw [hnamed, htable, Bool.and_true]
      exact decide_eq_true hs.folder
    · exact absurd (mem_dataSlots.mp hj) (not_le.mpr hlt)
  have hstep := (cdStep_down (s := ⟨m, ⟨up, stack⟩⟩)
    (x := (env, wordArgument (nestWord n))) (nestWord_down n)).1 2 hslot
  rw [htable] at hstep
  exact ⟨⟨nestWord_down n, 2, hslot⟩, hstep⟩

/-- The first step of the way. -/
theorem Nest.first (h : Nest d n cur stack) (hn : 1 ≤ n) :
    ((d.table rootClusterNumber).table 2).Live ∧
      ShownAt d rootClusterNumber (nestWord 0).name 2 := by
  induction h with
  | root _ => exact absurd hn (Nat.not_succ_le_zero 0)
  | @folder n up rest h hl hs ih =>
    cases h with
    | root _ => exact ⟨hl, hs⟩
    | folder _ _ _ => exact ih (Nat.succ_pos _)

def nestDowns (env : Environment) (n : Nat) : List (Environment × Argument) :=
  (List.range n).map fun k => (env, wordArgument (nestWord k))

theorem nestDowns_succ (env : Environment) (n : Nat) :
    nestDowns env (n + 1) = nestDowns env n ++ [(env, wordArgument (nestWord n))] := by
  unfold nestDowns
  rw [List.range_succ, List.map_append]
  rfl

theorem nestDowns_cons (env : Environment) (n : Nat) :
    nestDowns env (n + 1) = (env, wordArgument (nestWord 0)) ::
      (List.range n).map fun k => (env, wordArgument (nestWord (k + 1))) := by
  unfold nestDowns
  rw [List.range_succ_eq_map, List.map_cons, List.map_map]
  rfl

/-- They all find their folder. -/
theorem Nest.run (hw : m.disk.WellFormed) (env : Environment) (h : Nest m.disk n cur stack) :
    Meets cdStep FindsFolder ⟨m, initialShell⟩ (nestDowns env n) ∧
    ∃ stack', run cdStep ⟨m, initialShell⟩ (nestDowns env n) = .ok ⟨m, ⟨cur, stack'⟩⟩ := by
  induction h with
  | root _ => exact ⟨trivial, [], rfl⟩
  | @folder n up rest h hl hs ih =>
    obtain ⟨hmeets, stack', hrun⟩ := ih
    obtain ⟨hfinds, hstep⟩ := h.finds hw hl hs env stack'
    rw [nestDowns_succ]
    refine ⟨hmeets.append fun s' hs' => ?_, ?_⟩
    · cases hrun.symm.trans hs'
      exact ⟨hfinds, fun _ _ => trivial⟩
    · rw [run_append hrun, run_cons hstep]
      exact ⟨_, rfl⟩

end Nest

/-! ## The file system -/

def nestRequest (c : UInt32) (n : Nat) : FAT32DriverRequest :=
  Shell.request (fun _ => 0) (nestWord n).name c 0

/-- `n` folders, each in the one before, and the cluster of the last. -/
def nested : Nat → Machine × UInt32
  | 0 => (rootedMachine rootName, rootClusterNumber)
  | n + 1 =>
    (stored (nested n).1 (nestRequest (nested n).2 n) 2,
      (addedEntry (nested n).1 (nestRequest (nested n).2 n)).cluster)

/-- The way ends in an empty directory that has another name than the next folder, and
there is room for more. -/
structure DeepEnd (m : Machine) (c : UInt32) (n : Nat) : Prop where
  wellFormed : m.WellFormed
  nest : ∃ cur stack, Nest m.disk n cur stack ∧ cur.clusterNumber = c
  empty : ∀ i, i ≠ 0 → (m.disk.table c).table i = 0
  own : ((m.disk.table c).table 0).name ≠ (nestWord n).name
  free : 256 ≤ (freeClusters m.fat).length + n

theorem rooted_deepEnd : DeepEnd (rootedMachine rootName) rootClusterNumber 0 := by
  have htable : (rootedMachine rootName).disk.table rootClusterNumber =
      initDirectoryTable rootName rootClusterNumber := rootedDisk_table rootName
  refine ⟨rootedMachine_wellFormed rootName, ⟨_, _, .root rooted_trail.rootShown, rfl⟩,
    fun i hi => ?_, ?_, ?_⟩
  · rw [htable, initDirectoryTable_slot _ hi]
  · have hown : Shell.rootName ≠ aWord.name := by decide
    have hword : nestWord 0 = aWord := if_pos rfl
    rw [hword, (rooted_own Shell.rootName).1]
    exact hown
  · have hlen := @length_le_freeClusters (rootedMachine rootName).fat _ largeClusters_nodup
      fun x hx => rootedFat_free (mem_largeClusters hx).1 (mem_largeClusters hx).2
    rw [largeClusters_length] at hlen
    exact Nat.le_add_right_of_le hlen

section Succ
variable {m : Machine} {c : UInt32} {n : Nat} (h : DeepEnd m c n)

include h in
theorem DeepEnd.reachable : ∃ p, p.length = n ∧ m.disk.dirAt p = some c := by
  obtain ⟨cur, stack, hnest, rfl⟩ := h.nest
  obtain ⟨p, hp, ht⟩ := hnest.trail
  exact ⟨p, hp, ht.dirAt h.wellFormed.image⟩

theorem nestRequest_key : (nestRequest c n).key ≠ 0 :=
  fun hk => (nestWord n).name_ne_zero (congrArg Key.name hk)

include h in
theorem DeepEnd.storable (hn : n < 256) : Storable m (nestRequest c n) 2 := by
  refine ⟨fun j hj => ?_, vacantSlot_eq_some.mpr ⟨le_refl 2, ?_, fun j hj hlt => ?_⟩, ?_⟩
  · rw [show (nestRequest c n).parentClusterNumber = c from rfl, h.empty j (ne_zero_of_slot hj),
      key_zero]
    exact nestRequest_key.symm
  · rw [show (nestRequest c n).parentClusterNumber = c from rfl, h.empty 2 (by decide)]
    exact not_live_zero
  · exact absurd hj (not_le.mpr hlt)
  · have hfree := h.free
    rw [required_folder rfl]
    omega

theorem nestWord_ne_succ (n : Nat) : (nestWord n).name ≠ (nestWord (n + 1)).name := by
  have hab : aWord.name ≠ bWord.name := by decide
  unfold nestWord
  rcases Nat.mod_two_eq_zero_or_one n with h0 | h1
  · rw [if_pos h0, if_neg (by omega)]
    exact hab
  · rw [if_neg (by omega), if_pos (by omega)]
    exact hab.symm

include h in
/-- One more folder. -/
theorem DeepEnd.succ (hn : n < 256) : DeepEnd (stored m (nestRequest c n) 2)
    (addedEntry m (nestRequest c n)).cluster (n + 1) := by
  obtain ⟨p, hlen, hp⟩ := h.reachable
  obtain ⟨cur, stack, hnest, hcur⟩ := h.nest
  have hst := h.storable hn
  have hs : (nestRequest c n).bufferSize.toNat ≤ 255 * clusterSize := Nat.zero_le _
  have hw := h.wellFormed
  obtain ⟨hw', hl, hslot, _, _, hempty⟩ :=
    stored_slotOf (r := nestRequest c n) hw ⟨p, hp⟩ rfl hst
  have ht : ((stored m (nestRequest c n) 2).disk.table c).table 2 =
      addedEntry m (nestRequest c n) := hslot
  have hone : ((stored m (nestRequest c n) 2).disk.table c).table 1 = 0 := by
    have htable : (stored m (nestRequest c n) 2).disk.table c =
        (m.disk.table c).set 2 (addedEntry m (nestRequest c n)) :=
      stored_table (i := 2) (r := nestRequest c n) hw hs hst.space hp
    rw [htable, FAT32DirectoryTable.set_other _ _ (by decide), h.empty 1 (by decide)]
  have hown := stored_own (i := 2) (r := nestRequest c n) hw hs hst.space hp (le_refl 2) ⟨p, hp⟩
  obtain ⟨p', _, htrail⟩ := hnest.trail
  have hnest' : Nest (stored m (nestRequest c n) 2).disk n cur stack := by
    refine hnest.congr hw.image (htrail.rootShown.zero ?_) fun q x hq hlt => ?_
    · exact stored_own hw hs hst.space hp (le_refl 2) (Disk.reachable_root _)
    · refine stored_table_other hw hs hst.space hp ⟨q, hq⟩ fun hx => ?_
      subst hx
      rw [hw.image.onePath q p _ hq hp, hlen] at hlt
      exact absurd hlt (lt_irrefl n)
  have hshown : ShownAt (stored m (nestRequest c n) 2).disk c (nestWord n).name 2 := by
    refine ⟨?_, fun j hj => ?_, ?_, ?_⟩
    · have hkey : (addedEntry m (nestRequest c n)).key = (nestRequest c n).key := addedEntry_key
      rw [ht]
      exact congrArg Key.name hkey
    · rcases slot_lt_two (not_le.mpr hj) with rfl | rfl
      · rw [hown]
        exact h.own
      · rw [hone]
        exact (nestWord n).name_ne_zero.symm
    · rw [ht]
      exact addedEntry_folder.mpr rfl
    · rw [ht, addedEntry_filesize]
      exact Nat.zero_le _
  subst hcur
  refine ⟨hw', ⟨_, _, .folder hnest' hl.live hshown, congrArg FAT32DirectoryEntry.cluster ht⟩,
    hempty, ?_, ?_⟩
  · rw [stored_folder_name hw hs hst.space hp rfl nestRequest_key]
    exact nestWord_ne_succ n
  · have hfree := h.free
    have hkept := stored_free (i := 2) hst.space
    rw [required_folder rfl] at hkept
    omega

end Succ

theorem nested_deepEnd : ∀ {n : Nat}, n ≤ 256 → DeepEnd (nested n).1 (nested n).2 n
  | 0, _ => rooted_deepEnd
  | _ + 1, hn => (nested_deepEnd (Nat.le_of_succ_le hn)).succ hn

/-! ## There and back -/

/-- **When `cd ..` undoes `cd`.** Reached by any lines, after any number of successful
`cd`s with names, as many `cd ..` restore the directories of the shell exactly when the
stack had room for them all, or nothing was on it. -/
theorem cd_undone_iff {s : System} {downs ups : List (Environment × Argument)}
    (hs : Reached s.shell) (hdowns : Meets cdStep FindsFolder s downs)
    (hups : ∀ x ∈ ups, x.2.chars = dotDot) (hlen : ups.length = downs.length) :
    run cdStep s (downs ++ ups) = .ok s ↔
      s.shell.directoryStack.length + downs.length ≤ stackSize ∨
        s.shell.directoryStack = [] :=
  run_back_iff hs.depth hdowns hups hlen

def nestUps (env : Environment) (n : Nat) : List (Environment × Argument) :=
  List.replicate n (env, ⟨false, dotDot, padded dotDot⟩)

theorem nestUps_up (env : Environment) (n : Nat) :
    ∀ x ∈ nestUps env n, x.2.chars = dotDot := by
  intro x hx
  rw [List.eq_of_mem_replicate hx]

theorem nestDowns_length (env : Environment) (n : Nat) : (nestDowns env n).length = n := by
  unfold nestDowns
  rw [List.length_map, List.length_range]

/-- Down two folders and back. -/
theorem cd_undone_nested :
    run cdStep ⟨(nested 2).1, initialShell⟩ (nestDowns unwritten 2 ++ nestUps unwritten 2) =
      .ok ⟨(nested 2).1, initialShell⟩ := by
  have h := nested_deepEnd (by decide : 2 ≤ 256)
  obtain ⟨cur, stack, hnest, _⟩ := h.nest
  obtain ⟨hdowns, _⟩ := hnest.run h.wellFormed.image unwritten
  have hstart : Reached initialShell :=
    ⟨_, _, [], rootedMachine_wellFormed Shell.rootName, rfl⟩
  exact (cd_undone_iff (s := ⟨(nested 2).1, initialShell⟩) hstart hdowns
    (nestUps_up unwritten 2) (by rw [nestDowns_length]; rfl)).mpr (Or.inr rfl)

def cdLine : CommandLine := ⟨ascii "cd a", by decide, by decide⟩

/-- The first of 101 folders, entered from the root. -/
def belowFirst : System := ⟨(nested 101).1, Terminal.enter initialShell
  (((nested 101).1.disk.table rootClusterNumber).table 2) (wordArgument (nestWord 0))⟩

/-- The `cd`s down to the last of them. -/
def nestRest (env : Environment) : List (Environment × Argument) :=
  (List.range 100).map fun k => (env, wordArgument (nestWord (k + 1)))

theorem belowFirst_below (env : Environment) :
    Meets cdStep FindsFolder belowFirst (nestRest env) ∧
    cdStep ⟨(nested 101).1, initialShell⟩ (env, wordArgument (nestWord 0)) = .ok belowFirst := by
  have h := nested_deepEnd (by decide : 101 ≤ 256)
  obtain ⟨cur, stack, hnest, _⟩ := h.nest
  obtain ⟨p, _, ht⟩ := hnest.trail
  obtain ⟨hl, hs⟩ := hnest.first (by decide)
  obtain ⟨hdowns, _⟩ := hnest.run h.wellFormed.image env
  have hstep := ((Nest.root ht.rootShown).finds h.wellFormed.image hl hs env []).2
  rw [nestDowns_cons] at hdowns
  exact ⟨hdowns.2 _ hstep, hstep⟩

theorem belowFirst_reached : Reached belowFirst.shell := by
  have h := nested_deepEnd (by decide : 101 ≤ 256)
  have hline : lineStep ⟨(nested 101).1, initialShell⟩ (unwritten, cdLine) = .ok belowFirst :=
    (lineStep_cd (w := aWord.chars) (by decide) (by decide)).trans (belowFirst_below unwritten).2
  exact ⟨(nested 101).1, (nested 101).1, [(unwritten, cdLine)], h.wellFormed, run_cons hline⟩

/-- From the first of 101 folders, down to the last and as many times up: the shell ends
in the root. -/
theorem cd_not_undone : belowFirst.machine.WellFormed ∧ Reached belowFirst.shell ∧
    ∀ env, Meets cdStep FindsFolder belowFirst (nestRest env) ∧
      (nestUps env 100).length = (nestRest env).length ∧
      run cdStep belowFirst (nestRest env ++ nestUps env 100) ≠ .ok belowFirst := by
  have h := nested_deepEnd (by decide : 101 ≤ 256)
  refine ⟨h.wellFormed, belowFirst_reached, fun env => ?_⟩
  have hdowns := (belowFirst_below env).1
  have hlen : (nestRest env).length = 100 := by
    unfold nestRest
    rw [List.length_map, List.length_range]
  have hups : (nestUps env 100).length = (nestRest env).length :=
    List.length_replicate.trans hlen.symm
  refine ⟨hdowns, hups, fun hback => ?_⟩
  rcases (run_back_iff belowFirst_reached.depth hdowns (nestUps_up env 100) hups).mp hback with
    hroom | hnil
  · rw [hlen] at hroom
    exact absurd hroom (by decide)
  · cases hnil

end KajijOSta.Terminal
