import KajijOSta.Fat32.Space
import KajijOSta.Lib.Scan
import KajijOSta.Terminal.Return

/-! # Names as strings and as 8 bytes

`cd`, `find`, `cp` and `mv` look for an entry with `strcmp`, which reads the name of
the entry as a string; the driver compares 8 bytes with the 8 that `mkdir`, `rm` and
`cat` copy out of the argument. `names_alike_iff` says for which entries and arguments
the two tests agree, and after which `mkdir` a `cd` enters the new folder. -/
namespace KajijOSta.Terminal
open KajijOSta.Fat32 KajijOSta.Shell

/-! ## Arguments and strings -/

/-- An argument of a command: a string without blanks, not empty. -/
structure Token where
  chars : List UInt8
  nonempty : chars ≠ []
  noBlank : blank ∉ chars
  nonzero : 0 ∉ chars

def Token.argument (t : Token) : Argument := ⟨false, t.chars, padded t.chars⟩

structure StringAt (s1 : Memory) (chars : List UInt8) : Prop where
  char : ∀ (j : Nat) (hj : j < chars.length), s1 j = chars[j]
  stop : s1 chars.length = 0

/-- `strcmp` finds a string equal to the one at its first address. -/
theorem strcmp_iff : ∀ {cs : List UInt8} {s1 : Memory}, strcmp s1 cs = true ↔ StringAt s1 cs
  | [], s1 => by
    rw [strcmp, beq_iff_eq]
    exact ⟨fun h => ⟨fun j hj => absurd hj (Nat.not_lt_zero j), h⟩, fun h => h.stop⟩
  | c :: cs, s1 => by
    rw [strcmp, Bool.and_eq_true, beq_iff_eq, strcmp_iff]
    constructor
    · rintro ⟨h0, h⟩
      refine ⟨fun j hj => ?_, ?_⟩
      · cases j with
        | zero => exact h0
        | succ j =>
          have hj' := h.char j (Nat.lt_of_succ_lt_succ hj)
          rwa [Memory.from_apply, Nat.add_comm] at hj'
      · have hstop := h.stop
        rwa [Memory.from_apply, Nat.add_comm] at hstop
    · intro h
      refine ⟨h.char 0 (Nat.succ_pos _), fun j hj => ?_, ?_⟩
      · rw [Memory.from_apply, Nat.add_comm]
        exact h.char (j + 1) (Nat.succ_lt_succ hj)
      · rw [Memory.from_apply, Nat.add_comm]
        exact h.stop

/-- The string goes on behind its first characters. -/
theorem StringAt.append {s1 : Memory} {front back : List UInt8}
    (h : ∀ (j : Nat) (hj : j < front.length), s1 j = front[j]) :
    StringAt s1 (front ++ back) ↔ StringAt (s1.from front.length) back := by
  constructor
  · intro hs
    refine ⟨fun j hj => ?_, ?_⟩
    · have hchar := hs.char (front.length + j) (by rw [List.length_append]; omega)
      simp only [List.getElem_append_right (Nat.le_add_right _ _),
        Nat.add_sub_cancel_left] at hchar
      exact hchar
    · have hstop := hs.stop
      rwa [List.length_append] at hstop
  · intro hs
    refine ⟨fun j hj => ?_, ?_⟩
    · by_cases hlt : j < front.length
      · rw [List.getElem_append_left hlt]
        exact h j hlt
      · have hge : front.length ≤ j := Nat.le_of_not_lt hlt
        rw [List.length_append] at hj
        have hchar := hs.char (j - front.length) (by omega)
        rw [Memory.from_apply, Nat.add_sub_cancel' hge] at hchar
        rw [List.getElem_append_right hge]
        exact hchar
    · rw [List.length_append]
      exact hs.stop

/-- The 8 bytes at an address are those of an argument. -/
def SameName (s1 : Memory) (chars : List UInt8) : Prop := ∀ j, j < 8 → s1 j = chars.getD j 0

theorem name_eq_padded {buf : Memory} {i : Fin 64} {chars : List UInt8} :
    ((FAT32DirectoryTable.ofBytes buf).table i).name = padded chars ↔
      SameName (buf.from (32 * i)) chars := by
  constructor
  · intro h j hj
    exact congrFun h ⟨j, hj⟩
  · intro h
    funext j
    exact h j j.isLt

/-! ## One entry -/

/-- The two tests of an entry agree. -/
def TestsAgree (buf : Memory) (i : Fin 64) (t : Token) : Prop :=
  strcmp (buf.from (32 * i)) t.chars = true ↔
    ((FAT32DirectoryTable.ofBytes buf).table i).name = padded t.chars

/-- The entries for which it does not matter where a name ends: a shorter name than the
field has zeros behind it, and behind a longer one the string goes on as the argument
does. -/
structure EndsAlike (entry : Memory) (t : Token) : Prop where
  short : t.chars.length < 8 → StringAt entry t.chars →
    ∀ j, t.chars.length < j → j < 8 → entry j = 0
  long : 8 ≤ t.chars.length → SameName entry t.chars → StringAt (entry.from 8) (t.chars.drop 8)

section Entry
variable {entry : Memory} {chars : List UInt8}

theorem SameName.char (h : SameName entry chars) {j : Nat} (h8 : j < 8) (hj : j < chars.length) :
    entry j = chars[j] := by
  rw [h j h8, List.getD_eq_getElem?_getD, List.getElem?_eq_getElem hj, Option.getD_some]

theorem SameName.zero (h : SameName entry chars) {j : Nat} (h8 : j < 8) (hj : chars.length ≤ j) :
    entry j = 0 := by
  rw [h j h8, List.getD_eq_getElem?_getD, List.getElem?_eq_none hj, Option.getD_none]

/-- The first 8 characters of a string. -/
theorem StringAt.sameName (h : StringAt entry chars)
    (hzero : ∀ j, chars.length < j → j < 8 → entry j = 0) : SameName entry chars := by
  intro j h8
  rw [List.getD_eq_getElem?_getD]
  rcases Nat.lt_trichotomy j chars.length with hj | hj | hj
  · rw [List.getElem?_eq_getElem hj, Option.getD_some]
    exact h.char j hj
  · rw [List.getElem?_eq_none hj.ge, Option.getD_none, hj]
    exact h.stop
  · rw [List.getElem?_eq_none hj.le, Option.getD_none]
    exact hzero j hj h8

theorem SameName.stringAt_short (h : SameName entry chars) (hlen : chars.length < 8) :
    StringAt entry chars :=
  ⟨fun _ hj => h.char (Nat.lt_trans hj hlen) hj, h.zero hlen (Nat.le_refl _)⟩

theorem SameName.stringAt_long (h : SameName entry chars) (hlen : 8 ≤ chars.length) :
    StringAt entry chars ↔ StringAt (entry.from 8) (chars.drop 8) := by
  have htake : (chars.take 8).length = 8 := by rw [List.length_take, Nat.min_eq_left hlen]
  have hfront : ∀ (j : Nat) (hj : j < (chars.take 8).length), entry j = (chars.take 8)[j] := by
    intro j hj
    rw [List.getElem_take]
    exact h.char (by omega) (by omega)
  have happ := @StringAt.append _ _ (chars.drop 8) hfront
  rwa [List.take_append_drop, htake] at happ

/-- A name that fits is a string where nothing follows it in `ext`. -/
theorem SameName.stringAt (h : SameName entry chars) (hlen : chars.length ≤ 8)
    (hext : entry 8 = 0) : StringAt entry chars := by
  rcases Nat.lt_or_ge chars.length 8 with hlt | hge
  · exact h.stringAt_short hlt
  · rw [h.stringAt_long hge, List.drop_eq_nil_of_le hlen]
    exact ⟨fun j hj => absurd hj (Nat.not_lt_zero j), hext⟩

end Entry

/-- **When the tests of an entry agree.** -/
theorem testsAgree_iff (buf : Memory) (i : Fin 64) (t : Token) :
    TestsAgree buf i t ↔ EndsAlike (buf.from (32 * i)) t := by
  unfold TestsAgree
  rw [strcmp_iff, name_eq_padded]
  constructor
  · intro h
    refine ⟨fun hlen hs j hj h8 => (h.mp hs).zero h8 hj.le, fun hlen hn => ?_⟩
    exact (hn.stringAt_long hlen).mp (h.mpr hn)
  · intro h
    constructor
    · intro hs
      refine hs.sameName fun j hj h8 => ?_
      exact h.short (by omega) hs j hj h8
    · intro hn
      rcases Nat.lt_or_ge t.chars.length 8 with hlen | hlen
      · exact hn.stringAt_short hlen
      · exact (hn.stringAt_long hlen).mpr (h.long hlen hn)

/-! ## A folder just made -/

def folderRequest (env : Environment) (s : System) (t : Token) : FAT32DriverRequest :=
  Shell.request env.null (padded t.chars) s.shell.currentDirectory.clusterNumber 0

/-- `mkdir` has succeeded and left the folder in slot `i` of the current directory. -/
structure MakesFolder (env : Environment) (s : System) (t : Token) (m' : Machine) (i : Fin 64) :
    Prop where
  write : Fat32.write s.machine (folderRequest env s t) = .ok (0, m')
  slot : 2 ≤ i
  named : ((m'.disk.table s.shell.currentDirectory.clusterNumber).table i).key =
    (folderRequest env s t).key

/-- `cd` enters the folder of a slot of the current directory. -/
def EntersFolder (env : Environment) (m : Machine) (s : ShellState) (t : Token) (i : Fin 64) :
    Prop :=
  (cd env t.argument ⟨m, s⟩).result =
    .ok ⟨m, enter s ((m.disk.table s.currentDirectory.clusterNumber).table i) t.argument⟩

/-- In the table in a buffer the slot is the first folder at which the string stands. -/
structure FirstFolder (buf : Memory) (chars : List UInt8) (i : Fin 64) : Prop where
  slot : 2 ≤ i
  folder : ((FAT32DirectoryTable.ofBytes buf).table i).IsFolder
  named : namedBy buf chars i = true
  first : ∀ j, 2 ≤ j → j < i → ((FAT32DirectoryTable.ofBytes buf).table j).IsFolder →
    ¬ namedBy buf chars j = true

/-- The argument is not "..", and in the table READ_DIR leaves for `cd` the first folder
at which it stands is at the cluster of the slot. -/
structure FirstSeen (env : Environment) (m : Machine) (s : ShellState) (t : Token) (i : Fin 64) :
    Prop where
  down : t.chars ≠ dotDot
  leads : ∃ k, FirstFolder (seen ⟨m, s⟩ env) t.chars k ∧
    ((FAT32DirectoryTable.ofBytes (seen ⟨m, s⟩ env)).table k).cluster =
      ((m.disk.table s.currentDirectory.clusterNumber).table i).cluster

/-- The argument fits a name, is not "..", and is not the string at an earlier folder. -/
structure FirstOfName (m : Machine) (s : ShellState) (t : Token) (i : Fin 64) : Prop where
  fits : t.chars.length ≤ 8
  down : t.chars ≠ dotDot
  first : ∀ j, 2 ≤ j → j < i →
    ((m.disk.table s.currentDirectory.clusterNumber).table j).IsFolder →
    ¬ namedBy (m.disk.cluster s.currentDirectory.clusterNumber) t.chars j = true

section Cd
variable {a : Argument} {s : ShellState} {buf : Memory} {chars : List UInt8} {i : Fin 64}

/-- The names of a table in a buffer are those of the table. -/
theorem namedBy_congr {buf buf' : Memory} {chars : List UInt8} (hlen : chars.length ≤ 8)
    (h : ∀ j, j < clusterSize → buf j = buf' j) (i : Fin 64) :
    namedBy buf chars i = namedBy buf' chars i := by
  unfold namedBy
  rw [FAT32DirectoryTable.ofBytes_congr h, strcmp_slot hlen, strcmp_slot hlen,
    FAT32DirectoryTable.ofBytes_congr h]

theorem namedBy_live (h : namedBy buf chars i = true) :
    ((FAT32DirectoryTable.ofBytes buf).table i).Live := by
  unfold namedBy at h
  rw [Bool.and_eq_true, decide_eq_true_eq] at h
  exact h.1

/-- The loop of `cd` stops at the first folder of the name. -/
theorem cdSlot_eq_some_iff : cdSlot buf chars = some i ↔ FirstFolder buf chars i := by
  unfold cdSlot
  rw [Scan.find?_eq_some_iff dataSlots_sorted, Bool.and_eq_true, decide_eq_true_eq]
  constructor
  · intro h
    obtain ⟨hi, ⟨hfolder, hnamed⟩, hmin⟩ := h
    refine ⟨mem_dataSlots.mp hi, hfolder, hnamed, fun j hj hlt hjfolder hjnamed => ?_⟩
    have hfalse := hmin j (mem_dataSlots.mpr hj) hlt
    rw [Bool.and_eq_false_iff, decide_eq_false_iff_not] at hfalse
    rcases hfalse with hnf | hnn
    · exact hnf hjfolder
    · exact Bool.false_ne_true (hnn.symm.trans hjnamed)
  · intro h
    refine ⟨mem_dataSlots.mpr h.slot, ⟨h.folder, h.named⟩, fun j hj hlt => ?_⟩
    rw [Bool.and_eq_false_iff, decide_eq_false_iff_not]
    by_cases hfolder : ((FAT32DirectoryTable.ofBytes buf).table j).IsFolder
    · exact Or.inr (Bool.eq_false_iff.mpr (h.first j (mem_dataSlots.mp hj) hlt hfolder))
    · exact Or.inl hfolder

/-- Of the entry only the cluster is kept. -/
theorem enter_congr {e e' : FAT32DirectoryEntry} (h : e.cluster = e'.cluster) :
    enter s e a = enter s e' a := by
  unfold enter
  rw [h]

/-- Entering a folder changes the current directory. -/
theorem enter_ne {e : FAT32DirectoryEntry} (he : e.cluster ≠ s.currentDirectory.clusterNumber) :
    enter s e a ≠ s := by
  intro h
  exact he (congrArg (fun s => s.currentDirectory.clusterNumber) h)

/-- `cd ..` leaves no longer stack, and entering a folder no shorter one. -/
theorem enter_ne_cdUp {e : FAT32DirectoryEntry}
    (he : e.cluster ≠ s.currentDirectory.clusterNumber) : enter s e a ≠ cdUp s := by
  intro h
  by_cases hnil : s.directoryStack = []
  · have hup : cdUp s = s := if_pos hnil
    exact enter_ne he (h.trans hup)
  · obtain ⟨d, rest, hstack⟩ := List.exists_cons_of_ne_nil hnil
    have hlen := congrArg (fun s => s.directoryStack.length) h
    unfold cdUp at hlen
    rw [if_neg hnil, popDirectory, hstack] at hlen
    unfold enter pushDirectory at hlen
    split at hlen
    · simp [hstack] at hlen
    · simp only [hstack, List.length_cons] at hlen
      omega

end Cd

section Made
variable {env : Environment} {s : System} {t : Token} {m' : Machine} {i : Fin 64}
  (h : s.machine.WellFormed)
  (hc : s.machine.disk.Reachable s.shell.currentDirectory.clusterNumber)
  (hmade : MakesFolder env s t m' i)

include h hc hmade in
/-- The state `mkdir` leaves, and the entry of the folder. -/
theorem MakesFolder.stored : m'.WellFormed ∧
    m'.disk.LiveAt s.shell.currentDirectory.clusterNumber i ∧
    (m'.disk.table s.shell.currentDirectory.clusterNumber).table i =
      addedEntry s.machine (folderRequest env s t) := by
  have hs : (folderRequest env s t).bufferSize.toNat ≤ 255 * clusterSize := Nat.zero_le _
  rcases write_cases (r := folderRequest env s t) h hc hs with
    ⟨_, he⟩ | ⟨_, _, he⟩ | ⟨k, hst, he⟩
  · cases he.symm.trans hmade.write
  · cases he.symm.trans hmade.write
  · cases he.symm.trans hmade.write
    obtain ⟨hw, hl, ht, hslot, _⟩ := stored_slotOf h hc rfl hst
    have hik : i = k := by
      have hd := hw.image.directory _ hl.dir
      rcases hd.slots i hmade.slot with hz | hlive
      · have hkey := hmade.named
        rw [show ((stored s.machine (folderRequest env s t) k).disk.table
          s.shell.currentDirectory.clusterNumber).table i = 0 from hz, key_zero] at hkey
        exact absurd hkey.symm (hst.named h hc)
      · refine hd.unique i k hmade.slot hl.slot hlive.1 hl.live (hmade.named.trans ?_)
        rw [ht, addedEntry_key]
    subst hik
    exact ⟨hw, hl, ht⟩

include h hc hmade in
/-- Another slot of the table does not lead to the new folder. -/
theorem MakesFolder.slot_of_cluster {k : Fin 64} (hk : 2 ≤ k)
    (hlive : ((m'.disk.table s.shell.currentDirectory.clusterNumber).table k).Live)
    (hfolder : ((m'.disk.table s.shell.currentDirectory.clusterNumber).table k).IsFolder)
    (hcluster : ((m'.disk.table s.shell.currentDirectory.clusterNumber).table k).cluster =
      ((m'.disk.table s.shell.currentDirectory.clusterNumber).table i).cluster) : k = i := by
  obtain ⟨hw, hl, ht⟩ := hmade.stored h hc
  by_contra hne
  have hdisj := hw.image.disjoint _ k _ i ⟨hl.dir, hk, hlive⟩ hl fun he => hne (Prod.mk.inj he).2
  have hfolder' : ((m'.disk.table s.shell.currentDirectory.clusterNumber).table i).IsFolder := by
    rw [ht]
    exact addedEntry_folder.mpr rfl
  rw [Disk.clustersOf_folder hfolder, Disk.clustersOf_folder hfolder', hcluster] at hdisj
  exact hdisj (List.mem_singleton_self _) (List.mem_singleton_self _)

include h hc hmade in
/-- The new folder is found by a name that fits. -/
theorem MakesFolder.named_iff {buf : Memory}
    (hbytes : ∀ j, j < clusterSize →
      buf j = m'.disk.cluster s.shell.currentDirectory.clusterNumber j) :
    namedBy buf t.chars i = true ↔ t.chars.length ≤ 8 := by
  obtain ⟨hw, hl, ht⟩ := hmade.stored h hc
  have hslot : (FAT32DirectoryTable.ofBytes buf).table i =
      addedEntry s.machine (folderRequest env s t) :=
    (congrArg (fun t => t.table i) (FAT32DirectoryTable.ofBytes_congr hbytes)).trans ht
  have hkey : ((FAT32DirectoryTable.ofBytes buf).table i).key = ⟨padded t.chars, fun _ => 0⟩ :=
    (congrArg FAT32DirectoryEntry.key hslot).trans addedEntry_key
  have hname : SameName (buf.from (32 * i)) t.chars := name_eq_padded.mp (congrArg Key.name hkey)
  have hext : buf.from (32 * i) 8 = 0 := congrFun (congrArg Key.ext hkey) 0
  have hlive : decide ((FAT32DirectoryTable.ofBytes buf).table i).Live = true := by
    rw [hslot]
    exact decide_eq_true addedEntry_live
  unfold namedBy
  rw [hlive, Bool.true_and, strcmp_iff]
  constructor
  · intro hs
    by_contra hlong
    have hchar := hs.char 8 (by omega)
    rw [hext] at hchar
    exact t.nonzero (hchar ▸ List.getElem_mem _)
  · intro hlen
    exact hname.stringAt hlen hext

include h hc hmade in
/-- Only the driver matches the new folder with an argument that does not fit a name. -/
theorem MakesFolder.not_agree (hlong : ¬ t.chars.length ≤ 8) :
    ¬ TestsAgree (m'.disk.cluster s.shell.currentDirectory.clusterNumber) i t := by
  intro hagree
  obtain ⟨_, hl, _⟩ := hmade.stored h hc
  refine hlong ((hmade.named_iff h hc fun _ _ => rfl).mp ?_)
  unfold namedBy
  rw [hagree.mpr (congrArg Key.name hmade.named), Bool.and_true]
  exact decide_eq_true hl.live

include h hc hmade in
/-- After `mkdir`, `cd` enters the new folder exactly when it is the first seen. -/
theorem MakesFolder.enters_iff :
    EntersFolder env m' s.shell t i ↔ FirstSeen env m' s.shell t i := by
  obtain ⟨hw, hl, ht⟩ := hmade.stored h hc
  have hfolder : ((m'.disk.table s.shell.currentDirectory.clusterNumber).table i).IsFolder := by
    rw [ht]
    exact addedEntry_folder.mpr rfl
  have hne := hw.image.child_ne hl hfolder
  unfold EntersFolder
  rw [show (cd env t.argument ⟨m', s.shell⟩).result = cdStep ⟨m', s.shell⟩ (env, t.argument)
    from rfl]
  constructor
  · intro henters
    have hdown : t.chars ≠ dotDot := by
      intro hup
      rw [cdStep_up hup] at henters
      exact enter_ne_cdUp hne (congrArg System.shell (Except.ok.inj henters)).symm
    obtain ⟨hsome, hnone⟩ := @cdStep_down ⟨m', s.shell⟩ (env, t.argument) hdown
    cases hfound : cdSlot (seen ⟨m', s.shell⟩ env) t.chars with
    | none =>
      rw [hnone hfound] at henters
      exact absurd (congrArg System.shell (Except.ok.inj henters)).symm (enter_ne hne)
    | some k =>
      rw [hsome k hfound] at henters
      exact ⟨hdown, k, cdSlot_eq_some_iff.mp hfound,
        congrArg (fun s : System => s.shell.currentDirectory.clusterNumber)
          (Except.ok.inj henters)⟩
  · intro hseen
    obtain ⟨k, hk, hcluster⟩ := hseen.leads
    obtain ⟨hsome, _⟩ := @cdStep_down ⟨m', s.shell⟩ (env, t.argument) hseen.down
    rw [hsome k (cdSlot_eq_some_iff.mpr hk), enter_congr hcluster]

include h hc hmade in
/-- Where READ_DIR shows the current directory, the new folder is the first seen exactly
when it is the first of its name there. -/
theorem MakesFolder.firstSeen_iff (hm : Matches m' s.shell) :
    FirstSeen env m' s.shell t i ↔ FirstOfName m' s.shell t i := by
  obtain ⟨_, hl, ht⟩ := hmade.stored h hc
  have hbytes : ∀ j, j < clusterSize → seen ⟨m', s.shell⟩ env j =
      m'.disk.cluster s.shell.currentDirectory.clusterNumber j := (hm env.dirTable).2
  have htable : FAT32DirectoryTable.ofBytes (seen ⟨m', s.shell⟩ env) =
      m'.disk.table s.shell.currentDirectory.clusterNumber :=
    FAT32DirectoryTable.ofBytes_congr hbytes
  constructor
  · intro hseen
    obtain ⟨hdown, k, ⟨hk, hfolder, hnamed, hmin⟩, hcluster⟩ := hseen
    have hlive := namedBy_live hnamed
    rw [htable] at hlive hfolder hcluster hmin
    obtain rfl : k = i := hmade.slot_of_cluster h hc hk hlive hfolder hcluster
    have hfits := (hmade.named_iff h hc hbytes).mp hnamed
    refine ⟨hfits, hdown, fun j hj hlt hjfolder hjnamed => ?_⟩
    rw [← namedBy_congr hfits hbytes] at hjnamed
    exact hmin j hj hlt hjfolder hjnamed
  · intro hfirst
    refine ⟨hfirst.down, i, ⟨hl.slot, ?_, (hmade.named_iff h hc hbytes).mpr hfirst.fits, ?_⟩, ?_⟩
    · rw [htable, ht]
      exact addedEntry_folder.mpr rfl
    · intro j hj hlt hjfolder
      rw [htable] at hjfolder
      rw [namedBy_congr hfirst.fits hbytes]
      exact hfirst.first j hj hlt hjfolder
    · rw [htable]

end Made

/-- **When names are matched alike.** For every argument the two tests of an entry agree
exactly when the name ends alike for both; and `cd` enters the folder that `mkdir` has
just made exactly when it is the first that `cd` sees under the argument, which, where
READ_DIR shows the current directory, it is exactly when the argument fits a name, is not
"..", and is not the string at an earlier folder. -/
theorem names_alike_iff (t : Token) :
    (∀ (buf : Memory) (i : Fin 64), TestsAgree buf i t ↔ EndsAlike (buf.from (32 * i)) t) ∧
    ∀ (env : Environment) (s : System) (m' : Machine) (i : Fin 64), s.machine.WellFormed →
      s.machine.disk.Reachable s.shell.currentDirectory.clusterNumber →
      MakesFolder env s t m' i →
      (EntersFolder env m' s.shell t i ↔ FirstSeen env m' s.shell t i) ∧
      (Matches m' s.shell → (FirstSeen env m' s.shell t i ↔ FirstOfName m' s.shell t i)) :=
  ⟨fun buf i => testsAgree_iff buf i t, fun _ _ _ _ h hc hmade =>
    ⟨hmade.enters_iff h hc, hmade.firstSeen_iff h hc⟩⟩

/-! ## In the root of an empty file system -/

section Rooted
variable (env : Environment) (t : Token)

theorem padded_ne_zero : padded t.chars ≠ fun _ => 0 := by
  intro h
  obtain ⟨c, cs, hc⟩ := List.exists_cons_of_ne_nil t.nonempty
  have h0 : padded t.chars 0 = 0 := congrFun h 0
  simp only [padded, hc, Fin.val_zero, List.getD_cons_zero] at h0
  exact t.nonzero (by rw [hc, h0]; exact List.mem_cons_self)

/-- `mkdir` takes slot 2. -/
def withFolder : Machine :=
  stored (rootedMachine rootName) (folderRequest env emptyRoot t) 2

theorem withFolder_makesFolder : MakesFolder env emptyRoot t (withFolder env t) 2 := by
  have hk : (folderRequest env emptyRoot t).key ≠ 0 := fun hk =>
    padded_ne_zero t (congrArg Key.name hk)
  obtain ⟨hmk, hslot⟩ := @rooted_mkdir rootName (folderRequest env emptyRoot t) rfl rfl hk
  refine ⟨hmk, le_refl _, ?_⟩
  rw [show (withFolder env t).disk.table emptyRoot.shell.currentDirectory.clusterNumber =
    (withFolder env t).disk.table rootClusterNumber from rfl]
  exact (congrArg FAT32DirectoryEntry.key ((hslot 2).trans (if_pos rfl))).trans addedEntry_key

theorem withFolder_matches : Matches (withFolder env t) initialShell := by
  have hk : (folderRequest env emptyRoot t).key ≠ 0 := fun hk =>
    padded_ne_zero t (congrArg Key.name hk)
  have h := rootedMachine_wellFormed rootName
  have hst : Storable (rootedMachine rootName) (folderRequest env emptyRoot t) 2 :=
    rooted_storable rfl hk
  have hs : (folderRequest env emptyRoot t).bufferSize.toNat ≤ 255 * clusterSize := Nat.zero_le _
  have htrail : Trail (withFolder env t).disk [] initialShell.currentDirectory
      initialShell.directoryStack := rooted_trail.stored h rfl hs hst
  exact htrail.matches (hst.wellFormed h (Disk.reachable_root _) hs).image

end Rooted

def aToken : Token := ⟨ascii "a", by decide, by decide, by decide⟩

theorem names_alike_rooted :
    EntersFolder unwritten (withFolder unwritten aToken) initialShell aToken 2 := by
  obtain ⟨henters, hseen⟩ := (names_alike_iff aToken).2 unwritten emptyRoot _ 2
    (rootedMachine_wellFormed rootName) (Disk.reachable_root _)
    (withFolder_makesFolder unwritten aToken)
  refine henters.mpr ((hseen (withFolder_matches unwritten aToken)).mpr
    ⟨by decide, by decide, fun j hj hlt => ?_⟩)
  exact absurd hj (not_le.mpr hlt)

def nineToken : Token := ⟨ascii "directory", by decide, by decide, by decide⟩

/-- `mkdir` makes a folder under the first 8 characters, and `cd` does not find it. -/
theorem nineToken_not_alike :
    MakesFolder unwritten emptyRoot nineToken (withFolder unwritten nineToken) 2 ∧
    Matches (withFolder unwritten nineToken) emptyRoot.shell ∧
    (((withFolder unwritten nineToken).disk.table
      emptyRoot.shell.currentDirectory.clusterNumber).table 2).Live ∧
    ¬ TestsAgree ((withFolder unwritten nineToken).disk.cluster
      emptyRoot.shell.currentDirectory.clusterNumber) 2 nineToken ∧
    ¬ EntersFolder unwritten (withFolder unwritten nineToken) emptyRoot.shell nineToken 2 := by
  have h : emptyRoot.machine.WellFormed := rootedMachine_wellFormed rootName
  have hc : emptyRoot.machine.disk.Reachable emptyRoot.shell.currentDirectory.clusterNumber :=
    Disk.reachable_root _
  have hmade := withFolder_makesFolder unwritten nineToken
  have hm := withFolder_matches unwritten nineToken
  have hlong : ¬ nineToken.chars.length ≤ 8 := by decide
  obtain ⟨_, hl, _⟩ := hmade.stored h hc
  refine ⟨hmade, hm, hl.live, hmade.not_agree h hc hlong, fun henters => ?_⟩
  exact hlong ((hmade.firstSeen_iff h hc hm).mp ((hmade.enters_iff h hc).mp henters)).fits

end KajijOSta.Terminal
