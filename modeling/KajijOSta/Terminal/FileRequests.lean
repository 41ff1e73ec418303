import KajijOSta.Terminal.Lines

/-! # What a line can do to the file system

A line changes files and folders under the words it consists of, and only when the
command has all its words (`Sound`). `handle_command` does not look whether
`get_string` has found a word, and copies 8 bytes from wherever it starts:
`sound_iff` says for which lines this does no harm. -/
namespace KajijOSta.Terminal
open KajijOSta.Fat32 KajijOSta.Shell

/-! ## The property -/

/-- The number of words a command needs besides its own. -/
def Command.arguments : Command → Nat
  | .clear | .ls | .other => 0
  | .mkdir | .rm | .cat | .cd | .find => 1
  | .cp | .mv => 2

namespace CommandLine
variable (line : CommandLine)

def command : Command := commandOf line.chars

def HasWord (k : Nat) : Prop := ∃ w, line.word? k = some w ∧ w ≠ []

/-- The line has the words its command needs. -/
def Supplied : Prop := ∀ k, 1 ≤ k → k ≤ line.command.arguments → line.HasWord k

def Names (k : Nat) (name : Fin 8 → UInt8) : Prop :=
  ∃ w, line.word? k = some w ∧ name = padded w

/-- A step the line may lead to: no read at address 0, WRITE under the last word the
command needs and DELETE under the first, if it has them all. -/
def Allows : Action → Prop
  | .nullRead => False
  | .call (.write r) => line.Supplied ∧ line.Names line.command.arguments r.name
  | .call (.delete r) => line.Supplied ∧ line.Names 1 r.name
  | _ => True

/-- Whatever the state, the line leads to such steps only. -/
def Sound : Prop := ∀ env s, (handleCommand env line.buffer s).All line.Allows

/-- The lines that have what their command uses. `cp` and `mv` take the 8 bytes of
their second word from an array of 256, in which it starts 4 bytes behind the length
of the first. -/
def Complete : Prop :=
  match line.command with
  | .mkdir | .rm => line.HasWord 1
  | .cat | .cd | .find => ∃ w, line.word? 1 = some w
  | .cp | .mv => line.HasWord 1 ∧ line.HasWord 2 ∧
      ∀ w, line.word? 1 = some w → 4 + w.length + 8 ≤ 256
  | _ => True

end CommandLine

/-- A step of some code. -/
theorem mem_after_left {x : Effect} {actions : List Action} {a : Action} (h : a ∈ actions) :
    a ∈ (x.after actions).actions := List.mem_append_left _ h

theorem mem_after_right {x : Effect} {actions : List Action} {a : Action} (h : a ∈ x.actions) :
    a ∈ (x.after actions).actions := List.mem_append_right _ h

theorem mem_andThen {x : Effect} {f : System → Effect} {a : Action} (h : a ∈ x.actions) :
    a ∈ (x.andThen f).actions := by
  unfold Effect.andThen
  cases x.result with
  | ok s => exact List.mem_append_left _ h
  | error e => exact h

theorem driverCall_mem (c : Fat32.Call) (s : System) (k : Reply → System → Effect) :
    .call c ∈ (driverCall c s k).actions := by
  unfold driverCall
  cases Fat32.serve s.machine c with
  | ok y => exact mem_after_left (List.mem_singleton.mpr rfl)
  | error e => exact List.mem_singleton.mpr rfl

theorem driverCall_ok {c : Fat32.Call} {s : System} {reply : Reply} {m : Machine}
    (h : Fat32.serve s.machine c = .ok (reply, m)) (k : Reply → System → Effect) :
    driverCall c s k = (k reply { s with machine := m }).after [.call c] := by
  unfold driverCall
  rw [h]

/-! ## Steps that touch nothing -/

/-- The text a program puts on the screen. -/
def IsOutput : Keyboard.Event → Prop
  | .putsChar _ _ | .puts _ _ _ | .putsNewline | .resetKeyboardState | .framebufferClear => True
  | _ => False

def Quiet : Action → Prop
  | .text event => IsOutput event
  | .call (.read _) | .call (.readDirectory _) => True
  | _ => False

section Quiet
variable {P : Action → Prop} {env : Environment} {a b : Argument} {s : System}

theorem Quiet.allowed {line : CommandLine} {x : Action} (h : Quiet x) : line.Allows x := by
  cases x with
  | nullRead => exact h.elim
  | text event => trivial
  | call request => cases request with
    | write r => exact h.elim
    | delete r => exact h.elim
    | _ => trivial

theorem deref_nil (ha : a.null = false) : deref a = [] := by
  unfold deref
  rw [ha]
  rfl

theorem deref_all (ha : a.null = false) : ∀ x ∈ deref a, P x := by
  rw [deref_nil ha]
  exact List.forall_mem_nil _

theorem quiet_newline : ∀ x ∈ [newline], Quiet x := by
  intro x hx
  rw [List.mem_singleton.mp hx]
  trivial

theorem showHome_quiet (s : System) : (showHome s).All Quiet := by
  refine all_emit ?_
  simp [message, letter, Quiet, IsOutput]

theorem catLoop_quiet (buf : Memory) : ∀ n i, ∀ x ∈ (catLoop buf i n).1, Quiet x
  | 0, _ => List.forall_mem_nil _
  | n + 1, i => by
    unfold catLoop
    split
    · exact List.forall_mem_nil _
    · intro x hx
      rcases List.mem_cons.mp hx with rfl | hx
      · split <;> trivial
      · exact catLoop_quiet buf n (i + 1) x hx

theorem cat_all (hq : ∀ x, Quiet x → P x) (ha : ∀ x ∈ deref a, P x) : (cat env a s).All P := by
  unfold cat
  refine (all_readFile (hq _ trivial) fun reply s => ?_).after ha
  split
  · have hloop := catLoop_quiet reply.buf clusterSize 0
    split
    · rename_i printed hprinted
      rw [hprinted] at hloop
      refine all_emit fun x hx => hq x ?_
      rcases List.mem_append.mp hx with hx | hx
      · exact hloop x hx
      · exact quiet_newline x hx
    · rename_i printed hprinted
      rw [hprinted] at hloop
      exact fun x hx => hq x (hloop x hx)
  · exact all_emit (List.forall_mem_nil _)

theorem ls_all (hq : ∀ x, Quiet x → P x) : (ls env s).All P := by
  refine all_driverCall (hq _ trivial) fun reply s => all_emit fun x hx => hq x ?_
  obtain ⟨i, _, hx⟩ := List.mem_flatMap.mp hx
  split at hx
  · rcases List.mem_append.mp hx with hx | hx
    · split at hx
      · rw [List.mem_singleton.mp hx]
        trivial
      · cases hx
    · rcases List.mem_pair.mp hx with hx | hx <;> rw [hx] <;> trivial
  · cases hx

theorem cd_all (hq : ∀ x, Quiet x → P x) (ha : ∀ x ∈ deref a, P x) : (cd env a s).All P := by
  unfold cd
  refine Effect.All.after ?_ ha
  split
  · exact all_emit (List.forall_mem_nil _)
  · refine all_driverCall (hq _ trivial) fun reply s => ?_
    split
    · unfold pushMessage
      refine all_emit fun x hx => hq x ?_
      split at hx
      · rw [List.mem_singleton.mp hx]
        trivial
      · cases hx
    · refine all_emit fun x hx => hq x ?_
      rw [List.mem_singleton.mp hx]
      trivial

theorem find_actions (env : Environment) (a : Argument) (s : System) :
    (find env a s).actions = (findFrom s.machine env.findTable a.chars env.findDepth []
      rootClusterNumber s.shell.currentDirectory.name rootClusterNumber).1.flatMap
        (FindStep.actions a) := rfl

theorem find_all (hq : ∀ x, Quiet x → P x) (ha : ∀ x ∈ deref a, P x) : (find env a s).All P := by
  intro x hx
  obtain ⟨step, _, hx⟩ := List.mem_flatMap.mp hx
  cases step with
  | visit r nextCluster =>
    rw [List.mem_singleton.mp hx]
    exact hq _ trivial
  | compare => exact ha x hx
  | print buf i =>
    rw [List.mem_singleton.mp hx]
    exact hq _ trivial

theorem mkdir_all (ha : ∀ x ∈ deref a, P x)
    (hw : ∀ r : FAT32DriverRequest, r.name = a.name → P (.call (.write r))) :
    (mkdir env a s).All P :=
  (all_driverCall (hw _ rfl) fun _ _ => all_emit (List.forall_mem_nil _)).after ha

theorem rm_all (ha : ∀ x ∈ deref a, P x)
    (hd : ∀ r : FAT32DriverRequest, r.name = a.name → P (.call (.delete r))) :
    (rm env a s).All P :=
  (all_driverCall (hd _ rfl) fun _ _ => all_emit (List.forall_mem_nil _)).after ha

/-- The WRITE of `cp` and `mv` is under the second name. -/
theorem copy_all {k : FAT32DriverRequest → System → Effect} (ha : ∀ x ∈ deref a, P x)
    (hb : ∀ x ∈ deref b, P x) (hq : ∀ x, Quiet x → P x)
    (hw : ∀ r : FAT32DriverRequest, r.name = b.name → P (.call (.write r)))
    (hk : ∀ r s, r.name = a.name → (k r s).All P) : (copy env a b s k).All P := by
  refine all_driverCall (hq _ trivial) fun reply s => ?_
  refine (all_readFile (hq _ trivial) fun reply s => ?_).after ha
  refine (all_readFile (hq _ trivial) fun reply s => ?_).after hb
  exact all_driverCall (hw _ rfl) fun _ s => hk _ s rfl

theorem mv_all (ha : ∀ x ∈ deref a, P x) (hb : ∀ x ∈ deref b, P x) (hq : ∀ x, Quiet x → P x)
    (hw : ∀ r : FAT32DriverRequest, r.name = b.name → P (.call (.write r)))
    (hd : ∀ r : FAT32DriverRequest, r.name = a.name → P (.call (.delete r))) :
    (mv env a b s).All P :=
  copy_all ha hb hq hw fun r _ hr =>
    all_driverCall (hd r hr) fun _ _ => all_emit (List.forall_mem_nil _)

end Quiet

/-! ## Where the words start -/

section Starts
variable {line : CommandLine}

def Command.literal : Command → List UInt8
  | .mkdir => ascii "mkdir"
  | .rm => ascii "rm"
  | .cat => ascii "cat"
  | .cd => ascii "cd"
  | .find => ascii "find"
  | .cp => ascii "cp"
  | .mv => ascii "mv"
  | .clear | .ls | .other => []

/-- One comparison of the dispatch. -/
theorem literal_ite {p : Prop} [Decidable p] {c d : Command} {w : List UInt8}
    (hc : p → c.arguments ≠ 0 → w = c.literal) (hd : d.arguments ≠ 0 → w = d.literal) :
    (if p then c else d).arguments ≠ 0 → w = (if p then c else d).literal := by
  by_cases hp : p
  · rw [if_pos hp]
    exact hc hp
  · rw [if_neg hp]
    exact hd

theorem command_word (h : line.command.arguments ≠ 0) :
    (fields line.chars).headD [] = line.command.literal := by
  revert h
  unfold CommandLine.command commandOf
  refine literal_ite (fun _ h => absurd rfl h) ?_
  refine literal_ite (fun _ h => absurd rfl h) ?_
  refine literal_ite (fun hmkdir _ => hmkdir) ?_
  refine literal_ite (fun hrm _ => hrm) ?_
  refine literal_ite (fun hcat _ => hcat) ?_
  refine literal_ite (fun hcd _ => hcd) ?_
  refine literal_ite (fun hfind _ => hfind) ?_
  refine literal_ite (fun hcp _ => hcp) ?_
  exact literal_ite (fun hmv _ => hmv) fun h => absurd rfl h

theorem start_one (h : line.command.arguments ≠ 0) :
    fieldStart line.chars 1 = line.command.literal.length + 1 := by
  obtain ⟨w, rest, hfields⟩ := fields_cons_head line.chars
  have hw := command_word h
  rw [hfields, List.headD_cons] at hw
  unfold fieldStart
  rw [hfields, ← hw]
  simp

theorem start_two (h : line.command.arguments ≠ 0) {w : List UInt8}
    (hword : line.word? 1 = some w) :
    fieldStart line.chars 2 = line.command.literal.length + 1 + (w.length + 1) := by
  obtain ⟨w0, rest, hfields⟩ := fields_cons_head line.chars
  have hw := command_word h
  unfold CommandLine.word? at hword
  rw [hfields, List.headD_cons] at hw
  rw [hfields, List.getElem?_cons_succ] at hword
  cases rest with
  | nil => cases hword
  | cons w1 rest =>
    obtain rfl : w1 = w := Option.some.inj hword
    unfold fieldStart
    rw [hfields, ← hw]
    simp

theorem literal_length (c : Command) : c.literal.length ≤ 5 := by
  cases c <;> decide

end Starts

/-! ## Lines that have what their command uses -/

section Complete
variable {line : CommandLine} {env : Environment} {s : System}

theorem quiet_allowed (x : Action) (hx : Quiet x) : line.Allows x := hx.allowed

theorem Effect.All.allowed {x : Effect} (h : x.All Quiet) : x.All line.Allows :=
  fun y hy => (h y hy).allowed

theorem newline_allowed (s : System) : (emit [newline] s).All line.Allows :=
  (all_emit quiet_newline).allowed

/-- The first word as an argument: its own 8 bytes. -/
theorem withWord_first (h : line.command.arguments ≠ 0) {w : List UInt8}
    (hword : line.word? 1 = some w) (behind : Memory) (k : Argument → System → Effect) :
    withWord env line.buffer behind 1 s k = k ⟨false, w, padded w⟩ s := by
  have hlen := literal_length line.command
  have hstart : fieldStart line.chars (1 : UInt8).toNat + 8 ≤ 256 := by
    show fieldStart line.chars 1 + 8 ≤ 256
    rw [start_one h]
    omega
  rw [@withWord_word line 1 w env behind s k hword, nameAt_eq behind hstart]

/-- The two words of `cp` and `mv`, when the second has its 8 bytes in the array. -/
theorem withWords_two (h : line.command.literal.length = 2) {w w' : List UInt8}
    (hword : line.word? 1 = some w) (hword' : line.word? 2 = some w')
    (hroom : 4 + w.length + 8 ≤ 256) (k : Argument → Argument → System → Effect) :
    withWords env line.buffer s k = k ⟨false, w, padded w⟩ ⟨false, w', padded w'⟩ s := by
  have hne : line.command.arguments ≠ 0 := by
    intro h0
    have hlit : line.command.literal = [] := by
      revert h0
      cases line.command <;> decide
    rw [hlit] at h
    cases h
  have hstart : fieldStart line.chars (2 : UInt8).toNat + 8 ≤ 256 := by
    show fieldStart line.chars 2 + 8 ≤ 256
    rw [start_two hne hword, h]
    omega
  unfold withWords
  rw [withWord_first hne hword,
    @withWord_word line 2 w' env env.behindTemp2 s _ hword', nameAt_eq _ hstart]

theorem supplied_one (h : line.command.arguments = 1) (hw : line.HasWord 1) : line.Supplied := by
  intro k hk hle
  obtain rfl : k = 1 := by omega
  exact hw

theorem supplied_two (h : line.command.arguments = 2) (hw : line.HasWord 1)
    (hw' : line.HasWord 2) : line.Supplied := by
  intro k hk hle
  rcases (by omega : k = 1 ∨ k = 2) with rfl | rfl
  · exact hw
  · exact hw'

theorem allows_write (h : line.Supplied) {w : List UInt8}
    (hword : line.word? line.command.arguments = some w) (r : FAT32DriverRequest)
    (hr : r.name = padded w) : line.Allows (.call (.write r)) := ⟨h, w, hword, hr⟩

theorem allows_delete (h : line.Supplied) {w : List UInt8} (hword : line.word? 1 = some w)
    (r : FAT32DriverRequest) (hr : r.name = padded w) : line.Allows (.call (.delete r)) :=
  ⟨h, w, hword, hr⟩

/-- **A complete line** leads to steps the line allows only. -/
theorem complete_sound (h : line.Complete) : line.Sound := by
  intro env s
  rw [handleCommand_eq]
  refine Effect.All.andThen ?_ fun s => (showHome_quiet s).allowed
  show (runCommand env line.buffer s line.command).All line.Allows
  unfold CommandLine.Complete at h
  cases hc : line.command with
  | clear => exact (all_emit (by simp [Quiet, IsOutput])).allowed
  | ls => exact ((ls_all fun _ hx => hx).after quiet_newline).allowed.andThen newline_allowed
  | mkdir =>
    rw [hc] at h
    obtain ⟨w, hword, hne⟩ := h
    have harg : line.command.arguments = 1 := by rw [hc]; rfl
    have hsup := supplied_one harg ⟨w, hword, hne⟩
    refine Effect.All.andThen ?_ newline_allowed
    rw [withWord_first (by omega) hword]
    exact mkdir_all (deref_all rfl) fun r hr => allows_write hsup (harg ▸ hword) r hr
  | rm =>
    rw [hc] at h
    obtain ⟨w, hword, hne⟩ := h
    have harg : line.command.arguments = 1 := by rw [hc]; rfl
    have hsup := supplied_one harg ⟨w, hword, hne⟩
    refine Effect.All.andThen ?_ newline_allowed
    rw [withWord_first (by omega) hword]
    exact rm_all (deref_all rfl) fun r hr => allows_delete hsup hword r hr
  | cat =>
    rw [hc] at h
    obtain ⟨w, hword⟩ := h
    refine Effect.All.allowed (Effect.All.after ?_ quiet_newline)
    rw [@withWord_word line 1 w env env.behindTemp s (cat env) hword]
    exact cat_all (fun _ hx => hx) (deref_all rfl)
  | cd =>
    rw [hc] at h
    obtain ⟨w, hword⟩ := h
    refine Effect.All.allowed (Effect.All.after ?_ quiet_newline)
    rw [@withWord_word line 1 w env env.behindTemp s (cd env) hword]
    exact cd_all (fun _ hx => hx) (deref_all rfl)
  | find =>
    rw [hc] at h
    obtain ⟨w, hword⟩ := h
    refine Effect.All.andThen (Effect.All.allowed (Effect.All.after ?_ quiet_newline))
      newline_allowed
    rw [@withWord_word line 1 w env env.behindTemp s (find env) hword]
    exact find_all (fun _ hx => hx) (deref_all rfl)
  | cp =>
    rw [hc] at h
    obtain ⟨⟨w, hword, hne⟩, ⟨w', hword', hne'⟩, hroom⟩ := h
    have harg : line.command.arguments = 2 := by rw [hc]; rfl
    have hsup := supplied_two harg ⟨w, hword, hne⟩ ⟨w', hword', hne'⟩
    refine Effect.All.after ?_ fun x hx => (quiet_newline x hx).allowed
    rw [withWords_two (by rw [hc]; rfl) hword hword' (hroom w hword)]
    exact copy_all (deref_all rfl) (deref_all rfl) quiet_allowed
      (fun r hr => allows_write hsup (harg ▸ hword') r hr)
      fun _ _ _ => all_emit (List.forall_mem_nil _)
  | mv =>
    rw [hc] at h
    obtain ⟨⟨w, hword, hne⟩, ⟨w', hword', hne'⟩, hroom⟩ := h
    have harg : line.command.arguments = 2 := by rw [hc]; rfl
    have hsup := supplied_two harg ⟨w, hword, hne⟩ ⟨w', hword', hne'⟩
    refine Effect.All.after ?_ fun x hx => (quiet_newline x hx).allowed
    rw [withWords_two (by rw [hc]; rfl) hword hword' (hroom w hword)]
    exact mv_all (deref_all rfl) (deref_all rfl) quiet_allowed
      (fun r hr => allows_write hsup (harg ▸ hword') r hr)
      fun r hr => allows_delete hsup hword r hr
  | other => exact (all_emit (by simp [newline, message, Quiet, IsOutput])).allowed

end Complete

/-! ## Lines that have not -/

section Incomplete
variable {line : CommandLine}

/-- The shell's root, empty. -/
def emptyRoot : System := ⟨rootedMachine rootName, initialShell⟩

/-- A disk of zeros, which no driver has mounted. -/
def unformatted : System := ⟨⟨⟨0, 0⟩, fun _ => 0, []⟩, initialShell⟩

/-- Memory in which every slot looks live. -/
def unwritten : Environment where
  behindTemp := fun _ => 0
  behindTemp2 := fun _ => 1
  dirTable := fun _ => 0
  clusterBuffer := fun _ => 0
  findTable := fun _ _ => uattrNotEmpty
  findDepth := 1
  null := fun _ => 0
  nullString := []

theorem deref_mem {a : Argument} (ha : a.null = true) : .nullRead ∈ deref a := by
  unfold deref
  rw [ha]
  exact List.mem_singleton.mpr rfl

theorem unformatted_fat : unformatted.machine.fat.get? rootClusterNumber = some 0 := rfl

theorem unformatted_read {r : FAT32DriverRequest}
    (hr : r.parentClusterNumber = rootClusterNumber) (k : Reply → System → Effect) :
    readFile r unformatted k = (k ⟨2, r.buf⟩ unformatted).after [.call (.read r)] := by
  have hread : ∀ q : FAT32DriverRequest, q.parentClusterNumber = rootClusterNumber →
      Fat32.read unformatted.machine q = .ok (2, q.buf) := by
    intro q hq
    unfold Fat32.read
    rw [hq, unformatted_fat]
    rfl
  have hserve : Fat32.serve unformatted.machine (.read r) =
      .ok (⟨2, r.buf⟩, unformatted.machine) := by
    unfold Fat32.serve
    dsimp only
    rw [hread r hr]
    rfl
  have hover : overruns unformatted.machine r = false := by
    unfold overruns
    rw [hread { r with buf := fun _ => 0 } hr, hread { r with buf := fun _ => 1 } hr]
    rfl
  unfold readFile
  rw [driverCall_ok hserve, hover]
  rfl

/-- `cp` and `mv` get to their WRITE and read both names. -/
theorem copy_unformatted (env : Environment) (a b : Argument)
    (k : FAT32DriverRequest → System → Effect) :
    (∀ x ∈ deref a, x ∈ (copy env a b unformatted k).actions) ∧
    (∀ x ∈ deref b, x ∈ (copy env a b unformatted k).actions) ∧
    ∃ r : FAT32DriverRequest, r.name = b.name ∧
      .call (.write r) ∈ (copy env a b unformatted k).actions := by
  unfold copy
  dsimp only
  rw [driverCall_ok rfl, unformatted_read rfl, unformatted_read rfl]
  refine ⟨fun x hx => ?_, fun x hx => ?_, _, ?_, mem_after_right (mem_after_right
    (mem_after_right (mem_after_right (mem_after_right (driverCall_mem _ _ _)))))⟩
  · exact mem_after_right (mem_after_left hx)
  · exact mem_after_right (mem_after_right (mem_after_right (mem_after_left hx)))
  · rfl

theorem findSlots_compare {descend : Fin 64 → List FindStep × Bool} {buf : Memory}
    {chars : List UInt8} {i : Fin 64} {is : List (Fin 64)}
    (hi : ((FAT32DirectoryTable.ofBytes buf).table i).Live) :
    .compare ∈ (findSlots descend buf chars (i :: is)).1 := by
  unfold findSlots
  rw [if_pos hi]
  split
  · exact List.mem_cons_self
  · split
    · split <;> exact List.mem_cons_self
    · exact List.mem_cons_self

/-- `find` compares a name with the first slot of the memory its table was to be read
into, when READ_DIR finds no directory. -/
theorem findFrom_compare {m : Machine} {tables : List (Fin 64) → Memory} (chars : List UInt8)
    {c nextCluster : UInt32} {currentDir : Fin 8 → UInt8}
    (hnone : ∀ i, ((m.disk.table c).table i).name ≠ currentDir)
    (hlive : ((FAT32DirectoryTable.ofBytes (tables [])).table 2).Live) (n : Nat) :
    .compare ∈ (findFrom m tables chars (n + 1) [] c currentDir nextCluster).1 := by
  have hdir : readDirectory m (Shell.request (tables []) currentDir c
      (UInt32.ofNat clusterSize)) = (2, tables []) :=
    readDirectory_missing (r := Shell.request _ currentDir c _) hnone
  obtain ⟨is, hslots⟩ : ∃ is, dataSlots = 2 :: is := ⟨_, rfl⟩
  unfold findFrom
  dsimp only
  rw [hdir, hslots]
  exact List.mem_cons_of_mem _ (findSlots_compare hlive)

theorem unformatted_name (i : Fin 64) :
    ((unformatted.machine.disk.table rootClusterNumber).table i).name = fun _ => 0 := rfl

/-- No directory has the name the shell starts with. -/
theorem unformatted_missing (i : Fin 64) :
    ((unformatted.machine.disk.table rootClusterNumber).table i).name ≠
      unformatted.shell.currentDirectory.name := by
  intro h
  have h0 : (0 : UInt8) = unformatted.shell.currentDirectory.name 0 :=
    congrFun ((unformatted_name i).symm.trans h) 0
  exact absurd h0 (by decide)

theorem find_unformatted {a : Argument} (ha : a.null = true) :
    .nullRead ∈ (find unwritten a unformatted).actions := by
  have hcompare := @findFrom_compare unformatted.machine unwritten.findTable a.chars
    rootClusterNumber rootClusterNumber _ unformatted_missing rfl 0
  rw [find_actions]
  exact List.mem_flatMap.mpr ⟨.compare, hcompare, deref_mem ha⟩

/-- What a command gets for a word, if it is there or not. -/
theorem withWord_cases (env : Environment) (behind : Memory) (idx : UInt8) (s : System) :
    ∃ a : Argument, (a.null = true ↔ line.word? idx.toNat = none) ∧
      (∀ w, line.word? idx.toNat = some w →
        a.name = nameAt behind (fieldStart line.chars idx.toNat) w) ∧
      ∀ k, withWord env line.buffer behind idx s k = k a s := by
  cases hword : line.word? idx.toNat with
  | none =>
    refine ⟨argumentAt env line.buffer behind none, iff_of_true rfl rfl, nofun, fun k => ?_⟩
    exact withWord_missing env behind s k hword
  | some w =>
    refine ⟨⟨false, w, nameAt behind (fieldStart line.chars idx.toNat) w⟩,
      iff_of_false Bool.false_ne_true nofun, fun w' hw' => ?_, fun k => ?_⟩
    · cases hw'
      rfl
    · exact withWord_word env behind s k hword

/-- The steps of a command are steps of its line. -/
theorem sound_allows (h : line.Sound) {env : Environment} {s : System} {x : Action}
    (hx : x ∈ (runCommand env line.buffer s line.command).actions) : line.Allows x := by
  have hall := h env s
  rw [handleCommand_eq] at hall
  exact hall x (mem_andThen hx)

/-- A command that reads its word needs it to be there. -/
theorem word_of_sound {k : Argument → System → Effect}
    (h : ∀ x ∈ (withWord unwritten line.buffer unwritten.behindTemp 1 unformatted k).actions,
      line.Allows x)
    (hk : ∀ a, a.null = true → .nullRead ∈ (k a unformatted).actions) :
    ∃ w, line.word? 1 = some w := by
  obtain ⟨a, hnull, _, hwith⟩ := @withWord_cases line unwritten unwritten.behindTemp 1 unformatted
  rw [hwith] at h
  refine Option.ne_none_iff_exists'.mp fun hnone => ?_
  exact h _ (hk a (hnull.mpr hnone))

/-- `cp` and `mv` need both words, the second with its 8 bytes in the array. -/
theorem words_of_sound {k : FAT32DriverRequest → System → Effect}
    (harg : line.command.arguments = 2) (hlit : line.command.literal.length = 2)
    (h : ∀ x ∈ (withWords unwritten line.buffer unformatted fun a b s =>
      copy unwritten a b s k).actions, line.Allows x) :
    line.HasWord 1 ∧ line.HasWord 2 ∧ ∀ w, line.word? 1 = some w → 4 + w.length + 8 ≤ 256 := by
  obtain ⟨a, _, _, hwith⟩ := @withWord_cases line unwritten unwritten.behindTemp 1 unformatted
  obtain ⟨b, _, hname, hwith'⟩ := @withWord_cases line unwritten unwritten.behindTemp2 2 unformatted
  have hcopy : ∀ x ∈ (copy unwritten a b unformatted k).actions, line.Allows x := by
    unfold withWords at h
    rwa [hwith, hwith'] at h
  obtain ⟨_, _, r, hr, hmem⟩ := copy_unformatted unwritten a b k
  obtain ⟨hsup, w', hword', hw'⟩ := hcopy _ hmem
  have hword1 := hsup 1 (Nat.le_refl 1) (by omega)
  have hword2 := hsup 2 (by omega) (by omega)
  refine ⟨hword1, hword2, fun w hword => ?_⟩
  -- otherwise the last byte of the name lies behind the array
  by_contra hfar
  rw [harg] at hword'
  have hstart := start_two (by omega) hword
  rw [hlit] at hstart
  obtain ⟨front, back, hat⟩ := fieldAt line.chars hword'
  have hlen : line.chars.length = front.length + w'.length + back.length := by
    rw [hat.line_eq, List.length_append, List.length_append]
  have hshort := line.short
  have hbegin := hat.start
  have h7 : nameAt unwritten.behindTemp2 (fieldStart line.chars 2) w' 7 = padded w' 7 := by
    rw [← hw', hr]
    exact congrFun (hname w' hword').symm 7
  have hout : nameAt unwritten.behindTemp2 (fieldStart line.chars 2) w' 7 = 1 := if_neg (by omega)
  have hpad : padded w' 7 = 0 := by
    unfold padded
    rw [List.getD_eq_getElem?_getD, List.getElem?_eq_none (by omega), Option.getD_none]
  rw [hout, hpad] at h7
  cases h7

/-- **A sound line** is complete. -/
theorem sound_complete (h : line.Sound) : line.Complete := by
  have hsteps : ∀ x ∈ (runCommand unwritten line.buffer unformatted line.command).actions,
      line.Allows x := fun x hx => sound_allows h hx
  unfold CommandLine.Complete
  cases hc : line.command with
  | clear => trivial
  | ls => trivial
  | other => trivial
  | mkdir =>
    rw [hc] at hsteps
    obtain ⟨a, _, _, hwith⟩ := @withWord_cases line unwritten unwritten.behindTemp 1 unformatted
    have hallow := hsteps _ (mem_andThen (by
      rw [hwith]
      exact mem_after_right (driverCall_mem _ _ _)))
    exact hallow.1 1 (Nat.le_refl 1) (by rw [hc]; decide)
  | rm =>
    rw [hc] at hsteps
    obtain ⟨a, _, _, hwith⟩ := @withWord_cases line unwritten unwritten.behindTemp 1 unformatted
    have hallow := hsteps _ (mem_andThen (by
      rw [hwith]
      exact mem_after_right (driverCall_mem _ _ _)))
    exact hallow.1 1 (Nat.le_refl 1) (by rw [hc]; decide)
  | cat =>
    rw [hc] at hsteps
    exact word_of_sound (fun x hx => hsteps x (mem_after_right hx))
      fun a ha => mem_after_left (deref_mem ha)
  | cd =>
    rw [hc] at hsteps
    exact word_of_sound (fun x hx => hsteps x (mem_after_right hx))
      fun a ha => mem_after_left (deref_mem ha)
  | find =>
    rw [hc] at hsteps
    exact word_of_sound (fun x hx => hsteps x (mem_andThen (mem_after_right hx)))
      fun a ha => find_unformatted ha
  | cp =>
    rw [hc] at hsteps
    exact words_of_sound (by rw [hc]; rfl) (by rw [hc]; rfl)
      fun x hx => hsteps x (mem_after_right hx)
  | mv =>
    rw [hc] at hsteps
    exact words_of_sound (by rw [hc]; rfl) (by rw [hc]; rfl)
      fun x hx => hsteps x (mem_after_right hx)

end Incomplete

/-- **Which lines touch the file system under their words only.** -/
theorem sound_iff (line : CommandLine) : line.Sound ↔ line.Complete :=
  ⟨sound_complete, complete_sound⟩

def bareRm : CommandLine := ⟨ascii "rm", by decide, by decide⟩

/-- `rm` without a word copies its name from address 0. -/
theorem bareRm_not_sound : ¬ bareRm.Sound := by
  intro h
  have hword : bareRm.HasWord 1 := sound_complete h
  obtain ⟨w, hw, _⟩ := hword
  have hnone : bareRm.word? 1 = none := by decide
  rw [hnone] at hw
  cases hw

end KajijOSta.Terminal
