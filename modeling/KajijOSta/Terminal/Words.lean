import KajijOSta.Shell.Copying
import KajijOSta.Terminal.FileRequests

/-! # The commands on words

`Shell` has the commands as driver requests for words of 1 to 8 characters, `Terminal`
with all they do, on whatever lies at their arguments. On words the two do the same to
the disk and to the directories of the shell, as long as no READ goes past its buffer;
a copy in a safe state is one of the line `cp` was typed in (`line_copies`). -/
namespace KajijOSta.Terminal
open KajijOSta.Fat32 KajijOSta.Shell

/-- What a request leaves, in the state of the shell it was made in. -/
def onDisk (s : System) : Except Fat32.Fault Machine → Except Fault System
  | .ok m => .ok { s with machine := m }
  | .error f => .error (.driver f)

/-! ## System calls -/

section Calls
variable {s : System} {r : FAT32DriverRequest} {k : Reply → System → Effect}

/-- A request that is the last thing a command does. -/
theorem request_result {c : Fat32.Call} {x : Except Fat32.Fault (Int8 × Machine)} {buf : Memory}
    (h : Fat32.serve s.machine c = x.map fun y => (⟨y.1, buf⟩, y.2)) :
    (driverCall c s fun _ s => emit [] s).result = onDisk s (x.map Prod.snd) := by
  unfold driverCall
  rw [h]
  cases x with
  | error f => rfl
  | ok y => rfl

theorem readFile_ok {x : Int8 × Memory} (h : Fat32.read s.machine r = .ok x)
    (hfit : overruns s.machine r = false) :
    readFile r s k = (k ⟨x.1, x.2⟩ s).after [.call (.read r)] := by
  have hserve : Fat32.serve s.machine (.read r) = .ok (⟨x.1, x.2⟩, s.machine) := by
    rw [Fat32.serve, h]
    rfl
  unfold readFile
  rw [driverCall_ok hserve, if_neg (Bool.eq_false_iff.mp hfit)]

theorem readFile_error {f : Fat32.Fault} (h : Fat32.read s.machine r = .error f) :
    (readFile r s k).result = .error (.driver f) := by
  have hserve : Fat32.serve s.machine (.read r) = .error f := by
    rw [Fat32.serve, h]
    rfl
  unfold readFile driverCall
  rw [hserve]

/-- A READ that stores within a cluster leaves the byte behind it alone. -/
theorem overruns_of_within {x y : Int8 × Memory} (h : StoresWithin s.machine clusterSize r)
    (hx : Fat32.read s.machine { r with buf := fun _ => 0 } = .ok x)
    (hy : Fat32.read s.machine { r with buf := fun _ => 1 } = .ok y) :
    overruns s.machine r = false := by
  have hx0 := h _ x.1 x.2 hx clusterSize (le_refl _)
  have hy1 := h _ y.1 y.2 hy clusterSize (le_refl _)
  unfold overruns
  rw [hx, hy]
  show (x.2 clusterSize == y.2 clusterSize) = false
  rw [hx0, hy1]
  rfl

end Calls

/-! ## Each command -/

section Words
variable {env : Environment} {s : System} {w w' : Word}

theorem mkdir_word : (mkdir env (wordArgument w) s).result =
    onDisk s ((Shell.mkdir s.machine env.null s.shell w).map Prod.snd) := request_result rfl

theorem rm_word : (rm env (wordArgument w) s).result =
    onDisk s ((Shell.rm s.machine env.null s.shell w).map Prod.snd) := request_result rfl

theorem cd_word : (cd env (wordArgument w) s).result =
    .ok { s with shell := Shell.cd s.machine env.dirTable s.shell w } := by
  have hserve : Fat32.serve s.machine (.readDirectory (currentRequest s.shell env.dirTable)) =
      .ok (⟨(readDirectory s.machine (currentRequest s.shell env.dirTable)).1,
        currentTable s.machine env.dirTable s.shell⟩, s.machine) := rfl
  have hslot : cdSlot (currentTable s.machine env.dirTable s.shell) (wordArgument w).chars =
      Shell.cdSlot (currentTable s.machine env.dirTable s.shell) w := rfl
  unfold cd Shell.cd
  by_cases hup : w.chars = dotDot
  · rw [if_pos hup, if_pos (show (wordArgument w).chars = dotDot from hup)]
    rfl
  · rw [if_neg hup, if_neg (show ¬ (wordArgument w).chars = dotDot from hup), driverCall_ok hserve]
    unfold Shell.cdName
    dsimp only
    rw [hslot]
    cases Shell.cdSlot (currentTable s.machine env.dirTable s.shell) w with
    | none => rfl
    | some i => rfl

/-- `cp`, when neither of its READs goes past the buffer. -/
theorem cp_word (hfit : ∀ r, .read r ∈ (Shell.cp s.machine env.dirTable env.clusterBuffer s.shell
    w w').1 → overruns s.machine r = false) :
    (cp env (wordArgument w) (wordArgument w') s).result =
      onDisk s (Shell.cp s.machine env.dirTable env.clusterBuffer s.shell w w').2 := by
  have hreq : fileRequest s env.clusterBuffer (wordArgument w) =
      Shell.fileRequest s.shell env.clusterBuffer w := rfl
  have hsize : ∀ buf, namedSize buf (wordArgument w).chars = Shell.namedSize buf w := fun _ => rfl
  have hname : (wordArgument w').name = w'.name := rfl
  unfold cp copy
  dsimp only
  rw [driverCall_ok rfl, hreq]
  simp only [Effect.after, hsize, hname]
  unfold Shell.cp at hfit ⊢
  dsimp only at hfit ⊢
  generalize Shell.namedSize _ w = size at hfit ⊢
  cases hx : Fat32.read s.machine (Shell.fileRequest s.shell env.clusterBuffer w) with
  | error f =>
    rw [readFile_error hx]
    rfl
  | ok x =>
    rw [hx] at hfit
    dsimp only at hfit ⊢
    cases hy : Fat32.read s.machine (Shell.request x.2 w'.name
        s.shell.currentDirectory.parentClusterNumber size) with
    | error f =>
      rw [hy] at hfit
      rw [readFile_ok hx (hfit _ (by simp))]
      simp only [Effect.after]
      rw [readFile_error hy]
      rfl
    | ok y =>
      rw [hy] at hfit
      rw [readFile_ok hx (hfit _ (by simp))]
      simp only [Effect.after]
      rw [readFile_ok hy (hfit _ (by simp))]
      exact request_result rfl

end Words

/-! ## The line of a copy -/

section Line
variable {env : Environment} {s : System} {w w' : Word} {line : CommandLine}

/-- The prompt leaves the state alone. -/
theorem prompt_result (x : Effect) : (x.andThen showHome).result = x.result := by
  unfold Effect.andThen
  cases x.result with
  | ok s => rfl
  | error f => rfl

/-- A line `cp` with two words of at most 8 characters is `cp` on them. -/
theorem line_cp (hcommand : line.command = .cp) (hw : line.word? 1 = some w.chars)
    (hw' : line.word? 2 = some w'.chars) : (handleCommand env line.buffer s).result =
      (cp env (wordArgument w) (wordArgument w') s).result := by
  have hliteral : line.command.literal.length = 2 := by
    rw [hcommand]
    rfl
  have hroom : 4 + w.chars.length + 8 ≤ 256 := by
    have hshort := w.short
    omega
  have hline : commandOf line.chars = .cp := hcommand
  rw [handleCommand_eq, prompt_result, hline]
  show (withWords env line.buffer s (cp env)).result = _
  rw [withWords_two hliteral hw hw' hroom]
  rfl

variable (h : s.machine.WellFormed)
  (hname : ((s.machine.disk.table rootClusterNumber).table 0).name = Shell.rootName)
  (hs : s.shell.currentDirectory = initialShell.currentDirectory)

include h hname hs in
/-- In a safe state the copy does not go past its buffer. -/
theorem cp_word_safe (hsafe : CpSafe s.machine env.dirTable w w') :
    (cp env (wordArgument w) (wordArgument w') s).result =
      onDisk s (Shell.cp s.machine env.dirTable env.clusterBuffer s.shell w w').2 := by
  refine cp_word fun r hr => ?_
  have hwithin := (CpSafe.works h hname hs hsafe).fits _ r hr
  obtain ⟨x, hx⟩ := @source_read_ok s.machine env.clusterBuffer w h
  have hread : ∀ buf, ∃ y, Fat32.read s.machine { r with buf := buf } = .ok y := by
    intro buf
    rcases (cp_reads h hname hs hx).mp hr with rfl | rfl
    · exact @source_read_ok s.machine buf w h
    · exact @destination_read_ok s.machine env.dirTable w w' h buf
  obtain ⟨y, hy⟩ := hread fun _ => 0
  obtain ⟨z, hz⟩ := hread fun _ => 1
  exact overruns_of_within hwithin hy hz

include h hname hs in
/-- **A copy from the command line.** A line `cp` with two words, in a safe state in the
root, copies a file to an unused name if there is room, and does nothing without the file
or the room. -/
theorem line_copies (hsafe : CpSafe s.machine env.dirTable w w') (hcommand : line.command = .cp)
    (hw : line.word? 1 = some w.chars) (hw' : line.word? 2 = some w'.chars) :
    (∀ e, FileAt s.machine.disk w.key e → s.machine.disk.lookup rootClusterNumber w'.key = none →
      HasRoom s.machine e → ∃ m', (handleCommand env line.buffer s).result = .ok ⟨m', s.shell⟩ ∧
        CopiedTo s.machine m' w'.key e) ∧
    ((∀ e, FileAt s.machine.disk w.key e → ¬ HasRoom s.machine e) →
      ∃ m', (handleCommand env line.buffer s).result = .ok ⟨m', s.shell⟩ ∧
        m'.disk.graph.node m'.disk.content =
          s.machine.disk.graph.node s.machine.disk.content) := by
  have hworks : CpWorks s.machine env.dirTable s.shell w w' := CpSafe.works h hname hs hsafe
  rw [line_cp hcommand hw hw', cp_word_safe h hname hs hsafe]
  refine ⟨fun e hfile habsent hroom => ?_, fun hno => ?_⟩
  · obtain ⟨m', hcp, hcopied⟩ := hworks.copies env.clusterBuffer e hfile habsent hroom
    rw [hcp]
    exact ⟨m', rfl, hcopied⟩
  · obtain ⟨m', hcp, hsame⟩ := hworks.nothing env.clusterBuffer hno
    rw [hcp]
    exact ⟨m', rfl, hsame⟩

end Line

end KajijOSta.Terminal
