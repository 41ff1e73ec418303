import KajijOSta.Lib.BoundedStack
import KajijOSta.Terminal.FileRequests

/-! # The way back

`cd` with a name pushes the current directory on a stack of 100, and moves also when
the push fails; `cd ..` pops. Only `cd` touches the directories of the shell
(`Reached.depth`). `cd_undone_iff` says after which ways down the same number of
`cd ..` leads back. -/
namespace KajijOSta.Terminal
open KajijOSta.Fat32 KajijOSta.Shell KajijOSta.Runs KajijOSta.BoundedStack

/-! ## What the commands leave of the shell's directories -/

/-- Where some code ends, the directories of the shell have the property. -/
def Effect.Leaves (P : ShellState → Prop) (x : Effect) : Prop :=
  ∀ s, x.result = .ok s → P s.shell

section Leaves
variable {P : ShellState → Prop} {x : Effect} {s : System} {actions : List Action}
  {env : Environment} {a b : Argument}

theorem leaves_emit (h : P s.shell) : (emit actions s).Leaves P := by
  intro t ht
  cases ht
  exact h

theorem leaves_error {f : Fault} : Effect.Leaves P ⟨actions, .error f⟩ := nofun

theorem Effect.Leaves.after (h : x.Leaves P) : (x.after actions).Leaves P := h

theorem Effect.Leaves.andThen {f : System → Effect} (hx : x.Leaves P)
    (hf : ∀ s, P s.shell → (f s).Leaves P) : (x.andThen f).Leaves P := by
  unfold Effect.andThen
  cases hr : x.result with
  | ok s => exact hf s (hx s hr)
  | error e => exact leaves_error

theorem leaves_driverCall {c : Fat32.Call} {k : Reply → System → Effect}
    (hk : ∀ reply m, (k reply { s with machine := m }).Leaves P) :
    (driverCall c s k).Leaves P := by
  unfold driverCall
  cases Fat32.serve s.machine c with
  | ok y => exact (hk y.1 y.2).after
  | error e => exact leaves_error

theorem leaves_readFile {r : FAT32DriverRequest} {k : Reply → System → Effect}
    (hk : ∀ reply m, (k reply { s with machine := m }).Leaves P) : (readFile r s k).Leaves P := by
  refine leaves_driverCall fun reply m => ?_
  split
  · exact leaves_error
  · exact hk reply m

theorem leaves_mkdir (h : P s.shell) : (mkdir env a s).Leaves P :=
  (leaves_driverCall fun _ _ => leaves_emit h).after

theorem leaves_rm (h : P s.shell) : (rm env a s).Leaves P :=
  (leaves_driverCall fun _ _ => leaves_emit h).after

theorem leaves_cat (h : P s.shell) : (cat env a s).Leaves P := by
  refine (leaves_readFile fun reply m => ?_).after
  split
  · split
    · exact leaves_emit h
    · exact leaves_error
  · exact leaves_emit h

theorem leaves_ls (h : P s.shell) : (ls env s).Leaves P :=
  leaves_driverCall fun _ _ => leaves_emit h

theorem leaves_copy {k : FAT32DriverRequest → System → Effect}
    (hk : ∀ r m, (k r { s with machine := m }).Leaves P) : (copy env a b s k).Leaves P := by
  refine leaves_driverCall fun reply m => ?_
  refine (leaves_readFile fun reply m => ?_).after
  refine (leaves_readFile fun reply m => ?_).after
  exact leaves_driverCall fun _ m => hk _ m

theorem leaves_cp (h : P s.shell) : (cp env a b s).Leaves P :=
  leaves_copy fun _ _ => leaves_emit h

theorem leaves_mv (h : P s.shell) : (mv env a b s).Leaves P :=
  leaves_copy fun _ _ => leaves_driverCall fun _ _ => leaves_emit h

theorem leaves_find (h : P s.shell) : (find env a s).Leaves P := by
  intro t ht
  unfold find at ht
  dsimp only at ht
  split at ht
  · cases ht
    exact h
  · cases ht

theorem leaves_withWord {temp : List UInt8} {behind : Memory} {idx : UInt8}
    {k : Argument → System → Effect} (hk : ∀ a, (k a s).Leaves P) :
    (withWord env temp behind idx s k).Leaves P := by
  unfold withWord
  split
  · exact leaves_error
  · exact hk _

/-- What `cd` keeps, every line keeps. -/
theorem leaves_handleCommand {line : CommandLine} (h : P s.shell)
    (hcd : ∀ a, (cd env a s).Leaves P) : (handleCommand env line.buffer s).Leaves P := by
  rw [handleCommand_eq]
  refine Effect.Leaves.andThen ?_ fun s hs => leaves_emit hs
  cases commandOf line.chars with
  | clear => exact leaves_emit h
  | ls => exact (leaves_ls h).after.andThen fun s hs => leaves_emit hs
  | mkdir => exact (leaves_withWord fun a => leaves_mkdir h).andThen fun s hs => leaves_emit hs
  | rm => exact (leaves_withWord fun a => leaves_rm h).andThen fun s hs => leaves_emit hs
  | cat => exact (leaves_withWord fun a => leaves_cat h).after
  | cd => exact (leaves_withWord hcd).after
  | find =>
    exact (leaves_withWord fun a => leaves_find h).after.andThen fun s hs => leaves_emit hs
  | cp => exact (leaves_withWord fun a => leaves_withWord fun b => leaves_cp h).after
  | mv => exact (leaves_withWord fun a => leaves_withWord fun b => leaves_mv h).after
  | other => exact leaves_emit h

end Leaves

/-! ## The directories of the shell as a bounded stack -/

def position (s : ShellState) : Position DirectoryState := ⟨s.currentDirectory, s.directoryStack⟩

theorem position_injective {s s' : ShellState} (h : position s = position s') : s = s' := by
  obtain ⟨cur, stack⟩ := s
  obtain ⟨cur', stack'⟩ := s'
  cases h
  rfl

theorem position_cdUp (s : ShellState) : position (cdUp s) = leave (position s) := by
  obtain ⟨cur, stack⟩ := s
  cases stack with
  | nil => rfl
  | cons d rest => rfl

theorem position_enter (s : ShellState) (e : FAT32DirectoryEntry) (a : Argument) :
    position (enter s e a) = BoundedStack.enter stackSize (position s)
      ⟨a.name, e.cluster, s.currentDirectory.clusterNumber⟩ := by
  unfold enter pushDirectory BoundedStack.enter
  by_cases hfull : stackSize ≤ s.directoryStack.length
  · have hfull' : stackSize ≤ (position s).above.length := hfull
    rw [if_pos hfull, if_pos hfull']
    rfl
  · have hroom : ¬ stackSize ≤ (position s).above.length := hfull
    rw [if_neg hfull, if_neg hroom]
    rfl

/-! ## `cd` -/

def cdStep (s : System) (x : Environment × Argument) : Except Fault System := (cd x.1 x.2 s).result

/-- The table a `cd` looks through. -/
def seen (s : System) (env : Environment) : Memory :=
  (readDirectory s.machine (currentRequest s.shell env.dirTable)).2

/-- `cd` is given a name and finds a folder. -/
def FindsFolder (s : System) (x : Environment × Argument) : Prop :=
  x.2.chars ≠ dotDot ∧ ∃ i, cdSlot (seen s x.1) x.2.chars = some i

section Cd
variable {s : System} {x : Environment × Argument}

theorem cdStep_up (h : x.2.chars = dotDot) :
    cdStep s x = .ok { s with shell := cdUp s.shell } := by
  unfold cdStep cd
  rw [if_pos h]
  rfl

/-- `cd` with a name enters the folder it finds. -/
theorem cdStep_down (h : x.2.chars ≠ dotDot) :
    (∀ i, cdSlot (seen s x.1) x.2.chars = some i → cdStep s x = .ok { s with
      shell := enter s.shell ((FAT32DirectoryTable.ofBytes (seen s x.1)).table i) x.2 }) ∧
    (cdSlot (seen s x.1) x.2.chars = none → cdStep s x = .ok s) := by
  have hserve : Fat32.serve s.machine (.readDirectory (currentRequest s.shell x.1.dirTable)) =
      .ok (⟨(readDirectory s.machine (currentRequest s.shell x.1.dirTable)).1, seen s x.1⟩,
        s.machine) := rfl
  unfold cdStep cd
  rw [if_neg h, driverCall_ok hserve]
  refine ⟨fun i hi => ?_, fun hnone => ?_⟩
  · rw [hi]
    rfl
  · rw [hnone]
    rfl

theorem cdStep_enters (h : FindsFolder s x) :
    ∃ e, cdStep s x = .ok { s with shell := enter s.shell e x.2 } := by
  obtain ⟨hdown, i, hi⟩ := h
  exact ⟨_, (cdStep_down hdown).1 i hi⟩

theorem cdStep_depth (h : s.shell.directoryStack.length ≤ stackSize) {s' : System}
    (hstep : cdStep s x = .ok s') : s'.shell.directoryStack.length ≤ stackSize := by
  by_cases hup : x.2.chars = dotDot
  · rw [cdStep_up hup] at hstep
    cases hstep
    have habove : (position (cdUp s.shell)).above.length ≤ stackSize := by
      rw [position_cdUp, leave_above, List.length_drop]
      exact Nat.le_trans (Nat.sub_le _ _) h
    exact habove
  · obtain ⟨hsome, hnone⟩ := cdStep_down (s := s) hup
    cases hc : cdSlot (seen s x.1) x.2.chars with
    | none =>
      rw [hnone hc] at hstep
      cases hstep
      exact h
    | some i =>
      rw [hsome i hc] at hstep
      cases hstep
      have habove : (position (enter s.shell
          ((FAT32DirectoryTable.ofBytes (seen s x.1)).table i) x.2)).above.length ≤ stackSize := by
        rw [position_enter]
        exact enter_length_le h _
      exact habove

/-- Ways down. -/
theorem run_down {downs : List (Environment × Argument)} (h : Meets cdStep FindsFolder s downs) :
    ∃ xs sh, xs.length = downs.length ∧ run cdStep s downs = .ok { s with shell := sh } ∧
      position sh = enterAll stackSize (position s.shell) xs := by
  induction downs generalizing s with
  | nil => exact ⟨[], s.shell, rfl, rfl, rfl⟩
  | cons x downs ih =>
    obtain ⟨e, he⟩ := cdStep_enters h.1
    obtain ⟨xs, sh, hlen, hrun, hpos⟩ := ih (h.2 _ he)
    refine ⟨⟨x.2.name, e.cluster, s.shell.currentDirectory.clusterNumber⟩ :: xs, sh, ?_, ?_, ?_⟩
    · rw [List.length_cons, List.length_cons, hlen]
    · rw [run_cons he, hrun]
    · rw [hpos, position_enter]
      rfl

/-- Ways up. -/
theorem run_up {ups : List (Environment × Argument)} (h : ∀ x ∈ ups, x.2.chars = dotDot) :
    ∃ sh, run cdStep s ups = .ok { s with shell := sh } ∧
      position sh = leave^[ups.length] (position s.shell) := by
  induction ups generalizing s with
  | nil => exact ⟨s.shell, rfl, rfl⟩
  | cons x ups ih =>
    have hx := cdStep_up (s := s) (h x List.mem_cons_self)
    obtain ⟨sh, hrun, hpos⟩ := ih (s := { s with shell := cdUp s.shell })
      fun y hy => h y (List.mem_cons_of_mem _ hy)
    refine ⟨sh, ?_, ?_⟩
    · rw [run_cons hx, hrun]
    · rw [hpos, position_cdUp, List.length_cons, Function.iterate_succ_apply]

end Cd

/-- Ways down and back up. -/
theorem run_back_iff {s : System} {downs ups : List (Environment × Argument)}
    (hs : s.shell.directoryStack.length ≤ stackSize) (hdowns : Meets cdStep FindsFolder s downs)
    (hups : ∀ x ∈ ups, x.2.chars = dotDot) (hlen : ups.length = downs.length) :
    run cdStep s (downs ++ ups) = .ok s ↔
      s.shell.directoryStack.length + downs.length ≤ stackSize ∨
        s.shell.directoryStack = [] := by
  obtain ⟨xs, sh, hxs, hdown, hpos⟩ := run_down hdowns
  obtain ⟨sh', hup, hpos'⟩ := run_up (s := { s with shell := sh }) hups
  rw [run_append hdown, hup]
  rw [hpos, hlen, ← hxs] at hpos'
  have hback := leave_enterAll_eq_iff (p := position s.shell) hs (by decide) xs
  rw [← hpos', hxs] at hback
  refine Iff.trans ⟨fun h => ?_, fun h => ?_⟩ hback
  · exact congrArg (fun s => position s.shell) (Except.ok.inj h)
  · rw [position_injective h]

/-! ## Reachable directories of the shell -/

def lineStep (s : System) (x : Environment × CommandLine) : Except Fault System :=
  (handleCommand x.1 x.2.buffer s).result

/-- Lines lead from the initial state to these directories. -/
def Reached (sh : ShellState) : Prop :=
  ∃ (m m' : Machine) (lines : List (Environment × CommandLine)), m.WellFormed ∧
    run lineStep ⟨m, initialShell⟩ lines = .ok ⟨m', sh⟩

/-- The stack of a reachable state is within its array. -/
theorem Reached.depth {sh : ShellState} (h : Reached sh) :
    sh.directoryStack.length ≤ stackSize := by
  obtain ⟨m, m', lines, _, hrun⟩ := h
  refine of_run (I := fun s => s.shell.directoryStack.length ≤ stackSize)
    (fun s x s' hs _ hstep => ?_) (Nat.zero_le _) meets_true hrun
  refine leaves_handleCommand (P := fun sh => sh.directoryStack.length ≤ stackSize) hs
    (fun a t ht => ?_) s' hstep
  exact cdStep_depth (x := (x.1, a)) hs ht

/-- A `cd` typed with a word. -/
theorem lineStep_cd {s : System} {env : Environment} {line : CommandLine} {w : List UInt8}
    (hcd : line.command = .cd) (hword : line.word? 1 = some w) :
    lineStep s (env, line) = cdStep s (env, ⟨false, w, padded w⟩) := by
  have harg : line.command.arguments ≠ 0 := by
    rw [hcd]
    decide
  have hcommand : commandOf line.chars = .cd := hcd
  unfold lineStep cdStep
  rw [handleCommand_eq, hcommand]
  show (((withWord env line.buffer env.behindTemp 1 s (cd env)).after [newline]).andThen
    showHome).result = _
  rw [withWord_first harg hword]
  cases hr : (cd env ⟨false, w, padded w⟩ s).result with
  | ok t => simp [Effect.andThen, Effect.after, hr, showHome, emit]
  | error e => simp [Effect.andThen, Effect.after, hr]

end KajijOSta.Terminal
