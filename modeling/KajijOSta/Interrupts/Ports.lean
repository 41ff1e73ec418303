import KajijOSta.Ata.Driver
import KajijOSta.Interrupts.Service
import KajijOSta.Interrupts.Syscall

/-! # What the kernel writes to ports

Behind `activate_keyboard_interrupt` the kernel writes to ports in two places only: the
cursor's, where the console is used (`syscall_elsewhere`), and the disk's, in the driver
(`blocks_ports`). Neither are the controllers' (`disk_elsewhere`), so `Board` follows the
kernel when it takes such writes for the rest of `kernel_setup` and for system calls. -/
namespace KajijOSta.Interrupts
open KajijOSta.Fat32 KajijOSta.Keyboard KajijOSta.Interrupts.Board

/-! ## The disk -/

/-- The ports of the disk are not the controllers'. -/
theorem disk_elsewhere {ws : List PortWrite} (h : ∀ w ∈ ws, w.port ∈ Ata.ataPorts) :
    Elsewhere ws := by
  have hports : ∀ p ∈ Ata.ataPorts, p ∉ picPorts := by
    simp [Ata.ataPorts, picPorts, pic1Command, pic1Data, pic2Command, pic2Data]
  exact fun w hw => hports w.port (h w hw)

theorem elsewhere_append {ws ws' : List PortWrite} (h : Elsewhere ws) (h' : Elsewhere ws') :
    Elsewhere (ws ++ ws') :=
  fun w hw => (List.mem_append.mp hw).elim (h w) (h' w)

/-! ## The console -/

/-- Bytes for ports have been sent, none to the controllers. -/
def SendsElsewhere (s s' : Console) : Prop := ∃ ws, Elsewhere ws ∧ s'.sent = s.sent ++ ws

namespace SendsElsewhere
variable {s s' s'' : Console}

theorem of_sent (h : s'.sent = s.sent) : SendsElsewhere s s' :=
  ⟨[], fun _ hw => absurd hw List.not_mem_nil, by rw [h, List.append_nil]⟩

theorem trans (h : SendsElsewhere s s') (h' : SendsElsewhere s' s'') : SendsElsewhere s s'' := by
  obtain ⟨ws, hws, hs'⟩ := h
  obtain ⟨ws', hws', hs''⟩ := h'
  exact ⟨ws ++ ws', elsewhere_append hws hws', by rw [hs'', hs', List.append_assoc]⟩

theorem cursor (s : Console) (r c : UInt8) : SendsElsewhere s (framebufferSetCursor s r c) := by
  obtain ⟨ws, hws, hs⟩ := cursor_elsewhere r c
  exact ⟨ws, hws, hs s⟩

/-- A loop of steps that send nothing. -/
theorem foldl {A : Type} {f : Console → A → Console} (hf : ∀ s a, (f s a).sent = s.sent) :
    ∀ (l : List A) (s : Console), (l.foldl f s).sent = s.sent
  | [], _ => rfl
  | a :: l, s => (foldl hf l (f s a)).trans (hf s a)

theorem store_sent (s : Console) (offset : Nat) (data : UInt8) :
    (store s offset data).sent = s.sent := rfl

theorem clearBytes_sent (s : Console) (offset n : Nat) : (clearBytes s offset n).sent = s.sent := by
  unfold clearBytes
  exact foldl (fun s j => store_sent s (offset + j) 0) _ s

theorem framebufferWrite_sent (s : Console) (row col c fg bg : UInt8) :
    (framebufferWrite s row col c fg bg).sent = s.sent := rfl

theorem framebufferClear (s : Console) : SendsElsewhere s (framebufferClear s) := by
  have hrows : (clearRows s).sent = s.sent := by
    unfold clearRows
    exact foldl (fun s i => clearBytes_sent s (i * 80) (80 * 2)) _ s
  have hcells : (blankCells (clearRows s)).sent = (clearRows s).sent := by
    unfold blankCells
    exact foldl (fun s i => framebufferWrite_sent s _ _ _ _ _) _ _
  exact (of_sent (hcells.trans hrows)).trans (cursor _ 0 0)

theorem puts (s : Console) (str : Memory) (size color : UInt8) :
    SendsElsewhere s (puts s str size color) := by
  have hloop : ∀ n, (putsLoop s str color n).sent = s.sent := by
    intro n
    induction n with
    | zero => rfl
    | succ n ih => exact ih
  exact (of_sent (hloop _)).trans (cursor _ _ _)

end SendsElsewhere

/-- **System calls send nothing to the controllers.** -/
theorem syscall_elsewhere {frame : InterruptFrame} {ram ram' : Ram} {k k' : Kernel}
    (h : syscall frame ram k = .ok (ram', k')) : SendsElsewhere k.console k'.console := by
  have hfile : ∀ call registers, fileCall call registers ram k = .ok (ram', k') →
      SendsElsewhere k.console k'.console := by
    intro call registers hcall
    unfold fileCall at hcall
    cases hserve : Fat32.serve k.machine (call (requestAt ram registers.ebx)) with
    | error e => simp [hserve, Except.map] at hcall
    | ok x =>
      simp only [hserve, Except.map] at hcall
      cases hcall
      exact .of_sent rfl
  simp only [syscall] at h
  split at h
  · exact hfile _ _ h
  · exact hfile _ _ h
  · exact hfile _ _ h
  · exact hfile _ _ h
  all_goals cases h
  · exact .of_sent rfl
  · exact .cursor _ _ _
  · exact .puts _ _ _ _
  · exact .of_sent rfl
  · exact .cursor _ _ _
  · exact .cursor _ _ _
  · exact .framebufferClear _
  · exact .of_sent rfl

end KajijOSta.Interrupts
