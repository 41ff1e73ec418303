import KajijOSta.Fat32.Refinement
import KajijOSta.Fat32.Sectors
import KajijOSta.Lib.History

/-! # Persistence

Runs of requests in which the machine may stop at or within any cluster write and start
again. What callers saw is explained by the tree file system, with each request that was
cut short done as a whole or not at all (`crashes_explained`). So a file that was written
is read back as it was written, however many crashes lie between, until something deletes
it (`reads_see_writes`). -/
namespace KajijOSta.Fat32
open KajijOSta.History KajijOSta.NamedTree KajijOSta.Runs KajijOSta.TornWrite KajijOSta.WriteLog

/-! ## Runs with crashes -/

/-- A request about the folder at a path, which has the name `own` in its own table. -/
structure Operation where
  path : List Key
  own : Key
  call : Call

/-- A request is answered, or the machine stops after a number of its cluster writes, with
any sectors of the next one written, and starts again with memory of no known content. -/
inductive Happening
  | answered (op : Operation)
  | crashed (op : Operation) (writes : Nat) (through : Nat → Bool) (beyond : Fin 3 → UInt8)
    (driver : FAT32DriverState)

def Happening.op : Happening → Operation
  | .answered op | .crashed op _ _ _ _ => op

/-- The machine, and what callers saw. -/
structure Witnessed where
  machine : Machine
  log : List (Entry Operation Reply)

/-- The disk where the writes that lie between two states are cut. -/
def cutDisk (m m' : Machine) (writes : Nat) (through : Nat → Bool) : Disk :=
  cut sectorOf diskStep m.disk (m'.issued.drop m.issued.length) writes through

/-- One request, and a restart when it is cut short. -/
def advance (s : Witnessed) : Happening → Except Fault Witnessed
  | .answered op => (serve s.machine op.call).map fun x =>
    ⟨x.2, s.log ++ [.answered op x.1]⟩
  | .crashed op writes through beyond driver => (serve s.machine op.call).map fun x =>
    ⟨remount beyond driver (cutDisk s.machine x.2 writes through), s.log ++ [.cut op]⟩

/-- The request is about the folder its path leads to, and one that the driver can handle:
a write takes at most 255 clusters, a read or a delete has a name that is not zero, and a
delete one that is not the folder's own. -/
structure Meant (s : Witnessed) (happening : Happening) : Prop where
  path : s.machine.disk.dirAt happening.op.path =
    some happening.op.call.request.parentClusterNumber
  own : happening.op.own =
    s.machine.disk.ownKey happening.op.call.request.parentClusterNumber
  admissible : happening.op.call.Admissible s.machine.disk

/-- How the tree file system answers. -/
def AnswersAt (t : Tree Key (List UInt8)) (op : Operation) (reply : Reply)
    (t' : Tree Key (List UInt8)) : Prop :=
  Answers t op.own op.path op.call reply t'

/-! ## The simulation -/

section Simulation
variable {s : Witnessed} {op : Operation} {t : Tree Key (List UInt8)}

/-- What callers saw leads to the tree of the machine. -/
def Explained (t : Tree Key (List UInt8)) (s : Witnessed) : Prop :=
  ∃ h : s.machine.WellFormed, Explains AnswersAt t s.log (s.machine.disk.tree h.image)

theorem explained_of {m : Machine} {log : List (Entry Operation Reply)} (h : m.WellFormed)
    (hlog : Explains AnswersAt t log (m.disk.tree h.image)) : Explained t ⟨m, log⟩ := ⟨h, hlog⟩

theorem advance_answered {reply : Reply} {m' : Machine}
    (h : serve s.machine op.call = .ok (reply, m')) :
    advance s (.answered op) = .ok ⟨m', s.log ++ [.answered op reply]⟩ := by
  simp only [advance, h, Except.map]

/-- The machine starts again with the tree from before the request or the one from after. -/
theorem cut_restart {m m' : Machine} {call : Call} (h : m.WellFormed) (h' : m'.WellFormed)
    (ha : call.Admissible m.disk) (hstep : step m call = .ok m') (writes : Nat)
    (through : Nat → Bool) (beyond : Fin 3 → UInt8) (driver : FAT32DriverState) {d : Disk}
    (hd : d = cutDisk m m' writes through) : ∃ hc : (remount beyond driver d).WellFormed,
      (remount beyond driver d).disk.tree hc.image = m.disk.tree h.image ∨
      (remount beyond driver d).disk.tree hc.image = m'.disk.tree h'.image := by
  obtain ⟨ws, hissued, _, hall⟩ := step_tears h ha hstep h'
  unfold cutDisk at hd
  rw [hissued, List.drop_left] at hd
  have hcrash := hall.cut writes through
  rw [← hd] at hcrash
  obtain ⟨hw, htree⟩ := hcrash
  obtain ⟨hdisk, _, hc⟩ := remount_wellFormed beyond driver hw
  refine ⟨hc, ?_⟩
  rw [Disk.tree_congr hdisk hw hc.image]
  exact htree

/-- One request, answered or cut short. -/
theorem advance_explained (s : Witnessed) (happening : Happening) (h : Explained t s)
    (hmeant : Meant s happening) : ∃ s', advance s happening = .ok s' ∧ Explained t s' := by
  obtain ⟨hw, hexplains⟩ := h
  obtain ⟨hp, ho, ha⟩ := hmeant
  obtain ⟨reply, m', h', hserve, hanswers⟩ := serve_answers happening.op.call hw hp ha
  rw [← ho] at hanswers
  cases happening with
  | answered op =>
    simp only [Happening.op] at hserve hanswers
    refine ⟨_, advance_answered hserve, ?_⟩
    exact explained_of h' (hexplains.append (.answered hanswers (.nil _)))
  | crashed op writes through beyond driver =>
    simp only [Happening.op] at hserve hanswers ha
    have hstep : step s.machine op.call = .ok m' := by simp [step, hserve, Except.map]
    obtain ⟨hc, htree⟩ := cut_restart hw h' ha hstep writes through beyond driver rfl
    refine ⟨⟨remount beyond driver (cutDisk s.machine m' writes through), s.log ++ [.cut op]⟩,
      ?_, ?_⟩
    · simp only [advance, hserve, Except.map]
    · refine explained_of hc (hexplains.append ?_)
      rcases htree with htree | htree
      · rw [htree]
        exact .lost (.nil _)
      · rw [htree]
        exact .applied hanswers (.nil _)

/-- Requests run to the end, whichever of them are cut short. -/
theorem run_explained {m : Machine} {happenings : List Happening} (h : m.WellFormed)
    (hmeant : Meets advance Meant ⟨m, []⟩ happenings) :
    ∃ s, run advance ⟨m, []⟩ happenings = .ok s ∧ Explained (m.disk.tree h.image) s :=
  run_invariant advance_explained (explained_of h (.nil _)) hmeant

end Simulation

/-! ## What the tree file system keeps -/

/-- The operation deletes the path or a folder above it. -/
def Operation.Deletes (op : Operation) (q : List Key) : Prop :=
  ∃ r, op.call = .delete r ∧ r.key :: op.path <:+ q

section Trees
variable {t t' : Tree Key (List UInt8)} {op : Operation} {reply : Reply} {q : List Key}

/-- What is there stays there, unless it is deleted. -/
theorem answersAt_keeps {n : Node (List UInt8)} (h : AnswersAt t op reply t')
    (hn : t.node q = some n) (hop : ¬ op.Deletes q) : t'.node q = some n := by
  obtain ⟨p, own, call⟩ := op
  cases h with
  | writeDone r hp hk =>
    have hq : q ≠ r.key :: p := by
      rintro rfl
      rw [hk] at hn
      cases hn
    exact (if_neg hq).trans hn
  | deleteDone r h =>
    exact (if_neg fun hs => hop ⟨r, rfl, hs⟩).trans hn
  | writeUnnamed | writeTaken | writeRefused | deleteMissing | readOwn | readMissing | readFolder
  | readShort | readFile | readDirectoryUnnamed | readDirectoryMissing | readDirectoryFile
  | readDirectoryShort | readDirectoryFolder | readDirectoryMarked => exact hn

/-- Writing a file. -/
theorem answersAt_write {p : List Key} {own : Key} {w : FAT32DriverRequest}
    (h : AnswersAt t ⟨p, own, .write w⟩ reply t') (hcode : reply.code = 0) :
    t'.node (w.key :: p) = some w.node := by
  cases h with
  | writeUnnamed | writeTaken | writeRefused => exact absurd hcode (by simp)
  | writeDone r hp hk => exact if_pos rfl

end Trees

/-! ## The system -/

section System
variable {m : Machine} {happenings : List Happening}

/-- **What was written is read.** After a file was written, under a name that the folder's
own entry does not have, every read of it into a buffer for all its clusters gets its bytes,
until a request deletes it or a folder above it, whatever was asked for or cut short
meanwhile. -/
theorem reads_see_writes {s : Witnessed} (h : m.WellFormed)
    (hmeant : Meets advance Meant ⟨m, []⟩ happenings)
    (hrun : run advance ⟨m, []⟩ happenings = .ok s)
    {before between after : List (Entry Operation Reply)} {p : List Key} {own own' : Key}
    {w r : FAT32DriverRequest} {done reply : Reply}
    (hlog : s.log = before ++ .answered ⟨p, own, .write w⟩ done ::
      (between ++ .answered ⟨p, own', .read r⟩ reply :: after))
    (hdone : done.code = 0) (hfile : w.bufferSize ≠ 0)
    (hkept : ∀ e ∈ between, ¬ e.op.Deletes (w.key :: p)) (hkey : r.key = w.key)
    (hown : r.key ≠ own')
    (hroom : clusterSize * clustersHolding w.bufferSize.toNat ≤ r.bufferSize.toNat) :
    reply.code = 0 ∧ ∀ i, i < w.bufferSize.toNat → reply.buf i = w.buf i := by
  obtain ⟨s', hrun', h', hexplains⟩ := run_explained h hmeant
  obtain rfl : s = s' := Except.ok.inj (hrun.symm.trans hrun')
  rw [hlog] at hexplains
  obtain ⟨_, t, _, hwrite, hafter⟩ := hexplains.step
  have hnode := answersAt_write hwrite hdone
  -- up to the read the file stays
  obtain ⟨t', _, hbetween, hanswer, _⟩ := hafter.step
  have hnode' : t'.node (w.key :: p) = some w.node :=
    hbetween.keeps (P := fun t => t.node (w.key :: p) = some w.node) hnode
      fun e he _ _ _ ht hstep => answersAt_keeps hstep ht (hkept e he)
  rw [FAT32DriverRequest.node, if_neg hfile, ← hkey] at hnode'
  have hbytes := Answers.read_bytes hanswer hown hnode' (by simpa using hroom)
  refine ⟨hbytes.1, fun i hi => ?_⟩
  have hi' := hbytes.2 i (by simpa using hi)
  simpa using hi'

end System

/-- A file of 100 bytes written to the empty file system. -/
theorem rooted_written : ∃ m', write (rootedMachine (letterName 'r')) (letterRequest 'a' 100) =
    .ok (0, m') ∧ m'.WellFormed ∧
    m'.disk.ownKey rootClusterNumber = ⟨letterName 'r', fun _ => 0⟩ := by
  have h := rootedMachine_wellFormed (letterName 'r')
  have hs : (letterRequest 'a' 100).bufferSize.toNat ≤ 255 * clusterSize := by decide
  have hst := letterRequest_storable 100
  have hroot : (rootedMachine (letterName 'r')).disk.dirAt [] = some rootClusterNumber :=
    Graph.dirAt_nil _
  have hkeep := stored_own h hs hst.space hroot (le_refl 2) ⟨[], hroot⟩
  refine ⟨_, letterRequest_written hs, hst.wellFormed h ⟨[], hroot⟩ hs, ?_⟩
  rw [Disk.ownKey, hkeep]
  exact rooted_ownKey _

/-- It is read back. -/
theorem reads_see_writes_rooted : ∃ s reply,
    run advance ⟨rootedMachine (letterName 'r'), []⟩
      [.answered ⟨[], ⟨letterName 'r', fun _ => 0⟩, .write (letterRequest 'a' 100)⟩,
        .answered ⟨[], ⟨letterName 'r', fun _ => 0⟩, .read (letterRequest 'a' 2048)⟩] = .ok s ∧
      .answered ⟨[], ⟨letterName 'r', fun _ => 0⟩, .read (letterRequest 'a' 2048)⟩ reply ∈ s.log ∧
      reply.code = 0 ∧ ∀ i, i < 100 → reply.buf i = 7 := by
  have h := rootedMachine_wellFormed (letterName 'r')
  have hown : (rootedMachine (letterName 'r')).disk.ownKey rootClusterNumber =
      ⟨letterName 'r', fun _ => 0⟩ := rooted_ownKey _
  have hne : (letterRequest 'a' 2048).key ≠ ⟨letterName 'r', fun _ => 0⟩ := by decide
  obtain ⟨m', hw, h', hown'⟩ := rooted_written
  generalize rootedMachine (letterName 'r') = m at h hw hown ⊢
  generalize (⟨letterName 'r', fun _ => 0⟩ : Key) = own at hown hown' hne ⊢
  obtain ⟨reply, hread, _⟩ := read_answers (r := letterRequest 'a' 2048) h' (Graph.dirAt_nil _) own
    (letterRequest_named 2048) (by rw [← hown'] at hne; exact hne)
  have hwrite := serve_write hw
  have hfirst : advance ⟨m, []⟩ (.answered ⟨[], own, .write (letterRequest 'a' 100)⟩) =
      .ok ⟨m', [.answered ⟨[], own, .write (letterRequest 'a' 100)⟩
        ⟨0, (letterRequest 'a' 100).buf⟩]⟩ := advance_answered hwrite
  have hsecond : advance ⟨m', [.answered ⟨[], own, .write (letterRequest 'a' 100)⟩
      ⟨0, (letterRequest 'a' 100).buf⟩]⟩ (.answered ⟨[], own, .read (letterRequest 'a' 2048)⟩) =
      .ok ⟨m', [.answered ⟨[], own, .write (letterRequest 'a' 100)⟩
          ⟨0, (letterRequest 'a' 100).buf⟩,
        .answered ⟨[], own, .read (letterRequest 'a' 2048)⟩ reply]⟩ := advance_answered hread
  have hmeant : Meets advance Meant ⟨m, []⟩
      [.answered ⟨[], own, .write (letterRequest 'a' 100)⟩,
        .answered ⟨[], own, .read (letterRequest 'a' 2048)⟩] := by
    refine ⟨⟨Graph.dirAt_nil _, hown.symm, Disk.reachable_root _, by decide⟩,
      fun s hadvance => ⟨?_, fun _ _ => trivial⟩⟩
    cases hfirst.symm.trans hadvance
    exact ⟨Graph.dirAt_nil _, hown'.symm, Disk.reachable_root _, letterRequest_named 2048⟩
  have hrun : run advance ⟨m, []⟩ [.answered ⟨[], own, .write (letterRequest 'a' 100)⟩,
      .answered ⟨[], own, .read (letterRequest 'a' 2048)⟩] =
      .ok ⟨m', [.answered ⟨[], own, .write (letterRequest 'a' 100)⟩
          ⟨0, (letterRequest 'a' 100).buf⟩,
        .answered ⟨[], own, .read (letterRequest 'a' 2048)⟩ reply]⟩ := by
    rw [run_cons hfirst, run_cons hsecond]
    rfl
  refine ⟨_, reply, hrun, by simp, ?_⟩
  have hlog (w r : Entry Operation Reply) : [w, r] = [] ++ w :: ([] ++ r :: []) := rfl
  exact reads_see_writes h hmeant hrun (hlog _ _) rfl (by decide)
    (fun e he => absurd he List.not_mem_nil) rfl hne (by decide)

end KajijOSta.Fat32
