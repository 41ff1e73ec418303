import KajijOSta.Lib.Cache
import KajijOSta.Paging.Translation

/-! # Accesses

The processor reads, remembers and marks entries at times of its own choosing, also between
the two stores of `update_page_directory_entry`, when an entry is half written. Calls keep
the TLB coherent nevertheless: after them, accesses go by what they wrote
(`accesses_follow`), programs reach memory of their own only (`user_accesses_apart`), and
the kernel stays where it is throughout (`kernel_stays`). -/
namespace KajijOSta.Paging
open KajijOSta.Cache KajijOSta.Runs

/-! ## Interleavings -/

/-- An operation of the code, or the processor by itself. -/
inductive Action
  | program (op : Op)
  | processor (h : Hardware)

def Action.code : Action → Option Op
  | .program op => some op
  | .processor _ => none

def Mmu.act (m : Mmu) : Action → Mmu
  | .program op => m.op op
  | .processor h => m.hardware h

def Mmu.after (m : Mmu) (trace : List Action) : Mmu := trace.foldl Mmu.act m

/-- What the directory maps, and what is remembered of it. -/
def Mmu.view (m : Mmu) : State (Fin pageEntryCount) Mapping :=
  ⟨fun i => (m.paging.pageDir.table i).mapping, m.tlb⟩

/-- The memory of `paging.c` without the processor's marks. -/
def PagingState.unmarked (s : PagingState) : PagingState :=
  { s with pageDir := ⟨fun i => (s.pageDir.table i).unmarked⟩ }

section Actions
variable {m : Mmu} {s s' : PagingState} {trace : List Action} {ops : List Op}

theorem after_append (m : Mmu) (t t' : List Action) :
    m.after (t ++ t') = (m.after t).after t' := List.foldl_append

theorem unmarked_eq_iff : s.unmarked = s'.unmarked ↔ s.manager = s'.manager ∧
    ∀ i, (s.pageDir.table i).unmarked = (s'.pageDir.table i).unmarked := by
  simp only [PagingState.unmarked, PagingState.mk.injEq, PageDirectory.mk.injEq, funext_iff]

theorem edit_unmarked {f : PageDirectoryEntry → PageDirectoryEntry} (i : Fin pageEntryCount)
    (hf : ∀ e : PageDirectoryEntry, (f e).unmarked = (f e.unmarked).unmarked)
    (h : s.unmarked = s'.unmarked) : (s.edit i f).unmarked = (s'.edit i f).unmarked := by
  obtain ⟨hmanager, htable⟩ := unmarked_eq_iff.mp h
  refine unmarked_eq_iff.mpr ⟨hmanager, fun j => ?_⟩
  by_cases hj : j = i
  · subst hj
    simp only [PagingState.edit, Function.update_self]
    rw [hf, htable, ← hf]
  · simp only [PagingState.edit, Function.update_of_ne hj, htable]

theorem store_unmarked (op : Op) (h : s.unmarked = s'.unmarked) :
    (op.store s).unmarked = (op.store s').unmarked := by
  obtain ⟨hmanager, htable⟩ := unmarked_eq_iff.mp h
  cases op with
  | pageFrameMap i used =>
    refine unmarked_eq_iff.mpr ⟨?_, htable⟩
    simp only [Op.store, hmanager]
  | freePageFrameCount count =>
    refine unmarked_eq_iff.mpr ⟨?_, htable⟩
    simp only [Op.store, hmanager]
  | flag virtualAddr f => exact edit_unmarked _ (fun _ => rfl) h
  | lowerAddress virtualAddr physicalAddr => exact edit_unmarked _ (fun _ => rfl) h
  | clear i => exact edit_unmarked _ (fun _ => rfl) h
  | invlpg virtualAddr => exact h

theorem hardware_unmarked (m : Mmu) (h : Hardware) :
    (m.hardware h).paging.unmarked = m.paging.unmarked := by
  cases h with
  | walk i write =>
    unfold Mmu.hardware
    dsimp only
    split
    · refine unmarked_eq_iff.mpr ⟨rfl, fun j => ?_⟩
      by_cases hj : j = i
      · subst hj
        simp only [PagingState.edit, Function.update_self]
        rfl
      · simp only [PagingState.edit, Function.update_of_ne hj]
    · rfl
  | evict i => rfl

/-- Memory depends on the operations of the code alone, but for marks. -/
theorem after_unmarked (h : m.paging.unmarked = s.unmarked) :
    (m.after trace).paging.unmarked =
      ((trace.filterMap Action.code).foldl Op.store s).unmarked := by
  induction trace generalizing m s with
  | nil => exact h
  | cons a trace ih =>
    cases a with
    | program op => exact ih (store_unmarked op h)
    | processor e => exact ih ((hardware_unmarked m e).trans h)

theorem edit_view (m : Mmu) (i : Fin pageEntryCount)
    (f : PageDirectoryEntry → PageDirectoryEntry) :
    (Mmu.mk (m.paging.edit i f) m.tlb).view =
      m.view.act (.write i (f (m.paging.pageDir.table i)).mapping) := by
  simp only [Mmu.view, State.act, PagingState.edit, State.mk.injEq, and_true]
  funext j
  exact Function.apply_update (fun _ => PageDirectoryEntry.mapping) _ _ _ j

theorem marked_mapping (e : PageDirectoryEntry) (write : Bool) :
    (e.marked write).mapping = e.mapping := by
  rw [← PageDirectoryEntry.mapping_unmarked (e.marked write), ← e.mapping_unmarked]
  rfl

/-- To the table and what is remembered of it, each act of the processor is a harmless one. -/
theorem hardware_view (m : Mmu) (h : Hardware) :
    ∃ a : Act (Fin pageEntryCount) Mapping, a.Quiet ∧ (m.hardware h).view = m.view.act a := by
  cases h with
  | walk i write =>
    refine ⟨.fill i, trivial, ?_⟩
    cases hv : (m.paging.pageDir.table i).mapping with
    | none => simp [Mmu.hardware, Mmu.view, State.act, hv]
    | some v =>
      have htable : (fun j => ((m.paging.edit i (·.marked write)).pageDir.table j).mapping) =
          m.view.table := by
        funext j
        by_cases hj : j = i
        · subst hj
          simp [PagingState.edit, Mmu.view, marked_mapping]
        · simp [PagingState.edit, Mmu.view, hj]
      simp only [Mmu.hardware, hv]
      simp [State.act, Mmu.view, hv] at htable ⊢
      exact htable
  | evict i => exact ⟨.evict i, trivial, rfl⟩

/-- Of the operations of the code, only those with a key write, and `invlpg` makes forget. -/
theorem op_steps {ok : Act (Fin pageEntryCount) Mapping → Prop} (m : Mmu) (op : Op)
    (hquiet : ∀ a : Act (Fin pageEntryCount) Mapping, a.Quiet → ok a)
    (hwrite : ∀ i v, op.key = some i → ok (.write i v)) : Steps ok m.view (m.op op).view := by
  have hedit : ∀ i f, op.key = some i →
      Steps ok m.view (Mmu.mk (m.paging.edit i f) m.tlb).view := by
    intro i f hi
    rw [edit_view]
    exact (Steps.refl _).tail (hwrite i _ hi)
  cases op with
  | pageFrameMap i used => exact .refl _
  | freePageFrameCount count => exact .refl _
  | flag virtualAddr f => exact hedit _ _ rfl
  | lowerAddress virtualAddr physicalAddr => exact hedit _ _ rfl
  | clear i => exact hedit _ _ rfl
  | invlpg virtualAddr => exact (Steps.refl _).tail (hquiet (.invalidate _) trivial)

theorem after_steps {ok : Act (Fin pageEntryCount) Mapping → Prop}
    (hquiet : ∀ a : Act (Fin pageEntryCount) Mapping, a.Quiet → ok a)
    (hwrite : ∀ op ∈ trace.filterMap Action.code, ∀ i v, op.key = some i → ok (.write i v)) :
    Steps ok m.view (m.after trace).view := by
  induction trace generalizing m with
  | nil => exact .refl _
  | cons a trace ih =>
    cases a with
    | program op =>
      have hfirst := op_steps m op hquiet (hwrite op List.mem_cons_self)
      exact hfirst.trans (ih fun op' hop' => hwrite op' (List.mem_cons_of_mem _ hop'))
    | processor e =>
      obtain ⟨a, ha, hview⟩ := hardware_view m e
      have hfirst : Steps ok m.view (m.hardware e).view := by
        rw [hview]
        exact (Steps.refl _).tail (hquiet a ha)
      exact hfirst.trans (ih hwrite)

/-- Code that invalidates what it wrote keeps the TLB coherent, whatever the processor does
meanwhile. -/
theorem after_coherent {k : Fin pageEntryCount} (h : Flushes k (trace.filterMap Action.code))
    (hm : m.view.Coherent) : (m.after trace).view.Coherent := by
  rcases h with h | ⟨pre, virtualAddr, h, rfl, hpre⟩
  · refine (after_steps (fun _ => id) fun op hop => ?_).coherent hm
    rw [h] at hop
    cases hop
  · obtain ⟨before, last, rfl, hbefore, hlast⟩ := List.filterMap_eq_append_iff.mp h
    obtain ⟨between, a, rest, rfl, hbetween, ha, hrest⟩ := List.filterMap_eq_cons_iff.mp hlast
    cases a with
    | processor e => cases ha
    | program op =>
      obtain rfl : op = .invlpg virtualAddr := Option.some.inj ha
      have hops : (before ++ between).filterMap Action.code = pre := by
        rw [List.filterMap_append, hbefore, List.filterMap_eq_nil_iff.mpr hbetween, List.append_nil]
      have hwrites : Steps (Act.WritesOnly (pageIndex virtualAddr)) m.view
          (m.after (before ++ between)).view := by
        refine after_steps ?_ ?_
        · intro a ha
          cases a with
          | write i v => exact absurd ha id
          | fill i | evict i | invalidate i => trivial
        · rw [hops]
          exact fun op hop i _ => hpre op hop i
      have hrests : Steps Act.Quiet
          ((m.after (before ++ between)).op (.invlpg virtualAddr)).view
          (((m.after (before ++ between)).op (.invlpg virtualAddr)).after rest).view := by
        refine after_steps (fun _ => id) ?_
        rw [hrest]
        exact fun _ hop => absurd hop List.not_mem_nil
      rw [← List.append_assoc, after_append]
      exact Steps.write_invalidate hwrites hrests hm

/-! ## Runs -/

/-- The memory and the TLB when paging is turned on. -/
def Mmu.start : Mmu := ⟨⟨pageManagerState, pagingKernelPageDirectory⟩, fun _ => none⟩

theorem start_coherent : Mmu.start.view.Coherent := by
  intro i v _ hv
  cases hv

theorem calls_after {calls : List Call} (hrun : run step s calls = .ok s')
    (htrace : trace.filterMap Action.code = Call.opsOf s calls) (hm : m.view.Coherent)
    (hs : m.paging.unmarked = s.unmarked) :
    (m.after trace).view.Coherent ∧ (m.after trace).paging.unmarked = s'.unmarked := by
  induction calls generalizing s m trace with
  | nil =>
    cases hrun
    refine ⟨after_coherent (k := 0) (Or.inl htrace) hm, ?_⟩
    rw [after_unmarked hs, htrace]
    rfl
  | cons call calls ih =>
    cases hcall : step s call with
    | error e => simp only [run, hcall, reduceCtorEq] at hrun
    | ok t =>
      rw [run_cons hcall] at hrun
      simp only [Call.opsOf, hcall] at htrace
      obtain ⟨first, rest, rfl, hfirst, hrest⟩ := List.filterMap_eq_append_iff.mp htrace
      rw [after_append]
      refine ih hrun hrest (after_coherent (hfirst ▸ call_flushes _ call) hm) ?_
      rw [after_unmarked hs, hfirst, call_store hcall]

/-- The loader removes the identity mapping, then calls follow. -/
theorem boot_after {calls : List Call} (hrun : run step bootState calls = .ok s)
    (htrace : trace.filterMap Action.code = loaderOps ++ Call.opsOf bootState calls) :
    (Mmu.start.after trace).view.Coherent ∧
      (Mmu.start.after trace).paging.unmarked = s.unmarked := by
  obtain ⟨first, rest, rfl, hfirst, hrest⟩ := List.filterMap_eq_append_iff.mp htrace
  have hloader : Flushes 0 loaderOps := by
    refine Or.inr ⟨[.clear 0], 0, rfl, rfl, fun op hop i hi => ?_⟩
    rw [List.mem_singleton.mp hop] at hi
    exact (Option.some.inj hi).symm
  rw [after_append]
  refine calls_after hrun hrest (after_coherent (hfirst ▸ hloader) start_coherent) ?_
  rw [after_unmarked rfl, hfirst]
  rfl

end Actions

/-! ## Accesses -/

/-- The physical address that a mapping gives an access, in user mode or not, unless it is a
page fault. -/
def Mapping.reach (v : Mapping) (user : Bool) (virtualAddr : UInt32) : Option Nat :=
  if user && !v.user then none
  else some (v.frame * pageFrameSize + virtualAddr.toNat % pageFrameSize)

def Mmu.access (m : Mmu) (user : Bool) (virtualAddr : UInt32) : Option Nat :=
  (m.view.lookup (pageIndex virtualAddr)).bind (·.reach user virtualAddr)

/-- What an access would reach if entries were read each time. -/
def PagingState.access (s : PagingState) (user : Bool) (virtualAddr : UInt32) : Option Nat :=
  (s.pageDir.table (pageIndex virtualAddr)).mapping.bind (·.reach user virtualAddr)

/-- Programs reach memory of their own only: an address each, in a frame that is in use and
not the kernel's. -/
structure UsersApart (m : Mmu) : Prop where
  apart : ∀ a b p, m.access true a = some p → m.access true b = some p → a = b
  inside : ∀ a p, m.access true a = some p →
    pageFrameSize ≤ p ∧ p < pageFrameSize * pageFrameMaxCount
  used : ∀ a p, m.access true a = some p → m.paging.manager.used (p / pageFrameSize) = true

section Accesses
variable {m : Mmu} {s : PagingState} {calls : List Call} {trace : List Action}

/-- An access in user mode goes through a user entry. -/
theorem access_user {virtualAddr : UInt32} {p : Nat} (hp : s.access true virtualAddr = some p) :
    ∃ f, s.pageDir.frameAt (pageIndex virtualAddr) = some f ∧
      p = f * pageFrameSize + virtualAddr.toNat % pageFrameSize := by
  unfold PagingState.access PageDirectoryEntry.mapping at hp
  obtain ⟨v, hv, hp⟩ := Option.bind_eq_some_iff.mp hp
  rw [PageDirectoryEntry.ofWord] at hv
  unfold PageDirectory.frameAt PageDirectoryEntry.frame PageDirectoryEntry.User
  split at hv
  next hbits =>
    obtain rfl := Option.some.inj hv
    unfold Mapping.reach at hp
    split at hp
    · cases hp
    next huser =>
      have huser : (s.pageDir.table (pageIndex virtualAddr)).flag.userSupervisorBit = true := by
        simpa using huser
      exact ⟨_, if_pos ⟨hbits.1, huser⟩, (Option.some.inj hp).symm⟩
  · cases hv

/-- A physical address is that of a frame and an offset in it. -/
theorem frame_offset {virtualAddr : UInt32} {f p : Nat}
    (hp : p = f * pageFrameSize + virtualAddr.toNat % pageFrameSize) :
    p / pageFrameSize = f ∧ p % pageFrameSize = virtualAddr.toNat % pageFrameSize := by
  have hsize : pageFrameSize = 4194304 := rfl
  rw [hsize] at hp ⊢
  omega

theorem used_lt {manager : PageManagerState} {f : Nat} (h : manager.used f = true) :
    f < pageFrameMaxCount := by
  by_contra hge
  rw [PageManagerState.used, dif_neg hge] at h
  cases h

/-- Entries that keep frames apart keep accesses apart. -/
theorem isolated_apart (haccess : ∀ a, m.access true a = s.access true a)
    (hmanager : m.paging.manager = s.manager) (hs : Isolated s) : UsersApart m := by
  have hused : ∀ a p, m.access true a = some p →
      m.paging.manager.used (p / pageFrameSize) = true := by
    intro a p hp
    obtain ⟨f, hf, hpf⟩ := access_user (haccess a ▸ hp)
    rw [(frame_offset hpf).1, hmanager]
    exact hs.flagged _ f hf
  refine ⟨fun a b p ha hb => ?_, fun a p hp => ?_, hused⟩
  · obtain ⟨f, hf, hpf⟩ := access_user (haccess a ▸ ha)
    obtain ⟨g, hg, hpg⟩ := access_user (haccess b ▸ hb)
    obtain ⟨hdiv, hmod⟩ := frame_offset hpf
    obtain ⟨hdiv', hmod'⟩ := frame_offset hpg
    obtain rfl : f = g := hdiv.symm.trans hdiv'
    have hindex := congrArg Fin.val (hs.unshared _ _ f hf hg)
    rw [pageIndex_val, pageIndex_val] at hindex
    have hsize : pageFrameSize = 2 ^ 22 := rfl
    rw [hsize] at hmod hmod'
    exact UInt32.toNat_inj.mp (by omega)
  · obtain ⟨f, hf, hpf⟩ := access_user (haccess a ▸ hp)
    have hne : f ≠ 0 := fun h0 => hs.kernelUnmapped _ (h0 ▸ hf)
    have hlt := used_lt (hs.flagged _ f hf)
    have hsize : pageFrameSize = 4194304 := rfl
    rw [pageFrameMaxCount_eq] at hlt
    rw [hsize] at hpf
    rw [hsize, pageFrameMaxCount_eq]
    omega

/-- No call of a run writes an entry that none of them is for. -/
theorem opsOf_keys {k : Fin pageEntryCount} (hcalls : Meets step
    (fun _ call => pageIndex call.virtualAddr ≠ k) s calls) :
    ∀ op ∈ Call.opsOf s calls, op.key ≠ some k := by
  induction calls generalizing s with
  | nil => exact fun op hop => absurd hop List.not_mem_nil
  | cons call calls ih =>
    have hfirst : ∀ op ∈ call.ops s.manager, op.key ≠ some k := by
      intro op hop hkey
      rcases call_flushes s.manager call with h | ⟨pre, virtualAddr, h, _, hpre⟩
      · rw [h] at hop
        cases hop
      · rw [h] at hop
        rcases List.mem_append.mp hop with hop | hop
        · exact hcalls.1 (hpre op hop k hkey).symm
        · rw [List.mem_singleton.mp hop] at hkey
          cases hkey
    intro op hop
    rcases List.mem_append.mp hop with hop | hop
    · exact hfirst op hop
    · cases hstep : step s call with
      | ok s' =>
        rw [hstep] at hop
        exact ih (hcalls.2 s' hstep) op hop
      | error e =>
        rw [hstep] at hop
        cases hop

theorem access_of_coherent (hm : m.view.Coherent) (hs : m.paging.unmarked = s.unmarked)
    (user : Bool) (virtualAddr : UInt32) :
    m.access user virtualAddr = s.access user virtualAddr := by
  have hmapping : (m.paging.pageDir.table (pageIndex virtualAddr)).mapping =
      (s.pageDir.table (pageIndex virtualAddr)).mapping := by
    rw [← PageDirectoryEntry.mapping_unmarked, (unmarked_eq_iff.mp hs).2,
      PageDirectoryEntry.mapping_unmarked]
  unfold Mmu.access PagingState.access
  rw [hm.lookup, ← hmapping]
  rfl

/-- **Accesses follow the calls.** After the loader and any calls that return, each access
reaches what the entries that these calls make say, whatever the processor read, remembered
and forgot on the way, between two stores too; and its marks do not disturb the calls. -/
theorem accesses_follow (hrun : run step bootState calls = .ok s)
    (htrace : trace.filterMap Action.code = loaderOps ++ Call.opsOf bootState calls) :
    (Mmu.start.after trace).paging.unmarked = s.unmarked ∧ ∀ user virtualAddr,
      (Mmu.start.after trace).access user virtualAddr = s.access user virtualAddr := by
  obtain ⟨hcoherent, hunmarked⟩ := boot_after hrun htrace
  exact ⟨hunmarked, access_of_coherent hcoherent hunmarked⟩

/-- A processor that reads entries 1 and 2 after each operation. -/
def eager (ops : List Op) : List Action :=
  ops.flatMap fun op =>
    [.program op, .processor (.walk 1 true), .processor (.walk 2 false)]

theorem eager_code (ops : List Op) : (eager ops).filterMap Action.code = ops := by
  induction ops with
  | nil => rfl
  | cons op ops ih => exact congrArg (op :: ·) ih

theorem accesses_follow_eager :
    let m := Mmu.start.after (eager (loaderOps ++
      Call.opsOf bootState [.allocate 0x800000, .allocate 0x400000, .free 0x400000]))
    let s := freed (allocated (allocated bootState 0x800000 1) 0x400000 2) 0x400000 1
    m.paging.unmarked = s.unmarked ∧
      ∀ user virtualAddr, m.access user virtualAddr = s.access user virtualAddr := by
  have hrun : run step bootState [.allocate 0x800000, .allocate 0x400000, .free 0x400000] =
      .ok (freed (allocated (allocated bootState 0x800000 1) 0x400000 2) 0x400000 1) := rfl
  exact accesses_follow hrun (eager_code _)

/-- **Programs stay apart.** After the loader and calls that each use a frame of their own,
two addresses of programs never reach the same physical one, nor one of the kernel's or
beyond memory, whatever the processor remembered of earlier entries. -/
theorem user_accesses_apart (hcalls : Meets step OwnFrame bootState calls)
    (htrace : trace.filterMap Action.code = loaderOps ++ Call.opsOf bootState calls) :
    UsersApart (Mmu.start.after trace) := by
  have halways := always_of_meets (fun s call h hok => (step_isolated s call h hok).2)
    boot_isolated hcalls
  obtain ⟨s, hrun, hs⟩ := halways.run
  obtain ⟨hcoherent, hunmarked⟩ := boot_after hrun htrace
  exact isolated_apart (access_of_coherent hcoherent hunmarked true)
    (unmarked_eq_iff.mp hunmarked).1 hs

theorem user_accesses_apart_eager : UsersApart (Mmu.start.after (eager (loaderOps ++
    Call.opsOf bootState [.allocate 0x400000, .allocate 0x1000000, .free 0x400000]))) := by
  have hcalls : Meets step OwnFrame bootState
      [.allocate 0x400000, .allocate 0x1000000, .free 0x400000] := by
    refine ⟨Or.inl (by decide), fun s hs => ?_⟩
    cases hs
    refine ⟨Or.inl (by decide), fun s hs => ?_⟩
    cases hs
    exact ⟨⟨by decide, Or.inl (by decide)⟩, fun _ _ => trivial⟩
  exact user_accesses_apart hcalls (eager_code _)

/-- **The kernel stays where it is.** At every point of a run whose calls are outside the
kernel's addresses, also in the middle of a call or of the loader, these reach the first
frame, and programs do not reach it through them. -/
theorem kernel_stays (hcalls : Meets step (fun _ call => call.OutsideKernel) bootState calls)
    (htrace : trace.filterMap Action.code <+: loaderOps ++ Call.opsOf bootState calls)
    (virtualAddr : UInt32) (haddr : pageIndex virtualAddr = kernelIndex) :
    (Mmu.start.after trace).access false virtualAddr =
        some (virtualAddr.toNat % pageFrameSize) ∧
      (Mmu.start.after trace).access true virtualAddr = none := by
  have hkeys : ∀ op ∈ loaderOps ++ Call.opsOf bootState calls, op.key ≠ some kernelIndex := by
    intro op hop
    rcases List.mem_append.mp hop with hop | hop
    · simp only [loaderOps, List.mem_cons, List.not_mem_nil, or_false] at hop
      rcases hop with rfl | rfl <;> decide
    · refine opsOf_keys (hcalls.mono fun s call hout => ?_) op hop
      cases call with
      | allocate a => exact hout
      | free a => exact hout
  have hsteps : Steps (Act.Spares kernelIndex) Mmu.start.view (Mmu.start.after trace).view := by
    refine after_steps ?_ ?_
    · intro a ha
      cases a with
      | write i v => exact absurd ha id
      | fill i | evict i | invalidate i => trivial
    · intro op hop i v hi he
      exact hkeys op (htrace.subset hop) (he ▸ hi)
  have hlookup : (Mmu.start.after trace).view.lookup kernelIndex = some ⟨0, true, false⟩ :=
    hsteps.lookup_spared start_coherent.but
  unfold Mmu.access
  rw [haddr, hlookup]
  simp [Mapping.reach]

/-- In the middle of the first call, behind the store of its flag. -/
theorem kernel_stays_eager :
    (Mmu.start.after (eager ((loaderOps ++ Call.opsOf bootState [.allocate 0]).take 5))).access
      false 0xC0100000 = some 0x100000 := by
  have hout : (Call.allocate 0).OutsideKernel := show pageIndex 0 ≠ kernelIndex by decide
  have hcalls : Meets step (fun _ call => call.OutsideKernel) bootState [.allocate 0] :=
    ⟨hout, fun _ _ => trivial⟩
  refine (kernel_stays hcalls ?_ 0xC0100000 rfl).1
  rw [eager_code]
  exact List.take_prefix _ _

end Accesses


end KajijOSta.Paging
