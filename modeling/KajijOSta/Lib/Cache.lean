import Mathlib.Logic.Function.Basic

/-! # A cache of a table that changes

Lookups go through a cache that remembers what walks of a table found, and that fills and
forgets as it likes. It is coherent when it knows nothing that the table does not say. A
write to a key may leave that key stale, until it is invalidated; other keys stay coherent
throughout (`Steps.write_invalidate`). -/
namespace KajijOSta.Cache

variable {K V : Type*}

/-- What a walk finds for each key, and what is remembered. -/
structure State (K V : Type*) where
  table : K → Option V
  cached : K → Option V

/-- What happens to the two. -/
inductive Act (K V : Type*)
  | fill (k : K)
  | evict (k : K)
  | write (k : K) (v : Option V)
  | invalidate (k : K)

namespace State

/-- A lookup prefers the cache. -/
def lookup (s : State K V) (k : K) : Option V := (s.cached k).or (s.table k)

/-- Nothing is remembered that the table does not say, but for the keys in `P`. -/
def CoherentBut (P : K → Prop) (s : State K V) : Prop :=
  ∀ k v, ¬ P k → s.cached k = some v → s.table k = some v

/-- Nothing is remembered that the table does not say. -/
def Coherent (s : State K V) : Prop := s.CoherentBut fun _ => False

theorem CoherentBut.lookup_at {s : State K V} {P : K → Prop} {k : K} (h : s.CoherentBut P)
    (hk : ¬ P k) : s.lookup k = s.table k := by
  unfold State.lookup
  cases hc : s.cached k with
  | none => rfl
  | some v => exact (h k v hk hc).symm

theorem Coherent.lookup {s : State K V} (h : s.Coherent) (k : K) : s.lookup k = s.table k :=
  h.lookup_at id

theorem Coherent.but {s : State K V} {P : K → Prop} (h : s.Coherent) : s.CoherentBut P :=
  fun k v _ hc => h k v id hc

/-- The state after an act. Only what the table has is remembered. -/
def act [DecidableEq K] (s : State K V) : Act K V → State K V
  | .fill k => { s with
      cached := if (s.table k).isSome then Function.update s.cached k (s.table k) else s.cached }
  | .evict k | .invalidate k => { s with cached := Function.update s.cached k none }
  | .write k v => { s with table := Function.update s.table k v }

end State

namespace Act

/-- No key but `k` is written. -/
def WritesOnly (k : K) : Act K V → Prop
  | .write j _ => j = k
  | _ => True

def Spares (k : K) : Act K V → Prop
  | .write j _ => j ≠ k
  | _ => True

def Quiet : Act K V → Prop
  | .write _ _ => False
  | _ => True

end Act

/-! ## Steps -/

variable [DecidableEq K]

section Act
variable {s : State K V} {a : Act K V} {P : K → Prop} {k : K}

theorem fill_coherentBut (h : s.CoherentBut P) (k : K) : (s.act (.fill k)).CoherentBut P := by
  intro j v hj hc
  simp only [State.act] at hc ⊢
  split at hc
  · by_cases hjk : j = k
    · subst hjk
      rwa [Function.update_self] at hc
    · rw [Function.update_of_ne hjk] at hc
      exact h j v hj hc
  · exact h j v hj hc

theorem forget_coherentBut (h : s.CoherentBut P) (k : K) :
    (State.mk s.table (Function.update s.cached k none)).CoherentBut P := by
  intro j v hj hc
  by_cases hjk : j = k
  · subst hjk
    simp at hc
  · simp only [Function.update_of_ne hjk] at hc
    exact h j v hj hc

theorem quiet_coherentBut (h : s.CoherentBut P) (ha : a.Quiet) : (s.act a).CoherentBut P := by
  cases a with
  | fill k => exact fill_coherentBut h k
  | evict k => exact forget_coherentBut h k
  | invalidate k => exact forget_coherentBut h k
  | write k v => exact absurd ha id

theorem writesOnly_coherentBut (h : s.CoherentBut (· = k)) (ha : a.WritesOnly k) :
    (s.act a).CoherentBut (· = k) := by
  cases a with
  | fill j => exact fill_coherentBut h j
  | evict j => exact forget_coherentBut h j
  | invalidate j => exact forget_coherentBut h j
  | write j v =>
    intro i w hi hc
    have hij : i ≠ j := fun he => hi (he.trans ha)
    exact (Function.update_of_ne hij _ _).trans (h i w hi hc)

theorem spares_lookup (hcoherent : s.CoherentBut (· ≠ k)) (ha : a.Spares k) :
    (s.act a).CoherentBut (· ≠ k) ∧ (s.act a).table k = s.table k := by
  cases a with
  | fill j => exact ⟨fill_coherentBut hcoherent j, rfl⟩
  | evict j => exact ⟨forget_coherentBut hcoherent j, rfl⟩
  | invalidate j => exact ⟨forget_coherentBut hcoherent j, rfl⟩
  | write j v =>
    have htable : (s.act (.write j v)).table k = s.table k :=
      Function.update_of_ne (Ne.symm ha) _ _
    refine ⟨fun i w hi hc => ?_, htable⟩
    obtain rfl : i = k := not_not.mp hi
    exact htable.trans (hcoherent i w hi hc)

theorem invalidate_coherent (h : s.CoherentBut (· = k)) : (s.act (.invalidate k)).Coherent := by
  intro j v _ hc
  by_cases hjk : j = k
  · subst hjk
    simp [State.act] at hc
  · simp only [State.act, Function.update_of_ne hjk] at hc
    exact h j v hjk hc

end Act

/-! ## Runs -/

/-- Acts of a kind, one after the other. -/
inductive Steps (ok : Act K V → Prop) : State K V → State K V → Prop
  | refl (s : State K V) : Steps ok s s
  | tail {s t : State K V} {a : Act K V} (h : Steps ok s t) (ha : ok a) : Steps ok s (t.act a)

namespace Steps
variable {s t u : State K V} {k : K}

theorem trans {ok : Act K V → Prop} (h : Steps ok s t) (h' : Steps ok t u) : Steps ok s u := by
  induction h' with
  | refl => exact h
  | tail _ ha ih => exact ih.tail ha

theorem coherentBut (h : Steps (Act.WritesOnly k) s t) (hs : s.CoherentBut (· = k)) :
    t.CoherentBut (· = k) := by
  induction h with
  | refl => exact hs
  | tail _ ha ih => exact writesOnly_coherentBut ih ha

theorem coherent (h : Steps Act.Quiet s t) (hs : s.Coherent) : t.Coherent := by
  induction h with
  | refl => exact hs
  | tail _ ha ih => exact quiet_coherentBut ih ha

/-- A key that is not written is found as before, whatever happens to others. -/
theorem lookup_spared (h : Steps (Act.Spares k) s t) (hs : s.CoherentBut (· ≠ k)) :
    t.lookup k = s.table k := by
  have hboth : t.CoherentBut (· ≠ k) ∧ t.table k = s.table k := by
    induction h with
    | refl => exact ⟨hs, rfl⟩
    | tail _ ha ih =>
      obtain ⟨hnext, htable⟩ := spares_lookup ih.1 ha
      exact ⟨hnext, htable.trans ih.2⟩
  rw [hboth.1.lookup_at (not_not.mpr rfl), hboth.2]

/-- **Write, then invalidate.** Whatever the cache does in between and afterwards. -/
theorem write_invalidate (h : Steps (Act.WritesOnly k) s t)
    (h' : Steps Act.Quiet (t.act (.invalidate k)) u) (hs : s.Coherent) : u.Coherent :=
  h'.coherent (invalidate_coherent (h.coherentBut hs.but))

end Steps

end KajijOSta.Cache
