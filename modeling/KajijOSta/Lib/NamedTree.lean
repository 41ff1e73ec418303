import Mathlib.Data.Set.Finite.Lattice
import Mathlib.Data.Fintype.Option
import Mathlib.Data.List.Infix

/-! # Trees of named entries, read off a labelled graph

A graph of directories: each directory `d` maps some names `k` to entries, and
an entry is either a directory again (`child`) or a leaf. Unfolding the graph
from its root gives a tree whose nodes are addressed by paths. A path is a
list of names, INNERMOST NAME FIRST, so that the parent of `k :: p` is `p` and
the subtree below `p` is the set of lists with suffix `p`.

The three ways a file system changes such a tree are stated once here: an
unrelated change of the graph (`dirAt_congr`), one new entry (`dirAt_insert`)
and one entry taken away with everything below it (`dirAt_remove`). -/
namespace KajijOSta.NamedTree

variable {D K E V : Type*}

/-- A labelled graph of directories with a root. -/
structure Graph (D K E : Type*) where
  root : D
  lookup : D → K → Option E
  child : E → Option D

namespace Graph

def dirAt (g : Graph D K E) : List K → Option D
  | [] => some g.root
  | k :: p => (g.dirAt p).bind fun d => (g.lookup d k).bind g.child

def entryAt (g : Graph D K E) : List K → Option E
  | [] => none
  | k :: p => (g.dirAt p).bind fun d => g.lookup d k

def Reachable (g : Graph D K E) (d : D) : Prop := ∃ p, g.dirAt p = some d

@[simp] theorem dirAt_nil (g : Graph D K E) : g.dirAt [] = some g.root := rfl

theorem dirAt_cons (g : Graph D K E) (k : K) (p : List K) :
    g.dirAt (k :: p) = (g.entryAt (k :: p)).bind g.child := by
  simp [dirAt, entryAt, Option.bind_assoc]

theorem entryAt_cons {g : Graph D K E} {k : K} {p : List K} {d : D}
    (h : g.dirAt p = some d) : g.entryAt (k :: p) = g.lookup d k := by
  simp [entryAt, h]

theorem dirAt_cons_eq_some {g : Graph D K E} {k : K} {p : List K} {d : D} :
    g.dirAt (k :: p) = some d ↔
      ∃ c e, g.dirAt p = some c ∧ g.lookup c k = some e ∧ g.child e = some d := by
  simp [dirAt, Option.bind_eq_some_iff]

theorem reachable_root (g : Graph D K E) : g.Reachable g.root := ⟨[], rfl⟩

theorem Reachable.child {g : Graph D K E} {c d : D} {k : K} {e : E} (h : g.Reachable c)
    (he : g.lookup c k = some e) (hd : g.child e = some d) : g.Reachable d := by
  obtain ⟨p, hp⟩ := h
  exact ⟨k :: p, dirAt_cons_eq_some.mpr ⟨c, e, hp, he, hd⟩⟩

/-- A path that goes on from `q` starts with an entry of the directory at `q`. -/
theorem dirAt_append {g : Graph D K E} {q : List K} {x : D} :
    ∀ {s : List K}, g.dirAt (s ++ q) = some x → s ≠ [] →
      ∃ d k e, g.dirAt q = some d ∧ g.lookup d k = some e
  | [], _, hs => absurd rfl hs
  | k :: s, h, _ => by
    obtain ⟨c, e, hc, he, _⟩ := dirAt_cons_eq_some.mp h
    cases s with
    | nil => exact ⟨c, k, e, hc, he⟩
    | cons k' s => exact dirAt_append hc (List.cons_ne_nil _ _)

/-- Each directory is entered by one edge only, and the root by none: then each
directory has one path. -/
theorem path_unique {g : Graph D K E}
    (hroot : ∀ c k e, g.Reachable c → g.lookup c k = some e → g.child e ≠ some g.root)
    (hedge : ∀ c k e c' k' e' d, g.Reachable c → g.lookup c k = some e → g.child e = some d →
      g.Reachable c' → g.lookup c' k' = some e' → g.child e' = some d → c = c' ∧ k = k') :
    ∀ p q d, g.dirAt p = some d → g.dirAt q = some d → p = q := by
  intro p
  induction p with
  | nil =>
    intro q d hp hq
    cases q with
    | nil => rfl
    | cons k q =>
      obtain ⟨c, e, hc, he, hd⟩ := dirAt_cons_eq_some.mp hq
      cases hp
      exact absurd hd (hroot c k e ⟨q, hc⟩ he)
  | cons k p ih =>
    intro q d hp hq
    obtain ⟨c, e, hc, he, hd⟩ := dirAt_cons_eq_some.mp hp
    cases q with
    | nil =>
      cases hq
      exact absurd hd (hroot c k e ⟨p, hc⟩ he)
    | cons k' q =>
      obtain ⟨c', e', hc', he', hd'⟩ := dirAt_cons_eq_some.mp hq
      obtain ⟨rfl, rfl⟩ := hedge c k e c' k' e' d ⟨p, hc⟩ he hd ⟨q, hc'⟩ he' hd'
      rw [ih q c hc hc']

/-- One path for each directory, finitely many directories: finitely many paths. -/
theorem finite_dirs [Finite D] {g : Graph D K E}
    (h : ∀ p q d, g.dirAt p = some d → g.dirAt q = some d → p = q) :
    {p | g.dirAt p ≠ none}.Finite := by
  refine Set.Finite.of_injOn (f := g.dirAt) (t := Set.univ) (fun _ _ => Set.mem_univ _) ?_
    Set.finite_univ
  intro p hp q _ he
  obtain ⟨d, hd⟩ := Option.ne_none_iff_exists'.mp hp
  exact h p q d hd (he ▸ hd)

/-! ## How a change of the graph changes the paths -/

section Change
variable {g g' : Graph D K E}

/-- Directories whose entries have not changed are where they were. -/
theorem dirAt_congr (hr : g'.root = g.root) (hc : g'.child = g.child)
    (hl : ∀ d k, g.Reachable d → g'.lookup d k = g.lookup d k) (p : List K) :
    g'.dirAt p = g.dirAt p := by
  induction p with
  | nil => simp [hr]
  | cons k p ih =>
    simp only [dirAt, ih, hc]
    cases hd : g.dirAt p with
    | none => rfl
    | some d => simp [hl d k ⟨p, hd⟩]

theorem entryAt_congr (hr : g'.root = g.root) (hc : g'.child = g.child)
    (hl : ∀ d k, g.Reachable d → g'.lookup d k = g.lookup d k) (p : List K) :
    g'.entryAt p = g.entryAt p := by
  cases p with
  | nil => rfl
  | cons k p =>
    simp only [entryAt, dirAt_congr hr hc hl]
    cases hd : g.dirAt p with
    | none => rfl
    | some d => simp [hl d k ⟨p, hd⟩]

variable {d₀ : D} {k₀ : K} {p₀ : List K} (hr : g'.root = g.root) (hc : g'.child = g.child)
  (hp : g.dirAt p₀ = some d₀) (hu : ∀ p, g.dirAt p = some d₀ → p = p₀)
  (hl : ∀ d k, g.Reachable d → (d, k) ≠ (d₀, k₀) → g'.lookup d k = g.lookup d k)

include hu hl in
/-- An entry that is not the changed one, in a directory that is where it was. -/
theorem entryAt_other {k : K} {p : List K} (hd : g'.dirAt p = g.dirAt p)
    (hne : k :: p ≠ k₀ :: p₀) : g'.entryAt (k :: p) = g.entryAt (k :: p) := by
  simp only [entryAt, hd]
  cases hgp : g.dirAt p with
  | none => rfl
  | some d =>
    have hdk : (d, k) ≠ (d₀, k₀) := by
      intro he
      cases he
      exact hne (by rw [hu p hgp])
    simp [hl d k ⟨p, hgp⟩ hdk]

section Insert
variable {e : E} (hold : g.lookup d₀ k₀ = none) (hnew : g'.lookup d₀ k₀ = some e)
  (hempty : ∀ n, g.child e = some n → ∀ k, g'.lookup n k = none)

include hp hu hl hold hnew hempty in
/-- The entries of a directory, from where the directory is. -/
theorem entryAt_insert_cons {k : K} {p : List K}
    (hd : (p = k₀ :: p₀ → g'.dirAt p = g.child e) ∧ (p ≠ k₀ :: p₀ → g'.dirAt p = g.dirAt p)) :
    (k :: p = k₀ :: p₀ → g'.entryAt (k :: p) = some e) ∧
      (k :: p ≠ k₀ :: p₀ → g'.entryAt (k :: p) = g.entryAt (k :: p)) := by
  by_cases hpn : p = k₀ :: p₀
  · -- below the new entry there is nothing, before or after
    have h1 : g.dirAt p = none := by rw [hpn]; simp [dirAt, hp, hold]
    refine ⟨fun he => absurd (congrArg List.length he) (by simp [hpn]), fun _ => ?_⟩
    simp only [entryAt, h1, hd.1 hpn]
    cases hn : g.child e with
    | none => rfl
    | some n => simp [hempty n hn k]
  · refine ⟨fun he => ?_, entryAt_other hu hl (hd.2 hpn)⟩
    cases he
    simp [entryAt, hd.2 hpn, hp, hnew]

include hr hc hp hu hl hold hnew hempty in
/-- One new entry `e` named `k₀` in the directory at `p₀`; if it is a directory,
it is an empty one. Then exactly the path `k₀ :: p₀` is new. -/
theorem dirAt_insert (q : List K) :
    (q = k₀ :: p₀ → g'.dirAt q = g.child e) ∧ (q ≠ k₀ :: p₀ → g'.dirAt q = g.dirAt q) := by
  induction q with
  | nil => simp [hr]
  | cons k p ih =>
    have hentry := @entryAt_insert_cons D K E g g' d₀ k₀ p₀ hp hu hl e hold hnew hempty k p ih
    constructor
    · intro he
      rw [dirAt_cons, hentry.1 he, hc, Option.bind_some]
    · intro hne
      rw [dirAt_cons, hentry.2 hne, hc, dirAt_cons]

include hr hc hp hu hl hold hnew hempty in
theorem entryAt_insert (q : List K) :
    (q = k₀ :: p₀ → g'.entryAt q = some e) ∧ (q ≠ k₀ :: p₀ → g'.entryAt q = g.entryAt q) := by
  cases q with
  | nil => exact ⟨fun h => absurd h (by simp), fun _ => rfl⟩
  | cons k p =>
    exact entryAt_insert_cons hp hu hl hold hnew hempty
      (dirAt_insert hr hc hp hu hl hold hnew hempty p)

end Insert

section Remove
variable (hgone : g'.lookup d₀ k₀ = none)

include hp hu hl hgone in
theorem entryAt_remove_cons {k : K} {p : List K}
    (hd : (k₀ :: p₀ <:+ p → g'.dirAt p = none) ∧ (¬ k₀ :: p₀ <:+ p → g'.dirAt p = g.dirAt p)) :
    (k₀ :: p₀ <:+ k :: p → g'.entryAt (k :: p) = none) ∧
      (¬ k₀ :: p₀ <:+ k :: p → g'.entryAt (k :: p) = g.entryAt (k :: p)) := by
  by_cases hpn : k₀ :: p₀ <:+ p
  · refine ⟨fun _ => by simp [entryAt, hd.1 hpn], fun hn => ?_⟩
    exact absurd (hpn.trans (List.suffix_cons k p)) hn
  · refine ⟨fun hs => ?_, fun hns => ?_⟩
    · rcases List.suffix_cons_iff.mp hs with he | hs
      · cases he
        simp [entryAt, hd.2 hpn, hp, hgone]
      · exact absurd hs hpn
    · exact entryAt_other hu hl (hd.2 hpn) fun he => hns (he ▸ List.suffix_refl _)

include hr hc hp hu hl hgone in
/-- The entry `k₀` of the directory at `p₀` is gone: so is every path through it,
and no other. -/
theorem dirAt_remove (q : List K) :
    (k₀ :: p₀ <:+ q → g'.dirAt q = none) ∧ (¬ k₀ :: p₀ <:+ q → g'.dirAt q = g.dirAt q) := by
  induction q with
  | nil => exact ⟨fun h => absurd (List.suffix_nil.mp h) (by simp), fun _ => by simp [hr]⟩
  | cons k p ih =>
    have hentry := @entryAt_remove_cons D K E g g' d₀ k₀ p₀ hp hu hl hgone k p ih
    constructor
    · intro hs
      rw [dirAt_cons, hentry.1 hs, Option.bind_none]
    · intro hns
      rw [dirAt_cons, hentry.2 hns, hc, dirAt_cons]

include hr hc hp hu hl hgone in
theorem entryAt_remove (q : List K) :
    (k₀ :: p₀ <:+ q → g'.entryAt q = none) ∧
      (¬ k₀ :: p₀ <:+ q → g'.entryAt q = g.entryAt q) := by
  cases q with
  | nil => exact ⟨fun h => absurd (List.suffix_nil.mp h) (by simp), fun _ => rfl⟩
  | cons k p => exact entryAt_remove_cons hp hu hl hgone (dirAt_remove hr hc hp hu hl hgone p)

end Remove

end Change

end Graph

/-! ## The abstract tree -/

/-- A node of a tree: a folder, or a file with its content. -/
inductive Node (V : Type*)
  | folder
  | file (content : V)

/-- A finite tree of named files and folders: the root is a folder, and what has
a name lies in a folder. -/
@[ext] structure Tree (K V : Type*) where
  node : List K → Option (Node V)
  root : node [] = some .folder
  parent : ∀ k p, node (k :: p) ≠ none → node p = some .folder
  finite : {p | node p ≠ none}.Finite

namespace Tree
variable [DecidableEq K] (t : Tree K V) {k : K} {p : List K}

/-- The tree with one new node `n` at `k :: p`, in an existing folder. -/
def insert (k : K) (p : List K) (n : Node V) (hp : t.node p = some .folder)
    (hk : t.node (k :: p) = none) : Tree K V where
  node q := if q = k :: p then some n else t.node q
  root := by simp [t.root]
  parent := by
    intro j q h
    by_cases hq : q = k :: p
    · -- nothing lies below `k :: p` yet
      exfalso
      have h1 : t.node (j :: q) ≠ none := by
        have : j :: q ≠ k :: p := fun he => by simpa [hq] using congrArg List.length he
        simpa [this] using h
      have h2 := t.parent j q h1
      rw [hq, hk] at h2
      cases h2
    · rw [if_neg hq]
      by_cases hj : j :: q = k :: p
      · cases hj; exact hp
      · exact t.parent j q (by simpa [hj] using h)
  finite := by
    refine (t.finite.insert (k :: p)).subset fun q hq => ?_
    by_cases hqk : q = k :: p
    · exact Or.inl hqk
    · exact Or.inr (by simpa [hqk] using hq)

/-- The tree without the node at `k :: p` and everything below it. -/
def remove (k : K) (p : List K) : Tree K V where
  node q := if k :: p <:+ q then none else t.node q
  root := by
    rw [if_neg (fun h => by simpa using List.suffix_nil.mp h)]
    exact t.root
  parent := by
    intro j q h
    by_cases hj : k :: p <:+ j :: q
    · simp [hj] at h
    · have hq : ¬ k :: p <:+ q := fun hs => hj (hs.trans (List.suffix_cons j q))
      rw [if_neg hq]
      exact t.parent j q (by simpa [hj] using h)
  finite := t.finite.subset fun q hq => by
    by_cases hs : k :: p <:+ q
    · simp [hs] at hq
    · simpa [hs] using hq

end Tree

namespace Graph
variable (g : Graph D K E) (content : E → V)

/-- What a path leads to in the unfolded graph. -/
def node : List K → Option (Node V)
  | [] => some .folder
  | k :: p => (g.entryAt (k :: p)).map fun e =>
      if (g.child e).isSome then .folder else .file (content e)

theorem node_of_dirAt {p : List K} {d : D} (h : g.dirAt p = some d) :
    g.node content p = some .folder := by
  cases p with
  | nil => rfl
  | cons k p =>
    rw [dirAt_cons, Option.bind_eq_some_iff] at h
    obtain ⟨e, he, hd⟩ := h
    simp [node, he, hd]

theorem dirAt_of_node {k : K} {p : List K} (h : g.node content (k :: p) ≠ none) :
    ∃ d, g.dirAt p = some d := by
  cases hd : g.dirAt p with
  | none => simp [node, entryAt, hd] at h
  | some d => exact ⟨d, rfl⟩

/-- Below a path there is nothing when the directory there is empty. -/
theorem node_below {p q : List K} (h : ∀ d, g.dirAt p = some d → ∀ k, g.lookup d k = none)
    (hs : p <:+ q) (hne : q ≠ p) : g.node content q = none := by
  obtain ⟨s, rfl⟩ := hs
  cases s with
  | nil => exact absurd rfl hne
  | cons k s =>
    by_contra hnode
    obtain ⟨x, hx⟩ := g.dirAt_of_node content hnode
    cases s with
    | nil =>
      have hx : g.dirAt p = some x := hx
      refine hnode ?_
      rw [List.cons_append, List.nil_append, node, entryAt_cons hx, h x hx k, Option.map_none]
    | cons k' s =>
      obtain ⟨d, k₁, e, hd, he⟩ := dirAt_append hx (List.cons_ne_nil _ _)
      rw [h d hd k₁] at he
      cases he

/-- The unfolded graph, as a tree, when it has finitely many directories with
finitely many names in each. -/
def toTree (hf : {p | g.dirAt p ≠ none}.Finite)
    (hk : ∀ d, {k | g.lookup d k ≠ none}.Finite) : Tree K V where
  node := g.node content
  root := rfl
  parent k p h := by
    obtain ⟨d, hd⟩ := g.dirAt_of_node content h
    exact g.node_of_dirAt content hd
  finite := by
    have hsub : {p | g.node content p ≠ none} ⊆
        insert [] (⋃ p ∈ {p | g.dirAt p ≠ none}, (· :: p) '' {k | g.entryAt (k :: p) ≠ none}) := by
      intro q hq
      cases q with
      | nil => exact Or.inl rfl
      | cons k p =>
        obtain ⟨d, hd⟩ := g.dirAt_of_node content hq
        refine Or.inr (Set.mem_biUnion (x := p) (by simp [hd]) ⟨k, ?_, rfl⟩)
        intro he
        simp [node, he] at hq
    refine Set.Finite.subset (Set.Finite.insert _ (Set.Finite.biUnion hf fun p _ => ?_)) hsub
    refine Set.Finite.image _ ?_
    cases hd : g.dirAt p with
    | none => simp [entryAt, hd]
    | some d => simpa [entryAt, hd] using hk d

end Graph

end KajijOSta.NamedTree
