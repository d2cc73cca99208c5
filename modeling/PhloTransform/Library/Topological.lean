import Mathlib.Data.Fintype.EquivFin
import Mathlib.Data.List.Sort
import Mathlib.Logic.Relation
import Mathlib.Order.WellFounded
import Mathlib.Tactic.Common

/-!
# Topological ordering

A finite dependency graph is a duplicate-free list of nodes with a duplicate-free
list of dependencies for each.  Kahn's algorithm counts the dependencies that
have not been emitted, keeps the nodes with none of them in an ordered queue, and
emits the least one.

Main results:

- Theorem `DependencyGraph.wellFounded_of_acyclic`: an acyclic graph supports
  induction along its dependencies.
- Theorem `DependencyGraph.topologicalOrder_nodup`: no node is emitted twice.
-/

namespace PhloTransform.Library

/-- Nodes with the nodes they depend on. -/
structure DependencyGraph (Node : Type*) where
  nodes : List Node
  nodes_nodup : nodes.Nodup
  deps : Node → List Node
  deps_nodup : ∀ a, (deps a).Nodup

namespace DependencyGraph

variable {Node : Type*}
variable {order ready : List Node} {a : Node}

/-- An edge between two nodes of the graph: `a` depends on `b`. -/
def Edge (g : DependencyGraph Node) (a b : Node) : Prop :=
  a ∈ g.nodes ∧ b ∈ g.nodes ∧ b ∈ g.deps a

/-- Every dependency of a node is a node. -/
def Closed (g : DependencyGraph Node) : Prop :=
  ∀ a ∈ g.nodes, ∀ d ∈ g.deps a, d ∈ g.nodes

/-- No node depends on itself, directly or through others. -/
def Acyclic (g : DependencyGraph Node) : Prop :=
  ∀ a, ¬ Relation.TransGen g.Edge a a

theorem acyclic_of_rank {g : DependencyGraph Node} (rank : Node → Nat)
    (h : ∀ a b, g.Edge a b → rank b < rank a) : g.Acyclic := by
  intro a hcycle
  have hlt : ∀ b, Relation.TransGen g.Edge a b → rank b < rank a := by
    intro b hb
    induction hb with
    | single hedge => exact h _ _ hedge
    | tail _ hedge ih => exact (h _ _ hedge).trans ih
  exact absurd (hlt a hcycle) (Nat.lt_irrefl _)

/-- An acyclic graph supports induction along its dependencies. -/
theorem wellFounded_of_acyclic {g : DependencyGraph Node} (hg : g.Acyclic) :
    WellFounded fun b a => g.Edge a b := by
  classical
  let R : {a // a ∈ g.nodes} → {a // a ∈ g.nodes} → Prop :=
    fun b a => Relation.TransGen g.Edge a.1 b.1
  have htrans : IsTrans {a // a ∈ g.nodes} R := ⟨fun _ _ _ hab hbc => hbc.trans hab⟩
  have hirrefl : Std.Irrefl R := ⟨fun a h => hg a.1 h⟩
  have hfinite : Finite {a // a ∈ g.nodes} :=
    Finite.of_injective (fun a => (⟨a.1, List.mem_toFinset.2 a.2⟩ : g.nodes.toFinset))
      fun a b h => Subtype.ext (congrArg (fun x => x.1) h)
  have hwf : WellFounded R := Finite.wellFounded_of_trans_of_irrefl R
  refine ⟨fun a => ?_⟩
  have hmem : ∀ x : {a // a ∈ g.nodes}, Acc (fun b a => g.Edge a b) x.1 := by
    intro x
    induction x using hwf.induction with
    | _ x ih =>
      exact ⟨_, fun b hb => ih ⟨b, hb.2.1⟩ (.single hb)⟩
  by_cases ha : a ∈ g.nodes
  · exact hmem ⟨a, ha⟩
  · exact ⟨_, fun b hb => absurd hb.1 ha⟩

/-! ## Orders that respect the dependencies -/

/-- Every node of the list comes after its dependencies. -/
def DependenciesFirst (g : DependencyGraph Node) (order : List Node) : Prop :=
  ∀ pre a post, order = pre ++ a :: post → ∀ d ∈ g.deps a, d ∈ pre

theorem DependenciesFirst.append {g : DependencyGraph Node} (h : g.DependenciesFirst order)
    (ha : ∀ d ∈ g.deps a, d ∈ order) : g.DependenciesFirst (order ++ [a]) := by
  intro pre b post hsplit d hd
  rcases List.eq_nil_or_concat post with rfl | ⟨post, c, rfl⟩
  · obtain ⟨hpre, hb⟩ := List.append_inj' hsplit rfl
    have hab : a = b := by simpa using hb
    exact hpre ▸ ha d (hab ▸ hd)
  · have hsplit' : order ++ [a] = (pre ++ b :: post) ++ [c] := by simpa using hsplit
    exact h pre b post (List.append_inj' hsplit' rfl).1 d hd

/-! ## Kahn's algorithm -/

variable [LinearOrder Node] (g : DependencyGraph Node)

def dependents (a : Node) : List Node :=
  g.nodes.filter fun child => decide (a ∈ g.deps child)

def insertReady (a : Node) (ready : List Node) : List Node :=
  if a ∈ ready then ready else ready.orderedInsert (· ≤ ·) a

/-- One dependency of `child` has been emitted. -/
def releaseOne (acc : (Node → Nat) × List Node) (child : Node) :
    (Node → Nat) × List Node :=
  let count := acc.1 child - 1
  (Function.update acc.1 child count,
    if count = 0 then insertReady child acc.2 else acc.2)

/-- Emit the least ready node until none is ready. -/
def emit : Nat → List Node → (Node → Nat) → List Node → List Node
  | 0, order, _, _ => order
  | _ + 1, order, _, [] => order
  | fuel + 1, order, remaining, a :: ready =>
    let released := (g.dependents a).foldl releaseOne (remaining, ready)
    emit fuel (order ++ [a]) released.1 released.2

/-- The order in which all nodes are emitted, if the algorithm reaches them all. -/
def topologicalOrder : Option (List Node) :=
  let order := g.emit g.nodes.length [] (fun a => (g.deps a).length)
    ((g.nodes.filter fun a => decide ((g.deps a).length = 0)).insertionSort (· ≤ ·))
  if order.length = g.nodes.length then some order else none

/-! ## Releasing dependents -/

theorem mem_insertReady {b : Node} : b ∈ insertReady a ready ↔ b = a ∨ b ∈ ready := by
  unfold insertReady
  split
  · next hmem =>
      constructor
      · exact Or.inr
      · rintro (rfl | hb)
        · exact hmem
        · exact hb
  · exact List.mem_orderedInsert _

theorem nodup_insertReady (h : ready.Nodup) : (insertReady a ready).Nodup := by
  unfold insertReady
  split
  · exact h
  · next hnot =>
      exact (List.perm_orderedInsert _ a ready).nodup_iff.2 (List.nodup_cons.2 ⟨hnot, h⟩)

theorem foldl_releaseOne {children : List Node} (hnodup : children.Nodup)
    (remaining : Node → Nat) (ready : List Node) :
    (∀ b, (children.foldl releaseOne (remaining, ready)).1 b =
      if b ∈ children then remaining b - 1 else remaining b) ∧
    (∀ b, b ∈ (children.foldl releaseOne (remaining, ready)).2 ↔
      b ∈ ready ∨ b ∈ children ∧ remaining b - 1 = 0) ∧
    (ready.Nodup → (children.foldl releaseOne (remaining, ready)).2.Nodup) := by
  induction children generalizing remaining ready with
  | nil => simp
  | cons child children ih =>
    rw [List.nodup_cons] at hnodup
    obtain ⟨hcount, hready, hnd⟩ := ih hnodup.2 (releaseOne (remaining, ready) child).1
      (releaseOne (remaining, ready) child).2
    have hother : ∀ b, b ≠ child → (releaseOne (remaining, ready) child).1 b = remaining b :=
      fun b hb => by simp [releaseOne, hb]
    have hself : (releaseOne (remaining, ready) child).1 child = remaining child - 1 := by
      simp [releaseOne]
    have hmem : ∀ b, b ∈ (releaseOne (remaining, ready) child).2 ↔
        b ∈ ready ∨ b = child ∧ remaining child - 1 = 0 := by
      intro b
      by_cases hzero : remaining child - 1 = 0
      · simp [releaseOne, hzero, mem_insertReady, or_comm]
      · simp [releaseOne, hzero]
    refine ⟨?_, ?_, ?_⟩
    · intro b
      rw [List.foldl_cons, hcount]
      by_cases hb : b = child
      · subst hb
        simp [hnodup.1, hself]
      · simp [hb, hother b hb]
    · intro b
      rw [List.foldl_cons, hready, hmem]
      by_cases hb : b = child
      · subst hb
        simp [hnodup.1]
      · simp [hb, hother b hb]
    · intro hr
      refine hnd ?_
      unfold releaseOne
      simp only
      split
      · exact nodup_insertReady hr
      · exact hr

/-! ## The emitted order -/

/-- The dependencies of a node that have not been emitted. -/
def waiting (order : List Node) (a : Node) : List Node :=
  (g.deps a).filter fun d => decide (d ∉ order)

/-- What the loop maintains. -/
structure EmitInv (order : List Node) (remaining : Node → Nat) (ready : List Node) :
    Prop where
  nodup : (order ++ ready).Nodup
  count : ∀ a ∈ g.nodes, remaining a = (g.waiting order a).length
  known : ∀ a ∈ order ++ ready, a ∈ g.nodes ∧ remaining a = 0
  first : g.DependenciesFirst order

variable {g}

theorem waiting_append {b : Node} (ha : a ∉ order) :
    (g.waiting (order ++ [a]) b).length =
      if a ∈ g.deps b then (g.waiting order b).length - 1 else (g.waiting order b).length := by
  have hfilter : g.waiting (order ++ [a]) b = (g.waiting order b).erase a := by
    have hnodup : (g.waiting order b).Nodup := (g.deps_nodup b).filter _
    rw [hnodup.erase_eq_filter, waiting, waiting, List.filter_filter]
    refine List.filter_congr fun d _ => ?_
    by_cases hd : d = a <;> by_cases ho : d ∈ order <;> simp [hd, ho]
  have hmem : a ∈ g.waiting order b ↔ a ∈ g.deps b := by
    simp [waiting, ha]
  rw [hfilter]
  by_cases hdep : a ∈ g.deps b
  · rw [if_pos hdep, List.length_erase_of_mem (hmem.2 hdep)]
  · rw [if_neg hdep, List.erase_of_not_mem fun h => hdep (hmem.1 h)]

theorem EmitInv.step {remaining : Node → Nat} (h : g.EmitInv order remaining (a :: ready)) :
    g.EmitInv (order ++ [a])
      ((g.dependents a).foldl releaseOne (remaining, ready)).1
      ((g.dependents a).foldl releaseOne (remaining, ready)).2 := by
  have hchildren : (g.dependents a).Nodup := g.nodes_nodup.filter _
  obtain ⟨hcount, hready, hnodup⟩ := foldl_releaseOne hchildren remaining ready
  have haOrder : a ∉ order := by
    intro hmem
    have := (List.nodup_append.1 h.nodup).2.2 a hmem a (by simp)
    exact this rfl
  have hknown : ∀ b ∈ order ++ [a] ++ ready, b ∈ g.nodes ∧ remaining b = 0 := by
    intro b hb
    exact h.known b (by simpa using hb)
  -- What has been emitted or is ready waits for nothing, so it is no dependent.
  have hnotDependent : ∀ b, b ∈ order ++ [a] ++ ready → b ∉ g.dependents a := by
    intro b hb hdep
    obtain ⟨hnode, hzero⟩ := hknown b hb
    have hwait : g.waiting order b = [] := by
      rw [← List.length_eq_zero_iff, ← h.count b hnode, hzero]
    have hmem : a ∈ g.waiting order b := by
      simp only [dependents, List.mem_filter, decide_eq_true_eq] at hdep
      simp [waiting, hdep.2, haOrder]
    simp [hwait] at hmem
  have hnd : (order ++ [a] ++ ready).Nodup := by
    simpa using h.nodup
  refine ⟨?_, ?_, ?_, ?_⟩
  · obtain ⟨hleft, hright, hdisjoint⟩ := List.nodup_append.1 hnd
    refine List.nodup_append.2 ⟨hleft, hnodup hright, ?_⟩
    intro b hb c hc hbc
    subst hbc
    rcases (hready b).1 hc with hold | ⟨hdep, -⟩
    · exact hdisjoint b hb b hold rfl
    · exact hnotDependent b (List.mem_append_left _ hb) hdep
  · intro b hb
    rw [hcount, h.count b hb, waiting_append haOrder]
    have hiff : b ∈ g.dependents a ↔ a ∈ g.deps b := by
      simp [dependents, hb]
    simp only [hiff]
  · intro b hb
    have hcase : b ∈ order ++ [a] ++ ready ∨
        b ∈ g.dependents a ∧ remaining b - 1 = 0 := by
      rcases List.mem_append.1 hb with hb | hb
      · exact Or.inl (List.mem_append_left _ hb)
      · exact ((hready b).1 hb).imp_left (List.mem_append_right _)
    rcases hcase with hold | ⟨hdep, hzero⟩
    · obtain ⟨hnode, hzero⟩ := hknown b hold
      exact ⟨hnode, by rw [hcount, if_neg (hnotDependent b hold), hzero]⟩
    · have hnode : b ∈ g.nodes := List.mem_of_mem_filter hdep
      exact ⟨hnode, by rw [hcount, if_pos hdep, hzero]⟩
  · refine h.first.append fun d hd => ?_
    obtain ⟨hnode, hzero⟩ := h.known a (by simp)
    have hwait : g.waiting order a = [] := by
      rw [← List.length_eq_zero_iff, ← h.count a hnode, hzero]
    by_contra hnot
    have hmem : d ∈ g.waiting order a := by simp [waiting, hd, hnot]
    simp [hwait] at hmem

theorem EmitInv.emit {fuel : Nat} {order ready : List Node} {remaining : Node → Nat}
    (h : g.EmitInv order remaining ready) :
    (g.emit fuel order remaining ready).Nodup ∧
      g.DependenciesFirst (g.emit fuel order remaining ready) ∧
      ∀ a ∈ g.emit fuel order remaining ready, a ∈ g.nodes := by
  induction fuel generalizing order remaining ready with
  | zero =>
    exact ⟨(List.nodup_append.1 h.nodup).1, h.first, fun a ha =>
      (h.known a (List.mem_append_left _ ha)).1⟩
  | succ fuel ih =>
    cases ready with
    | nil =>
      exact ⟨(List.nodup_append.1 h.nodup).1, h.first, fun a ha =>
        (h.known a (List.mem_append_left _ ha)).1⟩
    | cons a ready => exact ih h.step

theorem initial_emitInv :
    g.EmitInv [] (fun a => (g.deps a).length)
      ((g.nodes.filter fun a => decide ((g.deps a).length = 0)).insertionSort (· ≤ ·)) where
  nodup := by
    rw [List.nil_append]
    exact (List.perm_insertionSort _ _).nodup_iff.2 (g.nodes_nodup.filter _)
  count := by
    intro a _
    simp [waiting]
  known := by
    intro a ha
    rw [List.nil_append, (List.perm_insertionSort _ _).mem_iff, List.mem_filter,
      decide_eq_true_eq] at ha
    exact ha
  first := by
    intro pre a post hsplit
    simp at hsplit

theorem topologicalOrder_eq_some (h : g.topologicalOrder = some order) :
    order.Nodup ∧ g.DependenciesFirst order ∧ ∀ a ∈ order, a ∈ g.nodes := by
  unfold topologicalOrder at h
  simp only at h
  split at h
  · cases h
    exact initial_emitInv.emit
  · cases h

theorem topologicalOrder_nodup (h : g.topologicalOrder = some order) : order.Nodup :=
  (topologicalOrder_eq_some h).1

theorem topologicalOrder_dependencies_first (h : g.topologicalOrder = some order) :
    g.DependenciesFirst order :=
  (topologicalOrder_eq_some h).2.1

theorem mem_topologicalOrder (h : g.topologicalOrder = some order) (ha : a ∈ g.nodes) :
    a ∈ order := by
  obtain ⟨hnodup, -, hnodes⟩ := topologicalOrder_eq_some h
  have hlength : g.nodes.length ≤ order.length := by
    unfold topologicalOrder at h
    simp only at h
    split at h
    · next hlength =>
        cases h
        exact hlength.ge
    · cases h
  exact ((hnodup.subperm hnodes).perm_of_length_le hlength).mem_iff.2 ha

end DependencyGraph
end PhloTransform.Library
