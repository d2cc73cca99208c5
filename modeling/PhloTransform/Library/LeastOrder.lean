import PhloTransform.Library.Topological

/-!
# Kahn's algorithm finds the least order

Whenever every dependency of a node is itself a node, the ready queue of Kahn's
algorithm holds exactly the nodes that wait for nothing, in increasing order.  On
an acyclic graph it can therefore not run dry before every node is out, and what
it emits next is the least node that any order could continue with.

Main results:

- Theorem `DependencyGraph.topologicalOrder_isSome_iff`: there is an order exactly
  when the graph is acyclic.
- Theorem `DependencyGraph.topologicalOrder_perm`: the order lists every node once.
-/

namespace PhloTransform.Library.DependencyGraph

variable {Node : Type*}
variable {order ready : List Node} {remaining : Node → Nat}
variable {a b : Node}

/-- The lexicographic order of lists, equality included. -/
def LexLE [LT Node] (xs ys : List Node) : Prop :=
  List.Lex (· < ·) xs ys ∨ xs = ys

theorem LexLE.nil [LT Node] (ys : List Node) : LexLE [] ys := by
  cases ys with
  | nil => exact Or.inr rfl
  | cons y ys => exact Or.inl List.Lex.nil

theorem LexLE.cons [LT Node] {xs ys : List Node} (a : Node) (h : LexLE xs ys) :
    LexLE (a :: xs) (a :: ys) := by
  rcases h with hlt | rfl
  · exact Or.inl (List.Lex.cons hlt)
  · exact Or.inr rfl

theorem acyclic_of_dependenciesFirst {g : DependencyGraph Node} (hnodup : order.Nodup)
    (hall : ∀ a ∈ g.nodes, a ∈ order) (hfirst : g.DependenciesFirst order) : g.Acyclic := by
  classical
  refine acyclic_of_rank (fun a => order.idxOf a) fun a b hedge => ?_
  obtain ⟨pre, post, hsplit⟩ := List.append_of_mem (hall a hedge.1)
  have hb : b ∈ pre := hfirst pre a post hsplit b hedge.2.2
  have ha : a ∉ pre := by
    rw [hsplit] at hnodup
    intro hmem
    exact (List.nodup_append.1 hnodup).2.2 a hmem a List.mem_cons_self rfl
  have hrank : order.idxOf a = pre.length := by
    rw [hsplit, List.idxOf_append_of_notMem ha]
    simp
  have hrank' : order.idxOf b = pre.idxOf b := by
    rw [hsplit, List.idxOf_append_of_mem hb]
  rw [hrank, hrank']
  exact List.idxOf_lt_length_iff.2 hb

theorem DependenciesFirst.mem_of_transGen {g : DependencyGraph Node}
    (hfirst : g.DependenciesFirst order) (h : Relation.TransGen g.Edge a b) :
    ∀ pre post, order = pre ++ a :: post → b ∈ pre := by
  induction h using Relation.TransGen.head_induction_on with
  | single hedge => exact fun pre post hsplit => hfirst pre _ post hsplit _ hedge.2.2
  | @head a c hedge _ ih =>
    intro pre post hsplit
    have hmem : c ∈ pre := hfirst pre a post hsplit c hedge.2.2
    obtain ⟨pre', post', hpre⟩ := List.append_of_mem hmem
    have hsplit' : order = pre' ++ c :: (post' ++ a :: post) := by
      rw [hsplit, hpre, List.append_assoc, List.cons_append]
    rw [hpre]
    exact List.mem_append_left _ (ih pre' _ hsplit')

variable [LinearOrder Node]

/-! ## The ready queue -/

theorem pairwise_insertReady (h : ready.Pairwise (· ≤ ·)) :
    (insertReady a ready).Pairwise (· ≤ ·) := by
  unfold insertReady
  split
  · exact h
  · exact h.orderedInsert a ready

theorem pairwise_foldl_releaseOne (children : List Node) (acc : (Node → Nat) × List Node)
    (h : acc.2.Pairwise (· ≤ ·)) : (children.foldl releaseOne acc).2.Pairwise (· ≤ ·) := by
  induction children generalizing acc with
  | nil => exact h
  | cons child children ih =>
    refine ih _ ?_
    unfold releaseOne
    simp only
    split
    · exact pairwise_insertReady h
    · exact h

/-- What the loop maintains about the queue: it is ordered, and nothing that could
be emitted is missing from it. -/
structure ReadyInv (g : DependencyGraph Node) (order : List Node)
    (remaining : Node → Nat) (ready : List Node) : Prop extends
    g.EmitInv order remaining ready where
  sorted : ready.Pairwise (· ≤ ·)
  complete : ∀ a ∈ g.nodes, remaining a = 0 → a ∈ order ++ ready

variable {g : DependencyGraph Node}

theorem ReadyInv.step {order ready : List Node} {remaining : Node → Nat} {a : Node}
    (h : g.ReadyInv order remaining (a :: ready)) :
    g.ReadyInv (order ++ [a])
      ((g.dependents a).foldl releaseOne (remaining, ready)).1
      ((g.dependents a).foldl releaseOne (remaining, ready)).2 where
  toEmitInv := h.toEmitInv.step
  sorted := pairwise_foldl_releaseOne _ _ (List.pairwise_cons.1 h.sorted).2
  complete := by
    obtain ⟨hcount, hready, -⟩ :=
      foldl_releaseOne (g.nodes_nodup.filter fun child => decide (a ∈ g.deps child))
        remaining ready
    intro b hb hzero
    rw [List.mem_append]
    by_cases hdep : b ∈ g.dependents a
    · refine Or.inr ((hready b).2 (Or.inr ⟨hdep, ?_⟩))
      have hafter := hcount b
      rw [if_pos (show b ∈ g.nodes.filter _ from hdep)] at hafter
      exact hafter ▸ hzero
    · have hafter := hcount b
      rw [if_neg (show b ∉ g.nodes.filter _ from hdep)] at hafter
      have hmem := h.complete b hb (hafter ▸ hzero)
      rw [List.mem_append, List.mem_cons] at hmem
      rcases hmem with hold | rfl | hrest
      · exact Or.inl (List.mem_append_left _ hold)
      · exact Or.inl (List.mem_append_right _ (List.mem_singleton_self _))
      · exact Or.inr ((hready b).2 (Or.inl hrest))

theorem initial_readyInv (g : DependencyGraph Node) :
    g.ReadyInv [] (fun a => (g.deps a).length)
      ((g.nodes.filter fun a => decide ((g.deps a).length = 0)).insertionSort (· ≤ ·)) where
  toEmitInv := initial_emitInv
  sorted := List.pairwise_insertionSort _ _
  complete := by
    intro a ha hzero
    rw [List.nil_append, List.mem_insertionSort, List.mem_filter]
    exact ⟨ha, by simpa using hzero⟩

theorem ReadyInv.mem_of_deps (h : g.ReadyInv order remaining ready) (ha : a ∈ g.nodes)
    (hdeps : ∀ d ∈ g.deps a, d ∈ order) : a ∈ order ++ ready := by
  refine h.complete a ha ?_
  rw [h.count a ha, waiting, List.length_eq_zero_iff, List.filter_eq_nil_iff]
  intro d hd
  simpa using hdeps d hd

/-! ## Every node is emitted -/

theorem ReadyInv.mem_order_of_nil (h : g.ReadyInv order remaining []) (hclosed : g.Closed)
    (hacyclic : g.Acyclic) : ∀ a ∈ g.nodes, a ∈ order := by
  intro a
  induction a using (wellFounded_of_acyclic hacyclic).induction with
  | _ a ih =>
    intro ha
    have hmem := h.mem_of_deps ha fun d hd =>
      ih d ⟨ha, hclosed a ha d hd, hd⟩ (hclosed a ha d hd)
    rwa [List.append_nil] at hmem

theorem ReadyInv.length_emit (fuel : Nat) (h : g.ReadyInv order remaining ready)
    (hclosed : g.Closed) (hacyclic : g.Acyclic) (hfuel : g.nodes.length ≤ order.length + fuel) :
    (g.emit fuel order remaining ready).length = g.nodes.length := by
  have hbound : order.length ≤ g.nodes.length :=
    (List.nodup_append.1 h.nodup).1.length_le_of_subset fun a ha =>
      (h.known a (List.mem_append_left _ ha)).1
  induction fuel generalizing order remaining ready with
  | zero => exact le_antisymm hbound hfuel
  | succ fuel ih =>
    cases ready with
    | nil =>
      have hall := h.mem_order_of_nil hclosed hacyclic
      exact le_antisymm hbound (g.nodes_nodup.length_le_of_subset hall)
    | cons a ready =>
      refine ih h.step ?_ ?_
      · rw [List.length_append, List.length_singleton]
        omega
      · exact (List.nodup_append.1 h.step.nodup).1.length_le_of_subset fun b hb =>
          (h.step.known b (List.mem_append_left _ hb)).1

theorem topologicalOrder_isSome_iff (hclosed : g.Closed) :
    g.topologicalOrder.isSome ↔ g.Acyclic := by
  constructor
  · intro hsome
    obtain ⟨order, horder⟩ := Option.isSome_iff_exists.1 hsome
    obtain ⟨hnodup, hfirst, -⟩ := topologicalOrder_eq_some horder
    exact acyclic_of_dependenciesFirst hnodup (fun a ha => mem_topologicalOrder horder ha)
      hfirst
  · intro hacyclic
    have hlength := (initial_readyInv g).length_emit g.nodes.length hclosed
      hacyclic (by simp)
    unfold topologicalOrder
    rw [if_pos hlength]
    exact Option.isSome_some

theorem topologicalOrder_perm (h : g.topologicalOrder = some order) : order.Perm g.nodes := by
  obtain ⟨hnodup, -, hnodes⟩ := topologicalOrder_eq_some h
  refine (List.perm_ext_iff_of_nodup hnodup g.nodes_nodup).2 fun a => ?_
  exact ⟨hnodes a, mem_topologicalOrder h⟩

/-! ## The loop ends -/

/-- What the loop emits within a number of rounds. -/
def emitted (g : DependencyGraph Node) (fuel : Nat) : List Node :=
  g.emit fuel [] (fun a => (g.deps a).length)
    ((g.nodes.filter fun a => decide ((g.deps a).length = 0)).insertionSort (· ≤ ·))

theorem EmitInv.emit_eq_of_le {fuel fuel' : Nat} (h : g.EmitInv order remaining ready)
    (hle : fuel ≤ fuel') (hfuel : g.nodes.length ≤ order.length + fuel) :
    g.emit fuel' order remaining ready = g.emit fuel order remaining ready := by
  induction fuel generalizing fuel' order remaining ready with
  | zero =>
    have hbound : (order ++ ready).length ≤ g.nodes.length :=
      h.nodup.length_le_of_subset fun a ha => (h.known a ha).1
    rw [List.length_append] at hbound
    have hready : ready = [] := List.length_eq_zero_iff.1 (by omega)
    subst hready
    cases fuel' <;> rfl
  | succ fuel ih =>
    obtain ⟨fuel', rfl⟩ : ∃ k, fuel' = k + 1 := ⟨fuel' - 1, by omega⟩
    cases ready with
    | nil => rfl
    | cons a ready =>
      refine ih h.step (by omega) ?_
      rw [List.length_append, List.length_singleton]
      omega

/-- After a round for every node the queue is empty, so more rounds emit nothing. -/
theorem emitted_eq_of_le {fuel : Nat} (hfuel : g.nodes.length ≤ fuel) :
    g.emitted fuel = g.emitted g.nodes.length :=
  initial_emitInv.emit_eq_of_le hfuel (by simp)

/-! ## No order is smaller -/

/-- Any order that continues like the emitted one so far continues with a node of
the queue. -/
theorem ReadyInv.head_mem {rest : List Node} (h : g.ReadyInv order remaining ready)
    (hperm : (order ++ b :: rest).Perm g.nodes) (hfirst : g.DependenciesFirst (order ++ b :: rest))
    : b ∈ ready := by
  have hb : b ∈ g.nodes := hperm.mem_iff.1 (by simp)
  have hmem := h.mem_of_deps hb fun d hd => hfirst order b rest rfl d hd
  rcases List.mem_append.1 hmem with hout | hready
  · have hnodup := hperm.nodup_iff.2 g.nodes_nodup
    exact absurd rfl ((List.nodup_append.1 hnodup).2.2 b hout b List.mem_cons_self)
  · exact hready

theorem emit_eq_append (fuel : Nat) (order : List Node) (remaining : Node → Nat)
    (ready : List Node) : ∃ tail, g.emit fuel order remaining ready = order ++ tail := by
  induction fuel generalizing order remaining ready with
  | zero => exact ⟨[], by simp [emit]⟩
  | succ fuel ih =>
    cases ready with
    | nil => exact ⟨[], by simp [emit]⟩
    | cons a ready =>
      obtain ⟨tail, htail⟩ := ih (order ++ [a])
        ((g.dependents a).foldl releaseOne (remaining, ready)).1
        ((g.dependents a).foldl releaseOne (remaining, ready)).2
      exact ⟨a :: tail, by simpa [emit] using htail⟩

/-- What the algorithm still emits is at most what any other order still lists. -/
theorem ReadyInv.emit_le (fuel : Nat) (rest : List Node) (h : g.ReadyInv order remaining ready)
    (hperm : (order ++ rest).Perm g.nodes) (hfirst : g.DependenciesFirst (order ++ rest)) :
    ∃ tail, g.emit fuel order remaining ready = order ++ tail ∧ LexLE tail rest := by
  induction fuel generalizing order remaining ready rest with
  | zero => exact ⟨[], by simp [emit], LexLE.nil _⟩
  | succ fuel ih =>
    cases ready with
    | nil => exact ⟨[], by simp [emit], LexLE.nil _⟩
    | cons a ready =>
      cases rest with
      | nil =>
        -- Every node is out already, so the queue is empty.
        have ha : a ∈ order := by
          rw [List.append_nil] at hperm
          exact hperm.mem_iff.2 (h.known a (by simp)).1
        exact absurd rfl ((List.nodup_append.1 h.nodup).2.2 a ha a List.mem_cons_self)
      | cons b rest =>
        have hb : b ∈ a :: ready := h.head_mem hperm hfirst
        have hle : a ≤ b := by
          rcases List.mem_cons.1 hb with rfl | hrest
          · exact le_rfl
          · exact (List.pairwise_cons.1 h.sorted).1 b hrest
        rcases hle.lt_or_eq with hlt | rfl
        · -- The emitted order is smaller from here on, whatever follows.
          obtain ⟨tail, htail⟩ := emit_eq_append (g := g) fuel (order ++ [a])
            ((g.dependents a).foldl releaseOne (remaining, ready)).1
            ((g.dependents a).foldl releaseOne (remaining, ready)).2
          refine ⟨a :: tail, by simpa [emit] using htail, ?_⟩
          exact Or.inl (List.Lex.rel hlt)
        · obtain ⟨tail, htail, hle⟩ := ih rest h.step
            (by simpa using hperm) (by simpa using hfirst)
          refine ⟨a :: tail, by simpa [emit] using htail, ?_⟩
          exact hle.cons a

/-- The order is the least of those that put dependencies first. -/
theorem topologicalOrder_le {other : List Node} (h : g.topologicalOrder = some order)
    (hperm : other.Perm g.nodes) (hfirst : g.DependenciesFirst other) : LexLE order other := by
  obtain ⟨tail, htail, hle⟩ := (initial_readyInv g).emit_le g.nodes.length other
    (by simpa using hperm) (by simpa using hfirst)
  unfold topologicalOrder at h
  simp only at h
  split at h
  · cases h
    rw [htail, List.nil_append]
    exact hle
  · cases h

end PhloTransform.Library.DependencyGraph
