import Mathlib.Data.List.Chain
import PhloTransform.Library.Topological

/-!
# Depth-first search for a cycle

The search colours every node: white before it is visited, grey while its
dependencies are searched, black afterwards.  The grey nodes are the stack, in
the order of the path that leads to the current node, so a grey dependency closes
a cycle.  A black node has only black dependencies, hence no infinite descent
starts there.

Main results:

- Theorem `DependencyGraph.search_spec`: fuel for the number of nodes is enough,
  and the search ends with a cycle or with every node black.
- Theorem `DependencyGraph.search_eq_of_le`: more fuel does not change the result.
-/

namespace PhloTransform.Library

inductive Color where
  | white
  | grey
  | black
deriving Repr, DecidableEq

/-- The colours of the nodes and the path to the node being visited. -/
structure Visiting (Node : Type*) where
  colors : Node → Color
  stack : List Node

/-- How a visit ends. -/
inductive Search (Node : Type*) where
  | cycle (path : List Node)
  | done (visiting : Visiting Node)
  | outOfFuel

namespace DependencyGraph

variable {Node : Type*} [DecidableEq Node]
variable {s : Visiting Node} {fuel : Nat}
variable {node root : Node} {below roots path : List Node} {ended : Search Node}

/-- Colour a node grey and push it on the stack. -/
def enter (s : Visiting Node) (node : Node) : Visiting Node where
  colors := Function.update s.colors node .grey
  stack := s.stack ++ [node]

/-- Pop a node from the stack and colour it black. -/
def leave (s : Visiting Node) (node : Node) : Visiting Node where
  colors := Function.update s.colors node .black
  stack := s.stack.dropLast

/-- Look at dependencies one by one: a grey one closes a cycle, a white one is
visited, a black one is passed over. -/
def visitDependencies (visit : Node → Visiting Node → Search Node) :
    List Node → Visiting Node → Search Node
  | [], s => .done s
  | d :: rest, s =>
    match s.colors d with
    | .grey => .cycle (s.stack.drop (s.stack.idxOf d) ++ [d])
    | .white =>
      match visit d s with
      | .done s' => visitDependencies visit rest s'
      | ended => ended
    | .black => visitDependencies visit rest s

variable (g : DependencyGraph Node)

def visit : Nat → Node → Visiting Node → Search Node
  | 0, _, _ => .outOfFuel
  | fuel + 1, node, s =>
    match visitDependencies (visit fuel) (g.deps node) (enter s node) with
    | .done s' => .done (leave s' node)
    | ended => ended

/-- Visit every node of a list that is still white. -/
def visitWhite (fuel : Nat) : List Node → Visiting Node → Search Node
  | [], s => .done s
  | node :: rest, s =>
    if s.colors node = .white then
      match g.visit fuel node s with
      | .done s' => visitWhite fuel rest s'
      | ended => ended
    else visitWhite fuel rest s

def search (fuel : Nat) : Search Node :=
  g.visitWhite fuel g.nodes ⟨fun _ => .white, []⟩

/-- A concrete cycle path, if the graph has one. -/
def cycle : Option (List Node) :=
  match g.search g.nodes.length with
  | .cycle path => some path
  | .done _ => none
  | .outOfFuel => none

/-- A path along dependency edges that ends where it starts and visits no other
node twice. -/
structure IsCycle (path : List Node) : Prop where
  length : 2 ≤ path.length
  closes : path.head? = path.getLast?
  edges : path.IsChain g.Edge
  distinct : path.dropLast.Nodup

/-! ## The invariant of the search -/

/-- What the search maintains. -/
structure VisitInv (s : Visiting Node) : Prop where
  grey_iff : ∀ a, s.colors a = .grey ↔ a ∈ s.stack
  nodup : s.stack.Nodup
  chain : s.stack.IsChain g.Edge
  black : ∀ a, s.colors a = .black → Acc (fun b a => g.Edge a b) a
  known : ∀ a ∈ s.stack, a ∈ g.nodes

/-- The number of nodes that have not been visited. -/
def whites (s : Visiting Node) : Nat :=
  g.nodes.countP fun a => decide (s.colors a = .white)

/-- What a visit of some roots leaves behind. -/
def Visited (roots : List Node) (s : Visiting Node) : Search Node → Prop
  | .cycle path => g.IsCycle path
  | .done s' => g.VisitInv s' ∧ s'.stack = s.stack ∧
      (∀ a, s.colors a = .black → s'.colors a = .black) ∧
      ∀ a ∈ roots, s'.colors a = .black
  | .outOfFuel => False

variable {g}

omit [DecidableEq Node] in
theorem whites_le {s' : Visiting Node} (h : g.VisitInv s) (h' : g.VisitInv s')
    (hstack : s'.stack = s.stack) (hblack : ∀ a, s.colors a = .black → s'.colors a = .black) :
    g.whites s' ≤ g.whites s := by
  refine List.countP_mono_left fun a _ hwhite => ?_
  rw [decide_eq_true_eq] at hwhite ⊢
  cases hcolor : s.colors a with
  | white => rfl
  | grey =>
    have hgrey : s'.colors a = .grey := by
      rw [h'.grey_iff, hstack, ← h.grey_iff]
      exact hcolor
    rw [hgrey] at hwhite
    cases hwhite
  | black =>
    rw [hblack a hcolor] at hwhite
    cases hwhite

theorem whites_enter_lt (hnode : node ∈ g.nodes) (hwhite : s.colors node = .white) :
    g.whites (enter s node) < g.whites s := by
  have herase : ∀ nodes : List Node, node ∈ nodes →
      (nodes.countP fun a => decide ((enter s node).colors a = .white)) <
        nodes.countP fun a => decide (s.colors a = .white) := by
    intro nodes hmem
    induction nodes with
    | nil => cases hmem
    | cons a nodes ih =>
      have hle : (nodes.countP fun b => decide ((enter s node).colors b = .white)) ≤
          nodes.countP fun b => decide (s.colors b = .white) := by
        refine List.countP_mono_left fun b _ hb => ?_
        by_cases hbn : b = node
        · subst hbn
          simpa using hwhite
        · simpa [enter, hbn] using hb
      rw [List.countP_cons, List.countP_cons]
      by_cases han : a = node
      · subst han
        simp only [enter, Function.update_self, hwhite] at hle ⊢
        simpa using Nat.lt_succ_of_le hle
      · have hrest := ih ((List.mem_cons.1 hmem).resolve_left (Ne.symm han))
        have hsame : (enter s node).colors a = s.colors a := by simp [enter, han]
        rw [hsame]
        omega
  exact herase g.nodes hnode

theorem VisitInv.enter {s : Visiting Node} {node : Node} (h : g.VisitInv s)
    (hnode : node ∈ g.nodes) (hwhite : s.colors node = .white)
    (hedge : ∀ last ∈ s.stack.getLast?, g.Edge last node) : g.VisitInv (enter s node) where
  grey_iff := by
    intro a
    simp only [DependencyGraph.enter, List.mem_append, List.mem_singleton]
    by_cases ha : a = node
    · simp [ha]
    · simp [ha, h.grey_iff]
  nodup := by
    have hnot : node ∉ s.stack := by
      rw [← h.grey_iff, hwhite]
      exact Color.noConfusion
    have hfresh : ∀ a ∈ s.stack, a ≠ node := fun a ha hn => hnot (hn ▸ ha)
    exact List.nodup_append.2 ⟨h.nodup, by simp, by simpa using hfresh⟩
  chain := by
    refine List.isChain_append.2 ⟨h.chain, by simp, fun last hlast b hb => ?_⟩
    obtain rfl : node = b := by simpa using hb
    exact hedge last hlast
  black := by
    intro a ha
    by_cases han : a = node
    · simp [DependencyGraph.enter, han] at ha
    · exact h.black a (by simpa [DependencyGraph.enter, han] using ha)
  known := by
    intro a ha
    rcases List.mem_append.1 ha with hold | hnew
    · exact h.known a hold
    · rw [List.mem_singleton.1 hnew]
      exact hnode

/-- A node whose dependencies are all black can be coloured black. -/
theorem VisitInv.leave {s s' : Visiting Node} {node : Node} (h' : g.VisitInv s')
    (hstack : s'.stack = s.stack ++ [node])
    (hdeps : ∀ d ∈ g.deps node, s'.colors d = .black) :
    g.VisitInv (leave s' node) ∧ (leave s' node).stack = s.stack := by
  have hpop : (DependencyGraph.leave s' node).stack = s.stack := by
    simp [DependencyGraph.leave, hstack]
  have hnodup : node ∉ s.stack := by
    have hnd := h'.nodup
    rw [hstack] at hnd
    exact fun hmem => (List.nodup_append.1 hnd).2.2 node hmem node (by simp) rfl
  refine ⟨⟨?_, ?_, ?_, ?_, ?_⟩, hpop⟩
  · intro a
    rw [hpop]
    by_cases ha : a = node
    · subst ha
      simp [DependencyGraph.leave, hnodup]
    · have hgrey := h'.grey_iff a
      rw [hstack, List.mem_append, List.mem_singleton] at hgrey
      simp [DependencyGraph.leave, ha, hgrey]
  · rw [hpop]
    have hnd := h'.nodup
    rw [hstack] at hnd
    exact (List.nodup_append.1 hnd).1
  · rw [hpop]
    have hchain := h'.chain
    rw [hstack] at hchain
    exact (List.isChain_append.1 hchain).1
  · intro a ha
    by_cases han : a = node
    · subst han
      exact ⟨_, fun d hd => h'.black d (hdeps d hd.2.2)⟩
    · exact h'.black a (by simpa [DependencyGraph.leave, han] using ha)
  · rw [hpop]
    exact fun a ha => h'.known a (by simp [hstack, ha])

/-- A grey dependency of the current node closes a cycle along the stack. -/
theorem VisitInv.isCycle {d : Node} (h : g.VisitInv s) (hstack : s.stack = below ++ [node])
    (hd : g.Edge node d) (hgrey : s.colors d = .grey) :
    g.IsCycle (s.stack.drop (s.stack.idxOf d) ++ [d]) := by
  have hmem : d ∈ s.stack := (h.grey_iff d).1 hgrey
  have hidx : s.stack.idxOf d < s.stack.length := List.idxOf_lt_length_iff.2 hmem
  have hhead : (s.stack.drop (s.stack.idxOf d)).head? = some d := by
    rw [List.head?_drop, List.getElem?_eq_getElem hidx, List.getElem_idxOf hidx]
  have hlast : (s.stack.drop (s.stack.idxOf d)).getLast? = some node := by
    rw [List.getLast?_drop, if_neg (by omega), hstack]
    simp
  refine ⟨?_, ?_, ?_, ?_⟩
  · rw [List.length_append, List.length_drop, List.length_singleton]
    omega
  · rw [List.head?_append, hhead]
    simp
  · refine List.isChain_append.2 ⟨h.chain.drop _, by simp, fun last hl b hb => ?_⟩
    rw [hlast] at hl
    obtain rfl : node = last := by simpa using hl
    obtain rfl : d = b := by simpa using hb
    exact hd
  · rw [List.dropLast_concat]
    exact h.nodup.sublist (List.drop_sublist _ _)

/-! ## What a visit leaves behind -/

omit [DecidableEq Node] in
theorem Visited.cons_of_black (h : g.Visited roots s ended) (hroot : s.colors root = .black) :
    g.Visited (root :: roots) s ended := by
  cases ended with
  | cycle path => exact h
  | outOfFuel => exact h
  | done s' =>
    obtain ⟨hinv, hstack, hblack, hall⟩ := h
    exact ⟨hinv, hstack, hblack, List.forall_mem_cons.2 ⟨hblack root hroot, hall⟩⟩

omit [DecidableEq Node] in
/-- Visit one root, then the others from where that visit ended. -/
theorem Visited.cons {s₁ : Visiting Node} (hroot : g.Visited [root] s (.done s₁))
    (h : g.Visited roots s₁ ended) : g.Visited (root :: roots) s ended := by
  obtain ⟨_, hstack₁, hblack₁, hroot₁⟩ := hroot
  cases ended with
  | cycle path => exact h
  | outOfFuel => exact h
  | done s' =>
    obtain ⟨hinv, hstack, hblack, hall⟩ := h
    refine ⟨hinv, hstack.trans hstack₁, fun a ha => hblack a (hblack₁ a ha), ?_⟩
    exact List.forall_mem_cons.2 ⟨hblack root (hroot₁ root List.mem_cons_self), hall⟩

/-- The specification of visiting one node, on graphs with at most `fuel` white
nodes left. -/
def VisitSpec (g : DependencyGraph Node) (fuel : Nat)
    (visit : Node → Visiting Node → Search Node) : Prop :=
  ∀ node s, g.VisitInv s → node ∈ g.nodes → s.colors node = .white →
    (∀ last ∈ s.stack.getLast?, g.Edge last node) → g.whites s ≤ fuel →
    g.Visited [node] s (visit node s)

theorem visitDependencies_spec {visit : Node → Visiting Node → Search Node}
    (hvisit : g.VisitSpec fuel visit) (ds : List Node) (hds : ∀ d ∈ ds, g.Edge node d)
    (s : Visiting Node) (h : g.VisitInv s) (hstack : s.stack = below ++ [node])
    (hfuel : g.whites s ≤ fuel) : g.Visited ds s (visitDependencies visit ds s) := by
  induction ds generalizing s with
  | nil => exact ⟨h, rfl, fun _ ha => ha, by simp⟩
  | cons d ds ih =>
    have hd : g.Edge node d := hds d List.mem_cons_self
    have hrest : ∀ e ∈ ds, g.Edge node e := fun e he => hds e (List.mem_cons_of_mem _ he)
    unfold visitDependencies
    cases hcolor : s.colors d with
    | grey => exact h.isCycle hstack hd hcolor
    | black => exact (ih hrest s h hstack hfuel).cons_of_black hcolor
    | white =>
      have hone := hvisit d s h hd.2.1 hcolor (by simpa [hstack] using hd) hfuel
      simp only
      cases hv : visit d s with
      | outOfFuel => simp [hv, Visited] at hone
      | cycle path => simpa [hv, Visited] using hone
      | done s₁ =>
        rw [hv] at hone
        obtain ⟨hinv₁, hsame₁, hblack₁, -⟩ := id hone
        exact hone.cons (ih hrest s₁ hinv₁ (hsame₁.trans hstack)
          ((whites_le h hinv₁ hsame₁ hblack₁).trans hfuel))

theorem visit_spec (hclosed : g.Closed) (fuel : Nat) : g.VisitSpec fuel (g.visit fuel) := by
  induction fuel with
  | zero =>
    intro node s _ hnode hwhite _ hfuel
    have hlt := whites_enter_lt hnode hwhite
    omega
  | succ fuel ih =>
    intro node s h hnode hwhite hedge hfuel
    have hlt := whites_enter_lt hnode hwhite
    have hdeps : ∀ d ∈ g.deps node, g.Edge node d :=
      fun d hd => ⟨hnode, hclosed node hnode d hd, hd⟩
    have hvisited := visitDependencies_spec ih (g.deps node) hdeps
      (DependencyGraph.enter s node) (h.enter hnode hwhite hedge) rfl (by omega)
    unfold visit
    cases hr : visitDependencies (g.visit fuel) (g.deps node)
        (DependencyGraph.enter s node) with
    | outOfFuel => simp [hr, Visited] at hvisited
    | cycle path => simpa [hr, Visited] using hvisited
    | done s' =>
      rw [hr] at hvisited
      obtain ⟨hinv, hsame, hblack, hall⟩ := hvisited
      obtain ⟨hleave, hpop⟩ := hinv.leave hsame hall
      refine ⟨hleave, hpop, ?_, by simp [leave]⟩
      intro a ha
      have hne : a ≠ node := by
        rintro rfl
        rw [hwhite] at ha
        cases ha
      simpa [leave, hne] using hblack a (by simpa [DependencyGraph.enter, hne] using ha)

theorem visitWhite_spec (hclosed : g.Closed) (nodes : List Node) (hnodes : ∀ a ∈ nodes, a ∈ g.nodes)
    (s : Visiting Node) (h : g.VisitInv s) (hstack : s.stack = []) (hfuel : g.whites s ≤ fuel) :
    g.Visited nodes s (g.visitWhite fuel nodes s) := by
  induction nodes generalizing s with
  | nil => exact ⟨h, rfl, fun _ ha => ha, by simp⟩
  | cons node nodes ih =>
    have hrest : ∀ a ∈ nodes, a ∈ g.nodes := fun a ha => hnodes a (List.mem_cons_of_mem _ ha)
    unfold visitWhite
    by_cases hwhite : s.colors node = .white
    · have hone := visit_spec hclosed fuel node s h (hnodes node List.mem_cons_self) hwhite
        (by simp [hstack]) hfuel
      rw [if_pos hwhite]
      cases hv : g.visit fuel node s with
      | outOfFuel => simp [hv, Visited] at hone
      | cycle path => simpa [hv, Visited] using hone
      | done s₁ =>
        rw [hv] at hone
        obtain ⟨hinv₁, hsame₁, hblack₁, -⟩ := id hone
        exact hone.cons (ih hrest s₁ hinv₁ (hsame₁.trans hstack)
          ((whites_le h hinv₁ hsame₁ hblack₁).trans hfuel))
    · -- No node is grey between two visits, so this one is black.
      have hblackNode : s.colors node = .black := by
        cases hcolor : s.colors node with
        | white => exact absurd hcolor hwhite
        | grey => simpa [hstack] using (h.grey_iff node).1 hcolor
        | black => rfl
      rw [if_neg hwhite]
      exact (ih hrest s h hstack hfuel).cons_of_black hblackNode

/-! ## More fuel -/

theorem visitDependencies_congr {visit visit' : Node → Visiting Node → Search Node}
    (hvisit : ∀ d s, visit d s ≠ .outOfFuel → visit' d s = visit d s) (ds : List Node)
    (s : Visiting Node) (h : visitDependencies visit ds s ≠ .outOfFuel) :
    visitDependencies visit' ds s = visitDependencies visit ds s := by
  induction ds generalizing s with
  | nil => rfl
  | cons d ds ih =>
    unfold visitDependencies at h ⊢
    cases hcolor : s.colors d with
    | grey => rfl
    | black =>
      simp only [hcolor] at h ⊢
      exact ih s h
    | white =>
      simp only [hcolor] at h ⊢
      have hone : visit d s ≠ .outOfFuel := by
        intro hstarved
        simp [hstarved] at h
      rw [hvisit d s hone]
      cases hv : visit d s with
      | outOfFuel => exact absurd hv hone
      | cycle path => rfl
      | done s₁ => exact ih s₁ (by simpa [hv] using h)

theorem visit_eq_of_le {fuel' : Nat} (hle : fuel ≤ fuel') (node : Node) (s : Visiting Node)
    (h : g.visit fuel node s ≠ .outOfFuel) : g.visit fuel' node s = g.visit fuel node s := by
  induction fuel generalizing fuel' node s with
  | zero => exact absurd rfl h
  | succ fuel ih =>
    obtain ⟨fuel', rfl⟩ : ∃ k, fuel' = k + 1 := ⟨fuel' - 1, by omega⟩
    unfold visit at h ⊢
    rw [visitDependencies_congr (fun d t ht => ih (by omega) d t ht)]
    intro hstarved
    simp [hstarved] at h

theorem visitWhite_eq_of_le {fuel' : Nat} (hle : fuel ≤ fuel') (nodes : List Node)
    (s : Visiting Node) (h : g.visitWhite fuel nodes s ≠ .outOfFuel) :
    g.visitWhite fuel' nodes s = g.visitWhite fuel nodes s := by
  induction nodes generalizing s with
  | nil => rfl
  | cons node nodes ih =>
    unfold visitWhite at h ⊢
    by_cases hwhite : s.colors node = .white
    · rw [if_pos hwhite] at h
      rw [if_pos hwhite, if_pos hwhite]
      have hone : g.visit fuel node s ≠ .outOfFuel := by
        intro hstarved
        simp [hstarved] at h
      rw [visit_eq_of_le hle node s hone]
      cases hv : g.visit fuel node s with
      | outOfFuel => exact absurd hv hone
      | cycle path => rfl
      | done s₁ => exact ih s₁ (by simpa [hv] using h)
    · rw [if_neg hwhite] at h
      rw [if_neg hwhite, if_neg hwhite]
      exact ih s h

/-! ## The whole search -/

omit [DecidableEq Node] in
theorem not_transGen_of_acc {a : Node} (h : Acc (fun b a => g.Edge a b) a) :
    ¬ Relation.TransGen g.Edge a a := by
  intro hcycle
  induction h with
  | intro a _ ih =>
    obtain ⟨b, hedge, hback⟩ := Relation.TransGen.head'_iff.1 hcycle
    exact ih b hedge (Relation.TransGen.tail' hback hedge)

/-- The search ends with a cycle or with every node black. -/
theorem search_spec (hclosed : g.Closed) (hfuel : g.nodes.length ≤ fuel) :
    g.Visited g.nodes ⟨fun _ => .white, []⟩ (g.search fuel) := by
  have hinv : g.VisitInv ⟨fun _ => .white, []⟩ :=
    ⟨by simp, List.nodup_nil, List.isChain_nil, by simp, by simp⟩
  exact visitWhite_spec hclosed g.nodes (fun _ ha => ha) _ hinv rfl
    (List.countP_le_length.trans hfuel)

theorem search_eq_of_le (hclosed : g.Closed) (hfuel : g.nodes.length ≤ fuel) :
    g.search fuel = g.search g.nodes.length := by
  refine visitWhite_eq_of_le hfuel g.nodes _ fun hstarved => ?_
  have hspec := search_spec hclosed (le_refl g.nodes.length)
  rw [search, hstarved] at hspec
  exact hspec

omit [DecidableEq Node] in
theorem IsCycle.not_acyclic (h : g.IsCycle path) : ¬ g.Acyclic := by
  obtain ⟨hlength, hcloses, hedges, -⟩ := h
  match path, hlength, hcloses, hedges with
  | a :: b :: rest, _, hcloses, hedges =>
    rw [List.isChain_cons_cons] at hedges
    have hlast : (b :: rest).getLast (List.cons_ne_nil _ _) = a := by
      have hsome := hcloses
      rw [List.getLast?_cons_cons,
        List.getLast?_eq_some_getLast (List.cons_ne_nil b rest)] at hsome
      exact (Option.some.inj hsome).symm
    have hreach : Relation.ReflTransGen g.Edge b a :=
      List.relationReflTransGen_of_exists_isChain_cons rest hedges.2 hlast
    exact fun hacyclic => hacyclic a (Relation.TransGen.head' hedges.1 hreach)

theorem isCycle_of_cycle (hclosed : g.Closed) (h : g.cycle = some path) : g.IsCycle path := by
  have hspec := search_spec hclosed (le_refl g.nodes.length)
  unfold cycle at h
  cases hr : g.search g.nodes.length with
  | outOfFuel => simp [hr] at h
  | done s => simp [hr] at h
  | cycle found =>
    rw [hr] at h hspec
    cases h
    exact hspec

theorem cycle_eq_none_iff (hclosed : g.Closed) : g.cycle = none ↔ g.Acyclic := by
  have hspec := search_spec hclosed (le_refl g.nodes.length)
  unfold cycle
  cases hr : g.search g.nodes.length with
  | outOfFuel => simp [hr, Visited] at hspec
  | cycle path =>
    rw [hr] at hspec
    simpa using IsCycle.not_acyclic hspec
  | done s =>
    rw [hr] at hspec
    obtain ⟨hinv, -, -, hall⟩ := hspec
    refine iff_of_true rfl fun a hcycle => ?_
    -- A black node starts no infinite descent, so it is on no cycle.
    have hnode : a ∈ g.nodes := by
      obtain ⟨b, hedge, -⟩ := Relation.TransGen.head'_iff.1 hcycle
      exact hedge.1
    exact not_transGen_of_acc (hinv.black a (hall a hnode)) hcycle

end DependencyGraph
end PhloTransform.Library
