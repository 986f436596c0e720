import Mathlib.Data.List.Basic
import Mathlib.Tactic.Choose
import ShellLine.Proofs.Tree.Depth
import ShellLine.Proofs.Tree.Walk

/-! # Traversals without a worklist

The worklist of a traversal holds unrelated trees of different levels. What comes of it can be told
without one: a walk comes upon every address of a tree once, in ascending order, and the nesting is
found in whatever order the worklist is worked off. `traversals_recursive` puts this together with
the recursion over the children that both traversals are.
-/

namespace ShellLine.Node

/-! ## Addresses -/

/-- The tree that is reached by an address, a child by its index at each step. -/
def subtreeAt (node : Node) : List Nat → Option Node
  | [] => some node
  | index :: rest => node.children[index]?.bind (·.subtreeAt rest)

/-- All addresses in a tree, in ascending order, with the trees there. -/
structure Enumerates (node : Node) (addresses : List (List Nat)) (visited : List Node) : Prop where
  /-- A tree comes before the ones in it, and a child before the later ones. -/
  ascending : addresses.Pairwise (· < ·)
  complete : ∀ address, address ∈ addresses ↔ (node.subtreeAt address).isSome
  visited : addresses.map node.subtreeAt = visited.map some

theorem fst_mem_of_mem_zipIdx {nodes : List Node} {item : Node × Nat} (member : item ∈ nodes.zipIdx) :
    item.1 ∈ nodes :=
  List.mem_of_getElem? (List.mem_zipIdx_iff_getElem?.mp member)

theorem pairwise_zipIdx (nodes : List Node) (start : Nat) :
    (nodes.zipIdx start).Pairwise fun earlier later => earlier.2 < later.2 := by
  induction nodes generalizing start with
  | nil => exact .nil
  | cons node rest ih =>
    rw [List.zipIdx_cons]
    exact .cons (fun later member => List.le_snd_of_mem_zipIdx member) (ih (start + 1))

/-- Addresses in a child, behind the index of the child. -/
def behind (find : Node → List (List Nat)) (item : Node × Nat) : List (List Nat) :=
  (find item.1).map (item.2 :: ·)

theorem mem_behind {find : Node → List (List Nat)} {nodes : List Node} {index : Nat}
    {rest : List Nat} : index :: rest ∈ nodes.zipIdx.flatMap (behind find) ↔
      ∃ child, nodes[index]? = some child ∧ rest ∈ find child := by
  constructor
  · intro member
    obtain ⟨⟨child, _⟩, place, within⟩ := List.mem_flatMap.mp member
    obtain ⟨_, found, same⟩ := List.mem_map.mp within
    obtain ⟨rfl, rfl⟩ := List.cons_eq_cons.mp same
    exact ⟨child, List.mem_zipIdx_iff_getElem?.mp place, found⟩
  · rintro ⟨child, place, found⟩
    exact List.mem_flatMap.mpr
      ⟨(child, index), List.mem_zipIdx_iff_getElem?.mpr place, List.mem_map_of_mem found⟩

/-- The root and the addresses in the children are those in the tree. -/
theorem Enumerates.of_children {node : Node} {find : Node → List (List Nat)}
    (found : ∀ child ∈ node.children, child.Enumerates (find child) child.walk) :
    node.Enumerates ([] :: node.children.zipIdx.flatMap (behind find)) node.walk where
  ascending := by
    refine .cons (fun address member => ?_) (List.pairwise_flatMap.mpr ⟨fun item member => ?_, ?_⟩)
    · obtain ⟨_, _, within⟩ := List.mem_flatMap.mp member
      obtain ⟨_, _, rfl⟩ := List.mem_map.mp within
      exact List.nil_lt_cons ..
    · have ascending := (found _ (fst_mem_of_mem_zipIdx member)).ascending
      exact List.pairwise_map.mpr
        (ascending.imp fun less => List.cons_lt_cons_iff.mpr (.inr ⟨rfl, less⟩))
    · refine (pairwise_zipIdx node.children 0).imp fun before address member other later => ?_
      obtain ⟨_, _, rfl⟩ := List.mem_map.mp member
      obtain ⟨_, _, rfl⟩ := List.mem_map.mp later
      exact List.cons_lt_cons_iff.mpr (.inl before)
  complete address := by
    cases address with
    | nil => simp [subtreeAt]
    | cons index rest =>
      rw [List.mem_cons, or_iff_right (List.cons_ne_nil index rest), mem_behind, subtreeAt]
      cases place : node.children[index]? with
      | none => simp
      | some child => simpa using (found child (List.mem_of_getElem? place)).complete rest
  visited := by
    have inside : ∀ item ∈ node.children.zipIdx,
        (behind find item).map node.subtreeAt = item.1.walk.map some := by
      intro item member
      have place := List.mem_zipIdx_iff_getElem?.mp member
      rw [← (found _ (fst_mem_of_mem_zipIdx member)).visited, behind, List.map_map]
      exact List.map_congr_left fun rest _ => by simp [subtreeAt, place]
    rw [walk_eq, List.map_cons, List.map_cons, List.map_flatMap, List.flatMap_congr inside,
      List.map_flatMap]
    conv_rhs => rw [← List.zipIdx_map_fst 0 node.children, List.flatMap_map]
    rfl

/-- A walk comes upon every address once. -/
theorem exists_enumerates (node : Node) : ∃ addresses, node.Enumerates addresses node.walk := by
  induction node using Node.induction with
  | step node ih =>
    choose! find found using ih
    exact ⟨_, .of_children found⟩

/-! ## Other orders -/

/-- Working off a worklist of trees, each with the number of subshells around it, in any order: a
tree is taken from anywhere in it, its children are put back, and if it is a subshell, that may be
the deepest one so far. -/
inductive Measures : Nat → List (Node × Nat) → Nat → Prop
  | done (found : Nat) : Measures found [] found
  | visit {found outer result : Nat} {node : Node} {work rest : List (Node × Nat)} :
      work.Perm ((node, outer) :: rest) →
      Measures (if node.isSubshell then max found (outer + 1) else found)
        (node.children.map (fun child => (child, outer + node.ownDepth)) ++ rest) result →
      Measures found work result

/-- The children of a tree are the same from back to front. -/
theorem perm_children (node : Node) (depth : Nat) (rest : List (Node × Nat)) :
    ((node.children.map fun child => (child, depth)).reverse ++ rest).Perm
      (node.children.map (fun child => (child, depth)) ++ rest) :=
  (List.reverse_perm _).append_right rest

theorem Measures.perm {found result : Nat} {work other : List (Node × Nat)}
    (measures : Measures found work result) (perm : work.Perm other) :
    Measures found other result := by
  cases measures with
  | done =>
    obtain rfl := perm.nil_eq
    exact .done found
  | visit first later => exact .visit (perm.symm.trans first) later

/-- Only a subshell can lie deeper than what was found around it. -/
theorem max_ownDepth (node : Node) {found outer : Nat} (shallow : outer ≤ found) :
    (if node.isSubshell then max found (outer + 1) else found) =
      max found (outer + node.ownDepth) := by
  cases node <;> simp [isSubshell, ownDepth, shallow]

theorem shallow_children {node : Node} {found outer : Nat} {rest : List (Node × Nat)}
    (shallow : ∀ item ∈ (node, outer) :: rest, item.2 ≤ found) :
    ∀ item ∈ node.children.map (fun child => (child, outer + node.ownDepth)) ++ rest,
      item.2 ≤ max found (outer + node.ownDepth) := by
  intro item member
  rcases List.mem_append.mp member with inside | other
  · obtain ⟨child, _, rfl⟩ := List.mem_map.mp inside
    exact Nat.le_max_right ..
  · exact Nat.le_trans (shallow item (List.mem_cons_of_mem _ other)) (Nat.le_max_left ..)

theorem Measures.eq_deepest {found result : Nat} {work : List (Node × Nat)}
    (measures : Measures found work result) (shallow : ∀ item ∈ work, item.2 ≤ found) :
    result = deepest found work := by
  induction measures with
  | done found => rw [deepest]
  | @visit found outer result node work rest perm _ ih =>
    have shallow : ∀ item ∈ (node, outer) :: rest, item.2 ≤ found :=
      fun item member => shallow item (perm.mem_iff.mpr member)
    have same := node.max_ownDepth (shallow _ List.mem_cons_self)
    have children := node.perm_children (outer + node.ownDepth) rest
    rw [deepest_perm found perm, deepest, ← same, deepest_perm _ children]
    exact ih (same ▸ shallow_children shallow)

theorem measures_deepest (found : Nat) (work : List (Node × Nat))
    (shallow : ∀ item ∈ work, item.2 ≤ found) : Measures found work (deepest found work) := by
  fun_induction deepest found work with
  | case1 found => exact .done found
  | case2 found node outer rest ih =>
    have same := node.max_ownDepth (shallow _ List.mem_cons_self)
    have children := node.perm_children (outer + node.ownDepth) rest
    refine .visit (.refl _) ?_
    rw [same]
    refine (ih fun item member => ?_).perm children
    exact shallow_children shallow item (children.mem_iff.mp member)

/-- In whatever order the trees are visited, the nesting comes out. -/
theorem measures_iff (node : Node) (result : Nat) :
    Measures 0 [(node, 0)] result ↔ result = node.nestingDepth := by
  have shallow : ∀ item ∈ [(node, 0)], item.2 ≤ 0 := by simp
  constructor
  · exact fun measures => measures.eq_deepest shallow
  · rintro rfl
    exact measures_deepest 0 _ shallow

/-! ## Recursion -/

/-- Both traversals of a tree are recursions over its children: a walk is the root and the walks of
the children, and so comes upon every address once, and the nesting is what the root adds to that of
the deepest child, whatever the order of the visits. -/
theorem traversals_recursive (node : Node) :
    node.walk = node :: node.children.flatMap walk ∧
    (∃ addresses, node.Enumerates addresses node.walk) ∧
    node.nestingDepth = node.ownDepth + (node.children.map nestingDepth).foldr max 0 ∧
    ∀ result, Measures 0 [(node, 0)] result ↔ result = node.nestingDepth := by
  refine ⟨node.walk_eq, node.exists_enumerates, ?_, node.measures_iff⟩
  rw [nestingDepth_eq, deepestOf_eq_foldr, Nat.add_comm]

end ShellLine.Node
