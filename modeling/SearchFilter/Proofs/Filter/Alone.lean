import SearchFilter.Proofs.Filter.Leaves

/-!
# Leaves on their own

The filter with one leaf and nothing else: the fields of the leaf's attribute, one below the other,
with the leaf's test at the end. Main statement: the leaf is the only one, and no node is barren.
-/

namespace SearchFilter

namespace Test

/-- The node of a test of a field. -/
def node (t : Test) (field : String) : FilterNode :=
  match t with
  | equal value => .equality field value
  | compare op condition => .range field op condition

/-- The node of a test at the end of a path. -/
def nodeAt (t : Test) (field : String) : (keys : List String) → FilterNode
  | [] => t.node field
  | key :: keys => .path field [t.nodeAt key keys]

theorem leaves_node (t : Test) (field : String) (base : List String) :
    FilterNode.leaves base (t.node field) = [⟨.under base field, t⟩] := by
  cases t <;> rfl

theorem leaves_nodeAt (t : Test) (column : String) (base : List String) (field : String)
    (keys : List String) :
    FilterNode.leaves (column :: base) (t.nodeAt field keys) =
      [⟨⟨column, base ++ field :: keys⟩, t⟩] := by
  induction keys generalizing base field with
  | nil => exact t.leaves_node field (column :: base)
  | cons key keys ih =>
    rw [nodeAt, FilterNode.leaves, FilterNode.leavesAll, FilterNode.leavesAll, List.append_nil,
      List.cons_append, ih, List.append_assoc]
    rfl

theorem not_isBarren_of_mem_nodeAt (t : Test) (field : String) (keys : List String) :
    ∀ m ∈ FilterNode.reach true (t.nodeAt field keys), ¬ m.IsBarren := by
  induction keys generalizing field with
  | nil => cases t <;> simp [nodeAt, node, FilterNode.reach, FilterNode.IsBarren]
  | cons key keys ih =>
    intro m hm
    rcases FilterNode.mem_reach_path.mp hm with rfl | ⟨n, hn, hm⟩
    · exact List.cons_ne_nil _ _
    · rw [List.mem_singleton] at hn
      rw [hn] at hm
      exact ih key m hm

end Test

namespace Leaf

/-- The filter with the leaf and nothing else. -/
def alone (l : Leaf) : Filter where
  nodes := [l.test.nodeAt l.left.column l.left.keys]
  nonempty := List.cons_ne_nil _ _

theorem leaves_alone (l : Leaf) : l.alone.leaves = [l] := by
  obtain ⟨⟨column, keys⟩, t⟩ := l
  rw [Filter.leaves, alone, FilterNode.leavesAll, FilterNode.leavesAll, List.append_nil]
  cases keys with
  | nil => exact t.leaves_node column []
  | cons key keys =>
    rw [Test.nodeAt, FilterNode.leaves, FilterNode.leavesAll, FilterNode.leavesAll,
      List.append_nil]
    exact t.leaves_nodeAt column [] key keys

theorem not_isBarren_of_mem_alone (l : Leaf) : ∀ n ∈ l.alone.everywhere, ¬ n.IsBarren := by
  intro n hn
  obtain ⟨m, hm, hn⟩ := List.mem_flatMap.mp hn
  rw [alone, List.mem_singleton] at hm
  rw [hm] at hn
  exact l.test.not_isBarren_of_mem_nodeAt _ _ n hn

end Leaf

end SearchFilter
