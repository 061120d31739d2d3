import SearchFilter.Proofs.Predicate.Compilation
import SearchFilter.Proofs.Predicate.Tails

/-!
# The fragments of predicates

The text of an outline is put together from the columns of its leaves and from a few fragments that
are the same for all filters. Keys and values are none of them.
-/

namespace SearchFilter

/-- The fragments that predicates are made of besides the columns. -/
def Predicate.fixedFragments : List String :=
  ["(", ")", " AND ", " OR ", " -> ?", " ->> ?", " = ?"] ++
    Operator.all.map fun op => " " ++ op.symbol ++ " (?)"

namespace Segment

/-- The fragments of a walk behind its column. -/
def hops : (keys : List String) → List String
  | [] => []
  | _ :: rest => List.replicate rest.length " -> ?" ++ [" ->> ?"]

def fragments : Segment → List String
  | leaf l => l.left.column :: (hops l.left.keys ++ [l.test.comparison])
  | s => [s.text]

theorem join_hops_cons (key : String) (keys : List String) :
    String.join (hops (key :: keys)) = Attribute.tailText keys.length := by
  rw [hops, String.join_append]
  rfl

theorem join_hops (a : Attribute) : a.expr = a.column ++ String.join (hops a.keys) := by
  cases h : a.keys with
  | nil => simp [Attribute.expr, Attribute.exprList, h, hops]
  | cons key keys => rw [Attribute.expr_of_keys h, join_hops_cons]

theorem join_fragments (s : Segment) : String.join s.fragments = s.text := by
  cases s with
  | leaf l => simp [fragments, text, Leaf.text, join_hops, String.append_assoc]
  | _ => simp [fragments]

theorem textAll_eq_join (segments : List Segment) :
    textAll segments = String.join (segments.flatMap fragments) := by
  induction segments with
  | nil => rfl
  | cons s rest ih => simp [join_fragments, ih]

theorem comparison_mem_fixedFragments (t : Test) : t.comparison ∈ Predicate.fixedFragments := by
  cases t with
  | equal value => simp [Test.comparison, Predicate.fixedFragments]
  | compare op condition =>
    apply List.mem_append_right
    exact List.mem_map.mpr ⟨op, op.mem_all, rfl⟩

theorem mem_fixedFragments_of_mem_hops {keys : List String} {t : String} (h : t ∈ hops keys) :
    t ∈ Predicate.fixedFragments := by
  cases keys with
  | nil => cases h
  | cons key keys =>
    rcases List.mem_append.mp h with h | h
    · rw [List.eq_of_mem_replicate h]
      simp [Predicate.fixedFragments]
    · rw [List.mem_singleton.mp h]
      simp [Predicate.fixedFragments]

theorem eq_column_or_mem_fixedFragments {s : Segment} {t : String} (ht : t ∈ s.fragments) :
    (∃ l ∈ s.leaf?, t = l.left.column) ∨ t ∈ Predicate.fixedFragments := by
  cases s with
  | opening =>
    right
    rw [List.mem_singleton.mp ht]
    simp [text, Predicate.fixedFragments]
  | closing =>
    right
    rw [List.mem_singleton.mp ht]
    simp [text, Predicate.fixedFragments]
  | joint c =>
    right
    rw [List.mem_singleton.mp ht]
    cases c <;> simp [text, Connective.symbol, Predicate.fixedFragments]
  | leaf l =>
    rcases List.mem_cons.mp ht with rfl | ht
    · exact .inl ⟨l, rfl, rfl⟩
    · right
      rcases List.mem_append.mp ht with ht | ht
      · exact mem_fixedFragments_of_mem_hops ht
      · rw [List.mem_singleton.mp ht]
        exact comparison_mem_fixedFragments l.test

end Segment

end SearchFilter
