import Mathlib.Data.Set.Basic
import SearchFilter.Proofs.Predicate.Meaning
import SearchFilter.Proofs.Statement.Selecting

/-!
# The rows of a filter

Rows are told by their ids. The rows of siblings are those that all of them have, or those that any
of them has, as the nearest group above says; where there is none, all must have them. Main
statement: the search of a filter is read as a statement whose condition is true of the rows of the
filter, if its comparisons are true of the rows of the leaves.
-/

namespace SearchFilter

open Sql

namespace Connective

/-- The rows of siblings. -/
def gather : Connective → List (Set Int) → Set Int
  | and, siblings => {id | ∀ rows ∈ siblings, id ∈ rows}
  | or, siblings => {id | ∃ rows ∈ siblings, id ∈ rows}

theorem neutral_eq_yes_iff (c : Connective) (id : Int) : c.neutral = .yes ↔ id ∈ c.gather [] := by
  cases c <;> simp [neutral, gather]

theorem combine_eq_yes_iff {c : Connective} {a b : Truth} {rows : Set Int} {rest : List (Set Int)}
    {id : Int} (ha : a = .yes ↔ id ∈ rows) (hb : b = .yes ↔ id ∈ c.gather rest) :
    c.combine a b = .yes ↔ id ∈ c.gather (rows :: rest) := by
  cases c with
  | and =>
    rw [combine, Truth.and_eq_yes, ha, hb]
    simp [gather]
  | or =>
    rw [combine, Truth.or_eq_yes, ha, hb]
    simp [gather]

end Connective

namespace Sql.Condition

variable {α : Type}

theorem comparisons_ne_nil (c : Condition α) : c.comparisons ≠ [] := by
  induction c with
  | compare c => exact List.cons_ne_nil _ _
  | and a b iha ihb => simp [comparisons, iha]
  | or a b iha ihb => simp [comparisons, iha]

theorem eq_compare_of_comparisons {c : Condition α} {x : Comparison α} (h : c.comparisons = [x]) :
    c = .compare x := by
  have two (a b : Condition α) : a.comparisons ++ b.comparisons ≠ [x] := by
    intro h
    have hl := congrArg List.length h
    have ha := List.length_pos_of_ne_nil a.comparisons_ne_nil
    have hb := List.length_pos_of_ne_nil b.comparisons_ne_nil
    rw [List.length_append, List.length_singleton] at hl
    omega
  cases c with
  | compare y =>
    rw [List.singleton_inj.mp h]
  | and a b => exact absurd h (two a b)
  | or a b => exact absurd h (two a b)

theorem eval_no (c : Condition α) : c.eval (fun _ => .no) = .no := by
  induction c with
  | compare c => rfl
  | and a b iha ihb => rw [eval, iha, ihb]; rfl
  | or a b iha ihb => rw [eval, iha, ihb]; rfl

end Sql.Condition

namespace FilterNode

mutual

/-- The rows of a tree below `base` whose leaves have the rows `ofLeaf`, among siblings combined by
`joint`. -/
def rows (ofLeaf : Leaf → Set Int) (base : List String) (joint : Connective) :
    FilterNode → Set Int
  | .equality field value => ofLeaf ⟨.under base field, .equal value⟩
  | .range field op condition => ofLeaf ⟨.under base field, .compare op condition⟩
  | .path field children => joint.gather (rowsEach ofLeaf (base ++ [field]) joint children)
  | .group c children => c.gather (rowsEach ofLeaf base c children)

def rowsEach (ofLeaf : Leaf → Set Int) (base : List String) (joint : Connective) :
    List FilterNode → List (Set Int)
  | [] => []
  | n :: rest => rows ofLeaf base joint n :: rowsEach ofLeaf base joint rest

end

/-- Whether the values of leaves, numbered from `first`, are `yes` where the row is one of
theirs. -/
def Tells (ofLeaf : Leaf → Set Int) (id : Int) (v : Nat → Truth) (first : Nat)
    (leaves : List Leaf) : Prop :=
  ∀ i (hi : i < leaves.length), v (first + i) = .yes ↔ id ∈ ofLeaf leaves[i]

theorem Tells.append {ofLeaf : Leaf → Set Int} {id : Int} {v : Nat → Truth} {first : Nat}
    {l m : List Leaf} (h : Tells ofLeaf id v first (l ++ m)) :
    Tells ofLeaf id v first l ∧ Tells ofLeaf id v (first + l.length) m := by
  constructor
  · intro i hi
    rw [h i (by rw [List.length_append]; omega), List.getElem_append_left hi]
  · intro i hi
    have := h (l.length + i) (by rw [List.length_append]; omega)
    rw [← Nat.add_assoc] at this
    simpa using this

variable {ofLeaf : Leaf → Set Int} {id : Int} {v : Nat → Truth}

theorem truthAll_eq_yes_iff {ns : List FilterNode} {base : List String} {joint : Connective}
    (hn : ∀ n ∈ ns, ∀ first, Tells ofLeaf id v first (leaves base n) →
      (n.truth v joint first = .yes ↔ id ∈ rows ofLeaf base joint n)) {first : Nat}
    (h : Tells ofLeaf id v first (leavesAll base ns)) :
    truthAll v joint first ns = .yes ↔ id ∈ joint.gather (rowsEach ofLeaf base joint ns) := by
  induction ns generalizing first with
  | nil =>
    rw [truthAll, rowsEach]
    exact joint.neutral_eq_yes_iff id
  | cons n rest ih =>
    rw [leavesAll] at h
    obtain ⟨hfirst, hrest⟩ := h.append
    rw [length_leaves] at hrest
    rw [truthAll, rowsEach]
    exact Connective.combine_eq_yes_iff (hn n List.mem_cons_self first hfirst)
      (ih (fun m hm => hn m (List.mem_cons_of_mem _ hm)) hrest)

/-- The value of a tree is `yes` where the row is one of the tree. -/
theorem truth_eq_yes_iff (n : FilterNode) (base : List String) (joint : Connective) (first : Nat)
    (h : Tells ofLeaf id v first (leaves base n)) :
    n.truth v joint first = .yes ↔ id ∈ rows ofLeaf base joint n := by
  induction n using FilterNode.induction generalizing base joint first with
  | equality field value =>
    rw [truth, rows]
    exact h 0 Nat.one_pos
  | range field op condition =>
    rw [truth, rows]
    exact h 0 Nat.one_pos
  | path field children ih =>
    rw [truth, rows]
    exact truthAll_eq_yes_iff (fun n hn first => ih n hn _ _ first) h
  | group c children ih =>
    rw [truth, rows]
    exact truthAll_eq_yes_iff (fun n hn first => ih n hn _ _ first) h

end FilterNode

namespace Filter

/-- The rows of a filter whose leaves have the rows `ofLeaf`. -/
def rows (ofLeaf : Leaf → Set Int) (f : Filter) : Set Int :=
  Connective.and.gather (FilterNode.rowsEach ofLeaf [] .and f.nodes)

/-- The search of a filter is read as a statement that is true of its rows. -/
theorem exists_statement {e : Entity} {f : Filter} {p : Predicate}
    (hb : ∀ n ∈ f.everywhere, ¬ n.IsBarren)
    (ha : ∀ l ∈ f.leaves, e.allowlist.Allows l.left.column) (hp : f.compile = .ok p) :
    ∃ q c, e.searchQuery .sqlite p = .ok q ∧ Statement.read? q = some ⟨e.table, c⟩ ∧
      c.comparisons = f.leaves.map Leaf.bound ∧
      ∀ (t : Comparison String → Truth) (ofLeaf : Leaf → Set Int) (id : Int),
        (∀ l ∈ f.leaves, t l.bound = .yes ↔ id ∈ ofLeaf l) →
          (c.eval t = .yes ↔ id ∈ f.rows ofLeaf) := by
  have hn : ∀ n ∈ f.nodes, ∃ c, FilterNode.Spells Leaf.bound [] .and n c := by
    intro n hn
    apply FilterNode.exists_spells
    intro m hm
    exact hb m (List.mem_flatMap.mpr ⟨n, hn, hm⟩)
  obtain ⟨c, hj, hc, hv⟩ := FilterNode.exists_joins_siblings f.nonempty hn
  obtain ⟨q, hq, hr⟩ := exists_searchQuery ha hp
  refine ⟨q, c, hq, hr c hj.disjunction, hc, ?_⟩
  intro t ofLeaf id ht
  let v (i : Nat) : Truth := (c.comparisons[i]?.map t).getD .no
  have hval : ∀ i (hi : i < c.comparisons.length), v (0 + i) = t c.comparisons[i] := by
    intro i hi
    simp [v, hi]
  have htells : FilterNode.Tells ofLeaf id v 0 (FilterNode.leavesAll [] f.nodes) := by
    intro i hi
    rw [hval i (by rw [hc, List.length_map]; exact hi)]
    simp only [hc, List.getElem_map]
    exact ht _ (List.getElem_mem hi)
  rw [← Sql.Condition.truth_eq_eval hval, hv]
  exact FilterNode.truthAll_eq_yes_iff
    (fun n _ first => FilterNode.truth_eq_yes_iff n [] .and first) htells

end Filter

end SearchFilter
