import SearchFilter.Predicate.Compile

/-!
# The leaves of filter trees

The comparisons of a filter are the leaves of its tree. A leaf has the attribute that the path to it
names and a test. A field that no path stands above is the name of a column. Trees are gone through
by one induction principle, in which children come as a list.
-/

namespace SearchFilter

/-- What an attribute is compared with. -/
inductive Test where
  | equal (value : Scalar)
  | compare (operator : Operator) (condition : Condition)

namespace Test

def operator? : Test → Option Operator
  | equal _ => none
  | compare op _ => some op

/-- The right side of a comparison as a predicate writes it. -/
def comparison : Test → String
  | equal _ => " = ?"
  | compare op _ => " " ++ op.symbol ++ " (?)"

/-- What the placeholder of the test stands for. -/
def parameter : Test → Except FilterError Parameter
  | equal value => .ok (.text value.display)
  | compare op condition => op.parameter condition

theorem exists_comparison (t : Test) : ∃ cs, t.comparison.toList = ' ' :: cs := by
  cases t with
  | equal value => exact ⟨['=', ' ', '?'], by simp [comparison]⟩
  | compare op condition => exact ⟨op.symbol.toList ++ " (?)".toList, by simp [comparison]⟩

theorem comparison_congr {s t : Test} (h : s.operator? = t.operator?) :
    s.comparison = t.comparison := by
  cases s <;> cases t <;> simp_all [operator?, comparison]

end Test

/-- A comparison at its place in a filter. -/
structure Leaf where
  left : Attribute
  test : Test

namespace Leaf

def text (l : Leaf) : String := l.left.expr ++ l.test.comparison

/-- What the placeholders of the leaf stand for: the keys from the outermost on, then the value. -/
def parameters (l : Leaf) : Except FilterError (List Parameter) :=
  l.test.parameter.map fun value => l.left.parameters ++ [value]

theorem parameters_eq_ok_iff {l : Leaf} {ps : List Parameter} :
    l.parameters = .ok ps ↔
      ∃ value, l.test.parameter = .ok value ∧ ps = l.left.parameters ++ [value] := by
  unfold parameters
  cases l.test.parameter with
  | ok value => simp [Except.map, eq_comm]
  | error e => simp [Except.map]

/-- What the placeholders of all the leaves stand for. -/
def parametersAll : List Leaf → Except FilterError (List Parameter)
  | [] => .ok []
  | l :: rest => do return (← l.parameters) ++ (← parametersAll rest)

theorem parametersAll_cons_eq_ok_iff {l : Leaf} {rest : List Leaf} {ps : List Parameter} :
    parametersAll (l :: rest) = .ok ps ↔
      ∃ first others, l.parameters = .ok first ∧ parametersAll rest = .ok others ∧
        ps = first ++ others := by
  rw [parametersAll]
  cases l.parameters with
  | error e => simp [bind, Except.bind]
  | ok first =>
    cases parametersAll rest with
    | error e => simp [bind, Except.bind]
    | ok others => simp [bind, Except.bind, pure, Except.pure, eq_comm]

end Leaf

namespace FilterNode

@[elab_as_elim]
theorem induction {motive : FilterNode → Prop}
    (equality : ∀ field value, motive (.equality field value))
    (range : ∀ field op condition, motive (.range field op condition))
    (path : ∀ field children, (∀ n ∈ children, motive n) → motive (.path field children))
    (group : ∀ c children, (∀ n ∈ children, motive n) → motive (.group c children)) :
    ∀ n, motive n := by
  refine @FilterNode.rec motive (fun ns => ∀ n ∈ ns, motive n) equality range path group ?_ ?_
  · simp
  · intro n ns hn hns m hm
    rcases List.mem_cons.mp hm with rfl | hm
    · exact hn
    · exact hns m hm

mutual

/-- The leaves of a node below `base`, in the order of the document. -/
def leaves (base : List String) : FilterNode → List Leaf
  | .equality field value => [⟨.under base field, .equal value⟩]
  | .range field op condition => [⟨.under base field, .compare op condition⟩]
  | .path field children => leavesAll (base ++ [field]) children
  | .group _ children => leavesAll base children

def leavesAll (base : List String) : List FilterNode → List Leaf
  | [] => []
  | n :: rest => leaves base n ++ leavesAll base rest

end

theorem leavesAll_eq_flatMap (base : List String) (ns : List FilterNode) :
    leavesAll base ns = ns.flatMap (leaves base) := by
  induction ns with
  | nil => rfl
  | cons n ns ih => rw [leavesAll, ih, List.flatMap_cons]

theorem leavesAll_append (base : List String) (ns ms : List FilterNode) :
    leavesAll base (ns ++ ms) = leavesAll base ns ++ leavesAll base ms := by
  simp only [leavesAll_eq_flatMap, List.flatMap_append]

theorem leavesAll_path (base : List String) (field : String) (ns : List FilterNode) :
    leavesAll base [.path field ns] = leavesAll (base ++ [field]) ns := by
  rw [leavesAll, leavesAll, leaves, List.append_nil]

theorem leavesAll_group (base : List String) (c : Connective) (ns : List FilterNode) :
    leavesAll base [.group c ns] = leavesAll base ns := by
  rw [leavesAll, leavesAll, leaves, List.append_nil]

/-- The field of a node that is no group. -/
def field? : FilterNode → Option String
  | .equality field _ | .range field _ _ | .path field _ => some field
  | .group _ _ => none

/-- Whether the node is a path or a group without children. -/
def IsBarren : FilterNode → Prop
  | .path _ children | .group _ children => children = []
  | _ => False

mutual

/-- The node and the nodes below it. Those below a path belong to them if paths are entered. -/
def reach (intoPaths : Bool) : FilterNode → List FilterNode
  | .path field children =>
    .path field children :: if intoPaths then reachAll intoPaths children else []
  | .group c children => .group c children :: reachAll intoPaths children
  | n => [n]

def reachAll (intoPaths : Bool) : List FilterNode → List FilterNode
  | [] => []
  | n :: rest => reach intoPaths n ++ reachAll intoPaths rest

end

theorem reachAll_eq_flatMap (intoPaths : Bool) (ns : List FilterNode) :
    reachAll intoPaths ns = ns.flatMap (reach intoPaths) := by
  induction ns with
  | nil => rfl
  | cons n ns ih => rw [reachAll, ih, List.flatMap_cons]

theorem self_mem_reach (intoPaths : Bool) (n : FilterNode) : n ∈ reach intoPaths n := by
  cases n <;> simp [reach]

theorem mem_reach_group {intoPaths : Bool} {c : Connective} {children : List FilterNode}
    {m : FilterNode} : m ∈ reach intoPaths (group c children) ↔
      m = group c children ∨ ∃ n ∈ children, m ∈ reach intoPaths n := by
  rw [reach, reachAll_eq_flatMap, List.mem_cons, List.mem_flatMap]

theorem mem_reach_path {field : String} {children : List FilterNode} {m : FilterNode} :
    m ∈ reach true (path field children) ↔
      m = path field children ∨ ∃ n ∈ children, m ∈ reach true n := by
  rw [reach, if_pos rfl, reachAll_eq_flatMap, List.mem_cons, List.mem_flatMap]

/-- The columns that a node names. -/
def columns (n : FilterNode) : List String := (reach false n).filterMap field?

/-- Below a column all leaves belong to it. -/
theorem column_eq_of_mem_leaves {column : String} {keys : List String} {l : Leaf} {n : FilterNode}
    (hl : l ∈ leaves (column :: keys) n) : l.left.column = column := by
  induction n using FilterNode.induction generalizing keys with
  | equality field value =>
    rw [leaves, List.mem_singleton] at hl
    rw [hl, Attribute.under]
  | range field op condition =>
    rw [leaves, List.mem_singleton] at hl
    rw [hl, Attribute.under]
  | path field children ih =>
    rw [leaves, leavesAll_eq_flatMap, List.mem_flatMap] at hl
    obtain ⟨n, hn, hl⟩ := hl
    exact ih n hn hl
  | group c children ih =>
    rw [leaves, leavesAll_eq_flatMap, List.mem_flatMap] at hl
    obtain ⟨n, hn, hl⟩ := hl
    exact ih n hn hl

theorem column_mem_of_mem_leaves {l : Leaf} {n : FilterNode} (hl : l ∈ leaves [] n) :
    l.left.column ∈ columns n := by
  rw [columns, List.mem_filterMap]
  induction n using FilterNode.induction with
  | equality field value =>
    rw [leaves, List.mem_singleton] at hl
    exact ⟨_, self_mem_reach _ _, by rw [hl]; rfl⟩
  | range field op condition =>
    rw [leaves, List.mem_singleton] at hl
    exact ⟨_, self_mem_reach _ _, by rw [hl]; rfl⟩
  | path field children ih =>
    rw [leaves, leavesAll_eq_flatMap, List.mem_flatMap] at hl
    obtain ⟨n, -, hl⟩ := hl
    have hc : l.left.column = field := column_eq_of_mem_leaves hl
    exact ⟨_, self_mem_reach _ _, by rw [hc]; rfl⟩
  | group c children ih =>
    rw [leaves, leavesAll_eq_flatMap, List.mem_flatMap] at hl
    obtain ⟨n, hn, hl⟩ := hl
    obtain ⟨m, hm, hf⟩ := ih n hn hl
    exact ⟨m, mem_reach_group.mpr (.inr ⟨n, hn, hm⟩), hf⟩

end FilterNode

namespace Filter

variable (f : Filter)

def leaves : List Leaf := FilterNode.leavesAll [] f.nodes

/-- The nodes that no path stands above. -/
def atColumns : List FilterNode := f.nodes.flatMap (FilterNode.reach false)

def everywhere : List FilterNode := f.nodes.flatMap (FilterNode.reach true)

def columns : List String := f.nodes.flatMap FilterNode.columns

theorem column_mem_of_mem_leaves {l : Leaf} (hl : l ∈ f.leaves) : l.left.column ∈ f.columns := by
  rw [leaves, FilterNode.leavesAll_eq_flatMap, List.mem_flatMap] at hl
  obtain ⟨n, hn, hl⟩ := hl
  exact List.mem_flatMap.mpr ⟨n, hn, FilterNode.column_mem_of_mem_leaves hl⟩

end Filter

end SearchFilter
