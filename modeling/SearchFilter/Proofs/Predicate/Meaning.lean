import SearchFilter.Proofs.Predicate.Compilation
import SearchFilter.Proofs.Sql.Grammar
import SearchFilter.Proofs.Sql.Scanning

/-!
# The meaning of predicates

Leaves are numbered from left to right and their values are given by number, so that equal
comparisons may differ. Siblings are combined by the connective of the nearest group above them, or
by `AND` if there is none. Main statement: the text of a predicate is read as a condition with the
leaves of the filter and with the value of the filter, whatever the values of the leaves are.
-/

namespace SearchFilter

open Sql

namespace Sql.Condition

variable {α : Type}

/-- The value of a condition whose comparisons, numbered from `first`, have the values `v`. -/
def truth (v : Nat → Truth) (first : Nat) : Condition α → Truth
  | compare _ => v first
  | and a b => (truth v first a).and (truth v (first + a.comparisons.length) b)
  | or a b => (truth v first a).or (truth v (first + a.comparisons.length) b)

theorem values_append {v : Nat → Truth} {f : Comparison α → Truth} {first : Nat}
    {l m : List (Comparison α)}
    (h : ∀ i (hi : i < (l ++ m).length), v (first + i) = f (l ++ m)[i]) :
    (∀ i (hi : i < l.length), v (first + i) = f l[i]) ∧
      ∀ i (hi : i < m.length), v (first + l.length + i) = f m[i] := by
  constructor
  · intro i hi
    rw [h i (by rw [List.length_append]; omega), List.getElem_append_left hi]
  · intro i hi
    have := h (l.length + i) (by rw [List.length_append]; omega)
    rw [← Nat.add_assoc] at this
    simpa using this

/-- Where the comparisons alone decide, the value by number is the value of the condition. -/
theorem truth_eq_eval {v : Nat → Truth} {f : Comparison α → Truth} {first : Nat} {c : Condition α}
    (h : ∀ i (hi : i < c.comparisons.length), v (first + i) = f c.comparisons[i]) :
    c.truth v first = c.eval f := by
  induction c generalizing first with
  | compare c => exact h 0 Nat.one_pos
  | and a b iha ihb =>
    obtain ⟨ha, hb⟩ := values_append h
    rw [truth, eval, iha ha, ihb hb]
  | or a b iha ihb =>
    obtain ⟨ha, hb⟩ := values_append h
    rw [truth, eval, iha ha, ihb hb]

end Sql.Condition

namespace Connective

variable {α : Type}

def combine : Connective → Truth → Truth → Truth
  | and => .and
  | or => .or

/-- The value of no siblings. -/
def neutral : Connective → Truth
  | and => .yes
  | or => .no

@[simp] theorem combine_neutral (c : Connective) (a : Truth) : c.combine a c.neutral = a := by
  cases c with
  | and => exact a.and_yes
  | or => exact a.or_no

theorem combine_assoc (c : Connective) (x y z : Truth) :
    c.combine (c.combine x y) z = c.combine x (c.combine y z) := by
  cases c with
  | and => exact x.and_assoc y z
  | or => exact x.or_assoc y z

/-- The condition that two conditions are joined to. -/
def condition (c : Connective) (x y : Sql.Condition α) : Sql.Condition α :=
  match c with
  | and => .and x y
  | or => .or x y

@[simp] theorem comparisons_condition (c : Connective) (x y : Sql.Condition α) :
    (c.condition x y).comparisons = x.comparisons ++ y.comparisons := by
  cases c <;> rfl

theorem truth_condition (c : Connective) (x y : Sql.Condition α) (v : Nat → Truth) (first : Nat) :
    (c.condition x y).truth v first =
      c.combine (x.truth v first) (y.truth v (first + x.comparisons.length)) := by
  cases c <;> rfl

/-- Items that factors joined by the connective may spell. -/
def Joins : Connective → List (Item α) → Sql.Condition α → Prop
  | and => Conjunction
  | or => Disjunction

theorem joins_of_factor (c : Connective) {is : List (Item α)} {x : Sql.Condition α}
    (h : Factor is x) : c.Joins is x := by
  cases c with
  | and => exact .factor h
  | or => exact .term (.factor h)

theorem Joins.disjunction {c : Connective} {is : List (Item α)} {x : Sql.Condition α}
    (h : c.Joins is x) : Disjunction is x := by
  cases c with
  | and => exact .term h
  | or => exact h

theorem Joins.append {compare : Leaf → Comparison α} {c : Connective} {is js : List (Item α)}
    {x y : Sql.Condition α} (hx : c.Joins is x) (hy : Factor js y) :
    c.Joins (is ++ (Segment.joint c).itemOf compare :: js) (c.condition x y) := by
  cases c with
  | and => exact .and hx hy
  | or => exact .or hx (.factor hy)

end Connective

namespace FilterNode

theorem length_leaves (base : List String) (n : FilterNode) :
    (leaves base n).length = (leaves [] n).length := by
  have all (base : List String) (ns : List FilterNode)
      (ih : ∀ n ∈ ns, ∀ base, (leaves base n).length = (leaves [] n).length) :
      (leavesAll base ns).length = (ns.map fun n => (leaves [] n).length).sum := by
    rw [leavesAll_eq_flatMap, List.length_flatMap, List.map_congr_left fun n hn => ih n hn base]
  induction n using FilterNode.induction generalizing base with
  | equality field value => rfl
  | range field op condition => rfl
  | path field children ih =>
    rw [leaves, leaves, all _ _ fun n hn base => ih n hn base,
      all _ _ fun n hn base => ih n hn base]
  | group c children ih =>
    rw [leaves, leaves, all _ _ fun n hn base => ih n hn base,
      all _ _ fun n hn base => ih n hn base]

mutual

/-- The value of a tree whose leaves, numbered from `first`, have the values `v`, among siblings
combined by `joint`. -/
def truth (v : Nat → Truth) (joint : Connective) (first : Nat) : FilterNode → Truth
  | .equality _ _ | .range _ _ _ => v first
  | .path _ children => truthAll v joint first children
  | .group c children => truthAll v c first children

def truthAll (v : Nat → Truth) (joint : Connective) (first : Nat) : List FilterNode → Truth
  | [] => joint.neutral
  | n :: rest =>
    joint.combine (truth v joint first n)
      (truthAll v joint (first + (leaves [] n).length) rest)

end

/-- The condition is what the tree below `base` stands for, leaves being read as comparisons of any
kind. -/
structure Spells {α : Type} (compare : Leaf → Comparison α) (base : List String)
    (joint : Connective) (n : FilterNode) (c : Sql.Condition α) : Prop where
  factor : Factor ((outline base joint n).map (Segment.itemOf compare)) c
  comparisons : c.comparisons = (leaves base n).map compare
  truth : ∀ v first, c.truth v first = n.truth v joint first

section Spelling

variable {α : Type} {compare : Leaf → Comparison α} {base : List String} {joint : Connective}
  {ns : List FilterNode}

theorem exists_joins (hn : ∀ n ∈ ns, ∃ c, Spells compare base joint n c) {is : List (Item α)}
    {x : Sql.Condition α} (hx : joint.Joins is x) :
    ∃ c, joint.Joins (is ++ (ns.flatMap fun n => .joint joint :: outline base joint n).map
        (Segment.itemOf compare)) c ∧
      c.comparisons = x.comparisons ++ (leavesAll base ns).map compare ∧
      ∀ v first, c.truth v first =
        joint.combine (x.truth v first) (truthAll v joint (first + x.comparisons.length) ns) := by
  induction ns generalizing is x with
  | nil => exact ⟨x, by simpa using hx, by simp [leavesAll], by simp [truthAll]⟩
  | cons n rest ih =>
    obtain ⟨y, hf, hc, ht⟩ := hn n List.mem_cons_self
    obtain ⟨c, hj, hcs, hts⟩ := ih (fun m hm => hn m (List.mem_cons_of_mem _ hm)) (hx.append hf)
    refine ⟨c, by simpa using hj, ?_, ?_⟩
    · rw [hcs, Connective.comparisons_condition, hc, leavesAll]
      simp
    · intro v first
      have hl : (joint.condition x y).comparisons.length =
          x.comparisons.length + (leaves [] n).length := by
        rw [Connective.comparisons_condition, List.length_append, hc, List.length_map,
          length_leaves]
      rw [hts, Connective.truth_condition, ht, Connective.combine_assoc, hl, truthAll,
        Nat.add_assoc]

/-- Siblings are read as the row of them. -/
theorem exists_joins_siblings (hne : ns ≠ []) (hn : ∀ n ∈ ns, ∃ c, Spells compare base joint n c) :
    ∃ c, joint.Joins ((outlineAll base joint ns).map (Segment.itemOf compare)) c ∧
      c.comparisons = (leavesAll base ns).map compare ∧
      ∀ v first, c.truth v first = truthAll v joint first ns := by
  cases ns with
  | nil => exact absurd rfl hne
  | cons n rest =>
    obtain ⟨x, hf, hc, ht⟩ := hn n List.mem_cons_self
    obtain ⟨c, hj, hcs, hts⟩ := exists_joins (fun m hm => hn m (List.mem_cons_of_mem _ hm))
      (joint.joins_of_factor hf)
    refine ⟨c, ?_, ?_, ?_⟩
    · rw [outlineAll, outlineEach_eq_map, List.map_cons, Segment.join_cons, List.flatMap_map,
        List.map_append]
      exact hj
    · rw [hcs, hc, leavesAll, List.map_append]
    · intro v first
      rw [hts, ht, hc, List.length_map, length_leaves, truthAll]

theorem factor_parenthesized {c : Sql.Condition α}
    (h : joint.Joins ((outlineAll base joint ns).map (Segment.itemOf compare)) c) :
    Factor ((Segment.opening :: outlineAll base joint ns ++ [Segment.closing]).map
      (Segment.itemOf compare)) c := by
  have := Factor.group h.disjunction
  simpa [Segment.itemOf] using this

/-- Every tree without barren nodes spells a condition. -/
theorem exists_spells {n : FilterNode} (hb : ∀ m ∈ reach true n, ¬ m.IsBarren)
    (base : List String) (joint : Connective) : ∃ c, Spells compare base joint n c := by
  induction n using FilterNode.induction generalizing base joint with
  | equality field value => exact ⟨_, .comparison _, rfl, fun v first => rfl⟩
  | range field op condition => exact ⟨_, .comparison _, rfl, fun v first => rfl⟩
  | path field children ih =>
    have hne : children ≠ [] := hb _ (self_mem_reach true _)
    obtain ⟨c, hj, hc, ht⟩ := exists_joins_siblings hne fun n hn =>
      ih n hn (fun m hm => hb m (mem_reach_path.mpr (.inr ⟨n, hn, hm⟩))) (base ++ [field]) joint
    exact ⟨c, factor_parenthesized hj, hc, ht⟩
  | group c children ih =>
    have hne : children ≠ [] := hb _ (self_mem_reach true _)
    obtain ⟨c, hj, hc, ht⟩ := exists_joins_siblings hne fun n hn =>
      ih n hn (fun m hm => hb m (mem_reach_group.mpr (.inr ⟨n, hn, hm⟩))) base c
    exact ⟨c, factor_parenthesized hj, hc, ht⟩

end Spelling

end FilterNode

namespace Filter

variable (f : Filter)

/-- The value of a filter whose leaves, numbered from zero, have the values `v`. -/
def truth (v : Nat → Truth) : Truth := FilterNode.truthAll v .and 0 f.nodes

/-- A predicate is read as a condition with the leaves of its filter and the value of the filter. -/
theorem exists_condition_of_compile {f : Filter} {p : Predicate}
    (hb : ∀ n ∈ f.everywhere, ¬ n.IsBarren) (hc : ∀ column ∈ f.columns, IsColumnName column)
    (hp : f.compile = .ok p) :
    ∃ c, Sql.Condition.ofText? p.text = some c ∧
      c.comparisons = f.leaves.map Leaf.comparison ∧ ∀ v, c.truth v 0 = f.truth v := by
  have hn : ∀ n ∈ f.nodes, ∃ c, FilterNode.Spells Leaf.comparison [] .and n c := by
    intro n hn
    apply FilterNode.exists_spells
    intro m hm
    exact hb m (List.mem_flatMap.mpr ⟨n, hn, hm⟩)
  have hl : ∀ l ∈ Segment.leaves f.outline, IsColumnName l.left.column := by
    intro l hl
    rw [f.leaves_outline] at hl
    exact hc _ (f.column_mem_of_mem_leaves hl)
  obtain ⟨c, hj, hcs, ht⟩ := FilterNode.exists_joins_siblings f.nonempty hn
  refine ⟨c, ?_, hcs, fun v => ht v 0⟩
  rw [(compile_eq_ok_iff.mp hp).1, Segment.ofText?_textAll hl]
  exact readFactor_eq_some_iff.mpr hj.disjunction

/-- A path within a group takes over its connective. -/
theorem exists_condition_of_compile_path_in_group :
    ∃ c, Sql.Condition.ofText?
        "name = ? AND (id > (?) OR (metadata ->> ? = ? OR (metadata -> ? ->> ? IN (?))))" = some c ∧
      c.comparisons =
        [⟨.column "name", .sign .equal, [.value ()]⟩, ⟨.column "id", .sign .greater, [.value ()]⟩,
          ⟨.walk "metadata" [()] true, .sign .equal, [.value ()]⟩,
          ⟨.walk "metadata" [(), ()] true, .isIn, [.value ()]⟩] ∧
      ∀ v, c.truth v 0 = (v 0).and ((v 1).or ((v 2).or (v 3))) := by
  let f : Filter := {
    nodes := [.equality "name" (.text "AND"),
      .group .or [.range "id" .greater (.scalar (.text "?")),
        .path "metadata" [.equality "OR" (.text "("),
          .path "a" [.range "b" .oneOf (.list [])]]]]
    nonempty := List.cons_ne_nil _ _ }
  have hb : ∀ n ∈ f.everywhere, ¬ n.IsBarren := by
    simp [f, everywhere, FilterNode.reach, FilterNode.reachAll, FilterNode.IsBarren]
  have hc : ∀ column ∈ f.columns, IsColumnName column := by decide
  obtain ⟨c, ht, hcs, hv⟩ := exists_condition_of_compile hb hc rfl
  refine ⟨c, ht, hcs, ?_⟩
  intro v
  rw [hv]
  simp [f, truth, FilterNode.truth, FilterNode.truthAll, FilterNode.leaves, Connective.combine,
    Connective.neutral]

end Filter

end SearchFilter
