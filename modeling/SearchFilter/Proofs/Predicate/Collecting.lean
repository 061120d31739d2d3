import SearchFilter.Proofs.Except
import SearchFilter.Proofs.Predicate.Compilation

/-!
# What a compilation leaves behind

Conditions are checked while the parameters are collected, so that a compilation may end between two
leaves. Main statement: it ends at the first leaf whose condition does not fit its operator, with
the parameters of the leaves before it and nothing of that leaf, and it succeeds if there is none.
What was collected before plays no part in it.
-/

namespace SearchFilter

namespace Operator

/-- The conditions that fit an operator: lists of strings fit `in`, literals all the others. -/
def Takes (op : Operator) : Condition → Prop
  | .scalar _ => op ≠ .oneOf
  | .list items => op = .oneOf ∧ ∀ item ∈ items, ∃ s, item = .string s
  | .map _ => False

instance (item : Json) : Decidable (∃ s, item = .string s) :=
  match item with
  | .string s => isTrue ⟨s, rfl⟩
  | .number _ | .array _ | .object _ | .bool _ | .null => isFalse (by simp)

instance (op : Operator) (condition : Condition) : Decidable (op.Takes condition) :=
  match condition with
  | .scalar _ => inferInstanceAs (Decidable (op ≠ .oneOf))
  | .list items =>
    inferInstanceAs (Decidable (op = .oneOf ∧ ∀ item ∈ items, ∃ s, item = .string s))
  | .map _ => inferInstanceAs (Decidable False)

theorem exists_text_iff {item : Json} :
    (∃ s, parameter.text item = .ok s) ↔ ∃ s, item = .string s := by
  cases item <;> simp [parameter.text]

theorem exists_texts_iff {items : List Json} :
    (∃ ss, items.mapM parameter.text = .ok ss) ↔ ∀ item ∈ items, ∃ s, item = .string s := by
  induction items with
  | nil => simp [pure, Except.pure]
  | cons item items ih =>
    simp only [List.mapM_cons, bind_eq_ok_iff, pure_eq_ok_iff, List.forall_mem_cons]
    rw [← ih, ← exists_text_iff]
    constructor
    · rintro ⟨_, s, hs, ss, hss, -⟩
      exact ⟨⟨s, hs⟩, ss, hss⟩
    · rintro ⟨⟨s, hs⟩, ss, hss⟩
      exact ⟨s :: ss, s, hs, ss, hss, rfl⟩

theorem exists_parameter_iff {op : Operator} {condition : Condition} :
    (∃ value, op.parameter condition = .ok value) ↔ op.Takes condition := by
  cases condition with
  | scalar value => cases op <;> simp [parameter, Takes]
  | map members => cases op <;> simp [parameter, Takes]
  | list items =>
    cases op with
    | oneOf =>
      simp only [parameter, Takes, map_eq_ok_iff, true_and]
      rw [← exists_texts_iff]
      constructor
      · rintro ⟨_, ss, hss, -⟩
        exact ⟨ss, hss⟩
      · rintro ⟨ss, hss⟩
        exact ⟨_, ss, hss, rfl⟩
    | _ => simp [parameter, Takes]

end Operator

namespace Test

/-- Literals are compared as they are, conditions have to fit their operator. -/
def Fits : Test → Prop
  | equal _ => True
  | compare op condition => op.Takes condition

instance (t : Test) : Decidable t.Fits :=
  match t with
  | equal _ => inferInstanceAs (Decidable True)
  | compare op condition => inferInstanceAs (Decidable (op.Takes condition))

theorem exists_parameter_iff {t : Test} : (∃ value, t.parameter = .ok value) ↔ t.Fits := by
  cases t with
  | equal value => simp [parameter, Fits]
  | compare op condition => exact Operator.exists_parameter_iff

theorem not_fits_of_error {t : Test} {e : FilterError} (h : t.parameter = .error e) :
    ¬ t.Fits := by
  rw [← exists_parameter_iff, h]
  rintro ⟨value, hv⟩
  cases hv

end Test

namespace Leaf

variable {l : Leaf} {ls rest : List Leaf} {e : FilterError} {kept : List Parameter}

theorem exists_parameters_iff : (∃ ps, l.parameters = .ok ps) ↔ l.test.Fits := by
  rw [← Test.exists_parameter_iff]
  simp only [parameters_eq_ok_iff]
  constructor
  · rintro ⟨_, value, hv, -⟩
    exact ⟨value, hv⟩
  · rintro ⟨value, hv⟩
    exact ⟨_, value, hv, rfl⟩

theorem exists_parametersAll_iff :
    (∃ ps, parametersAll ls = .ok ps) ↔ ∀ l ∈ ls, l.test.Fits := by
  induction ls with
  | nil => simp [parametersAll]
  | cons l ls ih =>
    simp only [parametersAll_cons_eq_ok_iff, List.forall_mem_cons]
    rw [← ih, ← exists_parameters_iff]
    constructor
    · rintro ⟨_, first, others, hf, ho, -⟩
      exact ⟨⟨first, hf⟩, others, ho⟩
    · rintro ⟨⟨first, hf⟩, others, ho⟩
      exact ⟨_, first, others, hf, ho, rfl⟩

/-- Going through leaves stops at one that has no parameters; `kept` belongs to those before it. -/
def StopsAt (ls : List Leaf) (e : FilterError) (kept : List Parameter) : Prop :=
  ∃ before l after, ls = before ++ l :: after ∧ parametersAll before = .ok kept ∧
    l.test.parameter = .error e

theorem not_stopsAt_nil : ¬ StopsAt [] e kept := by
  rintro ⟨before, l, after, h, -⟩
  cases before <;> cases h

theorem stopsAt_cons_iff : StopsAt (l :: rest) e kept ↔
    (l.test.parameter = .error e ∧ kept = []) ∨
      ∃ first others, l.parameters = .ok first ∧ StopsAt rest e others ∧
        kept = first ++ others := by
  constructor
  · rintro ⟨before, m, after, h, hb, he⟩
    cases before with
    | nil =>
      cases h
      cases hb
      exact .inl ⟨he, rfl⟩
    | cons l' before =>
      cases h
      obtain ⟨first, others, hf, ho, rfl⟩ := parametersAll_cons_eq_ok_iff.mp hb
      exact .inr ⟨first, others, hf, ⟨before, m, after, rfl, ho, he⟩, rfl⟩
  · rintro (⟨he, rfl⟩ | ⟨first, others, hf, ⟨before, m, after, rfl, ho, he⟩, rfl⟩)
    · exact ⟨[], l, rest, rfl, rfl, he⟩
    · exact ⟨l :: before, m, after, rfl,
        parametersAll_cons_eq_ok_iff.mpr ⟨first, others, hf, ho, rfl⟩, he⟩

theorem exists_stopsAt (h : ¬ ∀ l ∈ ls, l.test.Fits) : ∃ e kept, StopsAt ls e kept := by
  induction ls with
  | nil => simp at h
  | cons l ls ih =>
    simp only [stopsAt_cons_iff]
    cases hp : l.test.parameter with
    | error e => exact ⟨e, [], .inl ⟨rfl, rfl⟩⟩
    | ok value =>
      have hl : l.test.Fits := Test.exists_parameter_iff.mp ⟨value, hp⟩
      obtain ⟨first, hf⟩ := exists_parameters_iff.mpr hl
      obtain ⟨e, others, hs⟩ := ih fun ha => h (List.forall_mem_cons.mpr ⟨hl, ha⟩)
      exact ⟨e, first ++ others, .inr ⟨first, others, hf, hs, rfl⟩⟩

end Leaf

namespace CollectM

variable {α β : Type} {collected after : Array Parameter} {e : FilterError}

theorem run_bind_eq_error_iff {x : CollectM α} {f : α → CollectM β} :
    (x >>= f).run.run collected = (.error e, after) ↔
      x.run.run collected = (.error e, after) ∨
        ∃ a between, x.run.run collected = (.ok a, between) ∧
          (f a).run.run between = (.error e, after) := by
  simp only [ExceptT.run_bind, StateT.run_bind]
  rcases h : x.run.run collected with ⟨e' | a, between⟩
  · constructor
    · intro h
      cases h
      exact .inl rfl
    · rintro (h | ⟨a, between, h, -⟩)
      · cases h
        rfl
      · cases h
  · constructor
    · intro hf
      exact .inr ⟨a, between, rfl, hf⟩
    · rintro (h | ⟨a, between, h, hf⟩)
      · cases h
      · cases h
        exact hf

theorem run_pure_ne_error {a : α} :
    (pure a : CollectM α).run.run collected ≠ (.error e, after) := by
  intro h
  cases h

end CollectM

theorem Leaf.run_collect_eq_error_iff {l : Leaf} {collected after : Array Parameter}
    {e : FilterError} : l.collect.run.run collected = (.error e, after) ↔
      l.test.parameter = .error e ∧ after = collected := by
  rw [run_collect]
  cases l.test.parameter with
  | ok value =>
    constructor
    · intro h
      cases h
    · rintro ⟨h, -⟩
      cases h
  | error e' =>
    constructor
    · intro h
      cases h
      exact ⟨rfl, rfl⟩
    · rintro ⟨h, rfl⟩
      cases h
      rfl

/-- Writing segments stops at the first leaf without parameters. -/
theorem Segment.run_writeAll_eq_error_iff {segments : List Segment}
    {collected after : Array Parameter} {e : FilterError} :
    (writeAll Leaf.collect segments).run.run collected = (.error e, after) ↔
      ∃ kept, Leaf.StopsAt (leaves segments) e kept ∧ after = collected ++ kept := by
  induction segments generalizing collected after with
  | nil =>
    rw [writeAll, List.mapM_nil, pure_bind]
    constructor
    · intro h
      exact absurd h CollectM.run_pure_ne_error
    · rintro ⟨kept, h, -⟩
      exact absurd h Leaf.not_stopsAt_nil
  | cons s rest ih =>
    simp only [writeAll_cons, CollectM.run_bind_eq_error_iff, ih, CollectM.run_pure_ne_error,
      and_false, exists_false, or_false]
    cases h : s.leaf? with
    | none =>
      rw [write_eq_pure Leaf.collect h, leaves_cons_of_none h]
      simp only [CollectM.run_pure_ne_error, CollectM.run_pure_eq_ok_iff, false_or]
      constructor
      · rintro ⟨_, _, ⟨rfl, rfl⟩, kept, hs, rfl⟩
        exact ⟨kept, hs, rfl⟩
      · rintro ⟨kept, hs, rfl⟩
        exact ⟨_, _, ⟨rfl, rfl⟩, kept, hs, rfl⟩
    | some l =>
      cases s <;> cases h
      simp only [write, leaves_cons_leaf, Leaf.stopsAt_cons_iff, Leaf.run_collect_eq_error_iff,
        Leaf.run_collect_eq_ok_iff]
      constructor
      · rintro (⟨he, rfl⟩ | ⟨_, _, ⟨rfl, first, hf, rfl⟩, others, hs, rfl⟩)
        · exact ⟨[], .inl ⟨he, rfl⟩, by simp⟩
        · exact ⟨_, .inr ⟨first, others, hf, hs, rfl⟩, appendList_appendList _ _ _⟩
      · rintro ⟨_, ⟨he, rfl⟩ | ⟨first, others, hf, hs, rfl⟩, rfl⟩
        · exact .inl ⟨he, by simp⟩
        · exact .inr ⟨_, _, ⟨rfl, first, hf, rfl⟩, others, hs,
            (appendList_appendList _ _ _).symm⟩

namespace FilterNode

theorem run_compileAll_eq_error_iff {base : List String} {joint : Connective}
    {ns : List FilterNode} {collected after : Array Parameter} {e : FilterError} :
    (compileAll base joint ns).run.run collected = (.error e, after) ↔
      ∃ kept, Leaf.StopsAt (leavesAll base ns) e kept ∧ after = collected ++ kept := by
  rw [compileAll_eq_writeAll, Segment.run_writeAll_eq_error_iff, leaves_outlineAll]

/-- Siblings compile if all conditions below them fit. What they collect, and where they stop if one
does not fit, depends on the nodes and their path alone; it comes behind what was there before. -/
theorem run_compileAll_appends (base : List String) (nodes : List FilterNode) :
    (∀ joint collected,
      (∃ text after, (compileAll base joint nodes).run.run collected = (.ok text, after)) ↔
        ∀ l ∈ leavesAll base nodes, l.test.Fits) ∧
    ((∀ l ∈ leavesAll base nodes, l.test.Fits) →
      ∃ ps, Leaf.parametersAll (leavesAll base nodes) = .ok ps ∧
        ∀ joint, ∃ text, ∀ collected,
          (compileAll base joint nodes).run.run collected = (.ok text, collected ++ ps)) ∧
    ((¬ ∀ l ∈ leavesAll base nodes, l.test.Fits) →
      ∃ before left op condition after e kept,
        leavesAll base nodes = before ++ ⟨left, .compare op condition⟩ :: after ∧
        (∀ l ∈ before, l.test.Fits) ∧ ¬ op.Takes condition ∧
        op.parameter condition = .error e ∧ Leaf.parametersAll before = .ok kept ∧
        ∀ joint collected,
          (compileAll base joint nodes).run.run collected = (.error e, collected ++ kept)) := by
  refine ⟨?_, ?_, ?_⟩
  · intro joint collected
    rw [← Leaf.exists_parametersAll_iff]
    constructor
    · rintro ⟨text, after, h⟩
      obtain ⟨-, ps, hp, -⟩ := run_compileAll_eq_ok_iff.mp h
      exact ⟨ps, hp⟩
    · rintro ⟨ps, hp⟩
      exact ⟨_, _, run_compileAll_eq_ok_iff.mpr ⟨rfl, ps, hp, rfl⟩⟩
  · intro h
    obtain ⟨ps, hp⟩ := Leaf.exists_parametersAll_iff.mpr h
    refine ⟨ps, hp, ?_⟩
    intro joint
    refine ⟨Segment.textAll (outlineAll base joint nodes), ?_⟩
    intro collected
    exact run_compileAll_eq_ok_iff.mpr ⟨rfl, ps, hp, rfl⟩
  · intro h
    obtain ⟨e, kept, before, ⟨left, test⟩, after, hl, hb, he⟩ := Leaf.exists_stopsAt h
    have hfits : ∀ l ∈ before, l.test.Fits := Leaf.exists_parametersAll_iff.mp ⟨kept, hb⟩
    cases test with
    | equal value => cases he
    | compare op condition =>
      refine ⟨before, left, op, condition, after, e, kept, hl, hfits,
        Test.not_fits_of_error he, he, hb, ?_⟩
      intro joint collected
      exact run_compileAll_eq_error_iff.mpr ⟨kept, ⟨before, _, after, hl, hb, he⟩, rfl⟩

/-- A list with something other than a string below a path within a group: neither its keys are
collected nor anything of the leaf behind it, which does not fit either. -/
theorem run_compileAll_appends_within_group :
    let nodes : List FilterNode := [.equality "a" (.text "1"),
      .group .and [.range "b" .like (.scalar (.text "x")),
        .path "c" [.range "d" .oneOf (.list [.string "s", .null])]],
      .range "e" .greater (.map [])]
    let kept : List Parameter := [.text "a", .text "1", .text "b", .text "%x%"]
    ∀ joint collected, (compileAll ["m"] joint nodes).run.run collected =
      (.error (.invalid .listItemNotString), collected ++ kept) := by
  intro nodes kept
  have hlist : ¬ Operator.oneOf.Takes (.list [.string "s", .null]) := by
    simp [Operator.Takes]
  have hnot : ¬ ∀ l ∈ leavesAll ["m"] nodes, l.test.Fits := by
    intro h
    have hm : (⟨.under ["m", "c"] "d", .compare .oneOf (.list [.string "s", .null])⟩ : Leaf) ∈
        leavesAll ["m"] nodes := by
      simp [nodes, leavesAll, leaves]
    exact hlist (h _ hm)
  obtain ⟨before, left, op, condition, after, e, ps, hl, hfits, hop, he, hk, hrun⟩ :=
    (run_compileAll_appends ["m"] nodes).2.2 hnot
  simp only [nodes, leavesAll, leaves, List.cons_append,
    List.nil_append, List.append_nil] at hl
  rcases before with _ | ⟨_, _ | ⟨_, _ | ⟨l, before⟩⟩⟩
  · cases hl
  · cases hl
    exact absurd (by simp [Operator.Takes]) hop
  · cases hl
    cases hk
    cases he
    exact hrun
  · simp only [List.cons_append, List.cons.injEq] at hl
    obtain ⟨-, -, rfl, -⟩ := hl
    exact absurd (hfits _ (List.mem_cons_of_mem _ (List.mem_cons_of_mem _ List.mem_cons_self)))
      hlist

end FilterNode

theorem Filter.compile_eq_error_iff {f : Filter} {e : FilterError} :
    f.compile = .error e ↔ ∃ kept, Leaf.StopsAt f.leaves e kept := by
  have hr := @FilterNode.run_compileAll_eq_error_iff [] .and f.nodes #[]
  unfold compile
  constructor
  · intro h
    split at h
    · cases h
    · rename_i e' after ht
      cases h
      obtain ⟨kept, hs, -⟩ := hr.mp ht
      exact ⟨kept, hs⟩
  · rintro ⟨kept, hs⟩
    rw [hr.mpr ⟨kept, hs, rfl⟩]

/-- A filter is compiled if all its conditions fit. -/
theorem Filter.exists_compile_iff {f : Filter} :
    (∃ p, f.compile = .ok p) ↔ ∀ l ∈ f.leaves, l.test.Fits := by
  rw [← Leaf.exists_parametersAll_iff]
  constructor
  · rintro ⟨p, hp⟩
    exact ⟨_, (compile_eq_ok_iff.mp hp).2⟩
  · rintro ⟨ps, hps⟩
    exact ⟨⟨_, ps⟩, compile_eq_ok_iff.mpr ⟨rfl, hps⟩⟩

end SearchFilter
