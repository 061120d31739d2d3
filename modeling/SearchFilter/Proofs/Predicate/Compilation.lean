import SearchFilter.Proofs.Predicate.Outline

/-!
# Compiling by outlines

The compiler is a writer of outlines that collects the parameters of the leaves. Main statement: it
accepts a filter when every leaf has its parameters, and the predicate is then the text of the
outline with these parameters.
-/

namespace SearchFilter

theorem appendList_appendList {α : Type} (a : Array α) (l m : List α) :
    a ++ l ++ m = a ++ (l ++ m) := by
  apply Array.ext'
  simp

namespace CollectM

variable {α β : Type} {collected after : Array Parameter}

theorem run_bind_eq_ok_iff {x : CollectM α} {f : α → CollectM β} {b : β} :
    (x >>= f).run.run collected = (.ok b, after) ↔
      ∃ a between, x.run.run collected = (.ok a, between) ∧
        (f a).run.run between = (.ok b, after) := by
  simp only [ExceptT.run_bind, StateT.run_bind]
  rcases h : x.run.run collected with ⟨e | a, between⟩
  · constructor
    · intro h
      cases h
    · rintro ⟨a, between, h, -⟩
      cases h
  · constructor
    · intro hf
      exact ⟨a, between, rfl, hf⟩
    · rintro ⟨a, between, h, hf⟩
      cases h
      exact hf

theorem run_pure_eq_ok_iff {a b : α} :
    (pure a : CollectM α).run.run collected = (.ok b, after) ↔ b = a ∧ after = collected := by
  constructor
  · intro h
    cases h
    exact ⟨rfl, rfl⟩
  · rintro ⟨rfl, rfl⟩
    rfl

end CollectM

namespace Leaf

/-- Collects the parameters of a leaf and writes it. -/
def collect (l : Leaf) : CollectM String := do
  let value ← l.test.parameter
  l.left.compare l.test.comparison value

theorem run_collect (l : Leaf) (collected : Array Parameter) :
    l.collect.run.run collected =
      match l.test.parameter with
      | .ok value => (.ok l.text, (collected ++ l.left.parameters).push value)
      | .error e => (.error e, collected) := by
  unfold collect
  cases l.test.parameter <;> rfl

theorem run_collect_eq_ok_iff {l : Leaf} {collected after : Array Parameter} {t : String} :
    l.collect.run.run collected = (.ok t, after) ↔
      t = l.text ∧ ∃ ps, l.parameters = .ok ps ∧ after = collected ++ ps := by
  rw [run_collect]
  simp only [parameters_eq_ok_iff]
  cases l.test.parameter with
  | error e =>
    constructor
    · intro h
      cases h
    · rintro ⟨-, ps, ⟨value, h, -⟩, -⟩
      cases h
  | ok value =>
    have ha : (collected ++ l.left.parameters).push value =
        collected ++ (l.left.parameters ++ [value]) := by
      rw [← appendList_appendList, Array.appendList_cons, Array.appendList_nil]
    constructor
    · intro h
      cases h
      exact ⟨rfl, _, ⟨value, rfl, rfl⟩, ha⟩
    · rintro ⟨rfl, ps, ⟨_, h, rfl⟩, rfl⟩
      cases h
      simp only [ha]

end Leaf

theorem Segment.parameters_induction {P : List Segment → List Parameter → Prop} {Q : Leaf → Prop}
    (nil : P [] [])
    (mark : ∀ s rest ps, s.leaf? = none → P rest ps → P (s :: rest) ps)
    (leaf : ∀ l rest first others, Q l → l.parameters = .ok first → P rest others →
      P (.leaf l :: rest) (first ++ others))
    {segments : List Segment} {ps : List Parameter} (h : ∀ l ∈ leaves segments, Q l)
    (hp : Leaf.parametersAll (leaves segments) = .ok ps) : P segments ps := by
  induction segments generalizing ps with
  | nil =>
    cases hp
    exact nil
  | cons s rest ih =>
    cases hs : s.leaf? with
    | none =>
      rw [leaves_cons_of_none hs] at h hp
      exact mark s rest ps hs (ih h hp)
    | some l =>
      cases s <;> cases hs
      rw [leaves_cons_leaf] at h hp
      obtain ⟨first, others, hf, ho, rfl⟩ := Leaf.parametersAll_cons_eq_ok_iff.mp hp
      have hr := ih (fun m hm => h m (List.mem_cons_of_mem _ hm)) ho
      exact leaf l rest first others (h l List.mem_cons_self) hf hr

theorem Segment.run_writeAll_eq_ok_iff {segments : List Segment}
    {collected after : Array Parameter} {t : String} :
    (writeAll Leaf.collect segments).run.run collected = (.ok t, after) ↔
      t = textAll segments ∧
        ∃ ps, Leaf.parametersAll (leaves segments) = .ok ps ∧ after = collected ++ ps := by
  induction segments generalizing collected after t with
  | nil =>
    rw [writeAll, List.mapM_nil, pure_bind, CollectM.run_pure_eq_ok_iff]
    simp [Leaf.parametersAll]
  | cons s rest ih =>
    simp only [writeAll_cons, CollectM.run_bind_eq_ok_iff, ih, CollectM.run_pure_eq_ok_iff,
      textAll_cons]
    cases h : s.leaf? with
    | none =>
      rw [write_eq_pure Leaf.collect h, leaves_cons_of_none h]
      simp only [CollectM.run_pure_eq_ok_iff]
      constructor
      · rintro ⟨_, _, ⟨rfl, rfl⟩, _, _, ⟨rfl, ps, hp, rfl⟩, rfl, rfl⟩
        exact ⟨rfl, ps, hp, rfl⟩
      · rintro ⟨rfl, ps, hp, rfl⟩
        exact ⟨_, _, ⟨rfl, rfl⟩, _, _, ⟨rfl, ps, hp, rfl⟩, rfl, rfl⟩
    | some l =>
      cases s <;> cases h
      simp only [write, leaves_cons_leaf, Leaf.run_collect_eq_ok_iff,
        Leaf.parametersAll_cons_eq_ok_iff]
      constructor
      · rintro ⟨_, _, ⟨rfl, first, hf, rfl⟩, _, _, ⟨rfl, others, ho, rfl⟩, rfl, rfl⟩
        exact ⟨rfl, _, ⟨first, others, hf, ho, rfl⟩, appendList_appendList _ _ _⟩
      · rintro ⟨rfl, _, ⟨first, others, hf, ho, rfl⟩, rfl⟩
        exact ⟨_, _, ⟨rfl, first, hf, rfl⟩, _, _, ⟨rfl, others, ho, rfl⟩, rfl,
          (appendList_appendList _ _ _).symm⟩

namespace FilterNode

mutual

/-- The compiler is the writer that collects the parameters of the leaves. -/
theorem compile_eq_write (base : List String) (joint : Connective) : (n : FilterNode) →
    compile base joint n = write Leaf.collect base joint n
  | .equality field value => by
    rw [compile, write, Leaf.collect]
    rfl
  | .range field op condition => by
    rw [compile, write, Leaf.collect]
    rfl
  | .path field children => by rw [compile, write, compileEach_eq_writeEach]
  | .group c children => by rw [compile, write, compileEach_eq_writeEach]

theorem compileEach_eq_writeEach (base : List String) (joint : Connective) :
    (ns : List FilterNode) → compileEach base joint ns = writeEach Leaf.collect base joint ns
  | [] => by rw [compileEach, writeEach]
  | n :: rest => by
    rw [compileEach, writeEach, compile_eq_write base joint n,
      compileEach_eq_writeEach base joint rest]

end

theorem compileAll_eq_writeAll (base : List String) (joint : Connective) (ns : List FilterNode) :
    compileAll base joint ns = Segment.writeAll Leaf.collect (outlineAll base joint ns) := by
  rw [compileAll, compileEach_eq_writeEach, ← writeAll_eq_writeAll, writeAll]

theorem run_compileAll_eq_ok_iff {base : List String} {joint : Connective}
    {ns : List FilterNode} {collected after : Array Parameter} {t : String} :
    (compileAll base joint ns).run.run collected = (.ok t, after) ↔
      t = Segment.textAll (outlineAll base joint ns) ∧
        ∃ ps, Leaf.parametersAll (leavesAll base ns) = .ok ps ∧ after = collected ++ ps := by
  rw [compileAll_eq_writeAll, Segment.run_writeAll_eq_ok_iff, leaves_outlineAll]

end FilterNode

namespace Filter

variable (f : Filter)

def outline : List Segment := FilterNode.outlineAll [] .and f.nodes

theorem leaves_outline : Segment.leaves f.outline = f.leaves :=
  FilterNode.leaves_outlineAll [] .and f.nodes

variable {f}

/-- The predicate of a filter is the text of its outline with the parameters of its leaves. -/
theorem compile_eq_ok_iff {p : Predicate} :
    f.compile = .ok p ↔
      p.text = Segment.textAll f.outline ∧ Leaf.parametersAll f.leaves = .ok p.parameters := by
  have hr := @FilterNode.run_compileAll_eq_ok_iff [] .and f.nodes #[]
  unfold compile
  constructor
  · intro h
    split at h
    · rename_i t after ht
      cases h
      obtain ⟨rfl, ps, hp, rfl⟩ := hr.mp ht
      exact ⟨rfl, by simpa [leaves] using hp⟩
    · cases h
  · rintro ⟨ht, hp⟩
    rw [hr.mpr ⟨rfl, p.parameters, hp, rfl⟩]
    rw [outline] at ht
    simp [← ht]

end Filter

end SearchFilter
