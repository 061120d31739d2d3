import SearchFilter.Proofs.Except
import SearchFilter.Proofs.Predicate.SameShape
import SearchFilter.Proofs.Statement.Supply

/-!
# Indifference of statements

Binding asks of its parameters only how many texts each has: with all texts veiled it comes to the
same statement. Main statement: filters of the same shape have predicates of the same text, and if
their lists are equally long, then statements of the same text with equally many texts bound, of
which only those differ that are bound for another key or value.
-/

namespace SearchFilter

/-- A text of which nothing is left. -/
def veiled (_ : String) : String := ""

/-- The parameter of which nothing is left but the number of its texts. -/
def Parameter.veil (p : Parameter) : Parameter := .list (p.values.map veiled)

@[simp] theorem Parameter.values_veil (p : Parameter) : p.veil.values = p.values.map veiled := rfl

namespace Binding

variable (b : Backend) (columns : Allowlist)

def Progress.veil (p : Progress) : Progress :=
  { p with supply := p.supply.map Parameter.veil, binds := p.binds.map veiled }

theorem render_veil (type : ColumnType) (bound : Nat) (p : Parameter) :
    render b type bound p.veil = render b type bound p := by
  rw [render, render, Parameter.values_veil, List.length_map]

theorem take_veil (type : ColumnType) (p : Progress) :
    p.veil.take b type = (p.take b type).map fun (s, q) => (s, q.veil) := by
  obtain ⟨pending, supply, binds, sql⟩ := p
  cases supply with
  | nil => rfl
  | cons parameter supply =>
    have hb : binds.map veiled ++ parameter.veil.values =
        (binds ++ parameter.values).map veiled := by
      apply Array.ext'
      simp
    simp only [Progress.veil, Progress.take, List.map_cons, render_veil, Except.map,
      Array.size_map, hb]

theorem takeSteps_veil (hops : Nat) (written : String) (p : Progress) :
    p.veil.takeSteps b hops written =
      (p.takeSteps b hops written).map fun (s, q) => (s, q.veil) := by
  induction hops generalizing written p with
  | zero =>
    rw [Progress.takeSteps, Progress.takeSteps, take_veil]
    cases p.take b .text <;> rfl
  | succ hops ih =>
    rw [Progress.takeSteps, Progress.takeSteps, take_veil]
    cases p.take b .text with
    | error e => rfl
    | ok r => exact ih _ r.2

/-- A step takes the same course when all texts are veiled. -/
theorem step_veil (p : Progress) (piece : Piece) :
    step b columns p.veil piece = (step b columns p piece).map Progress.veil := by
  cases piece with
  | placeholder =>
    have hp : p.veil.pending = p.pending := rfl
    rw [step, step, take_veil, hp]
    cases p.take b (p.pending.getD .text) <;> rfl
  | word letters => rfl
  | walk column hops =>
    rw [step, step, takeSteps_veil]
    cases p.takeSteps b hops (String.ofList column) <;> rfl
  | other c => rfl

theorem steps_veil (p : Progress) (pieces : List Piece) :
    pieces.foldlM (step b columns) p.veil =
      (pieces.foldlM (step b columns) p).map Progress.veil := by
  induction pieces generalizing p with
  | nil => rfl
  | cons piece pieces ih =>
    rw [List.foldlM_cons, List.foldlM_cons, step_veil]
    cases step b columns p piece with
    | error e => rfl
    | ok q => exact ih q

end Binding

def Predicate.veil (p : Predicate) : Predicate :=
  { p with parameters := p.parameters.map Parameter.veil }

def BoundQuery.veil (q : BoundQuery) : BoundQuery := { q with binds := q.binds.map veiled }

theorem Predicate.bind_veil (b : Backend) (columns : Allowlist) (p : Predicate) :
    p.veil.bind b columns = (p.bind b columns).map BoundQuery.veil := by
  have hl : p.veil.parameters.length = p.parameters.length := List.length_map _
  have ht : p.veil.placeholderCount = p.placeholderCount := rfl
  rw [Predicate.bind, Predicate.bind, hl, ht]
  by_cases h : p.placeholderCount = p.parameters.length
  · rw [if_neg (not_not_intro h), if_neg (not_not_intro h)]
    have hv : Binding.Progress.veil ⟨none, p.parameters, #[], ""⟩ =
        ⟨none, p.veil.parameters, #[], ""⟩ := by
      simp [Binding.Progress.veil, Predicate.veil]
    have hs := Binding.steps_veil b columns ⟨none, p.parameters, #[], ""⟩ (Piece.ofText p.text)
    rw [hv] at hs
    rw [show p.veil.text = p.text from rfl, hs]
    cases (Piece.ofText p.text).foldlM (Binding.step b columns) ⟨none, p.parameters, #[], ""⟩ with
    | error e => rfl
    | ok done =>
      simp [Except.map, Bind.bind, Except.bind, pure, Except.pure, Binding.Progress.veil,
        BoundQuery.veil]
  · rw [if_pos h, if_pos h]
    rfl

theorem Parameter.veil_congr {p q : Parameter} (h : p.values.length = q.values.length) :
    p.veil = q.veil := by
  have hv : veiled = Function.const String "" := rfl
  rw [veil, veil, hv, List.map_const, List.map_const, h]

/-- What a bound text is made of. -/
inductive Origin where
  | key (name : String)
  | literal (operator? : Option Operator) (value : Scalar)
  | item (value : Json)

/-- The text that is bound. -/
def Origin.text : Origin → String
  | key name => name
  | literal (some .like) value => "%" ++ value.display ++ "%"
  | literal _ value => value.display
  | item (.string s) => s
  | item _ => ""

namespace Test

/-- What the bound texts of a test are made of. -/
def origins : Test → List Origin
  | equal value => [.literal none value]
  | compare op (.scalar value) => [.literal (some op) value]
  | compare _ (.list items) => items.map .item
  | compare _ (.map _) => []

/-- The length of the list that a value is looked for in. -/
def listLength? : Test → Option Nat
  | compare .oneOf (.list items) => some items.length
  | _ => none

theorem texts_of_mapM {items : List Json} {ss : List String}
    (h : items.mapM Operator.parameter.text = .ok ss) :
    ss = items.map fun v => (Origin.item v).text := by
  induction items generalizing ss with
  | nil =>
    cases h
    rfl
  | cons item items ih =>
    rw [List.mapM_cons, bind_eq_ok_iff] at h
    obtain ⟨s, hs, h⟩ := h
    obtain ⟨rest, hr, h⟩ := bind_eq_ok_iff.mp h
    obtain rfl := pure_eq_ok_iff.mp h
    rw [List.map_cons, ih hr]
    cases item <;> cases hs
    rfl

theorem values_of_parameter {t : Test} {p : Parameter} (h : t.parameter = .ok p) :
    p.values = t.origins.map Origin.text := by
  cases t with
  | equal value =>
    cases h
    rfl
  | compare op condition =>
    cases condition with
    | scalar value => cases op <;> cases h <;> rfl
    | list items =>
      cases op with
      | oneOf =>
        obtain ⟨ss, hs, rfl⟩ := map_eq_ok_iff.mp h
        rw [Parameter.values, texts_of_mapM hs, origins, List.map_map]
        rfl
      | _ => cases h
    | map members => cases op <;> cases h

theorem length_values_of_parameter {t : Test} {p : Parameter} (h : t.parameter = .ok p) :
    p.values.length = t.listLength?.getD 1 := by
  rw [values_of_parameter h, List.length_map]
  cases t with
  | equal value => rfl
  | compare op condition =>
    cases condition with
    | scalar value => cases op <;> rfl
    | list items =>
      cases op with
      | oneOf => exact List.length_map _
      | _ => cases h
    | map members => cases op <;> cases h

end Test

namespace Leaf

/-- What the bound texts of a leaf are made of: its keys and what is in its test. -/
def origins (l : Leaf) : List Origin := l.left.keys.map .key ++ l.test.origins

def listLength? (l : Leaf) : Option Nat := l.test.listLength?

theorem values_of_parameters {l : Leaf} {ps : List Parameter} (h : l.parameters = .ok ps) :
    ps.flatMap Parameter.values = l.origins.map Origin.text := by
  obtain ⟨value, hv, rfl⟩ := parameters_eq_ok_iff.mp h
  rw [List.flatMap_append, Attribute.parameters, Parameter.flatMap_values_text,
    List.flatMap_singleton, Test.values_of_parameter hv, origins, List.map_append, List.map_map]
  congr 1
  exact (List.map_id _).symm

theorem values_of_parametersAll {ls : List Leaf} {ps : List Parameter}
    (h : parametersAll ls = .ok ps) :
    ps.flatMap Parameter.values = (ls.flatMap origins).map Origin.text := by
  induction ls generalizing ps with
  | nil =>
    cases h
    rfl
  | cons l rest ih =>
    obtain ⟨first, others, hf, ho, rfl⟩ := parametersAll_cons_eq_ok_iff.mp h
    rw [List.flatMap_append, values_of_parameters hf, ih ho, List.flatMap_cons, List.map_append]

theorem length_eq_of_alike {ls ms : List Leaf} (h : List.Forall₂ Alike ls ms)
    {ps qs : List Parameter} (hp : parametersAll ls = .ok ps) (hq : parametersAll ms = .ok qs) :
    ps.length = qs.length := by
  induction h generalizing ps qs with
  | nil =>
    cases hp
    cases hq
    rfl
  | cons hl _ ih =>
    obtain ⟨first, others, hf, ho, rfl⟩ := parametersAll_cons_eq_ok_iff.mp hp
    obtain ⟨first', others', hf', ho', rfl⟩ := parametersAll_cons_eq_ok_iff.mp hq
    rw [List.length_append, List.length_append, length_parameters hf, length_parameters hf',
      hl.hops, ih ho ho']

/-- Alike leaves with lists of the same length have the same parameters once they are veiled. -/
theorem Alike.veil_eq {l m : Leaf} (h : l.Alike m) (hl : l.listLength? = m.listLength?)
    {ps qs : List Parameter} (hp : l.parameters = .ok ps) (hq : m.parameters = .ok qs) :
    ps.map Parameter.veil = qs.map Parameter.veil := by
  obtain ⟨v, hv, rfl⟩ := parameters_eq_ok_iff.mp hp
  obtain ⟨w, hw, rfl⟩ := parameters_eq_ok_iff.mp hq
  have hk (keys : List String) : (keys.map Parameter.text).map Parameter.veil =
      List.replicate keys.length (Parameter.text "").veil := by
    have hc : Parameter.veil ∘ Parameter.text =
        Function.const String (Parameter.text "").veil := rfl
    rw [List.map_map, hc, List.map_const]
  have hvw : v.veil = w.veil := by
    apply Parameter.veil_congr
    rw [Test.length_values_of_parameter hv, Test.length_values_of_parameter hw]
    exact congrArg (Option.getD · 1) hl
  rw [List.map_append, List.map_append, Attribute.parameters, Attribute.parameters, hk, hk, h.hops,
    List.map_singleton, List.map_singleton, hvw]

theorem veil_eq_of_alike {ls ms : List Leaf} (h : List.Forall₂ Alike ls ms)
    (hn : ls.map listLength? = ms.map listLength?) {ps qs : List Parameter}
    (hp : parametersAll ls = .ok ps) (hq : parametersAll ms = .ok qs) :
    ps.map Parameter.veil = qs.map Parameter.veil := by
  induction h generalizing ps qs with
  | nil =>
    cases hp
    cases hq
    rfl
  | cons hl _ ih =>
    obtain ⟨first, others, hf, ho, rfl⟩ := parametersAll_cons_eq_ok_iff.mp hp
    obtain ⟨first', others', hf', ho', rfl⟩ := parametersAll_cons_eq_ok_iff.mp hq
    rw [List.map_cons, List.map_cons, List.cons.injEq] at hn
    rw [List.map_append, List.map_append, hl.veil_eq hn.1 hf hf', ih hn.2 ho ho']

end Leaf

namespace Entity

variable {e : Entity} {b : Backend} {p q : Predicate}

theorem binds_of_searchQuery {r : BoundQuery} (h : e.searchQuery b p = .ok r) :
    r.binds = p.parameters.flatMap Parameter.values := by
  obtain ⟨bound, hb, rfl⟩ := map_eq_ok_iff.mp h
  have := Predicate.binds_of_bind_eq_ok hb
  exact this

theorem searchQuery_veil (h : p.veil = q.veil) :
    (e.searchQuery b p).map BoundQuery.veil = (e.searchQuery b q).map BoundQuery.veil := by
  have hv (p : Predicate) : (e.searchQuery b p).map BoundQuery.veil =
      (p.veil.bind b e.allowlist).map fun bound => ⟨e.selectIds bound.sql, bound.binds⟩ := by
    rw [searchQuery, Predicate.bind_veil]
    cases p.bind b e.allowlist <;> rfl
  rw [hv, hv, h]

theorem map_sql_searchQuery (h : p.veil = q.veil) :
    (e.searchQuery b p).map BoundQuery.sql = (e.searchQuery b q).map BoundQuery.sql := by
  have hs (p : Predicate) : (e.searchQuery b p).map BoundQuery.sql =
      ((e.searchQuery b p).map BoundQuery.veil).map BoundQuery.sql := by
    cases e.searchQuery b p <;> rfl
  rw [hs p, hs q, searchQuery_veil h]

end Entity

/-- Whether two predicates with the given leaves have the same text and equally many parameters and,
if their lists are equally long, every search by them the same statement: the texts bound are those
of the keys and values in the leaves, so that they differ only where these do. -/
structure Predicate.Indistinct (ls ms : List Leaf) (p q : Predicate) : Prop where
  text : p.text = q.text
  count : p.parameters.length = q.parameters.length
  sql : ls.map Leaf.listLength? = ms.map Leaf.listLength? → ∀ (e : Entity) (b : Backend),
    (e.searchQuery b p).map BoundQuery.sql = (e.searchQuery b q).map BoundQuery.sql
  binds : ls.map Leaf.listLength? = ms.map Leaf.listLength? →
    ∀ (e : Entity) (b : Backend) (r s : BoundQuery),
      e.searchQuery b p = .ok r → e.searchQuery b q = .ok s →
        r.binds = (ls.flatMap Leaf.origins).map Origin.text ∧
        s.binds = (ms.flatMap Leaf.origins).map Origin.text ∧
        r.binds.length = s.binds.length ∧
        ∀ i : Nat, (ls.flatMap Leaf.origins)[i]? = (ms.flatMap Leaf.origins)[i]? →
          r.binds[i]? = s.binds[i]?

theorem Segment.indistinct_of_alike {a b : List Segment} (h : List.Forall₂ Alike a b)
    {ps qs : List Parameter} (hp : Leaf.parametersAll (leaves a) = .ok ps)
    (hq : Leaf.parametersAll (leaves b) = .ok qs) :
    Predicate.Indistinct (leaves a) (leaves b) ⟨textAll a, ps⟩ ⟨textAll b, qs⟩ := by
  have hveil (hl : (leaves a).map Leaf.listLength? = (leaves b).map Leaf.listLength?) :
      Predicate.veil ⟨textAll a, ps⟩ = Predicate.veil ⟨textAll b, qs⟩ := by
    simp only [Predicate.veil, textAll_eq_of_alike h,
      Leaf.veil_eq_of_alike (leaves_alike h) hl hp hq]
  refine ⟨textAll_eq_of_alike h, Leaf.length_eq_of_alike (leaves_alike h) hp hq, ?_, ?_⟩
  · intro hl e backend
    exact Entity.map_sql_searchQuery (hveil hl)
  · intro hl e backend r s hr hs
    have hrb : r.binds = ((leaves a).flatMap Leaf.origins).map Origin.text := by
      rw [Entity.binds_of_searchQuery hr, Leaf.values_of_parametersAll hp]
    have hsb : s.binds = ((leaves b).flatMap Leaf.origins).map Origin.text := by
      rw [Entity.binds_of_searchQuery hs, Leaf.values_of_parametersAll hq]
    refine ⟨hrb, hsb, ?_, ?_⟩
    · have hv := Entity.searchQuery_veil (e := e) (b := backend) (hveil hl)
      rw [hr, hs] at hv
      have : r.binds.map veiled = s.binds.map veiled := congrArg BoundQuery.binds (Except.ok.inj hv)
      simpa using congrArg List.length this
    · intro i hi
      rw [hrb, hsb, List.getElem?_map, List.getElem?_map, hi]

namespace Filter

/-- Literals, conditions and keys do not show in predicates and statements, neither of whole filters
nor of nodes below a path, of which only the first field may show. -/
theorem indistinct_of_sameShape :
    (∀ (f g : Filter) (p q : Predicate), FilterNode.SameShapes .columns f.nodes g.nodes →
      f.compile = .ok p → g.compile = .ok q → p.Indistinct f.leaves g.leaves q) ∧
    ∀ (base base' : List String) (joint : Connective) (ns ms : List FilterNode),
      SameBase base base' → FilterNode.SameShapes (Scope.ofBase base) ns ms →
      ∀ (collected collected' after after' : Array Parameter) (t u : String),
        (FilterNode.compileAll base joint ns).run.run collected = (.ok t, after) →
        (FilterNode.compileAll base' joint ms).run.run collected' = (.ok u, after') →
        ∃ ps qs : List Parameter, after = collected ++ ps ∧ after' = collected' ++ qs ∧
          Predicate.Indistinct (FilterNode.leavesAll base ns) (FilterNode.leavesAll base' ms)
            ⟨t, ps⟩ ⟨u, qs⟩ := by
  have key (base base' : List String) (joint : Connective) {ns ms : List FilterNode}
      (hb : SameBase base base') (hs : FilterNode.SameShapes (Scope.ofBase base) ns ms)
      {ps qs : List Parameter} (hp : Leaf.parametersAll (FilterNode.leavesAll base ns) = .ok ps)
      (hq : Leaf.parametersAll (FilterNode.leavesAll base' ms) = .ok qs) :
      Predicate.Indistinct (FilterNode.leavesAll base ns) (FilterNode.leavesAll base' ms)
        ⟨Segment.textAll (FilterNode.outlineAll base joint ns), ps⟩
        ⟨Segment.textAll (FilterNode.outlineAll base' joint ms), qs⟩ := by
    rw [← FilterNode.leaves_outlineAll base joint] at hp ⊢
    rw [← FilterNode.leaves_outlineAll base' joint] at hq ⊢
    exact Segment.indistinct_of_alike (FilterNode.outlineAll_alike hb joint hs) hp hq
  constructor
  · intro f g p q hs hp hq
    obtain ⟨ht, hps⟩ := compile_eq_ok_iff.mp hp
    obtain ⟨hu, hqs⟩ := compile_eq_ok_iff.mp hq
    obtain ⟨t, ps⟩ := p
    obtain ⟨u, qs⟩ := q
    cases ht
    cases hu
    exact key [] [] .and .columns hs hps hqs
  · intro base base' joint ns ms hb hs collected collected' after after' t u hf hg
    obtain ⟨rfl, ps, hps, rfl⟩ := FilterNode.run_compileAll_eq_ok_iff.mp hf
    obtain ⟨rfl, qs, hqs, rfl⟩ := FilterNode.run_compileAll_eq_ok_iff.mp hg
    exact ⟨ps, qs, rfl, rfl, key base base' joint hb hs hps hqs⟩

/-- Signs and keywords in a key or a value stay out of the statement, and keys of a base too. -/
theorem indistinct_of_sameShape_injection :
    let f : Filter := {
      nodes := [.path "metadata" [.range "a" .oneOf (.list [.string "b"])],
        .equality "name" (.text "c")]
      nonempty := List.cons_ne_nil _ _ }
    let g : Filter := {
      nodes := [.path "metadata" [.range "') OR ? ->> ?" .oneOf (.list [.string "?"])],
        .equality "name" (.text "c")]
      nonempty := List.cons_ne_nil _ _ }
    (∃ p q, f.compile = .ok p ∧ g.compile = .ok q ∧ p.parameters ≠ q.parameters ∧
      p.text = q.text ∧ ∀ b, (Entity.job.searchQuery b p).map BoundQuery.sql =
        (Entity.job.searchQuery b q).map BoundQuery.sql) ∧
    ∃ t u after after',
      (FilterNode.compileAll ["metadata", "a"] .or [.equality "b" (.text "c")]).run.run #[] =
        (.ok t, after) ∧
      (FilterNode.compileAll ["metadata", "?"] .or [.equality "->>" (.text "AND")]).run.run
        #[.text "d"] = (.ok u, after') ∧ t = u := by
  intro f g
  constructor
  · have hf : f.compile = .ok ⟨"(metadata ->> ? IN (?)) AND name = ?",
        [.text "a", .list ["b"], .text "c"]⟩ := by rfl
    have hg : g.compile = .ok ⟨"(metadata ->> ? IN (?)) AND name = ?",
        [.text "') OR ? ->> ?", .list ["?"], .text "c"]⟩ := by rfl
    have hs : FilterNode.SameShapes .columns f.nodes g.nodes := by
      simp [f, g, FilterNode.SameShapes, FilterNode.SameShape]
    have h := indistinct_of_sameShape.1 f g _ _ hs hf hg
    exact ⟨_, _, hf, hg, by decide, h.text, h.sql rfl .job⟩
  · obtain ⟨ps, qs, -, -, h⟩ := indistinct_of_sameShape.2 ["metadata", "a"] ["metadata", "?"] .or
      [.equality "b" (.text "c")] [.equality "->>" (.text "AND")] (.below "metadata" rfl)
      (by simp [FilterNode.SameShapes, FilterNode.SameShape, Scope.ofBase])
      #[] #[.text "d"] _ _ _ _ rfl rfl
    exact ⟨_, _, _, _, rfl, rfl, h.text⟩

end Filter

end SearchFilter
