import Mathlib.Data.List.Forall2
import SearchFilter.Proofs.Predicate.Compilation

/-!
# Trees of the same shape

Two trees have the same shape if they differ in literals, conditions and keys below columns at most.
Main statement: trees of the same shape have outlines that are alike segment by segment, so that
their texts are equal and their leaves have equally many parameters.
-/

namespace SearchFilter

/-- Where the fields of nodes below a path stand. -/
def Scope.ofBase : List String → Scope
  | [] => .columns
  | _ :: _ => .json

namespace FilterNode

mutual

/-- The same kinds of nodes, connectives and operators, and the same names of columns. -/
def SameShape (scope : Scope) : FilterNode → FilterNode → Prop
  | .equality f _, .equality g _ => scope = .columns → f = g
  | .range f op _, .range g op' _ => op = op' ∧ (scope = .columns → f = g)
  | .path f ns, .path g ms => (scope = .columns → f = g) ∧ SameShapes .json ns ms
  | .group c ns, .group d ms => c = d ∧ SameShapes scope ns ms
  | _, _ => False

def SameShapes (scope : Scope) : List FilterNode → List FilterNode → Prop
  | [], [] => True
  | n :: ns, m :: ms => SameShape scope n m ∧ SameShapes scope ns ms
  | _, _ => False

end

end FilterNode

/-- Paths to nodes that agree in what of them is written out: the column and the number of keys. -/
inductive SameBase : List String → List String → Prop
  | columns : SameBase [] []
  | below (column : String) {keys others : List String} (h : keys.length = others.length) :
      SameBase (column :: keys) (column :: others)

namespace SameBase

variable {a b : List String} {f g : String}

theorem append (h : SameBase a b) (hf : Scope.ofBase a = .columns → f = g) :
    SameBase (a ++ [f]) (b ++ [g]) := by
  cases h with
  | columns =>
    rw [hf rfl]
    exact .below g rfl
  | @below column keys others h =>
    have hl : (keys ++ [f]).length = (others ++ [g]).length := by
      rw [List.length_append, List.length_append, h]
      rfl
    exact .below column hl

theorem under (h : SameBase a b) (hf : Scope.ofBase a = .columns → f = g) :
    (Attribute.under a f).column = (Attribute.under b g).column ∧
      (Attribute.under a f).keys.length = (Attribute.under b g).keys.length := by
  cases h with
  | columns =>
    rw [hf rfl]
    exact ⟨rfl, rfl⟩
  | below column h =>
    refine ⟨rfl, ?_⟩
    simp only [Attribute.under, List.length_append, h, List.length_singleton]

end SameBase

theorem Scope.ofBase_append (base : List String) (field : String) :
    Scope.ofBase (base ++ [field]) = .json := by
  cases base <;> rfl

/-- The same column, equally many keys and the same operator. -/
structure Leaf.Alike (l m : Leaf) : Prop where
  column : l.left.column = m.left.column
  hops : l.left.keys.length = m.left.keys.length
  operator : l.test.operator? = m.test.operator?

theorem Leaf.Alike.text_eq {l m : Leaf} (h : l.Alike m) : l.text = m.text := by
  obtain ⟨hc, hk, ho⟩ := h
  have he : l.left.exprList = m.left.exprList := by
    rw [Attribute.exprList, Attribute.exprList, hc]
    cases hl : l.left.keys with
    | nil =>
      rw [hl] at hk
      rw [List.eq_nil_of_length_eq_zero hk.symm]
    | cons key keys =>
      cases hm : m.left.keys with
      | nil =>
        rw [hl, hm] at hk
        cases hk
      | cons other others =>
        rw [hl, hm] at hk
        have hn : keys.length = others.length := Nat.succ.inj hk
        simp only [hn]
  rw [text, text, Attribute.expr, Attribute.expr, he, Test.comparison_congr ho]

namespace Segment

/-- The same mark, or leaves that are alike. -/
inductive Alike : Segment → Segment → Prop
  | opening : Alike opening opening
  | closing : Alike closing closing
  | joint (c : Connective) : Alike (joint c) (joint c)
  | leaf {l m : Leaf} (h : l.Alike m) : Alike (leaf l) (leaf m)

theorem textAll_eq_of_alike {a b : List Segment} (h : List.Forall₂ Alike a b) :
    textAll a = textAll b := by
  induction h with
  | nil => rfl
  | @cons s t a b hs _ ih =>
    have : s.text = t.text := by
      cases hs with
      | leaf h => exact h.text_eq
      | _ => rfl
    rw [textAll_cons, textAll_cons, this, ih]

theorem leaves_alike {a b : List Segment} (h : List.Forall₂ Alike a b) :
    List.Forall₂ Leaf.Alike (leaves a) (leaves b) := by
  induction h with
  | nil => exact .nil
  | cons hs _ ih =>
    cases hs with
    | leaf h => exact .cons h ih
    | _ => exact ih

theorem join_alike (c : Connective) {parts others : List (List Segment)}
    (h : List.Forall₂ (List.Forall₂ Alike) parts others) :
    List.Forall₂ Alike (join c parts) (join c others) := by
  cases h with
  | nil => exact .nil
  | cons hs ht =>
    rw [join_cons, join_cons]
    exact List.rel_append hs (List.rel_flatMap ht fun _ _ h => .cons (.joint c) h)

theorem parenthesized_alike {a b : List Segment} (h : List.Forall₂ Alike a b) :
    List.Forall₂ Alike (.opening :: a ++ [.closing]) (.opening :: b ++ [.closing]) :=
  List.rel_append (.cons .opening h) (.cons .closing .nil)

end Segment

namespace FilterNode

theorem outlineEach_alike {scope : Scope} {base base' : List String} {joint : Connective}
    {ns ms : List FilterNode} (h : SameShapes scope ns ms)
    (each : ∀ n ∈ ns, ∀ m, SameShape scope n m →
      List.Forall₂ Segment.Alike (outline base joint n) (outline base' joint m)) :
    List.Forall₂ (List.Forall₂ Segment.Alike) (outlineEach base joint ns)
      (outlineEach base' joint ms) := by
  induction ns generalizing ms with
  | nil =>
    cases ms with
    | nil => exact .nil
    | cons m ms => exact h.elim
  | cons n ns ih =>
    cases ms with
    | nil => exact h.elim
    | cons m ms =>
      refine .cons (each n List.mem_cons_self m h.1) (ih h.2 ?_)
      intro n hn
      exact each n (List.mem_cons_of_mem _ hn)

/-- What is not written out does not show in the outline. -/
theorem outline_alike {base base' : List String} (hb : SameBase base base') (joint : Connective)
    {n m : FilterNode} (h : SameShape (Scope.ofBase base) n m) :
    List.Forall₂ Segment.Alike (outline base joint n) (outline base' joint m) := by
  induction n using FilterNode.induction generalizing base base' joint m with
  | equality f value =>
    cases m with
    | equality g other =>
      obtain ⟨hc, hk⟩ := hb.under h
      exact .cons (.leaf ⟨hc, hk, rfl⟩) .nil
    | _ => exact h.elim
  | range f op condition =>
    cases m with
    | range g op' other =>
      obtain ⟨rfl, hf⟩ := h
      obtain ⟨hc, hk⟩ := hb.under hf
      exact .cons (.leaf ⟨hc, hk, rfl⟩) .nil
    | _ => exact h.elim
  | path f ns ih =>
    cases m with
    | path g ms =>
      obtain ⟨hf, hs⟩ := h
      rw [outline, outline]
      apply Segment.parenthesized_alike
      apply Segment.join_alike
      apply outlineEach_alike hs
      intro n hn m hnm
      apply ih n hn (hb.append hf)
      rwa [Scope.ofBase_append]
    | _ => exact h.elim
  | group c ns ih =>
    cases m with
    | group d ms =>
      obtain ⟨rfl, hs⟩ := h
      rw [outline, outline]
      apply Segment.parenthesized_alike
      apply Segment.join_alike
      apply outlineEach_alike hs
      intro n hn m hnm
      exact ih n hn hb _ hnm
    | _ => exact h.elim

theorem outlineAll_alike {base base' : List String} (hb : SameBase base base')
    (joint : Connective) {ns ms : List FilterNode} (h : SameShapes (Scope.ofBase base) ns ms) :
    List.Forall₂ Segment.Alike (outlineAll base joint ns) (outlineAll base' joint ms) := by
  apply Segment.join_alike
  apply outlineEach_alike h
  intro n _ m hnm
  exact outline_alike hb joint hnm

end FilterNode

end SearchFilter
