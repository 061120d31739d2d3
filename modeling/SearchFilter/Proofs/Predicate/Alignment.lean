import SearchFilter.Proofs.Except
import SearchFilter.Proofs.Statement.Supply

/-!
# Placeholders and their parameters

The text of a predicate and its parameters are collected apart from each other. Main statement: they
line up. The parameters are dealt out to the leaves in the order of the document, every leaf writes
as many placeholders as it has parameters, and a list stands behind `IN` and nowhere else.
-/

namespace SearchFilter

theorem append_eq_append_placeholder {a b before after : List Char}
    (h : a ++ b = before ++ '?' :: after) :
    (∃ inner, a = before ++ '?' :: inner) ∨
      ∃ front, before = a ++ front ∧ b = front ++ '?' :: after := by
  rcases List.append_eq_append_iff.mp h with ⟨front, hb, hr⟩ | ⟨m, ha, hm⟩
  · exact .inr ⟨front, hb, hr⟩
  · cases m with
    | nil =>
      rw [List.append_nil] at ha
      exact .inr ⟨[], by rw [ha, List.append_nil], hm.symm⟩
    | cons c inner =>
      rw [List.cons_append, List.cons.injEq] at hm
      exact .inl ⟨inner, by rw [ha, hm.1]⟩

theorem eq_of_append_placeholder {lead trail before after : List Char}
    (h : lead ++ '?' :: trail = before ++ '?' :: after) (hl : '?' ∉ lead) (ht : '?' ∉ trail) :
    before = lead := by
  rcases append_eq_append_placeholder h with ⟨inner, hi⟩ | ⟨front, hb, hr⟩
  · rw [hi] at hl
    exact absurd (List.mem_append_right _ List.mem_cons_self) hl
  · cases front with
    | nil => rw [hb, List.append_nil]
    | cons c front =>
      rw [List.cons_append, List.cons.injEq] at hr
      rw [hr.2] at ht
      exact absurd (List.mem_append_right _ List.mem_cons_self) ht

/-- What is written right before the alternatives of `IN`. -/
def beforeAlternatives : List Char := " IN (".toList

theorem not_beforeAlternatives_suffix_blank (seen : List Char) :
    ¬ beforeAlternatives <:+ seen ++ [' '] := by
  rw [← List.reverse_prefix]
  simp [beforeAlternatives]

theorem Operator.parameter_isList_iff {op : Operator} {condition : Condition} {value : Parameter}
    (h : op.parameter condition = .ok value) : (∃ items, value = .list items) ↔ op = .oneOf := by
  cases condition with
  | list items =>
    cases op with
    | oneOf =>
      obtain ⟨texts, -, rfl⟩ := map_eq_ok_iff.mp h
      simp
    | _ => cases h
  | map members => cases op <;> cases h
  | scalar s =>
    cases op with
    | oneOf => cases h
    | _ =>
      cases h
      simp

namespace Test

theorem parameter_isList_iff {t : Test} {value : Parameter} (h : t.parameter = .ok value) :
    (∃ items, value = .list items) ↔ t.operator? = some .oneOf := by
  cases t with
  | equal v =>
    cases h
    simp [operator?]
  | compare op condition => simp [operator?, Operator.parameter_isList_iff h]

/-- What a comparison writes before its placeholder. -/
def lead : Test → List Char
  | equal _ => " = ".toList
  | compare op _ => ' ' :: op.symbol.toList ++ [' ', '(']

/-- What a comparison writes behind its placeholder. -/
def trail : Test → List Char
  | equal _ => []
  | compare _ _ => [')']

theorem toList_comparison (t : Test) : t.comparison.toList = t.lead ++ '?' :: t.trail := by
  cases t with
  | equal v => simp [comparison, lead, trail]
  | compare op condition => simp [comparison, lead, trail]

theorem not_mem_lead (t : Test) : '?' ∉ t.lead := by
  cases t with
  | equal v => simp [lead]
  | compare op condition => cases op <;> simp [lead, Operator.symbol]

theorem not_mem_trail (t : Test) : '?' ∉ t.trail := by
  cases t <;> simp [trail]

theorem beforeAlternatives_suffix_lead (t : Test) (seen : List Char) :
    beforeAlternatives <:+ seen ++ t.lead ↔ t.operator? = some .oneOf := by
  rw [← List.reverse_prefix]
  cases t with
  | equal v => simp [beforeAlternatives, lead, operator?]
  | compare op condition =>
    cases op <;> simp [beforeAlternatives, lead, operator?, Operator.symbol]

end Test

theorem Attribute.blank_of_tail_eq {hops : Nat} {before after : List Char}
    (h : tail hops = before ++ '?' :: after) : ∃ front, before = front ++ [' '] := by
  induction hops generalizing before with
  | zero =>
    have hb : before = [' ', '-', '>', '>', ' '] :=
      @eq_of_append_placeholder _ [] _ _ h (by simp) (by simp)
    exact ⟨[' ', '-', '>', '>'], hb⟩
  | succ hops ih =>
    rcases append_eq_append_placeholder (h : [' ', '-', '>', ' ', '?'] ++ tail hops = _) with
      ⟨inner, hi⟩ | ⟨front, hb, hr⟩
    · have hb : before = [' ', '-', '>', ' '] :=
        @eq_of_append_placeholder _ [] _ _ hi (by simp) (by simp)
      exact ⟨[' ', '-', '>'], hb⟩
    · obtain ⟨more, hm⟩ := ih hr
      exact ⟨[' ', '-', '>', ' ', '?'] ++ more, by rw [hb, hm, List.append_assoc]⟩

/-- Whether the parameters that are lists are those of the placeholders behind `IN`, for a text
that stands behind `seen`. -/
def ListsBehindIn (cs : List Char) (ps : List Parameter) : Prop :=
  ∀ seen before after, cs = before ++ '?' :: after →
    ((∃ items, ps[placeholders before]? = some (.list items)) ↔
      beforeAlternatives <:+ seen ++ before)

namespace ListsBehindIn

theorem append_of_count_eq_zero {a b : List Char} {ps : List Parameter} (ha : placeholders a = 0)
    (hb : ListsBehindIn b ps) : ListsBehindIn (a ++ b) ps := by
  intro seen before after h
  rcases append_eq_append_placeholder h with ⟨inner, hi⟩ | ⟨front, rfl, hr⟩
  · have hm : '?' ∈ a := by
      rw [hi]
      exact List.mem_append_right _ List.mem_cons_self
    exact absurd hm (List.count_eq_zero.mp ha)
  · have hc : placeholders (a ++ front) = placeholders front := by
      simp only [placeholders] at ha ⊢
      rw [List.count_append, ha, Nat.zero_add]
    rw [hc, ← List.append_assoc]
    exact hb (seen ++ a) front after hr

/-- Behind as many placeholders as parameters, those of the rest come next. -/
theorem append {a b : List Char} {ps qs : List Parameter} (hl : placeholders a = ps.length)
    (ha : ListsBehindIn a ps) (hb : ListsBehindIn b qs) : ListsBehindIn (a ++ b) (ps ++ qs) := by
  intro seen before after h
  rcases append_eq_append_placeholder h with ⟨inner, hi⟩ | ⟨front, rfl, hr⟩
  · have hlt : placeholders before < ps.length := by
      rw [← hl, hi]
      simp only [placeholders, List.count_append, List.count_cons_self]
      omega
    rw [List.getElem?_append_left hlt]
    exact ha seen before inner hi
  · have hc : placeholders (a ++ front) = ps.length + placeholders front := by
      simp only [placeholders] at hl ⊢
      rw [List.count_append, hl]
    rw [hc, List.getElem?_append_right (Nat.le_add_right _ _), Nat.add_sub_cancel_left,
      ← List.append_assoc]
    exact hb (seen ++ a) front after hr

end ListsBehindIn

namespace Attribute

theorem placeholders_exprList {a : Attribute} (h : '?' ∉ a.column.toList) :
    placeholders a.exprList = a.keys.length := by
  have hc : a.column.toList.count '?' = 0 := List.count_eq_zero.mpr h
  rw [placeholders, exprList]
  cases a.keys with
  | nil => exact hc
  | cons key keys => rw [List.count_append, hc, count_tail, Nat.zero_add, List.length_cons]

/-- No key is a list, and none stands behind `IN`. -/
theorem listsBehindIn {a : Attribute} (h : '?' ∉ a.column.toList) :
    ListsBehindIn a.exprList a.parameters := by
  intro seen before after he
  have hk : ¬ ∃ items, a.parameters[placeholders before]? = some (.list items) := by
    rintro ⟨items, hi⟩
    obtain ⟨key, -, hk⟩ := List.mem_map.mp (List.mem_of_getElem? hi)
    cases hk
  have hb : ∃ front, before = front ++ [' '] := by
    rw [exprList] at he
    split at he
    · rw [he] at h
      exact absurd (List.mem_append_right _ List.mem_cons_self) h
    · rcases append_eq_append_placeholder he with ⟨inner, hi⟩ | ⟨front, rfl, hr⟩
      · rw [hi] at h
        exact absurd (List.mem_append_right _ List.mem_cons_self) h
      · obtain ⟨more, rfl⟩ := blank_of_tail_eq hr
        exact ⟨_, (List.append_assoc _ _ _).symm⟩
  obtain ⟨front, rfl⟩ := hb
  rw [← List.append_assoc]
  exact iff_of_false hk (not_beforeAlternatives_suffix_blank _)

end Attribute

theorem Test.listsBehindIn {t : Test} {value : Parameter} (h : t.parameter = .ok value) :
    ListsBehindIn t.comparison.toList [value] := by
  intro seen before after he
  rw [t.toList_comparison] at he
  have hb := eq_of_append_placeholder he t.not_mem_lead t.not_mem_trail
  have hc : placeholders before = 0 := by
    rw [hb]
    exact List.count_eq_zero.mpr t.not_mem_lead
  rw [hc, hb, t.beforeAlternatives_suffix_lead, ← parameter_isList_iff h]
  simp

theorem Leaf.listsBehindIn {l : Leaf} (h : '?' ∉ l.left.column.toList) {ps : List Parameter}
    (hp : l.parameters = .ok ps) : ListsBehindIn l.text.toList ps := by
  obtain ⟨value, hv, rfl⟩ := parameters_eq_ok_iff.mp hp
  have hl : placeholders l.left.exprList = l.left.parameters.length := by
    rw [Attribute.placeholders_exprList h, Attribute.parameters, List.length_map]
  have := (Attribute.listsBehindIn h).append hl (Test.listsBehindIn hv)
  rwa [text, String.toList_append, Attribute.expr, String.toList_ofList]

theorem Segment.listsBehindIn {segments : List Segment} {ps : List Parameter}
    (h : ∀ l ∈ leaves segments, '?' ∉ l.left.column.toList)
    (hp : Leaf.parametersAll (leaves segments) = .ok ps) :
    ListsBehindIn (textAll segments).toList ps := by
  refine parameters_induction (P := fun row ps => ListsBehindIn (textAll row).toList ps)
    ?_ ?_ ?_ h hp
  · intro seen before after he
    simp at he
  · intro s rest ps hs ih
    rw [textAll_cons, String.toList_append]
    exact ListsBehindIn.append_of_count_eq_zero (count_text_of_none hs) ih
  · intro l rest first others hl hf ih
    have hc : placeholders l.text.toList = first.length := by
      rw [placeholders, Leaf.count_text hl, Leaf.length_parameters hf]
    rw [textAll_cons, String.toList_append]
    exact (Leaf.listsBehindIn hl hf).append hc ih

/-- What a leaf gives to a predicate: its keys from the outermost on and then its value, with a
placeholder for each key on its left side and one for the value on its right side. -/
structure Leaf.Contributes (l : Leaf) (share : List Parameter) : Prop where
  share_eq : ∃ value, l.test.parameter = .ok value ∧ share = l.left.keys.map .text ++ [value]
  left : placeholders l.left.expr.toList = l.left.keys.length
  right : placeholders l.test.comparison.toList = 1
  all : placeholders l.text.toList = share.length

theorem Leaf.contributes {l : Leaf} (h : '?' ∉ l.left.column.toList) {ps : List Parameter}
    (hp : l.parameters = .ok ps) : l.Contributes ps where
  share_eq := parameters_eq_ok_iff.mp hp
  left := by rw [Attribute.expr, String.toList_ofList, Attribute.placeholders_exprList h]
  right := l.test.count_comparison
  all := by rw [placeholders, count_text h, length_parameters hp]

theorem Leaf.exists_shares {ls : List Leaf} (h : ∀ l ∈ ls, '?' ∉ l.left.column.toList)
    {ps : List Parameter} (hp : parametersAll ls = .ok ps) :
    ∃ shares, List.Forall₂ Contributes ls shares ∧ ps = shares.flatten := by
  induction ls generalizing ps with
  | nil =>
    cases hp
    exact ⟨[], .nil, rfl⟩
  | cons l ls ih =>
    obtain ⟨first, others, hf, ho, rfl⟩ := parametersAll_cons_eq_ok_iff.mp hp
    obtain ⟨shares, hs, rfl⟩ := ih (fun m hm => h m (List.mem_cons_of_mem _ hm)) ho
    have hl := contributes (h l List.mem_cons_self) hf
    exact ⟨first :: shares, .cons hl hs, rfl⟩

namespace Filter

/-- How the text of a filter's predicate and its parameters belong together. -/
structure Aligned (f : Filter) (p : Predicate) : Prop where
  count : p.placeholderCount = p.parameters.length
  /-- The text is the row of the leaves with marks around them. -/
  text : p.text = Segment.textAll f.outline ∧ Segment.leaves f.outline = f.leaves
  marks : ∀ s ∈ f.outline, s.leaf? = none → placeholders s.text.toList = 0
  /-- The parameters are those of the leaves, one leaf after the other. -/
  shares : ∃ shares, List.Forall₂ Leaf.Contributes f.leaves shares ∧ p.parameters = shares.flatten
  /-- The lists are the parameters whose placeholders stand behind `IN`. -/
  lists : ∀ before after, p.text.toList = before ++ '?' :: after →
    ((∃ items, p.parameters[placeholders before]? = some (.list items)) ↔
      " IN (".toList <:+ before)

/-- The parameters of a predicate line up with its placeholders, unless a column has one in its
name. -/
theorem aligned_of_compile {f : Filter} {p : Predicate}
    (hc : ∀ column ∈ f.columns, '?' ∉ column.toList) (hp : f.compile = .ok p) : f.Aligned p := by
  have hl : ∀ l ∈ f.leaves, '?' ∉ l.left.column.toList := by
    intro l hl
    exact hc _ (f.column_mem_of_mem_leaves hl)
  obtain ⟨ht, hps⟩ := compile_eq_ok_iff.mp hp
  refine ⟨placeholderCount_of_compile hl hp, ⟨ht, f.leaves_outline⟩, ?_, ?_, ?_⟩
  · intro s _ hs
    exact Segment.count_text_of_none hs
  · exact Leaf.exists_shares hl hps
  · rw [← f.leaves_outline] at hl hps
    have := Segment.listsBehindIn hl hps []
    rwa [ht]

/-- Keys, values and columns may hold anything else that predicates are written with. -/
theorem aligned_of_compile_signs :
    let f : Filter := {
      nodes := [.range "a IN (" .like (.scalar (.text " IN (?)")),
        .group .or [.path "b" [.path "?" [.range " IN (" .oneOf (.list [])]],
          .range "c" .oneOf (.list [.string "?", .string "->>"])]]
      nonempty := List.cons_ne_nil _ _ }
    (∀ column ∈ f.columns, '?' ∉ column.toList) ∧
    f.Aligned ⟨"a IN ( LIKE (?) AND (((b -> ? ->> ? IN (?))) OR c IN (?))",
      [.text "% IN (?)%", .text "?", .text " IN (", .list [], .list ["?", "->>"]]⟩ := by
  intro f
  have hc : ∀ column ∈ f.columns, '?' ∉ column.toList := by decide
  exact ⟨hc, aligned_of_compile hc rfl⟩

end Filter

end SearchFilter
