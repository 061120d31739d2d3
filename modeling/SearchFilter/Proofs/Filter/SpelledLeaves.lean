import Mathlib.Data.List.Forall2
import SearchFilter.Proofs.Filter.Rebuilding
import SearchFilter.Proofs.Json.Spelled
import SearchFilter.Proofs.Predicate.Compilation

/-!
# Leaves as a document spells them

A document is gone through with its numbers as they are written: every leaf in it has the attribute
that its place names, an operator or none, and its value. Main statement: a compiled document's
parameters are those of its leaves, in their order, and a number is bound as the text of its value.
-/

namespace SearchFilter

open Json (Spelled)

/-- What a test compares with, as it was written. -/
def Test.json : Test → Json
  | .equal value => value.json
  | .compare _ condition => condition.json

/-- A leaf as a document spells it. -/
structure SpelledLeaf where
  left : Attribute
  operator? : Option Operator
  value : Spelled

theorem Leaf.exists_values_of_parametersAll {ls : List Leaf} {ps : List Parameter}
    (h : parametersAll ls = .ok ps) : ∃ values,
      List.Forall₂ (fun l value => l.test.parameter = .ok value) ls values ∧
        ps = (List.zipWith (fun l value => l.left.parameters ++ [value]) ls values).flatten := by
  induction ls generalizing ps with
  | nil =>
    cases h
    exact ⟨[], .nil, rfl⟩
  | cons l ls ih =>
    obtain ⟨first, others, hf, ho, rfl⟩ := parametersAll_cons_eq_ok_iff.mp h
    obtain ⟨value, hv, rfl⟩ := parameters_eq_ok_iff.mp hf
    obtain ⟨values, hvs, rfl⟩ := ih ho
    exact ⟨value :: values, .cons hv hvs, rfl⟩

namespace SpelledLeaf

/-- The text that is bound for the text of a literal: `like` looks for it anywhere. -/
def pattern (c : SpelledLeaf) (text : String) : String :=
  match c.operator? with
  | some .like => "%" ++ text ++ "%"
  | _ => text

/-- Whether the leaf is what the spelled one is read to. -/
structure IsReadTo (c : SpelledLeaf) (l : Leaf) : Prop where
  left : l.left = c.left
  operator : l.test.operator? = c.operator?
  value : l.test.json = c.value.erase

theorem parameter_of_number {c : SpelledLeaf} {l : Leaf} (h : c.IsReadTo l) {n : Json.Numeral}
    (hn : c.value = .number n) {value : Parameter} (hv : l.test.parameter = .ok value) :
    value = .text (c.pattern n.value.text) := by
  obtain ⟨left, test⟩ := l
  have hj : test.json = .number n.value := by rw [h.value, hn, Spelled.erase]
  have ho : test.operator? = c.operator? := h.operator
  cases test with
  | equal literal =>
    cases literal with
    | text s => cases hj
    | number m =>
      cases hj
      cases hv
      rw [pattern, ← ho]
      rfl
  | compare op condition =>
    have hc : condition = .scalar (.number n.value) := by
      cases condition with
      | scalar literal => cases literal <;> cases hj; rfl
      | list items => cases hj
      | map members => cases hj
    rw [hc] at hv
    rw [pattern, ← ho]
    cases op <;> cases hv <;> rfl

end SpelledLeaf

namespace Filter

mutual

/-- The leaves of an entry below `base`, in the order of the document. -/
def spelledLeaves (base : List String) (key : String) : Spelled → List SpelledLeaf
  | .object members =>
    match Connective.ofKeyword? key with
    | some _ => spelledLeavesOfEntries base members
    | none => spelledLeavesBelow base key members
  | value => [⟨.under base key, none, value⟩]

def spelledLeavesOfEntries (base : List String) : List (String × Spelled) → List SpelledLeaf
  | [] => []
  | (key, value) :: rest => spelledLeaves base key value ++ spelledLeavesOfEntries base rest

/-- The leaves in the value of a field: one for an operator, those of an entry one level below for
any other key. -/
def spelledLeavesBelow (base : List String) (field : String) :
    List (String × Spelled) → List SpelledLeaf
  | [] => []
  | (key, value) :: rest =>
    (match Operator.ofToken? key with
      | some op => [⟨.under base field, some op, value⟩]
      | none => spelledLeaves (base ++ [field]) key value) ++ spelledLeavesBelow base field rest

end

variable {allowlist : Allowlist}

mutual

theorem forall₂_spelledLeaves {scope : Scope} (base : List String) {key : String} :
    (value : Spelled) → WellFormed allowlist scope key value.erase →
      List.Forall₂ SpelledLeaf.IsReadTo (spelledLeaves base key value)
        (FilterNode.leavesAll base (nodesOf key value.erase))
  | .object members => by
    intro hw
    rw [Spelled.erase] at hw ⊢
    cases hk : Connective.ofKeyword? key with
    | some c =>
      obtain ⟨-, hw⟩ := (wellFormed_group_iff hk).mp hw
      rw [spelledLeaves, hk, nodesOf, hk, FilterNode.leavesAll_group]
      exact forall₂_spelledLeavesOfEntries base members hw
    | none =>
      obtain ⟨-, -, hw⟩ := (wellFormed_conditions_iff hk).mp hw
      rw [spelledLeaves, hk, nodesOf, hk]
      exact forall₂_spelledLeavesBelow base members hw
  | .number n => fun _ => .cons ⟨rfl, rfl, rfl⟩ .nil
  | .string s => fun _ => .cons ⟨rfl, rfl, rfl⟩ .nil
  | .array items => fun hw => by
    obtain ⟨literal, hl, -⟩ := exists_literal_of_not_object hw (by simp [Spelled.erase])
    cases hl
  | .bool b => fun hw => by
    obtain ⟨literal, hl, -⟩ := exists_literal_of_not_object hw (by simp [Spelled.erase])
    cases hl
  | .null => fun hw => by
    obtain ⟨literal, hl, -⟩ := exists_literal_of_not_object hw (by simp [Spelled.erase])
    cases hl

theorem forall₂_spelledLeavesOfEntries {scope : Scope} (base : List String) :
    (members : List (String × Spelled)) →
      (∀ m ∈ Spelled.eraseMembers members, WellFormed allowlist scope m.1 m.2) →
        List.Forall₂ SpelledLeaf.IsReadTo (spelledLeavesOfEntries base members)
          (FilterNode.leavesAll base (nodesOfEntries (Spelled.eraseMembers members)))
  | [] => fun _ => .nil
  | (key, value) :: rest => by
    intro hw
    obtain ⟨hw, hws⟩ := List.forall_mem_cons.mp hw
    rw [spelledLeavesOfEntries, Spelled.eraseMembers, nodesOfEntries, FilterNode.leavesAll_append]
    exact List.rel_append (forall₂_spelledLeaves base value hw)
      (forall₂_spelledLeavesOfEntries base rest hws)

theorem forall₂_spelledLeavesBelow {scope : Scope} (base : List String) {field : String} :
    (members : List (String × Spelled)) →
      (∀ m ∈ Spelled.eraseMembers members, WellFormedBelow allowlist scope field m.1 m.2) →
        List.Forall₂ SpelledLeaf.IsReadTo (spelledLeavesBelow base field members)
          (FilterNode.leavesAll base (nodesBelow field (Spelled.eraseMembers members)))
  | [] => fun _ => .nil
  | (key, value) :: rest => by
    intro hw
    obtain ⟨hw, hws⟩ := List.forall_mem_cons.mp hw
    have hr := forall₂_spelledLeavesBelow base rest hws
    rw [spelledLeavesBelow, Spelled.eraseMembers, nodesBelow, FilterNode.leavesAll_append]
    refine List.rel_append ?_ hr
    cases ho : Operator.ofToken? key with
    | some op =>
      obtain ⟨condition, hc⟩ := (wellFormedBelow_operator_iff ho).mp hw
      rw [hc]
      exact .cons ⟨rfl, rfl, Condition.json_of_ofJson hc⟩ .nil
    | none =>
      obtain ⟨-, hw⟩ := (wellFormedBelow_entry_iff ho).mp hw
      rw [FilterNode.leavesAll_path]
      exact forall₂_spelledLeaves _ value hw

end

variable {limit : Nat} {raw : String}

/-- The leaves of an accepted document are what its spelled leaves are read to. -/
theorem exists_members_of_parse {f : Filter} (h : parse allowlist limit raw = .ok f) :
    ∃ members, Spelled.parse raw = .ok (.object members) ∧
      List.Forall₂ SpelledLeaf.IsReadTo (spelledLeavesOfEntries [] members) f.leaves := by
  obtain ⟨-, members, hj, -, hs, hr⟩ := parse_eq_ok_iff.mp h
  obtain ⟨hw, hn⟩ := (readEntries_iff_wellFormed members f.nodes).mp ⟨hr, fun _ => hs⟩
  rw [← Spelled.map_erase_parse] at hj
  obtain ⟨value, hp, he⟩ := map_eq_ok_iff.mp hj
  cases value with
  | object spelled =>
    cases he
    refine ⟨spelled, hp, ?_⟩
    rw [leaves, hn]
    exact forall₂_spelledLeavesOfEntries [] spelled hw
  | _ => cases he

end Filter

theorem SpelledLeaf.forall₂_of_isReadTo {cs : List SpelledLeaf} {ls : List Leaf}
    (h : List.Forall₂ IsReadTo cs ls) {values : List Parameter}
    (hv : List.Forall₂ (fun l value => l.test.parameter = .ok value) ls values) :
    List.Forall₂ (fun c value => ∀ n, c.value = .number n → value = .text (c.pattern n.value.text))
      cs values ∧
    List.zipWith (fun l value => l.left.parameters ++ [value]) ls values =
      List.zipWith (fun c value => c.left.parameters ++ [value]) cs values := by
  induction h generalizing values with
  | nil =>
    cases hv
    exact ⟨.nil, rfl⟩
  | cons hc _ ih =>
    cases hv with
    | cons hv hvs =>
      obtain ⟨hb, hz⟩ := ih hvs
      refine ⟨.cons (fun n hn => parameter_of_number hc hn hv) hb, ?_⟩
      rw [List.zipWith_cons_cons, List.zipWith_cons_cons, hz, hc.left]

/-- The parameters of a compiled document are those of its leaves in their order, and a number is
bound as the text of its value. -/
theorem Filter.exists_values_of_compileText {allowlist : Allowlist} {limit : Nat} {raw : String}
    {p : Predicate} (h : compileText allowlist limit raw = .ok p) : ∃ members values,
      Spelled.parse raw = .ok (.object members) ∧
      List.Forall₂ (fun c value => ∀ n, c.value = .number n →
        value = .text (c.pattern n.value.text)) (spelledLeavesOfEntries [] members) values ∧
      p.parameters = (List.zipWith (fun c value => c.left.parameters ++ [value])
        (spelledLeavesOfEntries [] members) values).flatten := by
  obtain ⟨f, hf, hc⟩ := bind_eq_ok_iff.mp h
  obtain ⟨-, hp⟩ := compile_eq_ok_iff.mp hc
  obtain ⟨members, hm, hl⟩ := exists_members_of_parse hf
  obtain ⟨values, hv, hps⟩ := Leaf.exists_values_of_parametersAll hp
  obtain ⟨hb, hz⟩ := SpelledLeaf.forall₂_of_isReadTo hl hv
  exact ⟨members, values, hm, hb, by rw [hps, hz]⟩

end SearchFilter
