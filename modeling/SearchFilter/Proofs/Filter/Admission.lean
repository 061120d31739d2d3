import SearchFilter.Proofs.Filter.Reading
import SearchFilter.Proofs.Predicate.Fragments

/-!
# Admission of fields

The fields of a document are checked before the nodes are read, by another walk through the same
text. Main statement: what is read after the check names allowed columns only, looks into those only
that hold JSON, has no barren node and takes no keyword for a field.
-/

namespace SearchFilter

namespace FilterNode

/-- What holds of every node that is read in a scope. -/
structure Admitted (allowlist : Allowlist) (scope : Scope) (n : FilterNode) : Prop where
  allows : scope = .columns → ∀ column ∈ columns n, allowlist.Allows column
  holdsJson : scope = .columns → ∀ field children, path field children ∈ reach false n →
    allowlist.HoldsJson field
  notBarren : ∀ m ∈ reach true n, ¬ m.IsBarren
  noKeyword : ∀ m ∈ reach true n, ∀ field ∈ m.field?, Connective.ofKeyword? field = none

variable {allowlist : Allowlist} {scope : Scope} {field : String}

theorem admitted_equality (value : Scalar) (ha : scope = .columns → allowlist.Allows field)
    (hk : Connective.ofKeyword? field = none) :
    (equality field value).Admitted allowlist scope where
  allows hs := by simpa [columns, reach, field?] using ha hs
  holdsJson := by simp [reach]
  notBarren := by simp [reach, IsBarren]
  noKeyword := by simpa [reach, field?] using hk

theorem admitted_range (op : Operator) (condition : Condition)
    (ha : scope = .columns → allowlist.Allows field) (hk : Connective.ofKeyword? field = none) :
    (range field op condition).Admitted allowlist scope where
  allows hs := by simpa [columns, reach, field?] using ha hs
  holdsJson := by simp [reach]
  notBarren := by simp [reach, IsBarren]
  noKeyword := by simpa [reach, field?] using hk

theorem admitted_group (c : Connective) {children : List FilterNode} (hne : children ≠ [])
    (h : ∀ n ∈ children, n.Admitted allowlist scope) :
    (group c children).Admitted allowlist scope where
  allows hs column hc := by
    obtain ⟨m, hm, hf⟩ := List.mem_filterMap.mp hc
    rcases mem_reach_group.mp hm with rfl | ⟨n, hn, hm⟩
    · cases hf
    · exact (h n hn).allows hs column (List.mem_filterMap.mpr ⟨m, hm, hf⟩)
  holdsJson hs field cs hm := by
    rcases mem_reach_group.mp hm with he | ⟨n, hn, hm⟩
    · cases he
    · exact (h n hn).holdsJson hs field cs hm
  notBarren m hm := by
    rcases mem_reach_group.mp hm with rfl | ⟨n, hn, hm⟩
    · exact hne
    · exact (h n hn).notBarren m hm
  noKeyword m hm := by
    rcases mem_reach_group.mp hm with rfl | ⟨n, hn, hm⟩
    · simp [field?]
    · exact (h n hn).noKeyword m hm

theorem admitted_path {children : List FilterNode} (hne : children ≠ [])
    (h : ∀ n ∈ children, n.Admitted allowlist .json)
    (ha : scope = .columns → allowlist.Allows field)
    (hj : scope = .columns → allowlist.HoldsJson field)
    (hk : Connective.ofKeyword? field = none) :
    (path field children).Admitted allowlist scope where
  allows hs := by simpa [columns, reach, field?] using ha hs
  holdsJson hs f cs hm := by
    have he : path f cs = path field children := by simpa [reach] using hm
    cases he
    exact hj hs
  notBarren m hm := by
    rcases mem_reach_path.mp hm with rfl | ⟨n, hn, hm⟩
    · exact hne
    · exact (h n hn).notBarren m hm
  noKeyword m hm := by
    rcases mem_reach_path.mp hm with rfl | ⟨n, hn, hm⟩
    · simpa [field?] using hk
    · exact (h n hn).noKeyword m hm

end FilterNode

namespace Filter

variable {allowlist : Allowlist}

mutual

theorem admitted_of_readEntry {scope : Scope} {key : String} : (value : Json) →
    ∀ nodes, (scope = .columns → strayBelow allowlist key value = []) →
      readEntry allowlist scope key value = .ok nodes →
        nodes ≠ [] ∧ ∀ n ∈ nodes, n.Admitted allowlist scope
  | value => by
    intro nodes hs h
    rcases readEntry_eq_ok_iff.mp h with ⟨c, members, children, hk, rfl, hne, hr, rfl⟩ |
      ⟨members, hk, rfl, hne, hr⟩ | ⟨literal, hk, hl, rfl⟩
    · have hc : scope = .columns → strayFields allowlist members = [] := by
        intro h
        have := hs h
        rwa [strayBelow, hk] at this
      obtain ⟨hcs, ha⟩ := admitted_of_readEntries members children hc hr
      refine ⟨List.cons_ne_nil _ _, ?_⟩
      intro n hn
      rw [List.mem_singleton.mp hn]
      exact FilterNode.admitted_group c (hcs hne) ha
    · obtain ⟨hcs, ha⟩ := admitted_of_readConditions members nodes
        (fun h => (strayBelow_eq_nil_iff hk).mp (hs h)) hk hr
      exact ⟨hcs hne, ha⟩
    · refine ⟨List.cons_ne_nil _ _, ?_⟩
      intro n hn
      rw [List.mem_singleton.mp hn]
      exact FilterNode.admitted_equality literal
        (fun h => (strayBelow_eq_nil_iff hk).mp (hs h)) hk

theorem admitted_of_readEntries {scope : Scope} : (members : List (String × Json)) →
    ∀ nodes, (scope = .columns → strayFields allowlist members = []) →
      readEntries allowlist scope members = .ok nodes →
        (members ≠ [] → nodes ≠ []) ∧ ∀ n ∈ nodes, n.Admitted allowlist scope
  | [] => by
    intro nodes hs h
    rw [readEntries_nil] at h
    cases h
    exact ⟨fun hne => absurd rfl hne, by simp⟩
  | (key, value) :: rest => by
    intro nodes hs h
    obtain ⟨first, others, hf, ho, rfl⟩ := readEntries_cons_eq_ok_iff.mp h
    have hc : scope = .columns →
        strayBelow allowlist key value = [] ∧ strayFields allowlist rest = [] := by
      intro h
      have := hs h
      rwa [strayFields, List.append_eq_nil_iff] at this
    obtain ⟨hne, ha⟩ := admitted_of_readEntry value first (fun h => (hc h).1) hf
    obtain ⟨-, hb⟩ := admitted_of_readEntries rest others (fun h => (hc h).2) ho
    refine ⟨fun _ => List.append_ne_nil_of_left_ne_nil hne _, ?_⟩
    intro n hn
    rcases List.mem_append.mp hn with hn | hn
    · exact ha n hn
    · exact hb n hn

theorem admitted_of_readConditions {scope : Scope} {field : String} :
    (members : List (String × Json)) → ∀ nodes, (scope = .columns → allowlist.Allows field) →
      Connective.ofKeyword? field = none →
        readConditions allowlist scope field members = .ok nodes →
          (members ≠ [] → nodes ≠ []) ∧ ∀ n ∈ nodes, n.Admitted allowlist scope
  | [] => by
    intro nodes ha hk h
    rw [readConditions_nil] at h
    cases h
    exact ⟨fun hne => absurd rfl hne, by simp⟩
  | (key, value) :: rest => by
    intro nodes ha hk h
    obtain ⟨node, others, hn, ho, rfl⟩ := readConditions_cons_eq_ok_iff.mp h
    obtain ⟨-, hb⟩ := admitted_of_readConditions rest others ha hk ho
    have hnode : node.Admitted allowlist scope := by
      rcases hn with ⟨op, condition, -, -, rfl⟩ | ⟨below, children, -, hs, hr, rfl⟩
      · exact FilterNode.admitted_range op condition ha hk
      · obtain ⟨rfl, hbelow⟩ := below?_eq_some_iff.mp hs
        have hj : scope = .columns → allowlist.HoldsJson field := by
          rintro rfl
          exact hbelow.resolve_left (by simp)
        obtain ⟨hne, hc⟩ := admitted_of_readEntry value children (by simp) hr
        exact FilterNode.admitted_path hne hc ha hj hk
    refine ⟨fun _ => List.cons_ne_nil _ _, ?_⟩
    intro n hn
    rcases List.mem_cons.mp hn with rfl | hn
    · exact hnode
    · exact hb n hn

end

theorem admitted_of_parse {limit : Nat} {raw : String} {f : Filter}
    (h : parse allowlist limit raw = .ok f) : ∀ n ∈ f.nodes, n.Admitted allowlist .columns := by
  obtain ⟨-, members, -, -, hs, hr⟩ := parse_eq_ok_iff.mp h
  exact (admitted_of_readEntries members f.nodes (fun _ => hs) hr).2

theorem allows_of_parse {limit : Nat} {raw : String} {f : Filter}
    (h : parse allowlist limit raw = .ok f) : ∀ l ∈ f.leaves, allowlist.Allows l.left.column := by
  intro l hl
  obtain ⟨n, hn, hc⟩ := List.mem_flatMap.mp (f.column_mem_of_mem_leaves hl)
  exact (admitted_of_parse h n hn).allows rfl _ hc

theorem notBarren_of_parse {limit : Nat} {raw : String} {f : Filter}
    (h : parse allowlist limit raw = .ok f) : ∀ n ∈ f.everywhere, ¬ n.IsBarren := by
  intro m hm
  obtain ⟨n, hn, hm⟩ := List.mem_flatMap.mp hm
  exact (admitted_of_parse h n hn).notBarren m hm

/-- No field gets past the allowlist, neither into a filter nor into the text of its predicate. -/
theorem parse_admits (allowlist : Allowlist) (limit : Nat) (raw : String) :
    (∀ f, parse allowlist limit raw = .ok f →
      (∀ column ∈ f.columns, allowlist.Allows column) ∧
      (∀ field children, .path field children ∈ f.atColumns → allowlist.HoldsJson field) ∧
      (∀ n ∈ f.everywhere, ¬ n.IsBarren) ∧
      ∀ n ∈ f.everywhere, ∀ field ∈ n.field?, Connective.ofKeyword? field = none) ∧
    ∀ p, compileText allowlist limit raw = .ok p → ∃ fragments, p.text = String.join fragments ∧
      ∀ s ∈ fragments, allowlist.Allows s ∨ s ∈ Predicate.fixedFragments := by
  have columns_allowed {f : Filter} (h : parse allowlist limit raw = .ok f) :
      ∀ column ∈ f.columns, allowlist.Allows column := by
    intro column hc
    obtain ⟨n, hn, hc⟩ := List.mem_flatMap.mp hc
    exact (admitted_of_parse h n hn).allows rfl column hc
  constructor
  · intro f h
    have ha := admitted_of_parse h
    refine ⟨columns_allowed h, ?_, ?_, ?_⟩
    · intro field children hm
      obtain ⟨n, hn, hm⟩ := List.mem_flatMap.mp hm
      exact (ha n hn).holdsJson rfl field children hm
    · intro m hm
      obtain ⟨n, hn, hm⟩ := List.mem_flatMap.mp hm
      exact (ha n hn).notBarren m hm
    · intro m hm
      obtain ⟨n, hn, hm⟩ := List.mem_flatMap.mp hm
      exact (ha n hn).noKeyword m hm
  · intro p h
    obtain ⟨f, hf, hp⟩ := bind_eq_ok_iff.mp h
    refine ⟨f.outline.flatMap Segment.fragments, ?_, ?_⟩
    · rw [(compile_eq_ok_iff.mp hp).1, Segment.textAll_eq_join]
    · intro t ht
      obtain ⟨s, hs, ht⟩ := List.mem_flatMap.mp ht
      rcases Segment.eq_column_or_mem_fixedFragments ht with ⟨l, hl, rfl⟩ | ht
      · left
        apply columns_allowed hf
        apply f.column_mem_of_mem_leaves
        rw [← f.leaves_outline]
        exact Segment.mem_leaves.mpr ⟨s, hs, hl⟩
      · exact .inr ht

/-- Check and reader enter a group whose keyword is in another case; a key is no fragment. -/
theorem parse_admits_below_keyword :
    let allowlist := (Allowlist.ofFields ["name"]).withJson ["metadata"]
    let raw :=
      "\x7b\"$OR\":\x7b\"name\":\"(\",\"metadata\":\x7b\"?\":\x7b\"in\":[\"a\"]\x7d\x7d\x7d\x7d"
    ∃ f, parse allowlist 65536 raw = .ok f ∧ (∀ column ∈ f.columns, allowlist.Allows column) ∧
      ∃ fragments, "(name = ? OR (metadata ->> ? IN (?)))" = String.join fragments ∧
        ∀ s ∈ fragments, allowlist.Allows s ∨ s ∈ Predicate.fixedFragments := by
  have hj : Json.parse
        "\x7b\"$OR\":\x7b\"name\":\"(\",\"metadata\":\x7b\"?\":\x7b\"in\":[\"a\"]\x7d\x7d\x7d\x7d" =
      .ok (.object [("$OR", .object [("name", .string "("),
        ("metadata", .object [("?", .object [("in", .array [.string "a"])])])])]) := by rfl
  intro allowlist raw
  have hf : parse allowlist 65536 raw = .ok
      { nodes := [.group .or [.equality "name" (.text "("),
          .path "metadata" [.range "?" .oneOf (.list [.string "a"])]]]
        nonempty := List.cons_ne_nil _ _ } := by
    have hor : Connective.ofKeyword? "$OR" = some .or := by decide
    have hname : Connective.ofKeyword? "name" = none := by decide
    have hmeta : Connective.ofKeyword? "metadata" = none := by decide
    have hkey : Connective.ofKeyword? "?" = none := by decide
    have hop : Operator.ofToken? "?" = none := by decide
    have hin : Operator.ofToken? "in" = some .oneOf := by decide
    have hbelow : Scope.below? .columns allowlist "metadata" = some .json := by decide
    apply parse_eq_ok_iff.mpr
    refine ⟨by decide, _, hj, by simp, ?_, ?_⟩
    · have : allowlist.Allows "name" ∧ allowlist.Allows "metadata" := by decide
      simp [strayFields, strayBelow, hor, hname, hmeta, this]
    · simp [readEntries, readEntry, readConditions, hor, hname, hmeta, hkey, hop, hin, hbelow]
      rfl
  obtain ⟨hp, hc⟩ := parse_admits allowlist 65536 raw
  refine ⟨_, hf, (hp _ hf).1, ?_⟩
  obtain ⟨fragments, hj, ha⟩ := hc _ (by rw [compileText, hf]; rfl)
  exact ⟨fragments, hj, ha⟩

end Filter

end SearchFilter
