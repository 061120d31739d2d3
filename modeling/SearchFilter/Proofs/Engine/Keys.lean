import SearchFilter.Proofs.Engine.Lookup
import SearchFilter.Proofs.Filter.Acceptance
import SearchFilter.Proofs.Predicate.Collecting
import SearchFilter.Proofs.Predicate.Tails
import SearchFilter.Proofs.Table.Labels

/-!
# Keys as labels

Keys are bound, and the engine looks members up by them. Main statement: the search for a text below
keys that are labels does not fail, its statement is the same for all of them, and it yields the
rows that have members of these names, one in the value of the other, with the text at the end. A
key that is a path to the engine leads to a member of another name, or ends the search.
-/

namespace SearchFilter

open Sql

/-- A value below keys, each of which stands alone. -/
def Json.nested : (keys : List String) → Json → Json
  | [], v => v
  | key :: keys, v => .object [(key, nested keys v)]

theorem Entity.allows_of_holdsJson (e : Entity) {field : String} (h : e.allowlist.HoldsJson field) :
    e.allowlist.Allows field := by
  have hs : ∀ f ∈ e.allowlist.jsonFields, f ∈ e.allowlist.fields := by
    cases e <;> decide
  exact hs field h

/-- The statement of the search for a text below so many keys of the metadata. -/
def Entity.nestedSql (e : Entity) (count : Nat) : String :=
  e.selectIds <|
    String.join (List.replicate count "(") ++
      Backend.sqlite.jsonText ("metadata" ++ Attribute.tailText (count - 1)) ++ " = ?" ++
        String.join (List.replicate count ")")

/-- A leaf at the end of a path stands between as many parentheses as there are steps. -/
def Leaf.enclosed (l : Leaf) (count : Nat) : List Segment :=
  List.replicate count .opening ++ .leaf l :: List.replicate count .closing

theorem Leaf.enclosed_succ (l : Leaf) (count : Nat) :
    l.enclosed (count + 1) = .opening :: l.enclosed count ++ [.closing] := by
  rw [enclosed, enclosed, List.replicate_succ, List.replicate_succ']
  simp

theorem Test.outline_nodeAt (t : Test) (column : String) (base : List String) (field : String)
    (keys : List String) :
    FilterNode.outline (column :: base) .and (t.nodeAt field keys) =
      Leaf.enclosed ⟨⟨column, base ++ field :: keys⟩, t⟩ keys.length := by
  induction keys generalizing base field with
  | nil => cases t <;> rfl
  | cons key keys ih =>
    have hbelow := ih (base ++ [field]) key
    rw [List.append_assoc, List.singleton_append, ← List.cons_append] at hbelow
    rw [nodeAt, FilterNode.outline, FilterNode.outlineEach_eq_map, List.map_singleton,
      Segment.join_singleton, hbelow, List.length_cons, Leaf.enclosed_succ]

theorem Leaf.outline_alone (l : Leaf) : l.alone.outline = l.enclosed l.left.keys.length := by
  obtain ⟨⟨column, keys⟩, t⟩ := l
  rw [Filter.outline, alone, FilterNode.outlineAll, FilterNode.outlineEach_eq_map,
    List.map_singleton, Segment.join_singleton]
  cases keys with
  | nil => cases t <;> rfl
  | cons key keys =>
    rw [Test.nodeAt, FilterNode.outline, FilterNode.outlineEach_eq_map, List.map_singleton,
      Segment.join_singleton, List.nil_append, t.outline_nodeAt, List.nil_append, List.length_cons,
      enclosed_succ]

theorem Leaf.writtenAll_enclosed (l : Leaf) (count : Nat) :
    Segment.writtenAll (l.enclosed count) =
      String.join (List.replicate count "(") ++ l.written ++
        String.join (List.replicate count ")") := by
  simp [Segment.writtenAll, enclosed, Segment.written, Segment.text, String.append_assoc]

theorem Leaf.values_enclosed (l : Leaf) (count : Nat) :
    ((l.enclosed count).flatMap Segment.boundTokens).filterMap Token.value? =
      l.boundTokens.filterMap Token.value? := by
  have hvalues (s : Segment) (h : s.boundTokens.filterMap Token.value? = []) :
      ((List.replicate count s).flatMap Segment.boundTokens).filterMap Token.value? = [] := by
    induction count with
    | zero => rfl
    | succ count ih =>
      rw [List.replicate_succ, List.flatMap_cons, List.filterMap_append, h, ih, List.append_nil]
  rw [enclosed, List.flatMap_append, List.flatMap_cons, List.filterMap_append,
    List.filterMap_append, hvalues .opening rfl, hvalues .closing rfl, List.nil_append,
    List.append_nil]
  rfl

namespace Filter

/-- The leaf of a text below keys of the metadata. -/
def metadataLeaf (keys : List String) (s : String) : Leaf :=
  ⟨⟨"metadata", keys⟩, .equal (.text s)⟩

variable {e : Entity} {keys : List String} {s : String}

theorem bound_metadataLeaf (hne : keys ≠ []) :
    (metadataLeaf keys s).bound = keyedComparison keys s := by
  cases keys with
  | nil => exact absurd rfl hne
  | cons key keys => rfl

theorem written_metadataLeaf (hne : keys ≠ []) :
    (metadataLeaf keys s).written =
      Backend.sqlite.jsonText ("metadata" ++ Attribute.tailText (keys.length - 1)) ++ " = ?" := by
  cases keys with
  | nil => exact absurd rfl hne
  | cons key keys =>
    have hexpr : (⟨"metadata", key :: keys⟩ : Attribute).expr =
        "metadata" ++ Attribute.tailText keys.length := by
      rw [← String.toList_inj, Attribute.expr, String.toList_ofList, String.toList_append,
        Attribute.toList_tailText]
      rfl
    rw [metadataLeaf, Leaf.written, Attribute.written, hexpr]
    rfl

theorem searchQuery_metadataLeaf (ha : e.allowlist.Allows "metadata") (hne : keys ≠ [])
    {p : Predicate} (hp : (metadataLeaf keys s).alone.compile = .ok p) :
    e.searchQuery .sqlite p = .ok ⟨e.nestedSql keys.length, keys ++ [s]⟩ := by
  have hn : ∀ l ∈ (metadataLeaf keys s).alone.leaves, IsColumnName l.left.column := by
    rw [Leaf.leaves_alone, List.forall_mem_singleton]
    exact e.isPlain_allowlist _ ha
  have hkeys : (metadataLeaf keys s).left.keys.length = keys.length := rfl
  have hvalues : (metadataLeaf keys s).boundTokens.filterMap Token.value? = keys ++ [s] := by
    rw [Leaf.boundTokens, List.filterMap_append, Attribute.filterMap_value?_boundTokens,
      Test.filterMap_value?_boundTokens]
    rfl
  rw [Entity.searchQuery, bind_of_compile e.allowlist hn hp, Leaf.outline_alone, hkeys,
    Leaf.writtenAll_enclosed, Leaf.values_enclosed, hvalues, written_metadataLeaf hne]
  simp [Except.map, Entity.nestedSql, String.append_assoc]

theorem nodesOf_nested {field : String} (hf : Connective.ofKeyword? field = none)
    {keys : List String} (h : ∀ key ∈ keys, IsPathKey key) (s : String) :
    nodesOf field (.nested keys (.string s)) = [(Test.equal (.text s)).nodeAt field keys] := by
  induction keys generalizing field with
  | nil => rw [Json.nested, nodesOf]; rfl
  | cons key keys ih =>
    rw [List.forall_mem_cons] at h
    rw [Json.nested, nodesOf, hf]
    simp only [nodesBelow, h.1.2, ih h.1.1 h.2, List.append_nil]
    rfl

theorem wellFormed_nested {allowlist : Allowlist} {keys : List String} {scope : Scope}
    {field : String} (hf : allowlist.IsField scope field)
    (hj : scope = .json ∨ allowlist.HoldsJson field) (h : ∀ key ∈ keys, IsPathKey key)
    (s : String) : WellFormed allowlist scope field (.nested keys (.string s)) := by
  induction keys generalizing scope field with
  | nil => exact .string s hf
  | cons key keys ih =>
    rw [List.forall_mem_cons] at h
    refine .conditions hf (List.cons_ne_nil _ _) ?_
    rw [List.forall_mem_singleton]
    have hrest := ih (h.1.isField allowlist) (.inl rfl) h.2
    exact .entry (Operator.ofToken?_eq_none_iff.mp h.1.2) hj hrest

theorem exists_compile_nested {e : Entity} (he : e.allowlist.HoldsJson "metadata") {limit : Nat}
    {raw : String} (hl : raw.utf8ByteSize ≤ limit) {keys : List String} {s : String}
    (hraw : Json.parse raw = .ok (.object [("metadata", .nested keys (.string s))]))
    (h : ∀ key ∈ keys, IsPathKey key) :
    ∃ p, (metadataLeaf keys s).alone.compile = .ok p ∧
      compileText e.allowlist limit raw = .ok p := by
  have hk : Connective.ofKeyword? "metadata" = none := by decide
  have hfield : e.allowlist.IsField .columns "metadata" :=
    ⟨Connective.ofKeyword?_eq_none_iff.mp hk, fun _ => e.allows_of_holdsJson he⟩
  have hw : ∀ m ∈ [("metadata", Json.nested keys (.string s))],
      WellFormed e.allowlist .columns m.1 m.2 := by
    rw [List.forall_mem_singleton]
    exact wellFormed_nested hfield (.inr he) h s
  obtain ⟨f, hf, hn⟩ := exists_ofMembers_of_wellFormed (List.cons_ne_nil _ _) hw
  have halone : f = (metadataLeaf keys s).alone := by
    obtain ⟨nodes, hne⟩ := f
    rw [nodesOfEntries, nodesOfEntries, List.append_nil, nodesOf_nested hk h] at hn
    cases hn
    rfl
  subst halone
  have hfits : ∀ l ∈ (metadataLeaf keys s).alone.leaves, l.test.Fits := by
    rw [Leaf.leaves_alone, List.forall_mem_singleton]
    trivial
  obtain ⟨p, hp⟩ := exists_compile_iff.mpr hfits
  refine ⟨p, hp, ?_⟩
  rw [compileText, parse_of_short hl hraw, hf]
  exact hp

section Search

variable {Row J : Type} {engine : Engine} {content : Content Row} {k : Lookup Row J} {limit : Nat}
  {raw : String}

/-- Where all lookups succeed, so does the search. It yields the rows that have the text where the
keys lead. -/
theorem exists_search_nested (he : e.allowlist.HoldsJson "metadata") (h : engine.Holds e content)
    (hk : engine.LooksUp e content k keys s) (hl : raw.utf8ByteSize ≤ limit) (hne : keys ≠ [])
    (hraw : Json.parse raw = .ok (.object [("metadata", .nested keys (.string s))]))
    (hkeys : ∀ key ∈ keys, IsPathKey key)
    (hfound : ∀ r ∈ content.rows, ∃ found, k.followAll keys (k.root r) = .ok found) :
    ∃ p ids, compileText e.allowlist limit raw = .ok p ∧
      e.searchQuery .sqlite p = .ok ⟨e.nestedSql keys.length, keys ++ [s]⟩ ∧
      e.search .sqlite engine p = .ok ids ∧
      ∀ id, id ∈ ids ↔ ∃ r ∈ content.rows, content.id r = id ∧
        ∃ w, k.followAll keys (k.root r) = .ok (some w) ∧ k.text w = some s := by
  have ha := e.allows_of_holdsJson he
  obtain ⟨p, halone, hp⟩ := exists_compile_nested he hl hraw hkeys
  obtain ⟨q, hq, hr⟩ := Leaf.exists_statement_alone (l := metadataLeaf keys s) ha halone
  rw [bound_metadataLeaf hne] at hr
  obtain ⟨ids, hids⟩ := hk.answers q hr hfound
  refine ⟨p, ids, hp, searchQuery_metadataLeaf ha hne halone,
    Engine.search_of_searchQuery hq hids, ?_⟩
  intro id
  rw [(h.selects q _ ids hr hids).mem_iff, content.mem_ids_iff]
  refine exists_congr fun r => and_congr_right fun hrow => and_congr_right fun _ => ?_
  obtain ⟨found, hf⟩ := hfound r hrow
  rw [Sql.Condition.eval, hk.decides r hrow found hf, hf]
  simp [Option.mem_def]

/-- The search for a text below keys that are labels does not fail. It yields the rows that have
members of these names, one in the value of the other, with the text at the end. -/
theorem search_nested (he : e.allowlist.HoldsJson "metadata") (h : engine.Holds e content)
    (hk : engine.LooksUp e content k keys s) (hl : raw.utf8ByteSize ≤ limit) (hne : keys ≠ [])
    (hraw : Json.parse raw = .ok (.object [("metadata", .nested keys (.string s))]))
    (hkeys : ∀ key ∈ keys, IsPathKey key) (hlabels : ∀ key ∈ keys, ¬ IsJsonPath key) :
    ∃ p ids, compileText e.allowlist limit raw = .ok p ∧
      e.searchQuery .sqlite p = .ok ⟨e.nestedSql keys.length, keys ++ [s]⟩ ∧
      e.search .sqlite engine p = .ok ids ∧
      ∀ id, id ∈ ids ↔ ∃ r ∈ content.rows, content.id r = id ∧
        ∃ w, k.followAll keys (k.root r) = .ok (some w) ∧ k.Leads keys (k.root r) w ∧
          k.text w = some s := by
  have hleads := fun r => k.exists_followAll (fun key hm => hk.labels key hm (hlabels key hm))
    (k.root r)
  obtain ⟨p, ids, hp, hq, hs, hids⟩ := exists_search_nested he h hk hl hne hraw hkeys
    fun r _ => (hleads r).imp fun found hf => hf.1
  refine ⟨p, ids, hp, hq, hs, ?_⟩
  intro id
  rw [hids]
  refine exists_congr fun r => and_congr_right fun _ => and_congr_right fun _ => ?_
  refine exists_congr fun w => and_congr_right fun hw => ?_
  obtain ⟨found, hf, hm⟩ := hleads r
  cases hf.symm.trans hw
  simp [hm w rfl]

end Search

/-- Points and empty brackets stand for themselves. -/
theorem search_nested_labels :
    let rows : Table.Rows :=
      ⟨[⟨1, [("metadata", .text "\x7b\"k.1\":\x7b\"[]\":\"x\"\x7d\x7d")]⟩,
        ⟨2, [("metadata", .text "\x7b\"k\":[0,[\"x\"]]\x7d")]⟩], by decide⟩
    let store : Table.Store := ⟨"", fun _ => rows⟩
    let raw := "\x7b\"metadata\":\x7b\"k.1\":\x7b\"[]\":\"x\"\x7d\x7d\x7d"
    ∃ p, compileText Entity.job.allowlist 65536 raw = .ok p ∧
      Entity.job.search .sqlite store.engine p = .ok [1] ∧
      ∀ id, id = 1 ↔ ∃ r ∈ rows.toList, r.id = id ∧
        ∃ w, Table.lookup.followAll ["k.1", "[]"] (Table.lookup.root r) = .ok (some w) ∧
          Table.lookup.Leads ["k.1", "[]"] (Table.lookup.root r) w ∧
            Table.lookup.text w = some "x" := by
  intro rows store raw
  have hraw : Json.parse raw =
      .ok (.object [("metadata", .nested ["k.1", "[]"] (.string "x"))]) := by
    simp only [Json.parse, raw, String.reduceToList]
    rfl
  have he : Entity.job.allowlist.HoldsJson "metadata" := by decide
  have hrows : ∀ r ∈ (store.rows .job).toList, r.metadata?.isSome := by decide +kernel
  have hkeys : ∀ key ∈ ["k.1", "[]"], IsPathKey key := by decide
  have hnone : ∀ key ∈ ["k.1", "[]"], ¬ IsJsonPath key := by decide
  have hlabels : ∀ key ∈ ["k.1", "[]"], ¬ IsJsonPath key → Table.IsLabel key := by decide
  have hk : store.engine.LooksUp .job (store.content .job) Table.lookup ["k.1", "[]"] "x" :=
    Table.Store.looksUp he hrows (by decide) hlabels
  have hl : raw.utf8ByteSize ≤ 65536 := by decide
  obtain ⟨p, ids, hp, -, hs, hids⟩ :=
    search_nested he (store.holds .job) hk hl (by simp) hraw hkeys hnone
  have hone : (compileText Entity.job.allowlist 65536 raw).toOption.map
      (Entity.job.search .sqlite store.engine) = some (.ok [1]) := by
    decide +kernel
  rw [hp, Except.toOption, Option.map_some, hs] at hone
  cases hone
  exact ⟨p, hp, hs, fun id => List.mem_singleton.symm.trans (hids id)⟩

/-- Behind a dollar sign a key is a path: one leads to a member of another name, and one that is no
path ends the search. -/
theorem search_nested_dollar :
    let rows : Table.Rows := ⟨[⟨1, [("metadata", .text "\x7b\"a\":\"x\"\x7d")]⟩], by decide⟩
    let store : Table.Store := ⟨"", fun _ => rows⟩
    let search (raw : String) : Option (Except DataError (List Int)) :=
      (compileText Entity.job.allowlist 65536 raw).toOption.map
        (Entity.job.search .sqlite store.engine)
    search "\x7b\"metadata\":\x7b\"$.a\":\"x\"\x7d\x7d" = some (.ok [1]) ∧
      (∀ r ∈ rows.toList, ∀ m ∈ Table.lookup.members (Table.lookup.root r), m.1 ≠ "$.a") ∧
      search "\x7b\"metadata\":\x7b\"$a\":\"x\"\x7d\x7d" =
        some (.error (.database .sqlite .rejected)) := by
  decide +kernel

end Filter

end SearchFilter
