import SearchFilter.Proofs.Filter.Places
import SearchFilter.Proofs.Json.Names

/-!
# Documents back from their nodes

An entry with several conditions becomes several nodes in a row, and a key below a field becomes a
path with the nodes of one entry. The document is put together again from the nodes, its keywords in
small letters. Main statement: documents that are accepted have the same nodes exactly if they
differ in the case of keywords at most.
-/

namespace SearchFilter

def Scalar.json : Scalar → Json
  | .text s => .string s
  | .number n => .number n

/-- A condition as it was written. -/
def Condition.json : Condition → Json
  | .scalar value => value.json
  | .list items => .array items
  | .map members => .object members

theorem Condition.json_of_ofJson {value : Json} {condition : Condition}
    (h : ofJson value = .ok condition) : condition.json = value := by
  cases value <;> cases h <;> rfl

theorem Scalar.json_of_ofJson? {value : Json} {literal : Scalar}
    (h : ofJson? value = some literal) : literal.json = value := by
  cases value <;> cases h <;> rfl

namespace Filter

/-- A keyword in small letters, any other key as it is. -/
def loweredKey (key : String) : String :=
  match Connective.ofKeyword? key with
  | some c => c.keyword
  | none => key

mutual

/-- The value of an entry with the keywords in it in small letters. -/
def lowered (key : String) : Json → Json
  | .object members =>
    match Connective.ofKeyword? key with
    | some _ => .object (loweredEntries members)
    | none => .object (loweredBelow members)
  | value => value

def loweredEntries : List (String × Json) → List (String × Json)
  | [] => []
  | (key, value) :: rest => (loweredKey key, lowered key value) :: loweredEntries rest

/-- The members of a field's value. The conditions of operators stay as they are. -/
def loweredBelow : List (String × Json) → List (String × Json)
  | [] => []
  | (key, value) :: rest =>
    (match Operator.ofToken? key with
      | some _ => (key, value)
      | none => (loweredKey key, lowered key value)) :: loweredBelow rest

end

/-- Puts an entry in front of others. It is joined with the first of them if both are conditions of
one field. -/
def joinEntry : String × Json → List (String × Json) → List (String × Json)
  | (key, .object members), (next, .object others) :: rest =>
    if key = next ∧ Connective.ofKeyword? key = none then (key, .object (members ++ others)) :: rest
    else (key, .object members) :: (next, .object others) :: rest
  | entry, rest => entry :: rest

mutual

/-- The entry of a single node. -/
def entryOf : FilterNode → String × Json
  | .equality field value => (field, value.json)
  | .range field op condition => (field, .object [(op.token, condition.json)])
  | .path field children => (field, .object (entriesOf children))
  | .group c children => (c.keyword, .object (entriesOf children))

/-- The entries that nodes are read from. -/
def entriesOf : List FilterNode → List (String × Json)
  | [] => []
  | n :: rest => joinEntry (entryOf n) (entriesOf rest)

end

section Joining

variable {key : String} {value : Json} {members others : List (String × Json)}
  {rest : List (String × Json)}

theorem joinEntry_of_ne (h : ∀ e ∈ rest.head?, e.1 ≠ key) :
    joinEntry (key, value) rest = (key, value) :: rest := by
  unfold joinEntry
  split
  · rename_i he
    cases he
    have : ¬ key = _ := fun hk => h _ rfl hk.symm
    rw [if_neg fun hk => this hk.1]
  · rfl

theorem joinEntry_of_keyword {c : Connective} (h : Connective.ofKeyword? key = some c) :
    joinEntry (key, value) rest = (key, value) :: rest := by
  unfold joinEntry
  split
  · rename_i he
    cases he
    rw [if_neg fun hk => by rw [h] at hk; cases hk.2]
  · rfl

theorem joinEntry_same (h : Connective.ofKeyword? key = none) :
    joinEntry (key, .object members) ((key, .object others) :: rest) =
      (key, .object (members ++ others)) :: rest := by
  rw [joinEntry, if_pos ⟨rfl, h⟩]

end Joining

theorem loweredKey_of_none {key : String} (h : Connective.ofKeyword? key = none) :
    loweredKey key = key := by
  rw [loweredKey, h]

theorem loweredKey_of_some {key : String} {c : Connective}
    (h : Connective.ofKeyword? key = some c) : loweredKey key = c.keyword := by
  rw [loweredKey, h]

@[simp] theorem ofKeyword?_loweredKey (key : String) :
    Connective.ofKeyword? (loweredKey key) = Connective.ofKeyword? key := by
  cases hk : Connective.ofKeyword? key with
  | none => rw [loweredKey_of_none hk, hk]
  | some c => rw [loweredKey_of_some hk, Connective.ofKeyword?_keyword]

theorem ne_of_mem_head?_loweredEntries {field : String} {members : List (String × Json)}
    (hf : Connective.ofKeyword? field = none) (hn : field ∉ Json.names members) :
    ∀ e ∈ (loweredEntries members).head?, e.1 ≠ field := by
  cases members with
  | nil => simp [loweredEntries]
  | cons m rest =>
    obtain ⟨key, value⟩ := m
    rintro e he rfl
    rw [loweredEntries, List.head?_cons, Option.mem_some_iff] at he
    rw [← he] at hf hn
    rw [ofKeyword?_loweredKey] at hf
    rw [loweredKey_of_none hf] at hn
    exact hn List.mem_cons_self

theorem ofToken?_loweredKey {key : String} (ho : Operator.ofToken? key = none) :
    Operator.ofToken? (loweredKey key) = none := by
  cases hk : Connective.ofKeyword? key with
  | none => rwa [loweredKey_of_none hk]
  | some c =>
    rw [loweredKey_of_some hk]
    cases c <;> decide

section Literals

variable {allowlist : Allowlist} {scope : Scope} {key : String} {value : Json} {literal : Scalar}

theorem lowered_of_literal (h : Scalar.ofJson? value = some literal) :
    lowered key value = literal.json := by
  cases value <;> cases h <;> rw [lowered] <;> simp [Scalar.json]

theorem entriesOf_append_of_not_object {tail : List FilterNode}
    (hw : WellFormed allowlist scope key value) (ho : ∀ members, value ≠ .object members)
    (ht : Connective.ofKeyword? key = none → ∀ e ∈ (entriesOf tail).head?, e.1 ≠ key) :
    entriesOf (nodesOf key value ++ tail) =
      (loweredKey key, lowered key value) :: entriesOf tail := by
  obtain ⟨literal, hl, hk⟩ := exists_literal_of_not_object hw ho
  rw [nodesOf_of_literal hl, lowered_of_literal hl, loweredKey_of_none hk, List.singleton_append,
    entriesOf, entryOf]
  exact joinEntry_of_ne (ht hk)

end Literals

theorem entriesOf_node_cons {field : String} {node : FilterNode} {m : String × Json}
    {rest : List (String × Json)} {tail : List FilterNode}
    (hf : Connective.ofKeyword? field = none) (hm : entryOf node = (field, .object [m]))
    (hr : rest ≠ [] → entriesOf (nodesBelow field rest ++ tail) =
      (field, .object (loweredBelow rest)) :: entriesOf tail)
    (ht : ∀ e ∈ (entriesOf tail).head?, e.1 ≠ field) :
    entriesOf (node :: (nodesBelow field rest ++ tail)) =
      (field, .object (m :: loweredBelow rest)) :: entriesOf tail := by
  rw [entriesOf, hm]
  by_cases h : rest = []
  · rw [h, nodesBelow, List.nil_append, loweredBelow]
    exact joinEntry_of_ne ht
  · rw [hr h, joinEntry_same hf]
    rfl

variable {allowlist : Allowlist}

mutual

/-- An entry is put together again from its nodes, whatever nodes of other entries stand behind. -/
theorem entriesOf_nodesOf_append {scope : Scope} {key : String} : (value : Json) →
    WellFormed allowlist scope key value → value.Distinct → ∀ tail : List FilterNode,
      (Connective.ofKeyword? key = none → ∀ e ∈ (entriesOf tail).head?, e.1 ≠ key) →
      entriesOf (nodesOf key value ++ tail) = (loweredKey key, lowered key value) :: entriesOf tail
  | .object members => by
    intro hw hd tail ht
    cases hd with
    | object hn hd =>
      cases hk : Connective.ofKeyword? key with
      | some c =>
        obtain ⟨-, hw⟩ := (wellFormed_group_iff hk).mp hw
        rw [nodesOf, hk, lowered, hk, loweredKey_of_some hk, List.singleton_append, entriesOf,
          entryOf, entriesOf_nodesOfEntries members hw hd hn]
        exact joinEntry_of_keyword (Connective.ofKeyword?_keyword c)
      | none =>
        obtain ⟨-, hne, hw⟩ := (wellFormed_conditions_iff hk).mp hw
        rw [nodesOf, hk, lowered, hk, loweredKey_of_none hk]
        exact entriesOf_nodesBelow_append hk members hw hd tail (ht hk) hne
  | .string _ | .number _ | .array _ | .bool _ | .null => fun hw _ _ ht =>
    entriesOf_append_of_not_object hw (by simp) ht

theorem entriesOf_nodesOfEntries {scope : Scope} : (members : List (String × Json)) →
    (∀ m ∈ members, WellFormed allowlist scope m.1 m.2) → (∀ m ∈ members, m.2.Distinct) →
      (Json.names members).Nodup → entriesOf (nodesOfEntries members) = loweredEntries members
  | [] => fun _ _ _ => by rw [nodesOfEntries, entriesOf, loweredEntries]
  | (key, value) :: rest => by
    intro hw hd hn
    obtain ⟨hw, hws⟩ := List.forall_mem_cons.mp hw
    obtain ⟨hd, hds⟩ := List.forall_mem_cons.mp hd
    obtain ⟨hkey, hn⟩ := List.nodup_cons.mp hn
    have hr := entriesOf_nodesOfEntries rest hws hds hn
    rw [nodesOfEntries, loweredEntries, ← hr]
    apply entriesOf_nodesOf_append value hw hd
    intro hk
    rw [hr]
    exact ne_of_mem_head?_loweredEntries hk hkey

theorem entriesOf_nodesBelow_append {scope : Scope} {field : String}
    (hf : Connective.ofKeyword? field = none) : (members : List (String × Json)) →
    (∀ m ∈ members, WellFormedBelow allowlist scope field m.1 m.2) →
      (∀ m ∈ members, m.2.Distinct) → ∀ tail : List FilterNode,
      (∀ e ∈ (entriesOf tail).head?, e.1 ≠ field) → members ≠ [] →
      entriesOf (nodesBelow field members ++ tail) =
        (field, .object (loweredBelow members)) :: entriesOf tail
  | [] => fun _ _ _ _ hne => absurd rfl hne
  | (key, value) :: rest => by
    intro hw hd tail ht _
    obtain ⟨hw, hws⟩ := List.forall_mem_cons.mp hw
    obtain ⟨hd, hds⟩ := List.forall_mem_cons.mp hd
    have hr := entriesOf_nodesBelow_append hf rest hws hds tail ht
    cases ho : Operator.ofToken? key with
    | some op =>
      obtain ⟨condition, hc⟩ := (wellFormedBelow_operator_iff ho).mp hw
      have hm : entryOf (.range field op condition) = (field, .object [(key, value)]) := by
        rw [entryOf, Condition.json_of_ofJson hc, Operator.ofToken?_eq_some_iff.mp ho]
      rw [nodesBelow, ho, hc, loweredBelow, ho]
      exact entriesOf_node_cons hf hm hr ht
    | none =>
      obtain ⟨-, hw⟩ := (wellFormedBelow_entry_iff ho).mp hw
      have hm : entryOf (.path field (nodesOf key value)) =
          (field, .object [(loweredKey key, lowered key value)]) := by
        have h := entriesOf_nodesOf_append value hw hd [] (by simp [entriesOf])
        rw [List.append_nil, entriesOf] at h
        rw [entryOf, h]
      rw [nodesBelow, ho, loweredBelow, ho]
      exact entriesOf_node_cons hf hm hr ht

end

mutual

/-- The case of keywords makes no difference to the nodes. -/
theorem nodesOf_lowered {scope : Scope} {key : String} : (value : Json) →
    WellFormed allowlist scope key value →
      nodesOf (loweredKey key) (lowered key value) = nodesOf key value
  | .object members => by
    intro hw
    cases hk : Connective.ofKeyword? key with
    | some c =>
      obtain ⟨-, hw⟩ := (wellFormed_group_iff hk).mp hw
      rw [lowered, hk, nodesOf, nodesOf, ofKeyword?_loweredKey, hk,
        nodesOfEntries_lowered members hw]
    | none =>
      obtain ⟨-, -, hw⟩ := (wellFormed_conditions_iff hk).mp hw
      rw [lowered, hk, nodesOf, nodesOf, ofKeyword?_loweredKey, hk, loweredKey_of_none hk]
      exact nodesBelow_lowered members hw
  | .string _ | .number _ | .array _ | .bool _ | .null => fun hw => by
    obtain ⟨literal, hl, hk⟩ := exists_literal_of_not_object hw (by simp)
    rw [lowered_of_literal hl, loweredKey_of_none hk, Scalar.json_of_ofJson? hl]

theorem nodesOfEntries_lowered {scope : Scope} : (members : List (String × Json)) →
    (∀ m ∈ members, WellFormed allowlist scope m.1 m.2) →
      nodesOfEntries (loweredEntries members) = nodesOfEntries members
  | [] => fun _ => by rw [loweredEntries]
  | (key, value) :: rest => by
    intro hw
    obtain ⟨hw, hws⟩ := List.forall_mem_cons.mp hw
    rw [loweredEntries, nodesOfEntries, nodesOfEntries, nodesOf_lowered value hw,
      nodesOfEntries_lowered rest hws]

theorem nodesBelow_lowered {scope : Scope} {field : String} : (members : List (String × Json)) →
    (∀ m ∈ members, WellFormedBelow allowlist scope field m.1 m.2) →
      nodesBelow field (loweredBelow members) = nodesBelow field members
  | [] => fun _ => by rw [loweredBelow]
  | (key, value) :: rest => by
    intro hw
    obtain ⟨hw, hws⟩ := List.forall_mem_cons.mp hw
    have hr := nodesBelow_lowered rest hws
    cases ho : Operator.ofToken? key with
    | some op => rw [loweredBelow, ho, nodesBelow, nodesBelow, hr]
    | none =>
      obtain ⟨-, hw⟩ := (wellFormedBelow_entry_iff ho).mp hw
      rw [loweredBelow, ho, nodesBelow, nodesBelow, hr, ho, ofToken?_loweredKey ho,
        nodesOf_lowered value hw]

end

variable {limit limit' : Nat} {raw raw' : String} {f f' : Filter}
  {members members' : List (String × Json)}

theorem rebuild_of_parse (h : parse allowlist limit raw = .ok f)
    (hj : Json.parse raw = .ok (.object members)) :
    entriesOf f.nodes = loweredEntries members ∧
      nodesOfEntries (loweredEntries members) = f.nodes := by
  obtain ⟨-, members', hj', -, hs, hr⟩ := parse_eq_ok_iff.mp h
  cases hj.symm.trans hj'
  obtain ⟨hw, hn⟩ := (readEntries_iff_wellFormed members f.nodes).mp ⟨hr, fun _ => hs⟩
  obtain ⟨nodup, each⟩ : (Json.names members).Nodup ∧ ∀ m ∈ members, m.2.Distinct := by
    cases Json.distinct_of_parse hj with
    | object nodup each => exact ⟨nodup, each⟩
  rw [hn]
  exact ⟨entriesOf_nodesOfEntries members hw each nodup, nodesOfEntries_lowered members hw⟩

/-- Accepted documents have the same nodes exactly if they differ in the case of keywords at most,
and each of them is put together again from its nodes but for that case. -/
theorem nodes_eq_iff_of_parse (h : parse allowlist limit raw = .ok f)
    (h' : parse allowlist limit' raw' = .ok f') (hj : Json.parse raw = .ok (.object members))
    (hj' : Json.parse raw' = .ok (.object members')) :
    (f.nodes = f'.nodes ↔ loweredEntries members = loweredEntries members') ∧
      entriesOf f.nodes = loweredEntries members := by
  obtain ⟨he, hn⟩ := rebuild_of_parse h hj
  obtain ⟨he', hn'⟩ := rebuild_of_parse h' hj'
  refine ⟨⟨?_, ?_⟩, he⟩
  · intro h
    rw [← he, h, he']
  · intro h
    rw [← hn, h, hn']

/-- Keywords in other cases, of a group and below a column, leave the nodes as they are. What looks
like a keyword in a condition stays as it was written. -/
theorem nodes_eq_iff_of_parse_cases :
    let allowlist := (Allowlist.ofFields ["name"]).withJson ["m"]
    let raw := "\x7b\"$OR\":\x7b\"name\":\x7b\"gt\":1,\"in\":\x7b\"$AND\":[]\x7d\x7d,\"m\":" ++
      "\x7b\"$And\":\x7b\"in\":\"x\"\x7d\x7d\x7d\x7d"
    let raw' := "\x7b\"$or\":\x7b\"name\":\x7b\"gt\":1,\"in\":\x7b\"$AND\":[]\x7d\x7d,\"m\":" ++
      "\x7b\"$aND\":\x7b\"in\":\"x\"\x7d\x7d\x7d\x7d"
    ∃ f f', parse allowlist 65536 raw = .ok f ∧ parse allowlist 65536 raw' = .ok f' ∧
      f.nodes = f'.nodes ∧ entriesOf f.nodes = [("$or", .object [
        ("name", .object [("gt", .number (.natural 1)), ("in", .object [("$AND", .array [])])]),
        ("m", .object [("$and", .object [("in", .string "x")])])])] := by
  intro allowlist raw raw'
  have hj : Json.parse raw = .ok (.object [("$OR", .object [
      ("name", .object [("gt", .number (.natural 1)), ("in", .object [("$AND", .array [])])]),
      ("m", .object [("$And", .object [("in", .string "x")])])])]) := by
    rw [Json.parse, String.toList_append]
    rfl
  have hj' : Json.parse raw' = .ok (.object [("$or", .object [
      ("name", .object [("gt", .number (.natural 1)), ("in", .object [("$AND", .array [])])]),
      ("m", .object [("$aND", .object [("in", .string "x")])])])]) := by
    rw [Json.parse, String.toList_append]
    rfl
  have hf : ∃ f, parse allowlist 65536 raw = .ok f := by
    rw [parse_of_short (by decide) hj]
    exact (exists_ofMembers (by simp) (by decide) (by decide)).imp fun _ h => h.1
  have hf' : ∃ f, parse allowlist 65536 raw' = .ok f := by
    rw [parse_of_short (by decide) hj']
    exact (exists_ofMembers (by simp) (by decide) (by decide)).imp fun _ h => h.1
  obtain ⟨f, hf⟩ := hf
  obtain ⟨f', hf'⟩ := hf'
  obtain ⟨hiff, he⟩ := nodes_eq_iff_of_parse hf hf' hj hj'
  refine ⟨f, f', hf, hf', hiff.mpr (by rfl), ?_⟩
  rw [he]
  rfl

end Filter

end SearchFilter
