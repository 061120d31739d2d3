import SearchFilter.Proofs.Engine.Content
import SearchFilter.Proofs.Filter.Admission
import SearchFilter.Proofs.Predicate.Collecting
import SearchFilter.Proofs.Table.Content

/-!
# The result of a search

A leaf has the rows that its own search yields, which is the search of the filter with this leaf and
nothing else. Main statement: the search of a filter that was read for an entity yields the rows
that the filter has by those of its leaves, in ascending order and each once, whatever the table
holds, if the engine rejects none of these statements.
-/

namespace SearchFilter.Filter

open Sql

variable {Row : Type} {engine : Engine} {e : Entity} {content : Content Row} {f : Filter}
  {p : Predicate}

theorem exists_compile_alone (hp : f.compile = .ok p) {l : Leaf} (hl : l ∈ f.leaves) :
    ∃ p, l.alone.compile = .ok p := by
  apply exists_compile_iff.mpr
  rw [l.leaves_alone, List.forall_mem_singleton]
  exact exists_compile_iff.mp ⟨p, hp⟩ l hl

theorem exists_row_of_mem_rows (hb : ∀ n ∈ f.everywhere, ¬ n.IsBarren)
    (ha : ∀ l ∈ f.leaves, e.allowlist.Allows l.left.column) (hp : f.compile = .ok p)
    (hl : ∀ l ∈ f.leaves, ∀ id ∈ engine.leafRows e l, id ∈ content.rows.map content.id) {id : Int}
    (h : id ∈ f.rows (engine.leafRows e)) : id ∈ content.rows.map content.id := by
  obtain ⟨-, c, -, -, -, hv⟩ := exists_statement hb ha hp
  by_contra hr
  have hno : ∀ l ∈ f.leaves, Truth.no = .yes ↔ id ∈ engine.leafRows e l := by
    intro l hm
    constructor
    · intro h
      cases h
    · intro hid
      exact absurd (hl l hm id hid) hr
  have hy := (hv (fun _ => .no) (engine.leafRows e) id hno).mpr h
  rw [c.eval_no] at hy
  cases hy

/-- The search of a filter yields the rows of the filter, as the searches of its leaves tell them,
ascending and each once. -/
theorem search_eq_rows (h : engine.Holds e content) {limit : Nat} {raw : String}
    (hf : parse e.allowlist limit raw = .ok f) (hp : f.compile = .ok p)
    (hacc : engine.Accepts e f) (hl : ∀ l ∈ f.leaves, engine.Accepts e l.alone) :
    ∃ ids, e.search .sqlite engine p = .ok ids ∧ ids.Pairwise (· < ·) ∧
      ∀ id, id ∈ ids ↔ id ∈ f.rows (engine.leafRows e) := by
  have ha := allows_of_parse hf
  have hb := notBarren_of_parse hf
  have hleaf : ∀ l ∈ f.leaves, ∀ id, id ∈ engine.leafRows e l ↔
      id ∈ content.ids (.compare l.bound) := by
    intro l hm id
    obtain ⟨p', hp'⟩ := exists_compile_alone hp hm
    exact h.mem_leafRows_iff (ha l hm) hp' (hl l hm)
  obtain ⟨ids, c, hs, hlt, hm, hv⟩ := h.exists_search hb ha hp hacc
  have hrow : ∀ r ∈ content.rows,
      (c.eval (content.truth r) = .yes ↔ content.id r ∈ f.rows (engine.leafRows e)) := by
    intro r hr
    apply hv
    intro l hm
    rw [hleaf l hm, content.id_mem_ids_iff hr]
    rfl
  refine ⟨ids, hs, hlt, ?_⟩
  intro id
  rw [hm]
  constructor
  · intro hid
    obtain ⟨r, hr, rfl, ht⟩ := content.mem_ids_iff.mp hid
    exact (hrow r hr).mp ht
  · intro hid
    have hin : ∀ l ∈ f.leaves, ∀ id ∈ engine.leafRows e l, id ∈ content.rows.map content.id := by
      intro l hm id hid
      obtain ⟨r, hr, hrid, -⟩ := content.mem_ids_iff.mp ((hleaf l hm id).mp hid)
      exact List.mem_map.mpr ⟨r, hr, hrid⟩
    obtain ⟨r, hr, rfl⟩ := List.mem_map.mp (exists_row_of_mem_rows hb ha hp hin hid)
    exact (content.id_mem_ids_iff hr).mpr ((hrow r hr).mpr hid)

/-- A path within a group takes over its connective; no name is in a list without items. -/
theorem search_eq_rows_alternatives :
    let rows : Table.Rows := ⟨[⟨1, [("metadata", .text "\x7b\"k\":\"b\"\x7d")]⟩,
      ⟨2, [("metadata", .text "\x7b\"k\":\"b\"\x7d")]⟩,
      ⟨3, [("metadata", .text "\x7b\"k\":\"Y\"\x7d")]⟩, ⟨4, [("metadata", .null)]⟩], by decide⟩
    let store : Table.Store := ⟨"", fun _ => rows⟩
    let raw := "\x7b\"id\":\x7b\"gt\":\"1\"\x7d,\"$or\":\x7b\"name\":\x7b\"in\":[]\x7d," ++
      "\"metadata\":\x7b\"k\":\x7b\"gt\":\"a\",\"lt\":\"Z\"\x7d\x7d\x7d\x7d"
    ∃ f, parse Entity.job.allowlist 65536 raw = .ok f ∧
      ∀ id, id ∈ f.rows (store.engine.leafRows .job) ↔ id = 2 ∨ id = 3 := by
  intro rows store raw
  have hj : Json.parse raw = .ok (.object [("id", .object [("gt", .string "1")]),
      ("$or", .object [("name", .object [("in", .array [])]),
        ("metadata", .object [("k", .object [("gt", .string "a"), ("lt", .string "Z")])])])]) := by
    rw [Json.parse, String.toList_append]
    rfl
  let f : Filter := {
    nodes := [.range "id" .greater (.scalar (.text "1")),
      .group .or [.range "name" .oneOf (.list []),
        .path "metadata" [.range "k" .greater (.scalar (.text "a")),
          .range "k" .less (.scalar (.text "Z"))]]]
    nonempty := List.cons_ne_nil _ _ }
  have hf : parse Entity.job.allowlist 65536 raw = .ok f := by
    have hkeys : ["id", "name", "metadata", "k"].map Connective.ofKeyword? =
        List.replicate 4 none := by decide
    have htokens : ["in", "gt", "lt", "k"].map Operator.ofToken? =
        [some .oneOf, some .greater, some .less, none] := by decide
    have hor : Connective.ofKeyword? "$or" = some .or := by decide
    have hbelow : Scope.below? .columns Entity.job.allowlist "metadata" = some .json := by decide
    have hallowed : Entity.job.allowlist.Allows "id" ∧ Entity.job.allowlist.Allows "name" ∧
        Entity.job.allowlist.Allows "metadata" := by decide
    simp only [List.map_cons, List.map_nil, List.replicate_succ, List.replicate_zero,
      List.cons.injEq, and_true] at hkeys htokens
    apply parse_eq_ok_iff.mpr
    refine ⟨by decide, _, hj, by simp, ?_, ?_⟩
    · simp [strayFields, strayBelow, hor, hkeys, hallowed]
    · simp [readEntries, readEntry, readConditions, hor, hkeys, htokens, hbelow]
      rfl
  have hfound : store.engine.found? .job f = some [2, 3] := by
    decide +kernel
  have hleaf : ∀ l ∈ f.leaves, (store.engine.found? .job l.alone).isSome := by
    decide +kernel
  have hl : ∀ l ∈ f.leaves, store.engine.Accepts .job l.alone := by
    intro l hm
    obtain ⟨ids, hids⟩ := Option.isSome_iff_exists.mp (hleaf l hm)
    exact Engine.accepts_of_found? hids
  obtain ⟨p, hp, hs⟩ := Engine.found?_eq_some_iff.mp hfound
  obtain ⟨ids, hs', -, hids⟩ :=
    search_eq_rows (store.holds .job) hf hp (Engine.accepts_of_found? hfound) hl
  cases hs.symm.trans hs'
  refine ⟨f, hf, ?_⟩
  intro id
  rw [← hids]
  simp

end SearchFilter.Filter
