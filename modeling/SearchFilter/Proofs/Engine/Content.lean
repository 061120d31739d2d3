import Mathlib.Data.List.Nodup
import SearchFilter.Proofs.Except
import SearchFilter.Proofs.Filter.Alone
import SearchFilter.Proofs.Statement.Rows
import SearchFilter.Statement.Engine

/-!
# Engines that hold a table

What is assumed of an engine: the rows of a table have ids of their own, every comparison has a
value in every row, and a statement yields the ids of the rows in which its condition is true, in
ascending order. Which values comparisons have is left open, and so is which statements are
rejected. Main statement: the search of a leaf alone yields the rows in which the comparison of the
leaf is true.
-/

namespace SearchFilter

open Sql

/-- What searches can tell of a table. -/
structure Content (Row : Type) where
  rows : List Row
  id : Row → Int
  distinct : (rows.map id).Nodup
  /-- The value of a comparison in a row. -/
  truth : Row → Comparison String → Truth

namespace Content

variable {Row : Type} (content : Content Row)

/-- The ids of the rows in which a condition is true. -/
def ids (c : Sql.Condition String) : List Int :=
  (content.rows.filter fun r => c.eval (content.truth r) = .yes).map content.id

theorem mem_ids_iff {c : Sql.Condition String} {id : Int} : id ∈ content.ids c ↔
    ∃ r ∈ content.rows, content.id r = id ∧ c.eval (content.truth r) = .yes := by
  simp only [ids, List.mem_map, List.mem_filter, decide_eq_true_eq]
  constructor
  · rintro ⟨r, ⟨hr, ht⟩, hid⟩
    exact ⟨r, hr, hid, ht⟩
  · rintro ⟨r, hr, hid, ht⟩
    exact ⟨r, ⟨hr, ht⟩, hid⟩

theorem id_mem_ids_iff {c : Sql.Condition String} {r : Row} (hr : r ∈ content.rows) :
    content.id r ∈ content.ids c ↔ c.eval (content.truth r) = .yes := by
  rw [mem_ids_iff]
  constructor
  · rintro ⟨s, hs, hid, ht⟩
    rwa [← List.inj_on_of_nodup_map content.distinct hs hr hid]
  · intro ht
    exact ⟨r, hr, rfl, ht⟩

theorem nodup_ids (c : Sql.Condition String) : (content.ids c).Nodup :=
  content.distinct.sublist (List.filter_sublist.map content.id)

end Content

theorem Leaf.exists_statement_alone {e : Entity} {l : Leaf} {p : Predicate}
    (ha : e.allowlist.Allows l.left.column) (hp : l.alone.compile = .ok p) :
    ∃ q, e.searchQuery .sqlite p = .ok q ∧
      Statement.read? q = some ⟨e.table, .compare l.bound⟩ := by
  have hall : ∀ m ∈ l.alone.leaves, e.allowlist.Allows m.left.column := by
    rwa [l.leaves_alone, List.forall_mem_singleton]
  obtain ⟨q, c, hq, hr, hc, -⟩ := Filter.exists_statement l.not_isBarren_of_mem_alone hall hp
  rw [l.leaves_alone] at hc
  rw [Sql.Condition.eq_compare_of_comparisons hc] at hr
  exact ⟨q, hq, hr⟩

namespace Engine

variable {Row : Type}

/-- The engine holds the content in the table of an entity. Conditions are read with `AND` binding
tighter than `OR`, and have the values of three-valued logic. Nothing is said of statements that the
engine rejects. -/
structure Holds (engine : Engine) (e : Entity) (content : Content Row) : Prop where
  selects : ∀ q c ids, Statement.read? q = some ⟨e.table, c⟩ → engine q = .ok ids →
    ids.Perm (content.ids c)
  /-- Statements end in `ORDER BY id`. -/
  ordered : ∀ q c ids, Statement.read? q = some ⟨e.table, c⟩ → engine q = .ok ids →
    ids.Pairwise (· ≤ ·)

/-- The engine does not reject the statement of a filter. -/
def Accepts (engine : Engine) (e : Entity) (f : Filter) : Prop :=
  ∀ p q, f.compile = .ok p → e.searchQuery .sqlite p = .ok q → ∃ ids, engine q = .ok ids

/-- What the search of a filter yields, if nothing goes wrong. -/
def found? (engine : Engine) (e : Entity) (f : Filter) : Option (List Int) := do
  let p ← f.compile.toOption
  (e.search .sqlite engine p).toOption

/-- The rows that the search of a leaf alone yields. -/
def leafRows (engine : Engine) (e : Entity) (l : Leaf) : Set Int :=
  {id | ∃ ids ∈ engine.found? e l.alone, id ∈ ids}

variable {engine : Engine} {e : Entity} {content : Content Row} {f : Filter} {l : Leaf}
  {p : Predicate} {ids : List Int}

theorem found?_eq_some_iff : engine.found? e f = some ids ↔
    ∃ p, f.compile = .ok p ∧ e.search .sqlite engine p = .ok ids := by
  simp only [found?, Option.bind_eq_bind, Option.bind_eq_some_iff, toOption_eq_some_iff]

theorem search_of_searchQuery {q : BoundQuery} (hq : e.searchQuery .sqlite p = .ok q)
    (h : engine q = .ok ids) : e.search .sqlite engine p = .ok ids := by
  rw [Entity.search, hq]
  exact mapError_eq_ok_iff.mpr h

theorem accepts_of_found? (h : engine.found? e f = some ids) : engine.Accepts e f := by
  intro p q hp hq
  obtain ⟨p', hp', hs⟩ := found?_eq_some_iff.mp h
  cases hp.symm.trans hp'
  rw [Entity.search, hq] at hs
  exact ⟨ids, mapError_eq_ok_iff.mp hs⟩

namespace Holds

theorem ascending (h : engine.Holds e content) {q : BoundQuery} {c : Sql.Condition String}
    (hr : Statement.read? q = some ⟨e.table, c⟩) (hq : engine q = .ok ids) :
    ids.Pairwise (· < ·) := by
  have hn : ids.Nodup := (h.selects q c ids hr hq).nodup_iff.mpr (content.nodup_ids c)
  exact (h.ordered q c ids hr hq).imp₂ (fun _ _ hle hne => lt_of_le_of_ne hle hne) hn

/-- The search of a filter that is not rejected yields the ids of a condition with the value of the
filter. -/
theorem exists_search (h : engine.Holds e content) (hb : ∀ n ∈ f.everywhere, ¬ n.IsBarren)
    (ha : ∀ l ∈ f.leaves, e.allowlist.Allows l.left.column) (hp : f.compile = .ok p)
    (hacc : engine.Accepts e f) :
    ∃ ids c, e.search .sqlite engine p = .ok ids ∧ ids.Pairwise (· < ·) ∧
      (∀ id, id ∈ ids ↔ id ∈ content.ids c) ∧
      ∀ (t : Comparison String → Truth) (ofLeaf : Leaf → Set Int) (id : Int),
        (∀ l ∈ f.leaves, t l.bound = .yes ↔ id ∈ ofLeaf l) →
          (c.eval t = .yes ↔ id ∈ f.rows ofLeaf) := by
  obtain ⟨q, c, hq, hr, -, hv⟩ := Filter.exists_statement hb ha hp
  obtain ⟨ids, hids⟩ := hacc p q hp hq
  exact ⟨ids, c, search_of_searchQuery hq hids, h.ascending hr hids,
    fun id => (h.selects q c ids hr hids).mem_iff, hv⟩

/-- The search of a leaf alone yields the rows in which its comparison is true. -/
theorem exists_search_alone (h : engine.Holds e content) (ha : e.allowlist.Allows l.left.column)
    (hp : l.alone.compile = .ok p) (hacc : engine.Accepts e l.alone) :
    ∃ ids, e.search .sqlite engine p = .ok ids ∧
      ∀ id, id ∈ ids ↔ id ∈ content.ids (.compare l.bound) := by
  obtain ⟨q, hq, hr⟩ := l.exists_statement_alone ha hp
  obtain ⟨ids, hids⟩ := hacc p q hp hq
  exact ⟨ids, search_of_searchQuery hq hids, fun id => (h.selects q _ ids hr hids).mem_iff⟩

theorem mem_leafRows_iff (h : engine.Holds e content) (ha : e.allowlist.Allows l.left.column)
    (hp : l.alone.compile = .ok p) (hacc : engine.Accepts e l.alone) {id : Int} :
    id ∈ engine.leafRows e l ↔ id ∈ content.ids (.compare l.bound) := by
  obtain ⟨ids, hs, hm⟩ := h.exists_search_alone ha hp hacc
  have hf : engine.found? e l.alone = some ids := found?_eq_some_iff.mpr ⟨p, hp, hs⟩
  rw [← hm, leafRows, hf]
  simp

end Holds

end Engine

end SearchFilter
