import Mathlib.Tactic.SplitIfs
import SearchFilter.Proofs.Engine.Content
import SearchFilter.Table.Search

/-!
# Tables as content

The value of a comparison in a row is what evaluating it yields. A condition is evaluated from left
to right and only as far as needed, which makes no difference to whether it is true. Main statement:
the tables of a store are an engine that holds them.
-/

namespace SearchFilter.Table

open Sql

theorem Rows.distinct (rows : Rows) : (rows.toList.map Row.id).Nodup := by
  rw [List.Nodup, List.pairwise_map]
  exact rows.ascending.imp fun hlt => Int.ne_of_lt hlt

theorem entityOf?_table (e : Entity) : entityOf? e.table = some e := by
  cases e <;> decide

/-- The value of a comparison that can be evaluated. -/
def truthIn (e : Entity) (r : Row) (x : Comparison String) : Truth :=
  match comparisonTruth e r x with
  | .ok t => t
  | .error _ => .no

theorem truthIn_eq {e : Entity} {r : Row} {x : Comparison String} {t : Truth}
    (h : comparisonTruth e r x = .ok t) : truthIn e r x = t := by
  rw [truthIn, h]

theorem eq_of_conditionHolds {e : Entity} {r : Row} {c : Sql.Condition String} {holds : Bool}
    (h : conditionHolds e r c = .ok holds) : holds = decide (c.eval (truthIn e r) = .yes) := by
  induction c generalizing holds with
  | compare x =>
    obtain ⟨t, ht, h⟩ := bind_eq_ok_iff.mp h
    rw [pure_eq_ok_iff.mp h, Sql.Condition.eval, truthIn_eq ht]
  | and a b iha ihb =>
    obtain ⟨left, ha, h⟩ := bind_eq_ok_iff.mp h
    have hl := iha ha
    cases left with
    | false =>
      rw [pure_eq_ok_iff.mp h]
      simpa [Sql.Condition.eval] using fun hy => absurd hy (of_decide_eq_false hl.symm)
    | true => simp [ihb h, Sql.Condition.eval, of_decide_eq_true hl.symm]
  | or a b iha ihb =>
    obtain ⟨left, ha, h⟩ := bind_eq_ok_iff.mp h
    have hl := iha ha
    cases left with
    | false => simp [ihb h, Sql.Condition.eval, of_decide_eq_false hl.symm]
    | true =>
      rw [pure_eq_ok_iff.mp h]
      simp [Sql.Condition.eval, of_decide_eq_true hl.symm]

theorem eq_of_selectFrom {e : Entity} {c : Sql.Condition String} {rows : List Row}
    {ids : List Int} (h : selectFrom e c rows = .ok ids) :
    ids = (rows.filter fun r => c.eval (truthIn e r) = .yes).map Row.id := by
  induction rows generalizing ids with
  | nil =>
    cases h
    rfl
  | cons r rest ih =>
    obtain ⟨holds, hh, h⟩ := bind_eq_ok_iff.mp h
    obtain ⟨others, ho, h⟩ := bind_eq_ok_iff.mp h
    rw [pure_eq_ok_iff.mp h, ih ho, eq_of_conditionHolds hh]
    by_cases hy : c.eval (truthIn e r) = .yes <;> simp [hy]

theorem exists_selectFrom {e : Entity} {c : Sql.Condition String} {rows : List Row}
    (h : ∀ r ∈ rows, ∃ holds, conditionHolds e r c = .ok holds) :
    ∃ ids, selectFrom e c rows = .ok ids := by
  induction rows with
  | nil => exact ⟨[], rfl⟩
  | cons r rest ih =>
    rw [List.forall_mem_cons] at h
    obtain ⟨holds, hr⟩ := h.1
    obtain ⟨ids, hs⟩ := ih h.2
    exact ⟨_, by rw [selectFrom, hr, hs]; rfl⟩

namespace Store

variable (store : Store) (e : Entity)

def content : Content Row where
  rows := (store.rows e).toList
  id := Row.id
  distinct := (store.rows e).distinct
  truth := truthIn e

theorem ids_of_engine {q : BoundQuery} {c : Sql.Condition String} {ids : List Int}
    (hr : Statement.read? q = some ⟨e.table, c⟩) (h : store.engine q = .ok ids) :
    ids = (store.content e).ids c := by
  have hs : store.search q = .ok ids := mapError_eq_ok_iff.mp h
  simp only [search, hr, entityOf?_table] at hs
  split_ifs at hs
  exact eq_of_selectFrom hs

/-- The tables hold what is in them. -/
theorem holds : store.engine.Holds e (store.content e) where
  selects q c ids hr h := by rw [store.ids_of_engine e hr h]
  ordered q c ids hr h := by
    rw [store.ids_of_engine e hr h, Content.ids, List.pairwise_map]
    exact ((store.rows e).ascending.imp fun hlt => Int.le_of_lt hlt).filter _

end Store

end SearchFilter.Table
