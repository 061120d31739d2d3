import SearchFilter.Schema.Entity
import SearchFilter.Statement.Binding

/-!
# Search statements

The statement that finds the ids of an entity's records, in ascending order.
-/

namespace SearchFilter

/-- The statement that selects by a bound condition. -/
def Entity.selectIds (entity : Entity) (condition : String) : String :=
  "SELECT id FROM " ++ entity.table ++ " WHERE " ++ condition ++ " ORDER BY id"

/-- The search of an entity's records by a predicate. -/
def Entity.searchQuery (entity : Entity) (backend : Backend) (p : Predicate) :
    Except PredicateFault BoundQuery :=
  (p.bind backend entity.allowlist).map fun bound =>
    ⟨entity.selectIds bound.sql, bound.binds⟩

end SearchFilter
