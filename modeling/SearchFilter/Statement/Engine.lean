import SearchFilter.Statement.Error
import SearchFilter.Statement.Search

/-!
# Searching

An engine is what runs bound queries: it yields ids, or it fails. A search binds a predicate and
hands the statement for the entity to the engine.
-/

namespace SearchFilter

abbrev Engine := BoundQuery → Except DatabaseFailure (List Int)

/-- The ids of an entity's records that a predicate describes. -/
def Entity.search (entity : Entity) (backend : Backend) (engine : Engine) (p : Predicate) :
    Except DataError (List Int) :=
  match entity.searchQuery backend p with
  | .error fault => .error (.invalidPredicate fault)
  | .ok query => (engine query).mapError (.database backend)

end SearchFilter
