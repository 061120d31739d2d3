import SearchFilter.Schema.Entity
import SearchFilter.Table.Value

/-!
# Tables of the entities

The columns of each entity's table, and the statements that create the tables. The moment at which
a row is stored is the default of two columns.
-/

namespace SearchFilter.Table

inductive Default where
  | value (v : Value)
  | moment
deriving DecidableEq, Repr

structure Column where
  name : String
  affinity : Affinity
  default : Default
  required : Bool
  /-- The entity whose ids the column holds. -/
  references : Option Entity
deriving DecidableEq, Repr

def Column.ofText (name : String) : Column := ⟨name, .text, .value .null, false, none⟩

def Column.ofMoment (name : String) : Column := ⟨name, .text, .moment, true, none⟩

def Column.ofId (name : String) (entity : Entity) : Column :=
  ⟨name, .integer, .value .null, false, some entity⟩

def Column.metadata : Column := ⟨"metadata", .text, .value (.text "\x7b\x7d"), true, none⟩

def columnsOf : Entity → List Column
  | .job => [.ofText "name", .ofText "description", .ofText "owner_id", .ofText "due_date",
      .ofText "status", .ofMoment "created_at", .ofMoment "updated_at", .metadata,
      ⟨"invitation_only", .integer, .value (.integer 0), false, none⟩, .ofText "start_date",
      .ofText "finish_date", .ofText "closed_date"]
  | .offer => [.ofId "job_id" .job, .ofText "description", .ofText "provider_id", .ofText "status",
      .ofMoment "created_at", .ofMoment "updated_at", .metadata]
  | .invitation => [.ofText "status", .ofMoment "created_at", .ofMoment "updated_at",
      .ofText "provider_id", .ofId "job_id" .job, .ofText "description"]
  | .offerRecord => [.ofId "offer_id" .offer, .ofText "record_type", .ofText "reason",
      .ofMoment "created_at", .ofMoment "updated_at", .metadata]

def Column.declaration (c : Column) : String :=
  let type := match c.affinity with
    | .integer => " INTEGER"
    | .text => " TEXT"
    | .none => ""
  let required := if c.required then " NOT NULL" else ""
  let default := match c.default with
    | .moment => " DEFAULT CURRENT_TIMESTAMP"
    | .value (.integer n) => " DEFAULT " ++ toString n
    | .value (.text s) => " DEFAULT '" ++ s ++ "'"
    | .value _ => ""
  let references := match c.references with
    | some e => " REFERENCES " ++ e.table ++ "(id)"
    | none => ""
  "    " ++ c.name ++ type ++ required ++ default ++ references

/-- The statements that create an entity's table and an index on each of its references. -/
def creation (e : Entity) : List String :=
  let columns := "    id INTEGER PRIMARY KEY AUTOINCREMENT" :: (columnsOf e).map Column.declaration
  ["CREATE TABLE IF NOT EXISTS " ++ e.table ++ " (\n" ++ ",\n".intercalate columns ++ "\n);\n"] ++
    ((columnsOf e).filter fun c => c.references.isSome).map fun c =>
      "CREATE INDEX IF NOT EXISTS index_" ++ e.table ++ "_on_" ++ c.name ++ " ON " ++ e.table ++
        "(" ++ c.name ++ ");\n"

/-- The statements that create all tables, those of one entity on adjoining lines. -/
def schemaText : String :=
  "\n" ++ "\n".intercalate (Entity.all.map fun e => String.join (creation e))

end SearchFilter.Table
