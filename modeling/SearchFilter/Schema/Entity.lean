import SearchFilter.Schema.Allowlist
import SearchFilter.Text.Blank
import SearchFilter.Text.Letter

/-!
# Entities

What can be searched for: four kinds of records, each with its table and the columns that filters
may use.
-/

namespace SearchFilter

inductive Entity where
  | job
  | offer
  | invitation
  | offerRecord
deriving DecidableEq, Repr

namespace Entity

def all : List Entity := [job, offer, invitation, offerRecord]

def name : Entity → String
  | job => "job"
  | offer => "offer"
  | invitation => "invitation"
  | offerRecord => "offer_record"

def table : Entity → String
  | job => "jobs"
  | offer => "offers"
  | invitation => "invitations"
  | offerRecord => "offer_records"

/-- The columns that filters may use, in the order in which they are listed. -/
def columns : Entity → List String
  | job => ["id", "name", "description", "owner_id", "due_date", "status", "created_at",
      "updated_at", "metadata", "invitation_only", "start_date", "finish_date", "closed_date"]
  | offer => ["id", "job_id", "description", "provider_id", "status", "created_at", "updated_at",
      "metadata"]
  | invitation => ["id", "status", "created_at", "updated_at", "provider_id", "job_id",
      "description"]
  | offerRecord => ["id", "offer_id", "record_type", "reason", "created_at", "updated_at",
      "metadata"]

/-- The columns that hold JSON wherever they occur. -/
def jsonColumns : List String := ["metadata"]

/-- The types of the columns that are not text, wherever they occur. -/
def columnTypes : List (String × ColumnType) :=
  [("id", .integer), ("job_id", .integer), ("offer_id", .integer), ("due_date", .date),
    ("start_date", .date), ("finish_date", .date), ("closed_date", .date),
    ("created_at", .timestamp), ("updated_at", .timestamp), ("invitation_only", .boolean)]

def allowlist (e : Entity) : Allowlist :=
  ((Allowlist.ofFields e.columns).withJson (jsonColumns.filter (· ∈ e.columns))).withTypes
    columnTypes

/-- The entity of a name: blanks around it, the case of its letters and one `s` at its end do not
matter. -/
def ofName? (name : String) : Option Entity :=
  let folded := Text.foldCase (Text.trim name)
  let singular := if folded.getLast? = some 's' then folded.dropLast else folded
  all.find? fun e => e.name.toList = singular

def unknownMessage (name : String) : String :=
  s!"Unknown entity '{name}'. Valid entities: job, offer, invitation, offer_record"

end Entity

end SearchFilter
