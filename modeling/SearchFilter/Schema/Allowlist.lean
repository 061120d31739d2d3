/-!
# Allowlists

The fields that a filter may use, those among them that hold JSON, and the types of the others. The
three lists only ever grow, and nothing is listed twice.
-/

namespace SearchFilter

inductive ColumnType where
  | text
  | integer
  | date
  | timestamp
  | boolean
  | json
deriving DecidableEq, Repr

namespace ColumnType

def name : ColumnType → String
  | text => "text"
  | integer => "integer"
  | date => "date"
  | timestamp => "timestamp"
  | boolean => "boolean"
  | json => "json"

def ofName? (s : String) : Option ColumnType :=
  [text, integer, date, timestamp, boolean, json].find? fun t => t.name = s

end ColumnType

def addNew (l : List String) (s : String) : List String := if s ∈ l then l else l ++ [s]

/-- Appends, in order, what is not yet there. -/
def addAllNew (l : List String) (more : List String) : List String := more.foldl addNew l

@[simp] theorem mem_addNew {l : List String} {s t : String} : t ∈ addNew l s ↔ t ∈ l ∨ t = s := by
  unfold addNew
  split <;> simp_all

@[simp] theorem mem_addAllNew {l more : List String} {t : String} :
    t ∈ addAllNew l more ↔ t ∈ l ∨ t ∈ more := by
  unfold addAllNew
  induction more generalizing l with
  | nil => simp
  | cons s more ih => simp [ih, or_assoc]

structure Allowlist where
  fields : List String
  jsonFields : List String
  types : List (String × ColumnType)
deriving DecidableEq, Repr

namespace Allowlist

def empty : Allowlist := ⟨[], [], []⟩

def ofFields (fields : List String) : Allowlist := { empty with fields := addAllNew [] fields }

/-- Whether filters may use the field. -/
def Allows (a : Allowlist) (field : String) : Prop := field ∈ a.fields

instance (a : Allowlist) (field : String) : Decidable (a.Allows field) :=
  inferInstanceAs (Decidable (field ∈ a.fields))

/-- Whether filters may look into the field. -/
def HoldsJson (a : Allowlist) (field : String) : Prop := field ∈ a.jsonFields

instance (a : Allowlist) (field : String) : Decidable (a.HoldsJson field) :=
  inferInstanceAs (Decidable (field ∈ a.jsonFields))

/-- The type of a field: JSON if it holds JSON, else the type recorded first, else text. -/
def columnType (a : Allowlist) (field : String) : ColumnType :=
  if a.HoldsJson field then .json else (a.types.lookup field).getD .text

/-- Marks fields as JSON and allows those that were not. -/
def withJson (a : Allowlist) (fields : List String) : Allowlist :=
  { a with fields := addAllNew a.fields fields, jsonFields := addAllNew a.jsonFields fields }

/-- Records the type of a field that is allowed and still counts as text. -/
def recordType (a : Allowlist) (entry : String × ColumnType) : Allowlist :=
  if a.Allows entry.1 ∧ a.columnType entry.1 = .text then { a with types := a.types ++ [entry] }
  else a

def withTypes (a : Allowlist) (entries : List (String × ColumnType)) : Allowlist :=
  entries.foldl recordType a

@[simp] theorem holdsJson_withJson {a : Allowlist} {fields : List String} {f : String} :
    (a.withJson fields).HoldsJson f ↔ a.HoldsJson f ∨ f ∈ fields := by
  simp [withJson, HoldsJson]

@[simp] theorem fields_recordType {a : Allowlist} {e : String × ColumnType} :
    (a.recordType e).fields = a.fields := by
  unfold recordType
  split <;> rfl

@[simp] theorem jsonFields_recordType {a : Allowlist} {e : String × ColumnType} :
    (a.recordType e).jsonFields = a.jsonFields := by
  unfold recordType
  split <;> rfl

end Allowlist

end SearchFilter
