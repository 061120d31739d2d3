import SearchFilter.Filter.Operator
import SearchFilter.Json.Basic

/-!
# Filter trees

A filter is a nonempty list of nodes. Leaves compare one field with a literal or by an operator; a
path goes one level into a field's JSON; a group combines its children by a connective of its own.
-/

namespace SearchFilter

/-- A literal that a field is compared with. -/
inductive Scalar where
  | text (s : String)
  | number (n : Json.Number)
deriving DecidableEq, Repr

namespace Scalar

def ofJson? : Json → Option Scalar
  | .string s => some (.text s)
  | .number n => some (.number n)
  | _ => none

/-- The text that is bound for the literal. -/
def display : Scalar → String
  | .text s => s
  | .number n => n.text

end Scalar

/-- What stands behind an operator, in the shape in which it was written. -/
inductive Condition where
  | scalar (value : Scalar)
  | list (items : List Json)
  | map (members : List (String × Json))

inductive FilterNode where
  | equality (field : String) (value : Scalar)
  | range (field : String) (operator : Operator) (condition : Condition)
  /-- Children one level below the field. -/
  | path (field : String) (children : List FilterNode)
  /-- Children at the same level, combined by `connective`. -/
  | group (connective : Connective) (children : List FilterNode)

structure Filter where
  nodes : List FilterNode
  nonempty : nodes ≠ []

def Filter.ofNodes : List FilterNode → Except FilterError Filter
  | [] => .error .empty
  | n :: ns => .ok ⟨n :: ns, by simp⟩

theorem Filter.nodes_of_ofNodes {ns : List FilterNode} {f : Filter} (h : ofNodes ns = .ok f) :
    f.nodes = ns := by
  cases ns with
  | nil => cases h
  | cons n ns => cases h; rfl

end SearchFilter
