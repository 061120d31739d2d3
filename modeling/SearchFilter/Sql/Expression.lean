import SearchFilter.Sql.Token
import SearchFilter.Sql.Truth

/-!
# Conditions as trees

Comparisons joined by `AND` and `OR`, of which `AND` binds tighter, with parentheses around groups.
The reader goes through the tokens once and keeps the groups that are still open on a stack.
-/

namespace SearchFilter.Sql

inductive Operand (α : Type) where
  | column (name : String)
  /-- The steps from a column into its JSON, the last of which takes the text or keeps JSON. -/
  | walk (column : String) (keys : List α) (takesText : Bool)
  | asText (of : Operand α)
  | value (v : α)
  | null
  | number (n : Nat)
  | text (s : String)
deriving DecidableEq, Repr

inductive Relation where
  | sign (s : Sign)
  | like
  | isIn
deriving DecidableEq, Repr

structure Comparison (α : Type) where
  left : Operand α
  relation : Relation
  /-- The alternatives of `IN`, else the one right side. -/
  right : List (Operand α)
deriving DecidableEq, Repr

inductive Condition (α : Type) where
  | compare (c : Comparison α)
  | and (a b : Condition α)
  | or (a b : Condition α)
deriving DecidableEq, Repr

namespace Condition

def comparisons {α : Type} : Condition α → List (Comparison α)
  | compare c => [c]
  | and a b => a.comparisons ++ b.comparisons
  | or a b => a.comparisons ++ b.comparisons

/-- The value of a condition whose comparisons have the values `f`. -/
def eval {α : Type} (f : Comparison α → Truth) : Condition α → Truth
  | compare c => f c
  | and a b => (a.eval f).and (b.eval f)
  | or a b => (a.eval f).or (b.eval f)

end Condition

section Reading

variable {α : Type}

/-- The steps behind a column, from where one may start. -/
def steps? : List (Token α) → List α × Bool × List (Token α)
  | .keep :: .placeholder k :: rest =>
    match steps? rest with
    | ([], _, rest) => ([k], false, rest)
    | (ks, takesText, rest) => (k :: ks, takesText, rest)
  | .take :: .placeholder k :: rest => ([k], true, rest)
  | rest => ([], false, rest)

def columnOperand (name : String) (rest : List (Token α)) : Operand α × List (Token α) :=
  match steps? rest with
  | ([], _, rest) => (.column name, rest)
  | (keys, takesText, rest) => (.walk name keys takesText, rest)

def isReserved (word : String) : Bool :=
  word = "AND" || word = "OR" || word = "LIKE" || word = "IN"

def leftOperand? : List (Token α) → Option (Operand α × List (Token α))
  | .word "CAST" :: .left :: .word name :: rest =>
    match columnOperand name rest with
    | (o, .word "AS" :: .word "TEXT" :: .right :: rest) => some (.asText o, rest)
    | _ => none
  | .word name :: rest => if isReserved name then none else some (columnOperand name rest)
  | .placeholder v :: rest => some (.value v, rest)
  | .number n :: rest => some (.number n, rest)
  | .text s :: rest => some (.text s, rest)
  | _ => none

/-- An operand on the right side, where `NULL` is nothing. -/
def rightOperand? : List (Token α) → Option (Operand α × List (Token α))
  | .word "NULL" :: rest => some (.null, rest)
  | tokens => leftOperand? tokens

def rightSide? : List (Token α) → Option (Operand α × List (Token α))
  | .left :: rest =>
    match rightOperand? rest with
    | some (o, .right :: rest) => some (o, rest)
    | _ => none
  | rest => rightOperand? rest

/-- The alternatives up to the closing parenthesis. Each is a single token. -/
def alternatives? : List (Token α) → Option (List (Operand α) × List (Token α))
  | .placeholder v :: .right :: rest => some ([.value v], rest)
  | .word "NULL" :: .right :: rest => some ([.null], rest)
  | .number n :: .right :: rest => some ([.number n], rest)
  | .text s :: .right :: rest => some ([.text s], rest)
  | .placeholder v :: .comma :: rest =>
    (alternatives? rest).map fun (os, rest) => (.value v :: os, rest)
  | .word "NULL" :: .comma :: rest =>
    (alternatives? rest).map fun (os, rest) => (.null :: os, rest)
  | .number n :: .comma :: rest =>
    (alternatives? rest).map fun (os, rest) => (.number n :: os, rest)
  | .text s :: .comma :: rest =>
    (alternatives? rest).map fun (os, rest) => (.text s :: os, rest)
  | _ => none

def comparison? (tokens : List (Token α)) : Option (Comparison α × List (Token α)) := do
  let (left, rest) ← leftOperand? tokens
  match rest with
  | .sign s :: rest =>
    let (o, rest) ← rightSide? rest
    return (⟨left, .sign s, [o]⟩, rest)
  | .word "LIKE" :: rest =>
    let (o, rest) ← rightSide? rest
    return (⟨left, .like, [o]⟩, rest)
  | .word "IN" :: .left :: rest =>
    let (os, rest) ← alternatives? rest
    return (⟨left, .isIn, os⟩, rest)
  | _ => none

/-- A condition with its comparisons read. -/
inductive Item (α : Type) where
  | comparison (c : Comparison α)
  | left
  | right
  | and
  | or
deriving DecidableEq, Repr

/-- The items of tokens of which the first `skip` belong to the item before. -/
def cutItems : (skip : Nat) → List (Token α) → Option (List (Item α))
  | _, [] => some []
  | skip + 1, _ :: rest => cutItems skip rest
  | 0, .left :: rest => (cutItems 0 rest).map (.left :: ·)
  | 0, .right :: rest => (cutItems 0 rest).map (.right :: ·)
  | 0, .word "AND" :: rest => (cutItems 0 rest).map (.and :: ·)
  | 0, .word "OR" :: rest => (cutItems 0 rest).map (.or :: ·)
  | 0, t :: rest =>
    match comparison? (t :: rest) with
    | none => none
    | some (c, behind) => (cutItems (rest.length - behind.length) rest).map (.comparison c :: ·)

/-- A group that is still open: the disjunction before the term at hand, and the conjunction that
the term starts with. -/
structure Frame (α : Type) where
  alternatives : Option (Condition α)
  factors : Option (Condition α)

namespace Frame

def empty : Frame α := ⟨none, none⟩

/-- The term at hand with one more factor. -/
def term (f : Frame α) (c : Condition α) : Condition α :=
  match f.factors with
  | none => c
  | some a => .and a c

end Frame

/-- The disjunction with one more term. -/
def joinTerm (alternatives : Option (Condition α)) (term : Condition α) : Condition α :=
  match alternatives with
  | none => term
  | some a => .or a term

mutual

/-- Reads on where a comparison or a group has to start. -/
def readFactor (f : Frame α) (outer : List (Frame α)) : List (Item α) → Option (Condition α)
  | .comparison c :: rest => readJoint f.alternatives (f.term (.compare c)) outer rest
  | .left :: rest => readFactor .empty (f :: outer) rest
  | _ => none

/-- Reads on behind a comparison or a group. -/
def readJoint (alternatives : Option (Condition α)) (term : Condition α) (outer : List (Frame α)) :
    List (Item α) → Option (Condition α)
  | [] =>
    match outer with
    | [] => some (joinTerm alternatives term)
    | _ :: _ => none
  | .and :: rest => readFactor ⟨alternatives, some term⟩ outer rest
  | .or :: rest => readFactor ⟨some (joinTerm alternatives term), none⟩ outer rest
  | .right :: rest =>
    match outer with
    | [] => none
    | f :: outer => readJoint f.alternatives (f.term (joinTerm alternatives term)) outer rest
  | _ => none

end

/-- The condition that all of the tokens spell. -/
def Condition.ofTokens? (tokens : List (Token α)) : Option (Condition α) :=
  (cutItems 0 tokens).bind (readFactor .empty [])

end Reading

/-- The condition of a text in which nothing is bound yet. -/
def Condition.ofText? (text : String) : Option (Condition Unit) :=
  (tokens? text.toList).bind Condition.ofTokens?

end SearchFilter.Sql
