import SearchFilter.Predicate.Basic

/-!
# Attributes

The left side of a comparison: a column, or a walk from a column into its JSON. The column is
written out and every key is a placeholder. All steps but the last keep JSON; the last one takes
the text. Main statement: the tail of a walk is read back with the number of its steps.
-/

namespace SearchFilter

structure Attribute where
  column : String
  keys : List String
deriving DecidableEq, Repr

namespace Attribute

/-- The sign of a step that keeps JSON. -/
def keepSign : String := "->"

/-- The sign of the step that takes the text. -/
def textSign : String := "->>"

/-- The attribute that a field names below a path. -/
def under (base : List String) (field : String) : Attribute :=
  match base with
  | [] => ⟨field, []⟩
  | column :: keys => ⟨column, keys ++ [field]⟩

/-- The text of `hops` steps that keep JSON and one that takes the text. -/
def tail : (hops : Nat) → List Char
  | 0 => [' ', '-', '>', '>', ' ', '?']
  | hops + 1 => [' ', '-', '>', ' ', '?'] ++ tail hops

def exprList (a : Attribute) : List Char :=
  match a.keys with
  | [] => a.column.toList
  | _ :: rest => a.column.toList ++ tail rest.length

def expr (a : Attribute) : String := String.ofList a.exprList

/-- What the placeholders of the attribute stand for. -/
def parameters (a : Attribute) : List Parameter := a.keys.map .text

/-- The number of steps that keep JSON in the tail at the start of a text, and what follows it. -/
def readTail : List Char → Option (Nat × List Char)
  | ' ' :: '-' :: '>' :: '>' :: ' ' :: '?' :: rest => some (0, rest)
  | ' ' :: '-' :: '>' :: ' ' :: '?' :: rest =>
    (readTail rest).map fun (hops, rest) => (hops + 1, rest)
  | _ => none

@[simp] theorem readTail_tail_append (hops : Nat) (rest : List Char) :
    readTail (tail hops ++ rest) = some (hops, rest) := by
  induction hops with
  | zero => rfl
  | succ hops ih => simp [tail, readTail, ih]

theorem eq_tail_append_of_readTail {cs rest : List Char} {hops : Nat}
    (h : readTail cs = some (hops, rest)) : cs = tail hops ++ rest := by
  fun_induction readTail cs generalizing hops rest with
  | case1 r =>
    cases h
    rfl
  | case2 r ih =>
    obtain ⟨⟨n, r'⟩, hr, he⟩ := Option.map_eq_some_iff.1 h
    cases he
    simp [tail, ih hr]
  | case3 => cases h

end Attribute

end SearchFilter
