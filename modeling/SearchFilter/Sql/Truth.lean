/-!
# Truth values of conditions

A comparison with nothing is neither true nor false. Both connectives are those of three-valued
logic: a conjunction is the least of its parts, a disjunction the greatest.
-/

namespace SearchFilter.Sql

inductive Truth where
  | no
  | unknown
  | yes
deriving DecidableEq, Repr

namespace Truth

def ofBool (b : Bool) : Truth := if b then yes else no

def and : Truth → Truth → Truth
  | no, _ => no
  | _, no => no
  | yes, yes => yes
  | _, _ => unknown

def or : Truth → Truth → Truth
  | yes, _ => yes
  | _, yes => yes
  | no, no => no
  | _, _ => unknown

@[simp] theorem yes_and (a : Truth) : and yes a = a := by cases a <;> rfl

@[simp] theorem and_yes (a : Truth) : and a yes = a := by cases a <;> rfl

@[simp] theorem or_no (a : Truth) : or a no = a := by cases a <;> rfl

theorem and_comm (a b : Truth) : and a b = and b a := by cases a <;> cases b <;> rfl

theorem or_comm (a b : Truth) : or a b = or b a := by cases a <;> cases b <;> rfl

theorem and_assoc (a b c : Truth) : and (and a b) c = and a (and b c) := by
  cases a <;> cases b <;> cases c <;> rfl

theorem or_assoc (a b c : Truth) : or (or a b) c = or a (or b c) := by
  cases a <;> cases b <;> cases c <;> rfl

@[simp] theorem and_eq_yes {a b : Truth} : and a b = yes ↔ a = yes ∧ b = yes := by
  cases a <;> cases b <;> simp [and]

@[simp] theorem or_eq_yes {a b : Truth} : or a b = yes ↔ a = yes ∨ b = yes := by
  cases a <;> cases b <;> simp [or]

end Truth

end SearchFilter.Sql
