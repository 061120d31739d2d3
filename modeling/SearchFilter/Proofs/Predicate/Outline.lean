import Mathlib.Data.List.Basic
import SearchFilter.Proofs.Filter.Leaves

/-!
# The outline of a predicate

A predicate is written as a row of segments: parentheses, connectives and leaves. The outline of a
tree is the row that belongs to it. Any writer that goes through a tree and puts parentheses around
its groups and paths writes the outline. Main statement: this holds in every monad that a writer may
work in.
-/

namespace SearchFilter

inductive Segment where
  | opening
  | closing
  | joint (c : Connective)
  | leaf (l : Leaf)

namespace Segment

def leaf? : Segment → Option Leaf
  | leaf l => some l
  | _ => none

def text : Segment → String
  | opening => "("
  | closing => ")"
  | joint c => " " ++ c.symbol ++ " "
  | .leaf l => l.text

def textAll (segments : List Segment) : String := String.join (segments.map text)

@[simp] theorem textAll_cons (s : Segment) (rest : List Segment) :
    textAll (s :: rest) = s.text ++ textAll rest := by
  simp [textAll]

@[simp] theorem textAll_nil : textAll [] = "" := rfl

@[simp] theorem textAll_append (a b : List Segment) :
    textAll (a ++ b) = textAll a ++ textAll b := by
  simp [textAll]

/-- The parts with the connective between them. -/
def join (c : Connective) (parts : List (List Segment)) : List Segment :=
  [joint c].intercalate parts

@[simp] theorem join_nil (c : Connective) : join c [] = [] := rfl

@[simp] theorem join_singleton (c : Connective) (part : List Segment) :
    join c [part] = part := by
  simp [join]

theorem join_cons_cons (c : Connective) (a b : List Segment) (rest : List (List Segment)) :
    join c (a :: b :: rest) = a ++ joint c :: join c (b :: rest) := by
  simp [join, List.intercalate_cons_cons]

theorem join_cons (c : Connective) (a : List Segment) (rest : List (List Segment)) :
    join c (a :: rest) = a ++ rest.flatMap (joint c :: ·) := by
  induction rest generalizing a with
  | nil => simp
  | cons b rest ih => rw [join_cons_cons, ih, List.flatMap_cons, List.cons_append]

/-- The leaves among segments. -/
def leaves (segments : List Segment) : List Leaf := segments.filterMap leaf?

theorem mem_leaves {segments : List Segment} {l : Leaf} :
    l ∈ leaves segments ↔ ∃ s ∈ segments, l ∈ s.leaf? :=
  List.mem_filterMap

@[simp] theorem leaves_nil : leaves [] = [] := rfl

@[simp] theorem leaves_append (a b : List Segment) : leaves (a ++ b) = leaves a ++ leaves b :=
  List.filterMap_append

theorem leaves_cons_of_none {s : Segment} (h : s.leaf? = none) (rest : List Segment) :
    leaves (s :: rest) = leaves rest :=
  List.filterMap_cons_none h

@[simp] theorem leaves_cons_leaf (l : Leaf) (rest : List Segment) :
    leaves (.leaf l :: rest) = l :: leaves rest := rfl

@[simp] theorem leaves_join (c : Connective) (parts : List (List Segment)) :
    leaves (join c parts) = parts.flatMap leaves := by
  induction parts with
  | nil => rfl
  | cons a rest ih =>
    cases rest with
    | nil => simp
    | cons b rest =>
      rw [join_cons_cons, leaves_append, leaves_cons_of_none rfl, ih]
      simp

section Writing

variable {m : Type → Type} [Monad m] (leaf : Leaf → m String)

/-- Writes a segment, leaves as it is told. -/
def write : Segment → m String
  | .leaf l => leaf l
  | s => return s.text

theorem write_eq_pure {s : Segment} (h : s.leaf? = none) : write leaf s = pure s.text := by
  cases s with
  | leaf l => cases h
  | _ => rfl

def writeAll (segments : List Segment) : m String := do
  return String.join (← segments.mapM (write leaf))

variable [LawfulMonad m]

theorem writeAll_cons (s : Segment) (rest : List Segment) :
    writeAll leaf (s :: rest) = do
      let first ← write leaf s
      let others ← writeAll leaf rest
      return first ++ others := by
  simp [writeAll]

theorem writeAll_append (a b : List Segment) :
    writeAll leaf (a ++ b) = do
      let first ← writeAll leaf a
      let others ← writeAll leaf b
      return first ++ others := by
  simp [writeAll]

theorem writeAll_singleton (s : Segment) : writeAll leaf [s] = write leaf s := by
  simp [writeAll]

theorem writeAll_join (c : Connective) (parts : List (List Segment)) :
    writeAll leaf (join c parts) = do
      return FilterNode.join c (← parts.mapM (writeAll leaf)) := by
  induction parts with
  | nil => simp [FilterNode.join, writeAll]
  | cons a rest ih =>
    cases rest with
    | nil => simp [FilterNode.join]
    | cons b rest =>
      rw [join_cons_cons, writeAll_append, writeAll_cons, ih]
      simp [FilterNode.join, write, text, String.intercalate_cons_cons, String.append_assoc]

end Writing

end Segment

namespace FilterNode

mutual

/-- The segments of a node below `base`, its siblings being joined by `joint`. -/
def outline (base : List String) (joint : Connective) : FilterNode → List Segment
  | .equality field value => [.leaf ⟨.under base field, .equal value⟩]
  | .range field op condition => [.leaf ⟨.under base field, .compare op condition⟩]
  | .path field children =>
    .opening :: Segment.join joint (outlineEach (base ++ [field]) joint children) ++ [.closing]
  | .group c children => .opening :: Segment.join c (outlineEach base c children) ++ [.closing]

def outlineEach (base : List String) (joint : Connective) :
    List FilterNode → List (List Segment)
  | [] => []
  | n :: rest => outline base joint n :: outlineEach base joint rest

end

theorem outlineEach_eq_map (base : List String) (joint : Connective) (ns : List FilterNode) :
    outlineEach base joint ns = ns.map (outline base joint) := by
  induction ns with
  | nil => rfl
  | cons n ns ih => rw [outlineEach, ih, List.map_cons]

/-- What holds of rows with one leaf and is kept by joining rows within parentheses holds of the
outline. -/
theorem outline_induction {P : List Segment → Prop}
    (group : ∀ c parts, (∀ part ∈ parts, P part) →
      P (.opening :: Segment.join c parts ++ [.closing]))
    (base : List String) (joint : Connective) (n : FilterNode)
    (leaf : ∀ l ∈ leaves base n, P [.leaf l]) : P (outline base joint n) := by
  induction n using FilterNode.induction generalizing base joint with
  | equality field value => exact leaf _ (List.mem_singleton_self _)
  | range field op condition => exact leaf _ (List.mem_singleton_self _)
  | path field children ih =>
    rw [leaves, leavesAll_eq_flatMap] at leaf
    rw [outline, outlineEach_eq_map]
    apply group
    intro part hp
    obtain ⟨n, hn, rfl⟩ := List.mem_map.mp hp
    exact ih n hn _ _ fun l hl => leaf l (List.mem_flatMap.mpr ⟨n, hn, hl⟩)
  | group c children ih =>
    rw [leaves, leavesAll_eq_flatMap] at leaf
    rw [outline, outlineEach_eq_map]
    apply group
    intro part hp
    obtain ⟨n, hn, rfl⟩ := List.mem_map.mp hp
    exact ih n hn _ _ fun l hl => leaf l (List.mem_flatMap.mpr ⟨n, hn, hl⟩)

theorem leaves_outline (base : List String) (joint : Connective) (n : FilterNode) :
    Segment.leaves (outline base joint n) = leaves base n := by
  induction n using FilterNode.induction generalizing base joint with
  | equality field value => rfl
  | range field op condition => rfl
  | path field children ih =>
    rw [outline, outlineEach_eq_map, leaves, leavesAll_eq_flatMap, Segment.leaves_append,
      Segment.leaves_cons_of_none rfl, Segment.leaves_join, List.flatMap_map]
    simp only [Segment.leaves_cons_of_none (s := .closing) rfl, Segment.leaves_nil, List.append_nil]
    exact List.flatMap_congr fun n hn => ih n hn _ _
  | group c children ih =>
    rw [outline, outlineEach_eq_map, leaves, leavesAll_eq_flatMap, Segment.leaves_append,
      Segment.leaves_cons_of_none rfl, Segment.leaves_join, List.flatMap_map]
    simp only [Segment.leaves_cons_of_none (s := .closing) rfl, Segment.leaves_nil, List.append_nil]
    exact List.flatMap_congr fun n hn => ih n hn _ _

/-- The segments of siblings below `base`. -/
def outlineAll (base : List String) (joint : Connective) (ns : List FilterNode) : List Segment :=
  Segment.join joint (outlineEach base joint ns)

theorem leaves_outlineAll (base : List String) (joint : Connective) (ns : List FilterNode) :
    Segment.leaves (outlineAll base joint ns) = leavesAll base ns := by
  rw [outlineAll, outlineEach_eq_map, Segment.leaves_join, List.flatMap_map, leavesAll_eq_flatMap]
  exact List.flatMap_congr fun n _ => leaves_outline base joint n

section Writing

variable {m : Type → Type} [Monad m] (leaf : Leaf → m String)

mutual

/-- Writes a tree with parentheses around its groups and paths, its leaves as it is told. -/
def write (base : List String) (joint : Connective) : FilterNode → m String
  | .equality field value => leaf ⟨.under base field, .equal value⟩
  | .range field op condition => leaf ⟨.under base field, .compare op condition⟩
  | .path field children => do
    let parts ← writeEach (base ++ [field]) joint children
    return "(" ++ join joint parts ++ ")"
  | .group c children => do
    let parts ← writeEach base c children
    return "(" ++ join c parts ++ ")"

def writeEach (base : List String) (joint : Connective) : List FilterNode → m (List String)
  | [] => return []
  | n :: rest => do
    let part ← write base joint n
    return part :: (← writeEach base joint rest)

end

/-- Writes siblings below `base`. -/
def writeAll (base : List String) (joint : Connective) (ns : List FilterNode) : m String := do
  return join joint (← writeEach leaf base joint ns)

variable [LawfulMonad m]

theorem writeAll_parenthesized (joint : Connective) (parts : List (List Segment)) :
    Segment.writeAll leaf (.opening :: Segment.join joint parts ++ [.closing]) = do
      return "(" ++ join joint (← parts.mapM (Segment.writeAll leaf)) ++ ")" := by
  rw [Segment.writeAll_append, Segment.writeAll_cons, Segment.writeAll_join,
    Segment.writeAll_singleton]
  simp [Segment.write, Segment.text]

mutual

theorem write_eq_writeAll (base : List String) (joint : Connective) : (n : FilterNode) →
    write leaf base joint n = Segment.writeAll leaf (outline base joint n)
  | .equality field value => by rw [write, outline, Segment.writeAll_singleton, Segment.write]
  | .range field op condition => by rw [write, outline, Segment.writeAll_singleton, Segment.write]
  | .path field children => by
    rw [write, outline, writeEach_eq_mapM, writeAll_parenthesized]
  | .group c children => by
    rw [write, outline, writeEach_eq_mapM, writeAll_parenthesized]

theorem writeEach_eq_mapM (base : List String) (joint : Connective) : (ns : List FilterNode) →
    writeEach leaf base joint ns = (outlineEach base joint ns).mapM (Segment.writeAll leaf)
  | [] => rfl
  | n :: rest => by
    rw [writeEach, outlineEach, List.mapM_cons, write_eq_writeAll base joint n,
      writeEach_eq_mapM base joint rest]

end

theorem writeAll_eq_writeAll (base : List String) (joint : Connective) (ns : List FilterNode) :
    writeAll leaf base joint ns = Segment.writeAll leaf (outlineAll base joint ns) := by
  rw [writeAll, writeEach_eq_mapM, outlineAll, Segment.writeAll_join]

end Writing

end FilterNode

end SearchFilter
