import SearchFilter.Environment.Variables
import SearchFilter.Text.Alphanumeric
import SearchFilter.Text.Blank

/-!
# Files of environment variables

A file gives variables their values, one on a line: `name=value`, with `export` in front if one
likes. A value in quotes may go on over several lines, a backslash takes the meaning from the next
character, and a dollar sign stands for the value of a variable, except between single quotes. A
comment starts with a number sign at the front of a line or behind a blank. Nothing is read behind
the first line that is wrong. A variable that has a value keeps it.
-/

namespace SearchFilter.Environment

/-- Where one is in a line while looking for its end. -/
inductive LineState where
  | unquoted
  | blank
  | escape
  | single
  | singleEscape
  | double
  | doubleEscape
deriving DecidableEq, Repr

/-- The state behind a character, or `none` if a comment starts with it. -/
def LineState.next (s : LineState) (c : Char) : Option LineState :=
  match s with
  | unquoted =>
    if Text.isBlank c ∧ c ≠ '\n' ∧ c ≠ '\r' then some blank else some (opens c)
  | blank => if c = '#' then none else some (opens c)
  | escape => some unquoted
  | single => some (if c = '\\' then singleEscape else if c = '\'' then unquoted else single)
  | singleEscape => some single
  | double => some (if c = '\\' then doubleEscape else if c = '"' then unquoted else double)
  | doubleEscape => some double
where
  opens (c : Char) : LineState :=
    if c = '\\' then escape else if c = '"' then double else if c = '\'' then single
    else unquoted

/-- What stands behind the end of the line. -/
def skipLine (cs : List Char) : List Char := (cs.dropWhile (· ≠ '\n')).drop 1

theorem length_skipLine_le {cs : List Char} : (skipLine cs).length ≤ cs.length := by
  have := (List.dropWhile_suffix (l := cs) (· ≠ '\n')).length_le
  simp only [skipLine, List.length_drop]
  omega

/-- Takes a line up to its comment or its end, and yields what stands behind its end. There is
`none` if the text ends within it. -/
def takeLine : LineState → List Char → Option (List Char × List Char)
  | s, [] => if s = .unquoted then some ([], []) else none
  | s, c :: rest =>
    match s.next c with
    | none => some ([], skipLine rest)
    | some next =>
      if c = '\n' ∧ next = .unquoted then some ([], rest)
      else (takeLine next rest).map fun (line, after) => (c :: line, after)

theorem length_takeLine_le {s : LineState} {cs line after : List Char}
    (h : takeLine s cs = some (line, after)) : after.length ≤ cs.length := by
  induction cs generalizing s line with
  | nil =>
    unfold takeLine at h
    split at h <;> simp_all
  | cons c rest ih =>
    unfold takeLine at h
    split at h
    · obtain ⟨-, rfl⟩ := by simpa using h
      exact Nat.le_succ_of_le length_skipLine_le
    · split at h
      · obtain ⟨-, rfl⟩ := by simpa using h
        simp
      · obtain ⟨p, hp, hq⟩ := Option.map_eq_some_iff.1 h
        obtain ⟨l, a⟩ := p
        obtain ⟨-, rfl⟩ := by simpa using hq
        exact Nat.le_succ_of_le (ih hp)

theorem length_takeLine_lt {s : LineState} {c : Char} {rest line after : List Char}
    (h : takeLine s (c :: rest) = some (line, after)) : after.length < rest.length + 1 := by
  unfold takeLine at h
  split at h
  · obtain ⟨-, rfl⟩ := by simpa using h
    exact Nat.lt_succ_of_le length_skipLine_le
  · split at h
    · obtain ⟨-, rfl⟩ := by simpa using h
      simp
    · obtain ⟨p, hp, hq⟩ := Option.map_eq_some_iff.1 h
      obtain ⟨l, a⟩ := p
      obtain ⟨-, rfl⟩ := by simpa using hq
      exact Nat.lt_succ_of_le (length_takeLine_le hp)

def startsComment (cs : List Char) : Bool :=
  ((cs.takeWhile (· ≠ '\n')).dropWhile Text.isBlank).head? = some '#'

/-- A part of a value: a character, or a variable whose value stands in its place. -/
inductive Fragment where
  | char (c : Char)
  | valueOf (name : String)
deriving DecidableEq, Repr

inductive ValueState where
  | unquoted
  | single
  | double
  | escape (isDouble : Bool)
  /-- Behind a dollar sign. -/
  | name (isDouble : Bool) (letters : List Char)
  /-- Behind a dollar sign with a brace. -/
  | braces (isDouble : Bool) (letters : List Char)
  /-- Behind a blank, where only a comment may follow. -/
  | ended
deriving DecidableEq, Repr

def ValueState.around (isDouble : Bool) : ValueState := if isDouble then double else unquoted

/-- Reads a value. The name of a variable ends at the first character that is neither a letter nor a
number, and that character is taken as it is unless it is another dollar sign. -/
def readValue : ValueState → List Char → Option (List Fragment)
  | .unquoted, [] | .escape false, [] | .ended, [] => some []
  | .name false letters, [] => some [.valueOf (String.ofList letters)]
  | _, [] => none
  | .ended, c :: rest =>
    if c = ' ' ∨ c = '\t' then readValue .ended rest else if c = '#' then some [] else none
  | .escape isDouble, c :: rest =>
    if c = 'n' then (readValue (.around isDouble) rest).map (.char '\n' :: ·)
    else if c ∈ ['\\', '\'', '"', '$', ' '] then
      (readValue (.around isDouble) rest).map (.char c :: ·)
    else none
  | .single, c :: rest =>
    if c = '\'' then readValue .unquoted rest else (readValue .single rest).map (.char c :: ·)
  | .name isDouble letters, c :: rest =>
    if Text.isAlphanumeric c then readValue (.name isDouble (letters ++ [c])) rest
    else if c = '\x7b' ∧ letters = [] then readValue (.braces isDouble []) rest
    else if c = '$' then
      (readValue (.name isDouble []) rest).map (.valueOf (String.ofList letters) :: ·)
    else
      (readValue (.around isDouble) rest).map
        (.valueOf (String.ofList letters) :: .char c :: ·)
  | .braces isDouble letters, c :: rest =>
    if c = '\x7d' then
      (readValue (.around isDouble) rest).map (.valueOf (String.ofList letters) :: ·)
    else readValue (.braces isDouble (letters ++ [c])) rest
  | .double, c :: rest =>
    if c = '$' then readValue (.name true []) rest
    else if c = '"' then readValue .unquoted rest
    else if c = '\\' then readValue (.escape true) rest
    else (readValue .double rest).map (.char c :: ·)
  | .unquoted, c :: rest =>
    if c = '$' then readValue (.name false []) rest
    else if c = '\'' then readValue .single rest
    else if c = '"' then readValue .double rest
    else if c = '\\' then readValue (.escape false) rest
    else if c = ' ' ∨ c = '\t' then readValue .ended rest
    else (readValue .unquoted rest).map (.char c :: ·)

structure Assignment where
  name : String
  value : List Fragment
deriving DecidableEq, Repr

def continuesName (c : Char) : Bool := c.isAlphanum || c = '_' || c = '.'

def readName? : List Char → Option (String × List Char)
  | [] => none
  | c :: rest =>
    if c.isAlpha ∨ c = '_' then
      some (String.ofList (c :: rest.takeWhile continuesName),
        (rest.dropWhile continuesName).dropWhile Text.isBlank)
    else none

/-- Reads what stands behind a name. -/
def readEqual? : List Char → Option (List Char)
  | '=' :: rest => some (rest.dropWhile Text.isBlank)
  | _ => none

/-- Reads a name and its equals sign. The word `export` may stand in front, but is a name where an
equals sign follows it. -/
def readTarget? (cs : List Char) : Option (String × List Char) := do
  let (name, rest) ← readName? cs
  match readEqual? rest with
  | some value => return (name, value)
  | none =>
    if name = "export" then
      let (name, rest) ← readName? rest
      return (name, ← readEqual? rest)
    else none

/-- Reads a line: an assignment or nothing. There is `none` if the line is wrong. -/
def readLine? (line : List Char) : Option (Option Assignment) :=
  match Text.trimList line with
  | [] | '#' :: _ => some none
  | cs => do
    let (name, value) ← readTarget? cs
    match value with
    | [] | '#' :: _ => return some ⟨name, []⟩
    | _ => return some ⟨name, ← readValue .unquoted value⟩

/-- The assignments of a text up to its first line that is wrong. -/
def readLines (cs : List Char) : List Assignment :=
  match cs with
  | [] => []
  | c :: rest =>
    if startsComment (c :: rest) then readLines (skipLine (c :: rest))
    else
      match _h : takeLine .unquoted (c :: rest) with
      | none => []
      | some (line, after) =>
        match readLine? line with
        | none => []
        | some none => readLines after
        | some (some a) => a :: readLines after
termination_by cs.length
decreasing_by
  · have := (List.dropWhile_suffix (l := c :: rest) (· ≠ '\n')).length_le
    simp only [skipLine, List.length_drop, List.length_cons] at *
    omega
  · exact length_takeLine_lt _h
  · exact length_takeLine_lt _h

/-- The assignments of a file. A byte order mark at its front does not count. -/
def assignments (text : String) : List Assignment :=
  match text.toList with
  | '\uFEFF' :: rest => readLines rest
  | cs => readLines cs

/-- The text of a value, variables without a value being empty. -/
def valueText (vars : Variables) (value : List Fragment) : String :=
  String.join (value.map fun
    | .char c => String.singleton c
    | .valueOf name => (vars.get? name).getD "")

/-- Gives the variables of a file their values, one after the other. -/
def Variables.supplyAll (vars : Variables) (l : List Assignment) : Variables :=
  l.foldl (fun vars a => vars.supply a.name (valueText vars a.value)) vars

/-- The variables whose values a file asks for or gives. -/
def namesIn (l : List Assignment) : List String :=
  l.flatMap fun a => a.name :: a.value.filterMap fun
    | .char _ => none
    | .valueOf name => some name

end SearchFilter.Environment
