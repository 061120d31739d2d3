import SearchFilter.Proofs.Json.Numerals

/-!
# Documents with their numbers as they are written

A decoded number has lost its literal. Here a document is read with the literal of every number kept
beside its value. Main statement: decoding forgets the literals and nothing else.
-/

namespace SearchFilter.Json

section Mapping

variable {α β κ : Type} {f : α → β} {item : List Char → Reading α} {image : List Char → Reading β}
  (hi : ∀ cs, (item cs).map (Prod.map f id) = image cs)

include hi

theorem map_readItems (bound : Nat) (read : List α) (cs : List Char) :
    (readItems item bound read cs).map (Prod.map (List.map f) id) =
      readItems image bound (read.map f) cs := by
  induction bound generalizing read cs with
  | zero => rfl
  | succ bound ih =>
    rw [readItems, readItems, ← hi]
    cases item cs with
    | error e => rfl
    | ok v =>
      have hv : (Except.ok v : Reading α).map (Prod.map f id) = .ok (f v.1, v.2) := rfl
      simp only [hv, bind, Except.bind]
      split
      · rfl
      · simp [Except.map]
      · split
        · rfl
        · rfl
        · exact ih _ _
      · rfl

theorem map_readList (cs : List Char) :
    (readList item cs).map (Prod.map (List.map f) id) = readList image cs := by
  unfold readList
  split
  · rfl
  · rfl
  · exact map_readItems hi _ [] _

variable {put : κ → α → List (κ × α) → List (κ × α)} {put' : κ → β → List (κ × β) → List (κ × β)}
  {name : List Char → Reading κ} {F : List (κ × α) → List (κ × β)}
  (hput : ∀ k v ms, F (put k v ms) = put' k (f v) (F ms))

include hput

theorem map_readMembers (bound : Nat) (read : List (κ × α)) (cs : List Char) :
    (readMembers name item put bound read cs).map (Prod.map F id) =
      readMembers name image put' bound (F read) cs := by
  induction bound generalizing read cs with
  | zero => rfl
  | succ bound ih =>
    rw [readMembers, readMembers]
    cases name cs with
    | error e => rfl
    | ok k =>
      simp only [bind, Except.bind]
      rw [← hi]
      cases item k.2 with
      | error e => rfl
      | ok v =>
        have hv : (Except.ok v : Reading α).map (Prod.map f id) = .ok (f v.1, v.2) := rfl
        simp only [hv, ← hput]
        split
        · rfl
        · rfl
        · split
          · rfl
          · rfl
          · exact ih _ _
        · rfl

theorem map_readObject (hnil : F [] = []) (cs : List Char) :
    (readObject name item put cs).map (Prod.map F id) = readObject name image put' cs := by
  unfold readObject
  split
  · rfl
  · simp [Except.map, hnil]
  · rw [map_readMembers hi hput, hnil]

end Mapping

/-- A JSON value with its numbers as they are written. -/
inductive Spelled where
  | null
  | bool (b : Bool)
  | number (n : Numeral)
  | string (s : String)
  | array (items : List Spelled)
  | object (members : List (String × Spelled))

namespace Spelled

mutual

/-- The value without the literals of its numbers. -/
def erase : Spelled → Json
  | .null => .null
  | .bool b => .bool b
  | .number n => .number n.value
  | .string s => .string s
  | .array items => .array (eraseItems items)
  | .object members => .object (eraseMembers members)

def eraseItems : List Spelled → List Json
  | [] => []
  | v :: rest => erase v :: eraseItems rest

def eraseMembers : List (String × Spelled) → List (String × Json)
  | [] => []
  | (k, v) :: rest => (k, erase v) :: eraseMembers rest

end

theorem eraseItems_eq_map (items : List Spelled) : eraseItems items = items.map erase := by
  induction items with
  | nil => rfl
  | cons v rest ih => rw [eraseItems, ih, List.map_cons]

/-- Puts a member into an object, at the place of the member of that name. -/
def setMember (name : String) (value : Spelled) :
    List (String × Spelled) → List (String × Spelled)
  | [] => [(name, value)]
  | (k, v) :: rest =>
    if k = name then (k, value) :: rest else (k, v) :: setMember name value rest

theorem eraseMembers_setMember (name : String) (value : Spelled)
    (members : List (String × Spelled)) :
    eraseMembers (setMember name value members) =
      Json.setMember name value.erase (eraseMembers members) := by
  induction members with
  | nil => rfl
  | cons m rest ih =>
    obtain ⟨k, v⟩ := m
    rw [setMember, eraseMembers, Json.setMember, ← ih]
    split_ifs <;> rw [eraseMembers]

/-- Reads a value that is no container and keeps the literal of a number. -/
def readScalar (cs : List Char) : Reading Spelled :=
  match h : Json.readScalar cs with
  | .error f => .error f
  | .ok (.null, rest) => .ok (.null, rest)
  | .ok (.bool b, rest) => .ok (.bool b, rest)
  | .ok (.number n, rest) =>
    .ok (.number ⟨cs.take (cs.length - rest.length), n, readScalar_taken h⟩, rest)
  | .ok (.string s, rest) => .ok (.string s, rest)
  | .ok (.array _, _) | .ok (.object _, _) => (isScalar_of_readScalar h).elim

theorem map_erase_readScalar (cs : List Char) :
    (readScalar cs).map (Prod.map erase id) = Json.readScalar cs := by
  unfold readScalar
  split
  · simp_all [Except.map]
  · simp_all [Except.map, erase]
  · simp_all [Except.map, erase]
  · simp_all [Except.map, erase]
  · simp_all [Except.map, erase]
  · rename_i h
    exact (isScalar_of_readScalar h).elim
  · rename_i h
    exact (isScalar_of_readScalar h).elim

/-- Reads a value that holds containers at most `depth` deep. -/
def readValue : (depth : Nat) → List Char → Reading Spelled
  | 0, cs =>
    match skipBlank cs with
    | '[' :: rest => faultAt .tooDeep ('[' :: rest)
    | '{' :: rest => faultAt .tooDeep ('{' :: rest)
    | rest => readScalar rest
  | depth + 1, cs =>
    match skipBlank cs with
    | '[' :: rest => (readList (readValue depth) rest).map fun (vs, rest) => (.array vs, rest)
    | '{' :: rest =>
      (readObject readName (readValue depth) setMember rest).map fun (ms, rest) =>
        (.object ms, rest)
    | rest => readScalar rest

theorem map_erase_readValue (depth : Nat) (cs : List Char) :
    (readValue depth cs).map (Prod.map erase id) = Json.readValue depth cs := by
  induction depth generalizing cs with
  | zero =>
    rw [readValue, Json.readValue]
    cases skipBlank cs with
    | nil => rfl
    | cons c rest =>
      by_cases hl : c = '['
      · subst hl
        rfl
      by_cases ho : c = '{'
      · subst ho
        rfl
      simp [hl, ho, map_erase_readScalar]
  | succ depth ih =>
    rw [readValue, Json.readValue]
    cases skipBlank cs with
    | nil => rfl
    | cons c rest =>
      by_cases hl : c = '['
      · subst hl
        simp only [← map_readList ih]
        cases readList (readValue depth) rest with
        | error e => rfl
        | ok v => simp [Except.map, erase, eraseItems_eq_map]
      by_cases ho : c = '{'
      · subst ho
        simp only [← map_readObject ih eraseMembers_setMember rfl]
        cases readObject readName (readValue depth) setMember rest with
        | error e => rfl
        | ok v => simp [Except.map, erase]
      simp [hl, ho, map_erase_readScalar]

/-- Reads a whole text as one value. -/
def readText (text : List Char) : Except Fault Spelled := do
  let (v, rest) ← readValue depthMax text
  expectEnd rest
  return v

/-- The value of a JSON text with its numbers as they are written there. -/
def parse (text : String) : Except String Spelled :=
  (readText text.toList).mapError (·.message text.toList)

/-- Decoding forgets the literals and nothing else. -/
theorem map_erase_parse (text : String) : (parse text).map erase = Json.parse text := by
  have ht : (readText text.toList).map erase = Json.readText text.toList := by
    rw [readText, Json.readText, ← map_erase_readValue]
    cases readValue depthMax text.toList with
    | error f => rfl
    | ok v =>
      simp only [bind, Except.bind, Except.map, Prod.map, id]
      cases expectEnd v.2 <;> rfl
  rw [parse, Json.parse, ← ht]
  cases readText text.toList <;> rfl

end Spelled

end SearchFilter.Json
