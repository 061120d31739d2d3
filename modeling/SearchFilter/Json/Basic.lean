import SearchFilter.Json.Number

/-!
# JSON values

Objects are lists of members in the order of the text. A decoded object has distinct names: writing
a name again keeps its place and takes the new value.
-/

namespace SearchFilter

inductive Json where
  | null
  | bool (b : Bool)
  | number (n : Json.Number)
  | string (s : String)
  | array (items : List Json)
  | object (members : List (String × Json))

namespace Json

/-- Puts a member into an object: at the place of the member of that name, else at the end. -/
def setMember (name : String) (value : Json) : List (String × Json) → List (String × Json)
  | [] => [(name, value)]
  | (k, v) :: rest =>
    if k = name then (k, value) :: rest else (k, v) :: setMember name value rest

def names (members : List (String × Json)) : List String := members.map Prod.fst

def member? (name : String) : List (String × Json) → Option Json
  | [] => none
  | (k, v) :: rest => if k = name then some v else member? name rest

theorem mem_names_setMember {name n : String} {value : Json} {members : List (String × Json)} :
    n ∈ names (setMember name value members) ↔ n = name ∨ n ∈ names members := by
  induction members with
  | nil => simp [setMember, names]
  | cons m rest ih =>
    obtain ⟨k, v⟩ := m
    simp only [names, setMember] at *
    split
    · rename_i h
      subst h
      simp
    · simp only [List.map_cons, List.mem_cons, ih]
      grind

/-- Distinct names stay distinct. -/
theorem nodup_names_setMember {name : String} {value : Json} {members : List (String × Json)}
    (h : (names members).Nodup) : (names (setMember name value members)).Nodup := by
  induction members with
  | nil => simp [setMember, names]
  | cons m rest ih =>
    obtain ⟨k, v⟩ := m
    simp only [names, List.map_cons, List.nodup_cons] at h
    simp only [setMember]
    split
    · simpa [names] using h
    · rename_i hk
      have : k ∈ names (setMember name value rest) ↔ k = name ∨ k ∈ names rest :=
        mem_names_setMember
      simp only [names] at *
      simp only [List.map_cons, List.nodup_cons]
      grind

end Json

end SearchFilter
