import SearchFilter.Predicate.Attribute

/-!
# Tails of attributes

What stands behind the column of an attribute is its tail: for each key a sign and a placeholder.
The sign of the last key starts with that of the others. Main statement: a tail is read off a text
exactly if the text starts with it, whatever follows, and what is read behind the column of an
attribute is all that was written for its keys.
-/

namespace SearchFilter.Attribute

/-- The text of a step: its sign and the placeholder of its key. -/
def stepText (sign : String) : String := " " ++ sign ++ " ?"

/-- The text of `hops` steps that keep JSON and one that takes the text. -/
def tailText (hops : Nat) : String :=
  String.join (List.replicate hops (stepText keepSign)) ++ stepText textSign

theorem toList_tailText (hops : Nat) : (tailText hops).toList = tail hops := by
  rw [tailText, String.toList_append, String.toList_join, List.flatMap_replicate]
  induction hops with
  | zero => rfl
  | succ hops ih =>
    rw [List.replicate_succ, List.flatten_cons, List.append_assoc, ih]
    rfl

/-- A text starts with one tail at most. -/
theorem tail_append_inj {hops hops' : Nat} {rest rest' : List Char}
    (h : tail hops ++ rest = tail hops' ++ rest') : hops = hops' ∧ rest = rest' := by
  have hread := readTail_tail_append hops rest
  rw [h, readTail_tail_append] at hread
  cases hread
  exact ⟨rfl, rfl⟩

theorem tailText_append_inj {hops hops' : Nat} {rest rest' : String} :
    tailText hops ++ rest = tailText hops' ++ rest' ↔ hops = hops' ∧ rest = rest' := by
  constructor
  · intro h
    have hlist := congrArg String.toList h
    simp only [String.toList_append, toList_tailText] at hlist
    obtain ⟨hhops, hrest⟩ := tail_append_inj hlist
    exact ⟨hhops, String.toList_inj.mp hrest⟩
  · rintro ⟨rfl, rfl⟩
    rfl

/-- The tail at the start of a text: the number of its steps that keep JSON, and its bytes. -/
def tailAt? (text : String) : Option (Nat × Nat) :=
  (readTail text.toList).map fun (hops, rest) =>
    (hops, text.utf8ByteSize - (String.ofList rest).utf8ByteSize)

theorem tailAt?_tailText_append (hops : Nat) (rest : String) :
    tailAt? (tailText hops ++ rest) = some (hops, (tailText hops).utf8ByteSize) := by
  rw [tailAt?, String.toList_append, toList_tailText, readTail_tail_append]
  simp [String.utf8ByteSize_append]

theorem exists_of_tailAt? {text : String} {hops len : Nat} (h : tailAt? text = some (hops, len)) :
    ∃ rest, text = tailText hops ++ rest := by
  obtain ⟨⟨hops, rest⟩, hread, he⟩ := Option.map_eq_some_iff.mp h
  cases he
  refine ⟨String.ofList rest, ?_⟩
  rw [← String.toList_inj, eq_tail_append_of_readTail hread, String.toList_append, toList_tailText,
    String.toList_ofList]

theorem tailAt?_eq_some_iff {text : String} {hops len : Nat} :
    tailAt? text = some (hops, len) ↔
      (∃ rest, text = tailText hops ++ rest) ∧ len = (tailText hops).utf8ByteSize := by
  constructor
  · intro h
    obtain ⟨rest, rfl⟩ := exists_of_tailAt? h
    rw [tailAt?_tailText_append] at h
    cases h
    exact ⟨⟨rest, rfl⟩, rfl⟩
  · rintro ⟨⟨rest, rfl⟩, rfl⟩
    exact tailAt?_tailText_append hops rest

theorem tailAt?_eq_none_iff {text : String} :
    tailAt? text = none ↔ ∀ hops rest, text ≠ tailText hops ++ rest := by
  constructor
  · rintro h hops rest rfl
    rw [tailAt?_tailText_append] at h
    cases h
  · intro h
    cases ht : tailAt? text with
    | none => rfl
    | some found =>
      obtain ⟨rest, hr⟩ := exists_of_tailAt? ht
      exact absurd hr (h found.1 rest)

theorem expr_of_keys {a : Attribute} {key : String} {keys : List String}
    (h : a.keys = key :: keys) : a.expr = a.column ++ tailText keys.length := by
  rw [expr, exprList, h]
  dsimp only
  rw [← toList_tailText, ← String.toList_append, String.ofList_toList]

theorem expr_under (column : String) (keys : List String) (field : String) :
    (under (column :: keys) field).expr = column ++ tailText keys.length := by
  cases keys with
  | nil => exact expr_of_keys rfl
  | cons key keys =>
    have h : (under (column :: key :: keys) field).keys = key :: (keys ++ [field]) := rfl
    rw [expr_of_keys h, List.length_append]
    rfl

/-- The tails that are read are those that are written. A text with a tail at its start gives the
number of its steps and its bytes, of which there is one choice only, and any other text gives none.
Behind the column of an attribute the whole of what is written is read, whatever follows it, and of
its steps each is for one parameter: the keys of the path, and the field. -/
theorem tailAt?_reads_written :
    (∀ (text : String) (hops len : Nat), tailAt? text = some (hops, len) ↔
      (∃ rest, text = tailText hops ++ rest) ∧ len = (tailText hops).utf8ByteSize) ∧
    (∀ text : String, tailAt? text = none ↔ ∀ hops rest, text ≠ tailText hops ++ rest) ∧
    (∀ (hops hops' : Nat) (rest rest' : String), tailText hops ++ rest = tailText hops' ++ rest' ↔
      hops = hops' ∧ rest = rest') ∧
    ∀ (column : String) (keys : List String) (field continuation : String),
      let base := column :: keys
      let a := under base field
      ∃ written : String, a.expr = column ++ written ∧
        tailAt? (written ++ continuation) = some (base.length - 1, written.utf8ByteSize) ∧
        a.parameters = (base.tail ++ [field]).map .text ∧
        base.length - 1 + 1 = a.parameters.length := by
  refine ⟨fun _ _ _ => tailAt?_eq_some_iff, fun _ => tailAt?_eq_none_iff,
    fun _ _ _ _ => tailText_append_inj, ?_⟩
  intro column keys field continuation base a
  refine ⟨tailText keys.length, expr_under column keys field,
    tailAt?_tailText_append keys.length continuation, rfl, ?_⟩
  simp [a, base, under, parameters]

end SearchFilter.Attribute
