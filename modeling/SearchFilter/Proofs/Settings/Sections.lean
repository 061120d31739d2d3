import SearchFilter.Proofs.Json.Skipping
import SearchFilter.Settings.Decode

/-!
# The members of settings files

Objects are gone through member by member, in files as in their sections, and some of the values are
read while others are skipped. Main statement: what is read to a section, in either of its forms, is
one value, which can as well be passed over.
-/

namespace SearchFilter.Settings

open Json (Fault Reading IsPassed Passes readName skipBlank skipBlank_skipBlank)

/-! ### The members of an object -/

/-- From `cs` a key starts behind its opening quote; all but the first one stand behind a comma. -/
def KeyAt (isFirst : Bool) (cs key : List Char) : Prop :=
  if isFirst then skipBlank cs = '"' :: key
  else ∃ behind, skipBlank cs = ',' :: behind ∧ skipBlank behind = '"' :: key

/-- From `cs` to the closing bracket before `rest` there are these members: their names, and the
texts from where their values start. -/
inductive HasMembers : (isFirst : Bool) → List Char → List (String × List Char) → List Char → Prop
  | last {isFirst : Bool} {cs rest : List Char} :
    skipBlank cs = '\x7d' :: rest → HasMembers isFirst cs [] rest
  | member {isFirst : Bool} {cs key value behind rest : List Char} {name : String}
      {members : List (String × List Char)} :
    KeyAt isFirst cs key → readName ('"' :: key) = .ok (name, value) →
      Passes .value [] value behind → HasMembers false behind members rest →
      HasMembers isFirst cs ((name, value) :: members) rest

/-- The state in which the next member comes first or behind others. -/
def stateOf (isFirst : Bool) : Json.Expecting := if isFirst then .first else .behind

theorem HasMembers.passes {isFirst : Bool} {cs rest : List Char}
    {members : List (String × List Char)} (h : HasMembers isFirst cs members rest) :
    Passes (stateOf isFirst) [.object] cs rest := by
  induction h with
  | @last isFirst cs rest hb =>
    cases isFirst
    · exact .behind_end (b := .object) hb
    · exact .first_end (b := .object) hb
  | @member isFirst cs key _ _ _ _ _ hk hn hv _ ih =>
    have hn := Json.skipName_of_readName hn
    cases isFirst with
    | false =>
      obtain ⟨text, hcomma, hquote⟩ := hk
      exact .behind_item hcomma (.item_object (by rw [hquote]; exact hn) hv ih)
    | true =>
      have hquote : skipBlank cs = '"' :: key := hk
      exact .first_item hquote (by decide) (.item_object (by rw [hquote]; exact hn) hv ih)

theorem skipBlank_of_nextKey_eq_none {isFirst : Bool} {cs rest : List Char}
    (h : nextKey isFirst cs = .ok (none, rest)) : skipBlank cs = '\x7d' :: rest := by
  unfold nextKey at h
  split at h
  · cases h
  · cases h
    assumption
  · split at h
    · cases h
    · split at h <;> cases h
  · split at h <;> cases h
  · split at h <;> cases h

theorem keyAt_of_nextKey {isFirst : Bool} {cs key rest : List Char}
    (h : nextKey isFirst cs = .ok (some key, rest)) : KeyAt isFirst cs key := by
  unfold nextKey at h
  split at h
  · cases h
  · cases h
  · rename_i behind hcomma
    cases isFirst with
    | true => cases h
    | false =>
      rw [if_neg Bool.false_ne_true] at h
      split at h <;> cases h
      exact ⟨behind, hcomma, ‹_›⟩
  · rename_i hquote
    cases isFirst with
    | true =>
      cases h
      exact hquote
    | false => cases h
  · split at h <;> cases h

theorem readColon_eq_ok_iff {cs rest : List Char} :
    readColon cs = .ok rest ↔ skipBlank cs = ':' :: rest := by
  unfold readColon
  split
  · simp [*, Json.faultBefore]
  · simp [*]
  · rename_i hcolon
    constructor
    · intro h
      cases h
    · intro h
      exact absurd h (hcolon rest)

theorem readName_of_readColon {key behind rest : List Char} {name : String}
    (hs : Json.readString key = .ok (name, behind)) (hc : readColon behind = .ok rest) :
    readName ('"' :: key) = .ok (name, rest) :=
  Json.readName_eq_ok_iff.mpr ⟨key, behind, rfl, hs, readColon_eq_ok_iff.mp hc⟩

/-! ### The values of settings -/

theorem refuseValue_ne_ok {α : Type} {expected : String} {cs : List Char} {a : α} :
    refuseValue expected cs ≠ .ok a := by
  intro h
  unfold refuseValue at h
  split at h
  · cases h
  · cases h
  · split at h <;> cases h

theorem isPassed_readOptional {α : Type} {read : List Char → Reading α} (hr : IsPassed read) :
    IsPassed (readOptional read) := by
  intro cs v rest h
  unfold readOptional at h
  split at h
  · rename_i hb
    obtain ⟨r, hl, he⟩ := map_eq_ok_iff.mp h
    cases he
    exact .scalar (by rw [hb]; exact hl)
  · obtain ⟨⟨v, r⟩, hv, he⟩ := map_eq_ok_iff.mp h
    cases he
    exact (hr hv).congr (skipBlank_skipBlank cs).symm

theorem isPassed_readUnsigned (type : String) (max : Nat) : IsPassed (readUnsigned type max) := by
  intro cs n rest h
  unfold readUnsigned at h
  split at h
  · cases h
  · rename_i hb
    split at h
    · split at h
      · rename_i hs
        split at h <;> cases h
        exact .scalar (by rw [hb]; exact Json.skipScalar_of_readScalar hs)
      · cases h
      · cases h
      · cases h
    · exact absurd h refuseValue_ne_ok

theorem isPassed_readText : IsPassed readText := by
  intro cs s rest h
  unfold readText at h
  split at h
  · cases h
  · rename_i hb
    exact .scalar (by rw [hb]; exact Json.skipString_of_readString h)
  · exact absurd h refuseValue_ne_ok

theorem rest_eq_of_backendOf {name : String} {cs rest : List Char} {b : Backend}
    (h : backendOf name cs = .ok (b, rest)) : rest = cs := by
  unfold backendOf at h
  split_ifs at h <;> cases h <;> rfl

theorem isPassed_readBackend : IsPassed readBackend := by
  intro cs b rest h
  unfold readBackend at h
  split at h
  · cases h
  · rename_i hb
    obtain ⟨⟨name, r⟩, hs, h⟩ := bind_eq_ok_iff.mp h
    cases rest_eq_of_backendOf h
    exact .scalar (by rw [hb]; exact Json.skipString_of_readString hs)
  · rename_i hbracket
    split at h
    · cases h
    · rename_i key hquote
      obtain ⟨⟨name, behind⟩, hs, hb⟩ := bind_eq_ok_iff.mp h
      obtain ⟨⟨backend, behind'⟩, hname, hc⟩ := bind_eq_ok_iff.mp hb
      obtain rfl := rest_eq_of_backendOf hname
      dsimp only at hc
      split at hc
      · cases hc
      · rename_i value hcolon
        have hn := readName_of_readColon hs (readColon_eq_ok_iff.mpr hcolon)
        split at hc
        · cases hc
        · rename_i hnull
          obtain ⟨mid, hl, he⟩ := bind_eq_ok_iff.mp hc
          split at he
          · cases he
          · rename_i hend
            cases he
            have hk : KeyAt true _ key := hquote
            have hm := HasMembers.member hk hn (.scalar (by rw [hnull]; exact hl)) (.last hend)
            exact .container (b := .object) hbracket hm.passes
          · cases he
        · exact absurd hc refuseValue_ne_ok
      · cases hc
    · exact absurd h refuseValue_ne_ok
  · cases h

/-! ### Sections -/

section Shapes

variable {σ : Type} {shape : Shape σ}

/-- Whether every setting is read as one value. -/
def Shape.IsPassed (shape : Shape σ) : Prop :=
  ∀ field ∈ shape.fields, ∀ s, Json.IsPassed (field.read s)

theorem isPassed_ofReader {α : Type} {name : String} {read : List Char → Reading α}
    {set : σ → Option α → σ} (hr : IsPassed read) (s : σ) :
    IsPassed ((Field.ofReader name read set).read s) := by
  intro cs s' rest h
  obtain ⟨⟨v, r⟩, hv, he⟩ := map_eq_ok_iff.mp h
  cases he
  exact isPassed_readOptional hr hv

/-- What a member makes of a section: nothing, if its name is that of no setting. -/
def Shape.put (shape : Shape σ) (s : σ) (member : String × List Char) : σ :=
  match shape.fields.find? (·.name = member.1) with
  | none => s
  | some field =>
    match field.read s member.2 with
    | .ok (s, _) => s
    | .error _ => s

theorem exists_members_of_readByName (hs : shape.IsPassed) {bound : Nat} {isFirst : Bool}
    {seen : List String} {s s' : σ} {cs rest : List Char}
    (h : readByName shape bound isFirst seen s cs = .ok (s', rest)) :
    ∃ members, HasMembers isFirst cs members rest ∧ s' = members.foldl shape.put s := by
  induction bound generalizing isFirst seen s cs with
  | zero => cases h
  | succ bound ih =>
    rw [readByName] at h
    obtain ⟨⟨key?, r⟩, hk, h⟩ := bind_eq_ok_iff.mp h
    cases key? with
    | none =>
      cases h
      exact ⟨[], .last (skipBlank_of_nextKey_eq_none hk), rfl⟩
    | some key =>
      have hk := keyAt_of_nextKey hk
      obtain ⟨⟨name, r⟩, hn, h⟩ := bind_eq_ok_iff.mp h
      dsimp only at h
      split at h
      · rename_i hf
        obtain ⟨value, hc, h⟩ := bind_eq_ok_iff.mp h
        obtain ⟨behind, hv, h⟩ := bind_eq_ok_iff.mp h
        obtain ⟨members, hm, hfold⟩ := ih h
        have hput : shape.put s (name, value) = s := by simp only [Shape.put, hf]
        refine ⟨(name, value) :: members, .member hk (readName_of_readColon hn hc)
          (Json.skipValue_eq_ok_iff.mp hv) hm, ?_⟩
        rw [List.foldl_cons, hput, hfold]
      · rename_i field hf
        split at h
        · cases h
        · obtain ⟨value, hc, h⟩ := bind_eq_ok_iff.mp h
          obtain ⟨⟨s'', behind⟩, hv, h⟩ := bind_eq_ok_iff.mp h
          obtain ⟨members, hm, hfold⟩ := ih h
          have hput : shape.put s (name, value) = s'' := by simp only [Shape.put, hf, hv]
          have hv := hs field (List.mem_of_find?_eq_some hf) s hv
          refine ⟨(name, value) :: members, .member hk (readName_of_readColon hn hc) hv hm, ?_⟩
          rw [List.foldl_cons, hput, hfold]

theorem passes_readInOrder {fields : List (Field σ)}
    (hf : ∀ field ∈ fields, ∀ s, Json.IsPassed (field.read s)) {taken : Nat} {s s' : σ}
    {cs rest : List Char} (h : readInOrder shape fields taken s cs = .ok (s', rest)) :
    Passes (stateOf (taken = 0)) [.list] cs rest := by
  induction fields generalizing taken s cs with
  | nil =>
    unfold readInOrder at h
    split at h
    · cases h
    · rename_i hb
      cases h
      by_cases ht : taken = 0
      · simpa [stateOf, ht] using Passes.first_end (b := .list) hb
      · simpa [stateOf, ht] using Passes.behind_end (b := .list) hb
    · split at h <;> cases h
    · cases h
  | cons field fields ih =>
    rw [List.forall_mem_cons] at hf
    have item {cs mid : List Char} {s'' : σ} (hv : field.read s cs = .ok (s'', mid))
        (h : readInOrder shape fields (taken + 1) s'' mid = .ok (s', rest)) :
        Passes .item [.list] cs rest := by
      have hp := ih hf.2 h
      exact .item_list (hf.1 s hv) hp
    unfold readInOrder at h
    split at h
    · cases h
    · cases h
    · rename_i behind hcomma
      split at h
      · rename_i ht
        subst ht
        obtain ⟨⟨s'', mid⟩, hv, h⟩ := bind_eq_ok_iff.mp h
        rw [← hcomma] at hv
        exact .first_item hcomma (by decide)
          ((item hv h).congr (skipBlank_skipBlank cs).symm)
      · rename_i ht
        have hstate : stateOf (taken = 0) = .behind := by simp [stateOf, ht]
        rw [hstate]
        refine .behind_item hcomma ?_
        split at h
        · cases h
        · cases h
        · obtain ⟨⟨s'', mid⟩, hv, h⟩ := bind_eq_ok_iff.mp h
          exact (item hv h).congr (skipBlank_skipBlank behind).symm
    · rename_i hnil hend hcomma
      split at h
      · rename_i ht
        subst ht
        obtain ⟨⟨s'', mid⟩, hv, h⟩ := bind_eq_ok_iff.mp h
        cases hb : skipBlank cs with
        | nil => exact absurd hb hnil
        | cons c behind =>
          have hc : c ≠ Json.Bracket.list.closing := by
            rintro rfl
            exact hend behind hb
          exact .first_item hb hc ((item hv h).congr (skipBlank_skipBlank cs).symm)
      · cases h

/-- What is read to a section is one value, in either of its forms. -/
theorem isPassed_read (hs : shape.IsPassed) : IsPassed shape.read := by
  intro cs s rest h
  unfold Shape.read at h
  split at h
  · cases h
  · rename_i hb
    exact .container (b := .list) hb (passes_readInOrder hs h)
  · rename_i hb
    obtain ⟨members, hm, -⟩ := exists_members_of_readByName hs h
    exact .container (b := .object) hb hm.passes
  · exact absurd h refuseValue_ne_ok

end Shapes

theorem isPassed_databaseShape : databaseShape.IsPassed := by
  simp only [Shape.IsPassed, databaseShape, List.forall_mem_cons]
  exact ⟨isPassed_ofReader isPassed_readBackend, isPassed_ofReader isPassed_readText,
    isPassed_ofReader (isPassed_readUnsigned _ _), isPassed_ofReader (isPassed_readUnsigned _ _),
    isPassed_ofReader (isPassed_readUnsigned _ _), isPassed_ofReader (isPassed_readUnsigned _ _),
    List.forall_mem_nil _⟩

theorem isPassed_filterShape : filterShape.IsPassed := by
  simp only [Shape.IsPassed, filterShape, List.forall_mem_cons]
  exact ⟨isPassed_ofReader (isPassed_readUnsigned _ _), List.forall_mem_nil _⟩

end SearchFilter.Settings
