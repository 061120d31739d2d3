import SearchFilter.Proofs.Json.Numerals
import SearchFilter.Proofs.Json.Strings

/-!
# The extent of decoded values

Whatever is decoded stands in the text: brackets, names with their quotes and colons, what divides
the parts of a container. Main statement: a text has at least as many bytes as its value has extent.
-/

namespace SearchFilter.Json

mutual

/-- So many characters a text of the value has at least. -/
def extent : Json → Nat
  | .array items => 1 + extentItems items
  | .object members => 1 + extentMembers members
  | .null | .bool _ | .number _ | .string _ => 1

/-- Each item is followed by a comma or by the closing bracket. -/
def extentItems : List Json → Nat
  | [] => 0
  | v :: rest => extent v + 1 + extentItems rest

def extentMembers : List (String × Json) → Nat
  | [] => 0
  | (name, v) :: rest => name.length + extent v + 4 + extentMembers rest

end

theorem extent_pos (v : Json) : 1 ≤ extent v := by
  cases v <;> simp only [extent] <;> omega

theorem extent_of_isScalar {v : Json} (h : v.IsScalar) : extent v = 1 := by
  cases v with
  | array items => exact h.elim
  | object members => exact h.elim
  | _ => rw [extent]

theorem length_le_extentItems (items : List Json) : 2 * items.length ≤ extentItems items := by
  induction items with
  | nil => exact Nat.le_refl _
  | cons v rest ih =>
    have := extent_pos v
    rw [extentItems, List.length_cons]
    omega

theorem extentItems_append (a b : List Json) :
    extentItems (a ++ b) = extentItems a + extentItems b := by
  induction a with
  | nil => rw [List.nil_append, extentItems, Nat.zero_add]
  | cons v a ih => rw [List.cons_append, extentItems, extentItems, ih]; omega

theorem extentItems_reverse (items : List Json) :
    extentItems items.reverse = extentItems items := by
  induction items with
  | nil => rfl
  | cons v rest ih =>
    rw [List.reverse_cons, extentItems_append, ih, extentItems, extentItems, extentItems]
    omega

theorem extentMembers_setMember_le (name : String) (v : Json) (members : List (String × Json)) :
    extentMembers (setMember name v members) ≤
      name.length + extent v + 4 + extentMembers members := by
  induction members with
  | nil => exact Nat.le_refl _
  | cons m rest ih =>
    obtain ⟨k, w⟩ := m
    rw [setMember]
    split
    · rename_i hk
      subst hk
      simp only [extentMembers]
      omega
    · simp only [extentMembers]
      omega

theorem length_skipBlank_le (cs : List Char) : (skipBlank cs).length ≤ cs.length :=
  (List.dropWhile_sublist _).length_le

theorem length_lt_of_skipBlank_eq {c : Char} {cs rest : List Char}
    (h : skipBlank cs = c :: rest) : rest.length < cs.length := by
  have := length_skipBlank_le cs
  rw [h, List.length_cons] at this
  exact this

theorem length_readLetters_le {letters cs rest : List Char}
    (h : readLetters letters cs = .ok rest) : rest.length ≤ cs.length := by
  fun_induction readLetters letters cs with
  | case1 cs =>
    cases h
    exact Nat.le_refl _
  | case3 es c cs ih => exact Nat.le_succ_of_le (ih h)
  | case2 | case4 => cases h

theorem length_readString_le {cs rest : List Char} {s : String}
    (h : readString cs = .ok (s, rest)) : s.length + 1 + rest.length ≤ cs.length := by
  obtain ⟨parts, rfl, hs, hp⟩ := isStringText_of_readString h
  have hparts : parts.length ≤ parts.flatten.length := by
    clear hs h
    induction parts with
    | nil => exact Nat.le_refl _
    | cons part parts ih =>
      have hpos := (hp part List.mem_cons_self).length_pos
      have := ih fun q hq => hp q (List.mem_cons_of_mem _ hq)
      rw [List.flatten_cons, List.length_append, List.length_cons]
      omega
  rw [List.length_append, List.length_cons]
  omega

theorem length_readNumber_le {cs rest : List Char} {isNegative : Bool} {n : Number}
    (h : readNumber isNegative cs = .ok (n, rest)) : rest.length < cs.length := by
  obtain ⟨part, rfl, hp⟩ := exists_of_readNumber h
  cases part with
  | nil => cases hp
  | cons c part =>
    rw [List.length_append, List.length_cons]
    omega

theorem length_readScalar_lt {cs rest : List Char} {v : Json}
    (h : readScalar cs = .ok (v, rest)) : rest.length < cs.length := by
  cases cs with
  | nil => cases h
  | cons c cs =>
    rw [readScalar] at h
    have hletters {letters r : List Char} (hr : readLetters letters cs = .ok r) :
        r.length < (c :: cs).length := Nat.lt_succ_of_le (length_readLetters_le hr)
    split_ifs at h
    · obtain ⟨r, hr, he⟩ := map_eq_ok_iff.mp h
      cases he
      exact hletters hr
    · obtain ⟨r, hr, he⟩ := map_eq_ok_iff.mp h
      cases he
      exact hletters hr
    · obtain ⟨r, hr, he⟩ := map_eq_ok_iff.mp h
      cases he
      exact hletters hr
    · obtain ⟨⟨s, r⟩, hr, he⟩ := map_eq_ok_iff.mp h
      cases he
      have := length_readString_le hr
      rw [List.length_cons]
      omega
    · obtain ⟨⟨n, r⟩, hr, he⟩ := map_eq_ok_iff.mp h
      cases he
      exact Nat.lt_succ_of_lt (length_readNumber_le hr)
    · obtain ⟨⟨n, r⟩, hr, he⟩ := map_eq_ok_iff.mp h
      cases he
      exact length_readNumber_le hr
    · cases h

theorem length_readName_le {cs rest : List Char} {name : String}
    (h : readName cs = .ok (name, rest)) : name.length + 3 + rest.length ≤ cs.length := by
  unfold readName at h
  split at h
  · rename_i behind
    obtain ⟨⟨s, r⟩, hs, h⟩ := bind_eq_ok_iff.mp h
    have hr := length_readString_le hs
    dsimp only at h
    split at h
    · cases h
    · rename_i hb
      cases h
      have := length_lt_of_skipBlank_eq hb
      rw [List.length_cons]
      omega
    · cases h
  · cases h

section Containers

variable {item : List Char → Reading Json}
  (hi : ∀ cs v rest, item cs = .ok (v, rest) → extent v + rest.length ≤ cs.length)

include hi

theorem extent_readItems_le {bound : Nat} {read items : List Json} {cs rest : List Char}
    (h : readItems item bound read cs = .ok (items, rest)) :
    extentItems items + rest.length ≤ extentItems read + cs.length := by
  induction bound generalizing read cs with
  | zero => cases h
  | succ bound ih =>
    rw [readItems] at h
    obtain ⟨⟨v, cs'⟩, hv, h⟩ := bind_eq_ok_iff.mp h
    have hv := hi _ _ _ hv
    dsimp only at h
    split at h
    · cases h
    · rename_i hb
      cases h
      have := length_lt_of_skipBlank_eq hb
      rw [extentItems_reverse, extentItems]
      omega
    · rename_i r hb
      have hr := length_lt_of_skipBlank_eq hb
      have hs := length_skipBlank_le r
      split at h
      · cases h
      · cases h
      · have := ih h
        rw [extentItems] at this
        omega
    · cases h

theorem extent_readMembers_le {bound : Nat} {read members : List (String × Json)}
    {cs rest : List Char}
    (h : readMembers readName item setMember bound read cs = .ok (members, rest)) :
    extentMembers members + rest.length ≤ extentMembers read + cs.length := by
  induction bound generalizing read cs with
  | zero => cases h
  | succ bound ih =>
    rw [readMembers] at h
    obtain ⟨⟨k, cs'⟩, hk, h⟩ := bind_eq_ok_iff.mp h
    obtain ⟨⟨v, cs''⟩, hv, h⟩ := bind_eq_ok_iff.mp h
    have hk := length_readName_le hk
    have hv := hi _ _ _ hv
    have hput := extentMembers_setMember_le k v read
    dsimp only at h
    split at h
    · cases h
    · rename_i hb
      cases h
      have := length_lt_of_skipBlank_eq hb
      omega
    · rename_i r hb
      have hr := length_lt_of_skipBlank_eq hb
      have hs := length_skipBlank_le r
      split at h
      · cases h
      · cases h
      · have := ih h
        omega
    · cases h

end Containers

theorem extent_readValue_le {depth : Nat} : ∀ {cs : List Char} {v : Json} {rest : List Char},
    readValue depth cs = .ok (v, rest) → extent v + rest.length ≤ cs.length := by
  have scalar {cs : List Char} {v : Json} {rest : List Char}
      (h : readScalar (skipBlank cs) = .ok (v, rest)) : extent v + rest.length ≤ cs.length := by
    have hs := length_skipBlank_le cs
    have hl := length_readScalar_lt h
    rw [extent_of_isScalar (isScalar_of_readScalar h)]
    omega
  induction depth with
  | zero =>
    intro cs v rest h
    unfold readValue at h
    split at h
    · cases h
    · cases h
    · exact scalar h
  | succ depth ih =>
    intro cs v rest h
    have hi : ∀ cs v rest, readValue depth cs = .ok (v, rest) →
        extent v + rest.length ≤ cs.length := fun _ _ _ => ih
    unfold readValue at h
    split at h
    · rename_i r hb
      have hr := length_lt_of_skipBlank_eq hb
      have hs := length_skipBlank_le r
      obtain ⟨⟨items, rest'⟩, hl, he⟩ := map_eq_ok_iff.mp h
      cases he
      unfold readList at hl
      rw [extent]
      split at hl
      · cases hl
      · rename_i hb'
        cases hl
        have := length_lt_of_skipBlank_eq hb'
        rw [extentItems]
        omega
      · have := extent_readItems_le hi hl
        rw [extentItems] at this
        omega
    · rename_i r hb
      have hr := length_lt_of_skipBlank_eq hb
      have hs := length_skipBlank_le r
      obtain ⟨⟨members, rest'⟩, ho, he⟩ := map_eq_ok_iff.mp h
      cases he
      unfold readObject at ho
      rw [extent]
      split at ho
      · cases ho
      · rename_i hb'
        cases ho
        have := length_lt_of_skipBlank_eq hb'
        rw [extentMembers]
        omega
      · have := extent_readMembers_le hi ho
        rw [extentMembers] at this
        omega
    · exact scalar h

theorem length_le_utf8ByteSize (s : String) : s.toList.length ≤ s.utf8ByteSize := by
  have h (cs : List Char) : cs.length ≤ (String.ofList cs).utf8ByteSize := by
    induction cs with
    | nil => exact Nat.zero_le _
    | cons c cs ih =>
      have := c.utf8Size_pos
      rw [String.ofList_cons, String.utf8ByteSize_append, String.utf8ByteSize_singleton,
        List.length_cons]
      omega
  simpa using h s.toList

/-- A text has no fewer bytes than its value has extent. -/
theorem extent_le_of_parse {text : String} {v : Json} (h : parse text = .ok v) :
    extent v ≤ text.utf8ByteSize := by
  obtain ⟨rest, hv⟩ := exists_readValue_of_parse h
  have hc := extent_readValue_le hv
  have hb := length_le_utf8ByteSize text
  omega

end SearchFilter.Json
