import SearchFilter.Predicate.Attribute
import SearchFilter.Text.Letter

/-!
# The pieces of a predicate

A predicate's text is cut into placeholders, words, walks into JSON and single other characters.
A walk is a word with the tail of an attribute right behind it, and its placeholders belong to it.
Main statement: the pieces put together again are the text.
-/

namespace SearchFilter

inductive Piece where
  | placeholder
  | word (letters : List Char)
  | walk (column : List Char) (hops : Nat)
  | other (c : Char)
deriving DecidableEq, Repr

namespace Piece

def text : Piece → List Char
  | placeholder => ['?']
  | word letters => letters
  | walk column hops => column ++ Attribute.tail hops
  | other c => [c]

/-- Cuts a text of which the first `skip` characters belong to the piece before. -/
def cut : (skip : Nat) → List Char → List Piece
  | _, [] => []
  | skip + 1, _ :: rest => cut skip rest
  | 0, c :: rest =>
    if c = '?' then placeholder :: cut 0 rest
    else if Text.startsWord c then
      let more := rest.takeWhile Text.continuesWord
      match Attribute.readTail (rest.dropWhile Text.continuesWord) with
      | some (hops, _) =>
        walk (c :: more) hops :: cut (more.length + (Attribute.tail hops).length) rest
      | none => word (c :: more) :: cut more.length rest
    else other c :: cut 0 rest

def ofText (text : String) : List Piece := cut 0 text.toList

theorem cut_eq_cut_drop (skip : Nat) (cs : List Char) : cut skip cs = cut 0 (cs.drop skip) := by
  induction cs generalizing skip with
  | nil => cases skip <;> rfl
  | cons c cs ih =>
    cases skip with
    | zero => rfl
    | succ skip => simpa [cut] using ih skip

theorem cut_placeholder (rest : List Char) : cut 0 ('?' :: rest) = placeholder :: cut 0 rest := by
  simp [cut]

theorem cut_other {c : Char} {rest : List Char} (hc : c ≠ '?') (hw : Text.startsWord c = false) :
    cut 0 (c :: rest) = other c :: cut 0 rest := by
  simp [cut, hc, hw]

theorem drop_length_takeWhile (p : Char → Bool) (l : List Char) :
    l.drop (l.takeWhile p).length = l.dropWhile p := by
  induction l with
  | nil => rfl
  | cons c l ih => by_cases h : p c = true <;> simp [h, ih]

/-- The characters of the pieces are those of the text. -/
theorem flatMap_text_cut (cs : List Char) : (cut 0 cs).flatMap text = cs := by
  induction h : cs.length using Nat.strongRecOn generalizing cs with
  | ind n ih =>
    cases cs with
    | nil => rfl
    | cons c rest =>
      subst h
      by_cases hc : c = '?'
      · subst hc
        rw [cut_placeholder]
        simp [text, ih rest.length (by simp) rest rfl]
      · by_cases hw : Text.startsWord c = true
        · have hsplit : rest.takeWhile Text.continuesWord ++ rest.dropWhile Text.continuesWord
              = rest := List.takeWhile_append_dropWhile
          simp only [cut, hc, hw, if_true, if_false]
          split
          · rename_i hops r hr
            have he := Attribute.eq_tail_append_of_readTail hr
            have hd : rest.drop ((rest.takeWhile Text.continuesWord).length
                + (Attribute.tail hops).length) = r := by
              rw [← List.drop_drop, drop_length_takeWhile, he, List.drop_left]
            rw [List.flatMap_cons, cut_eq_cut_drop, hd]
            have hlen : r.length < (c :: rest).length := by
              rw [← hd, List.length_drop, List.length_cons]; omega
            rw [ih r.length hlen r rfl]
            simp only [text, List.cons_append, List.append_assoc]
            rw [← he, hsplit]
          · have hd := drop_length_takeWhile Text.continuesWord rest
            rw [List.flatMap_cons, cut_eq_cut_drop, hd]
            have hlen : (rest.dropWhile Text.continuesWord).length < (c :: rest).length := by
              rw [← hd, List.length_drop, List.length_cons]; omega
            rw [ih _ hlen _ rfl]
            simp only [text, List.cons_append]
            rw [hsplit]
        · rw [cut_other hc (by simpa using hw)]
          simp [text, ih rest.length (by simp) rest rfl]

end Piece

end SearchFilter
