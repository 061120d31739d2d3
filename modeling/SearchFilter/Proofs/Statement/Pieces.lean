import SearchFilter.Proofs.Predicate.Compilation
import SearchFilter.Proofs.Text.Words
import SearchFilter.Statement.Piece

/-!
# The pieces of outlines

A text is cut anew when it is bound. Main statement: the text of an outline, whose columns are told
from the keywords, is cut into the pieces of its segments, so that every walk is found whole and no
piece reaches over the end of a leaf.
-/

namespace SearchFilter

namespace Piece

theorem ne_placeholder_of_startsWord {c : Char} (h : Text.startsWord c = true) : c ≠ '?' := by
  rintro rfl
  exact absurd h (by decide)

theorem cut_word {w : String} (hw : Text.IsWord w) {rest : List Char} (he : Text.EndsWord rest)
    (ht : Attribute.readTail rest = none) :
    cut 0 (w.toList ++ rest) = word w.toList :: cut 0 rest := by
  obtain ⟨c, more, hs, hc, hm⟩ := hw
  rw [hs, List.cons_append, cut, if_neg (ne_placeholder_of_startsWord hc), if_pos hc]
  simp only [Text.takeWhile_continuesWord hm he, Text.dropWhile_continuesWord hm he, ht]
  rw [cut_eq_cut_drop, List.drop_left]

theorem cut_walk {w : String} (hw : Text.IsWord w) (hops : Nat) (rest : List Char) :
    cut 0 (w.toList ++ (Attribute.tail hops ++ rest)) = walk w.toList hops :: cut 0 rest := by
  obtain ⟨c, more, hs, hc, hm⟩ := hw
  have he : Text.EndsWord (Attribute.tail hops ++ rest) := by
    cases hops <;> exact Text.endsWord_blank _
  rw [hs, List.cons_append, cut, if_neg (ne_placeholder_of_startsWord hc), if_pos hc]
  simp only [Text.takeWhile_continuesWord hm he, Text.dropWhile_continuesWord hm he,
    Attribute.readTail_tail_append]
  rw [cut_eq_cut_drop, ← List.append_assoc, ← List.length_append, List.drop_left]

@[simp] theorem cut_blank (rest : List Char) : cut 0 (' ' :: rest) = other ' ' :: cut 0 rest :=
  cut_other (by decide) (by decide)

@[simp] theorem cut_left (rest : List Char) : cut 0 ('(' :: rest) = other '(' :: cut 0 rest :=
  cut_other (by decide) (by decide)

@[simp] theorem cut_right (rest : List Char) : cut 0 (')' :: rest) = other ')' :: cut 0 rest :=
  cut_other (by decide) (by decide)

@[simp] theorem cut_equal (rest : List Char) : cut 0 ('=' :: rest) = other '=' :: cut 0 rest :=
  cut_other (by decide) (by decide)

attribute [simp] cut_placeholder

end Piece

theorem Attribute.readTail_eq_none {rest : List Char} (h : ∀ c ∈ rest.head?, c ≠ '-') :
    readTail (' ' :: rest) = none := by
  cases rest with
  | nil => rfl
  | cons c rest =>
    have hc : c ≠ '-' := h c rfl
    rw [readTail]
    · simp [hc]
    · simp [hc]

open Piece

namespace Operator

def pieces : Operator → List Piece
  | greater => [.other '>']
  | less => [.other '<']
  | atLeast => [.other '>', .other '=']
  | atMost => [.other '<', .other '=']
  | like => [.word "LIKE".toList]
  | oneOf => [.word "IN".toList]

theorem cut_symbol (op : Operator) (rest : List Char) :
    cut 0 (op.symbol.toList ++ ' ' :: '(' :: rest) = op.pieces ++ cut 0 (' ' :: '(' :: rest) := by
  have ht : Attribute.readTail (' ' :: '(' :: rest) = none :=
    Attribute.readTail_eq_none (by simp)
  have hg (rest : List Char) : cut 0 ('>' :: rest) = other '>' :: cut 0 rest :=
    cut_other (by decide) (by decide)
  have hl (rest : List Char) : cut 0 ('<' :: rest) = other '<' :: cut 0 rest :=
    cut_other (by decide) (by decide)
  cases op with
  | greater => exact hg _
  | less => exact hl _
  | atLeast => simp [symbol, pieces, hg]
  | atMost => simp [symbol, pieces, hl]
  | like => exact cut_word (isWord_symbol rfl) (Text.endsWord_blank _) ht
  | oneOf => exact cut_word (isWord_symbol rfl) (Text.endsWord_blank _) ht

end Operator

namespace Test

def pieces : Test → List Piece
  | equal _ => [.other ' ', .other '=', .other ' ', .placeholder]
  | compare op _ =>
    .other ' ' :: op.pieces ++ [.other ' ', .other '(', .placeholder, .other ')']

theorem cut_comparison (t : Test) (rest : List Char) :
    cut 0 (t.comparison.toList ++ rest) = t.pieces ++ cut 0 rest := by
  cases t with
  | equal v =>
    simp [comparison, pieces]
  | compare op c => simp [comparison, pieces, op.cut_symbol]

theorem readTail_comparison (t : Test) (rest : List Char) :
    Attribute.readTail (t.comparison.toList ++ rest) = none := by
  cases t with
  | equal v => simp [comparison, Attribute.readTail]
  | compare op c => cases op <;> simp [comparison, Operator.symbol, Attribute.readTail]

end Test

namespace Leaf

/-- The piece of the left side. -/
def leftPiece (l : Leaf) : Piece :=
  match l.left.keys with
  | [] => .word l.left.column.toList
  | _ :: rest => .walk l.left.column.toList rest.length

def pieces (l : Leaf) : List Piece := l.leftPiece :: l.test.pieces

theorem cut_text {l : Leaf} (h : Text.IsWord l.left.column) (rest : List Char) :
    cut 0 (l.text.toList ++ rest) = l.pieces ++ cut 0 rest := by
  have he : Text.EndsWord (l.test.comparison.toList ++ rest) := by
    obtain ⟨cs, hc⟩ := l.test.exists_comparison
    rw [hc]
    exact Text.endsWord_blank _
  simp only [text, Attribute.expr, Attribute.exprList, pieces, leftPiece, String.toList_append,
    String.toList_ofList]
  cases l.left.keys with
  | nil =>
    rw [List.append_assoc, cut_word h he (l.test.readTail_comparison rest), Test.cut_comparison]
    rfl
  | cons key keys =>
    simp only [List.append_assoc]
    rw [cut_walk h, Test.cut_comparison]
    rfl

end Leaf

namespace Segment

def pieces : Segment → List Piece
  | opening => [.other '(']
  | closing => [.other ')']
  | joint c => [.other ' ', .word c.symbol.toList, .other ' ']
  | leaf l => l.pieces

/-- Whether the text of a row is cut into the pieces of its segments, whatever follows. A row that
follows a connective must not look like the tail of a walk. -/
structure IsCut (row : List Segment) : Prop where
  cut : ∀ rest, Piece.cut 0 ((textAll row).toList ++ rest) = row.flatMap pieces ++ Piece.cut 0 rest
  start : ∃ c, (textAll row).toList.head? = some c ∧ c ≠ '-'

theorem isCut_leaf {l : Leaf} (h : Text.IsWord l.left.column) : IsCut [leaf l] where
  cut rest := by simpa [text, pieces] using Leaf.cut_text h rest
  start := by
    obtain ⟨c, more, hs, hc, -⟩ := h
    refine ⟨c, ?_, ?_⟩
    · cases hk : l.left.keys <;> simp [text, Leaf.text, Attribute.expr, Attribute.exprList, hk, hs]
    · rintro rfl
      exact absurd hc (by decide)

theorem IsCut.append_joint {a b : List Segment} (ha : IsCut a) (hb : IsCut b) (c : Connective) :
    IsCut (a ++ joint c :: b) where
  cut rest := by
    obtain ⟨d, hd, hne⟩ := hb.start
    have ht : Attribute.readTail (' ' :: ((textAll b).toList ++ rest)) = none := by
      apply Attribute.readTail_eq_none
      intro e he
      rw [List.head?_append, hd, Option.some_or, Option.mem_some_iff] at he
      exact he ▸ hne
    have hj : Piece.cut 0 ((joint c).text.toList ++ ((textAll b).toList ++ rest)) =
        pieces (joint c) ++ (b.flatMap pieces ++ Piece.cut 0 rest) := by
      simp only [text, String.toList_append, List.append_assoc, String.reduceToList,
        List.cons_append, List.nil_append, cut_blank]
      rw [cut_word c.isWord_symbol (Text.endsWord_blank _) ht, cut_blank, hb.cut]
      rfl
    simp only [textAll_append, textAll_cons, String.toList_append, List.append_assoc,
      List.flatMap_append, List.flatMap_cons]
    rw [ha.cut, hj]
  start := by
    obtain ⟨d, hd, hne⟩ := ha.start
    exact ⟨d, by rw [textAll_append, String.toList_append, List.head?_append, hd]; rfl, hne⟩

theorem isCut_join {c : Connective} {a : List Segment} {rest : List (List Segment)}
    (h : ∀ part ∈ a :: rest, IsCut part) : IsCut (join c (a :: rest)) := by
  induction rest generalizing a with
  | nil =>
    rw [join_singleton]
    exact h a List.mem_cons_self
  | cons b rest ih =>
    have hb : IsCut (join c (b :: rest)) := ih fun part hp => h part (List.mem_cons_of_mem _ hp)
    rw [join_cons_cons]
    exact (h a List.mem_cons_self).append_joint hb c

theorem cut_join {c : Connective} {parts : List (List Segment)} (h : ∀ part ∈ parts, IsCut part)
    (rest : List Char) :
    Piece.cut 0 ((textAll (join c parts)).toList ++ rest) =
      (join c parts).flatMap pieces ++ Piece.cut 0 rest := by
  cases parts with
  | nil => rfl
  | cons a parts => exact (isCut_join h).cut rest

theorem isCut_parenthesized {c : Connective} {parts : List (List Segment)}
    (h : ∀ part ∈ parts, IsCut part) : IsCut (.opening :: join c parts ++ [.closing]) where
  cut rest := by
    simp only [List.cons_append, textAll_cons, textAll_append, text, String.toList_append,
      List.append_assoc, String.reduceToList, List.nil_append, Piece.cut_left]
    rw [cut_join h]
    simp [pieces]
  start := ⟨'(', by simp [text], by decide⟩

end Segment

namespace Filter

/-- The text of a filter is cut into the pieces of its outline. -/
theorem ofText_textAll_outline {f : Filter} (h : ∀ l ∈ f.leaves, Text.IsWord l.left.column) :
    Piece.ofText (Segment.textAll f.outline) = f.outline.flatMap Segment.pieces := by
  have hp : ∀ part ∈ FilterNode.outlineEach [] .and f.nodes, Segment.IsCut part := by
    intro part hp
    rw [FilterNode.outlineEach_eq_map] at hp
    obtain ⟨n, hn, rfl⟩ := List.mem_map.mp hp
    apply FilterNode.outline_induction fun c parts h => Segment.isCut_parenthesized h
    intro l hl
    apply Segment.isCut_leaf (h l _)
    rw [leaves, FilterNode.leavesAll_eq_flatMap]
    exact List.mem_flatMap.mpr ⟨n, hn, hl⟩
  have := Segment.cut_join (c := .and) hp []
  rw [outline, FilterNode.outlineAll, Piece.ofText]
  simpa [Piece.cut] using this

end Filter

end SearchFilter
