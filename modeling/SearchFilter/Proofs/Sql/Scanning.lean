import SearchFilter.Proofs.Predicate.Outline
import SearchFilter.Proofs.Text.Words
import SearchFilter.Sql.Expression

/-!
# Scanning predicates

The tokens of a predicate's text are those of its segments one after the other, and each segment is
read as one item. Main statement: the items of an outline, whose columns are told from the keywords,
are found again in its text.
-/

namespace SearchFilter

namespace Sql

theorem cutTokens_eq_drop (skip : Nat) (cs : List Char) :
    cutTokens skip cs = cutTokens 0 (cs.drop skip) := by
  induction cs generalizing skip with
  | nil => cases skip <;> rfl
  | cons c cs ih =>
    cases skip with
    | zero => rfl
    | succ skip => simpa [cutTokens] using ih skip

theorem cutTokens_token (c : Char) (more rest : List Char) {t : Token Unit}
    (hb : isBlank c = false) (ht : token? c (more ++ rest) = some (more.length, t)) :
    cutTokens 0 (c :: (more ++ rest)) = (cutTokens 0 rest).map (t :: ·) := by
  simp only [cutTokens, hb, ht, Bool.false_eq_true, if_false]
  rw [cutTokens_eq_drop, List.drop_left]

@[simp] theorem cutTokens_blank (rest : List Char) :
    cutTokens 0 (' ' :: rest) = cutTokens 0 rest := by
  simp [cutTokens, isBlank]

@[simp] theorem cutTokens_placeholder (rest : List Char) :
    cutTokens 0 ('?' :: rest) = (cutTokens 0 rest).map (.placeholder () :: ·) :=
  cutTokens_token '?' [] rest rfl rfl

@[simp] theorem cutTokens_left (rest : List Char) :
    cutTokens 0 ('(' :: rest) = (cutTokens 0 rest).map (.left :: ·) :=
  cutTokens_token '(' [] rest rfl rfl

@[simp] theorem cutTokens_right (rest : List Char) :
    cutTokens 0 (')' :: rest) = (cutTokens 0 rest).map (.right :: ·) :=
  cutTokens_token ')' [] rest rfl rfl

theorem isBlank_eq_false_of_startsWord {c : Char} (h : Text.startsWord c = true) :
    isBlank c = false := by
  simp only [isBlank, Bool.or_eq_false_iff, decide_eq_false_iff_not]
  refine ⟨⟨⟨⟨?_, ?_⟩, ?_⟩, ?_⟩, ?_⟩ <;> rintro rfl <;> exact absurd h (by decide)

theorem cutTokens_word {w : String} (hw : Text.IsWord w) {rest : List Char}
    (he : Text.EndsWord rest) :
    cutTokens 0 (w.toList ++ rest) = (cutTokens 0 rest).map (.word w :: ·) := by
  obtain ⟨c, more, hs, hc, hm⟩ := hw
  have ht : token? c (more ++ rest) = some (more.length, .word w) := by
    rw [← String.ofList_toList (s := w), hs]
    simp [token?, hc, Text.takeWhile_continuesWord hm he]
  rw [hs, List.cons_append, cutTokens_token c more rest (isBlank_eq_false_of_startsWord hc) ht]

/-- The tokens of the tail of a walk. -/
def stepTokens : (hops : Nat) → List (Token Unit)
  | 0 => [.take, .placeholder ()]
  | hops + 1 => .keep :: .placeholder () :: stepTokens hops

theorem cutTokens_tail (hops : Nat) (rest : List Char) :
    cutTokens 0 (Attribute.tail hops ++ rest) = (cutTokens 0 rest).map (stepTokens hops ++ ·) := by
  have hk (rest : List Char) : cutTokens 0 ('-' :: '>' :: ' ' :: rest) =
      (cutTokens 0 (' ' :: rest)).map (.keep :: ·) :=
    cutTokens_token '-' ['>'] (' ' :: rest) rfl rfl
  have ht (rest : List Char) : cutTokens 0 ('-' :: '>' :: '>' :: rest) =
      (cutTokens 0 rest).map (.take :: ·) :=
    cutTokens_token '-' ['>', '>'] rest rfl rfl
  induction hops with
  | zero => simp [Attribute.tail, stepTokens, ht, Function.comp_def]
  | succ hops ih => simp [Attribute.tail, stepTokens, hk, ih, Function.comp_def]

theorem steps?_stepTokens (hops : Nat) (rest : List (Token Unit)) :
    steps? (stepTokens hops ++ rest) = (List.replicate (hops + 1) (), true, rest) := by
  induction hops with
  | zero => rfl
  | succ hops ih =>
    simp only [stepTokens, List.cons_append, steps?, ih]
    rfl

section Items

variable {α : Type}

/-- Whether no left side of a comparison goes on into the tokens. -/
def EndsOperand (rest : List (Token α)) : Prop :=
  ∀ t ∈ rest.head?, t ≠ .keep ∧ t ≠ .take ∧ t ≠ .left

theorem steps?_of_endsOperand {rest : List (Token α)} (h : EndsOperand rest) :
    steps? rest = ([], false, rest) := by
  cases rest with
  | nil => rfl
  | cons t rest =>
    have := h t rfl
    cases t <;> simp_all [steps?]

theorem isReserved_of_isColumnName {name : String} (h : IsColumnName name) :
    isReserved name = false := by
  simpa [isReserved, and_assoc] using h.2

theorem leftOperand?_word {name : String} {rest : List (Token α)}
    (hr : isReserved name = false) (he : rest.head? ≠ some .left) :
    leftOperand? (.word name :: rest) = some (columnOperand name rest) := by
  cases rest with
  | nil => simp [leftOperand?, hr]
  | cons t rest =>
    cases t with
    | left => exact absurd rfl he
    | _ => simp [leftOperand?, hr]

theorem cutItems_eq_drop (skip : Nat) (ts : List (Token α)) :
    cutItems skip ts = cutItems 0 (ts.drop skip) := by
  induction ts generalizing skip with
  | nil => cases skip <;> rfl
  | cons t ts ih =>
    cases skip with
    | zero => rfl
    | succ skip => simpa [cutItems] using ih skip

/-- A comparison that starts with the name of a column is cut off. -/
theorem cutItems_comparison {name : String} {more rest : List (Token α)} {c : Comparison α}
    (hr : isReserved name = false)
    (hc : comparison? (.word name :: more ++ rest) = some (c, rest)) :
    cutItems 0 (.word name :: more ++ rest) = (cutItems 0 rest).map (.comparison c :: ·) := by
  simp only [isReserved, Bool.or_eq_false_iff, decide_eq_false_iff_not] at hr
  obtain ⟨⟨⟨ha, ho⟩, -⟩, -⟩ := hr
  rw [List.cons_append] at hc ⊢
  rw [cutItems, hc]
  · simp only
    rw [cutItems_eq_drop, List.length_append, Nat.add_sub_cancel, List.drop_left]
  · simp
  · simp
  · simp [ha]
  · simp [ho]

end Items

end Sql

open Sql

namespace Operator

def relation : Operator → Relation
  | greater => .sign .greater
  | less => .sign .less
  | atLeast => .sign .atLeast
  | atMost => .sign .atMost
  | like => .like
  | oneOf => .isIn

def signToken : Operator → Token Unit
  | greater => .sign .greater
  | less => .sign .less
  | atLeast => .sign .atLeast
  | atMost => .sign .atMost
  | like => .word "LIKE"
  | oneOf => .word "IN"

theorem cutTokens_symbol (op : Operator) (rest : List Char) :
    cutTokens 0 (op.symbol.toList ++ ' ' :: rest) =
      (cutTokens 0 rest).map (op.signToken :: ·) := by
  rw [← cutTokens_blank rest]
  cases op with
  | greater => exact cutTokens_token '>' [] (' ' :: rest) rfl rfl
  | less => exact cutTokens_token '<' [] (' ' :: rest) rfl rfl
  | atLeast => exact cutTokens_token '>' ['='] (' ' :: rest) rfl rfl
  | atMost => exact cutTokens_token '<' ['='] (' ' :: rest) rfl rfl
  | like => exact cutTokens_word (isWord_symbol rfl) (Text.endsWord_blank rest)
  | oneOf => exact cutTokens_word (isWord_symbol rfl) (Text.endsWord_blank rest)

end Operator

namespace Test

def tokens : Test → List (Token Unit)
  | equal _ => [.sign .equal, .placeholder ()]
  | compare op _ => [op.signToken, .left, .placeholder (), .right]

theorem cutTokens_comparison (t : Test) (rest : List Char) :
    cutTokens 0 (t.comparison.toList ++ rest) = (cutTokens 0 rest).map (t.tokens ++ ·) := by
  cases t with
  | equal v =>
    have he : cutTokens 0 ('=' :: ' ' :: '?' :: rest) =
        (cutTokens 0 (' ' :: '?' :: rest)).map (.sign .equal :: ·) :=
      cutTokens_token '=' [] _ rfl rfl
    simp [comparison, tokens, he, Function.comp_def]
  | compare op c => simp [comparison, tokens, op.cutTokens_symbol, Function.comp_def]

theorem endsOperand_tokens (t : Test) (rest : List (Token Unit)) :
    EndsOperand (t.tokens ++ rest) := by
  cases t with
  | equal v => simp [EndsOperand, tokens]
  | compare op c => cases op <;> simp [EndsOperand, tokens, Operator.signToken]

end Test

namespace Leaf

/-- The left side of a leaf as a condition has it. Nothing is known of its keys but their number. -/
def operand (l : Leaf) : Operand Unit :=
  match l.left.keys with
  | [] => .column l.left.column
  | keys => .walk l.left.column (keys.map fun _ => ()) true

/-- The comparison that a leaf is read as. -/
def comparison (l : Leaf) : Comparison Unit :=
  { left := l.operand
    relation := match l.test.operator? with
      | none => .sign .equal
      | some op => op.relation
    right := [.value ()] }

def stepTokens (l : Leaf) : List (Token Unit) :=
  match l.left.keys with
  | [] => []
  | _ :: rest => Sql.stepTokens rest.length

def tokens (l : Leaf) : List (Token Unit) :=
  .word l.left.column :: (l.stepTokens ++ l.test.tokens)

theorem cutTokens_text {l : Leaf} (h : Text.IsWord l.left.column) (rest : List Char) :
    cutTokens 0 (l.text.toList ++ rest) = (cutTokens 0 rest).map (l.tokens ++ ·) := by
  have he : Text.EndsWord (l.test.comparison.toList ++ rest) := by
    obtain ⟨cs, hc⟩ := l.test.exists_comparison
    rw [hc]
    exact Text.endsWord_blank _
  simp only [text, Attribute.expr, Attribute.exprList, tokens, stepTokens, String.toList_append,
    String.toList_ofList]
  cases l.left.keys with
  | nil =>
    rw [List.append_assoc, cutTokens_word h he, Test.cutTokens_comparison]
    simp [Function.comp_def]
  | cons key keys =>
    have ht (hops : Nat) (rest : List Char) : Text.EndsWord (Attribute.tail hops ++ rest) := by
      cases hops <;> exact Text.endsWord_blank _
    simp only [List.append_assoc]
    rw [cutTokens_word h (ht _ _), cutTokens_tail, Test.cutTokens_comparison]
    simp [Function.comp_def]

theorem leftOperand?_tokens {l : Leaf} (h : isReserved l.left.column = false)
    (rest : List (Token Unit)) :
    leftOperand? (l.tokens ++ rest) = some (l.operand, l.test.tokens ++ rest) := by
  have he := l.test.endsOperand_tokens rest
  rw [tokens, stepTokens, operand, List.cons_append, List.append_assoc]
  cases hk : l.left.keys with
  | nil =>
    have hl : (l.test.tokens ++ rest).head? ≠ some .left := fun hl => (he _ hl).2.2 rfl
    simp only [List.nil_append]
    rw [leftOperand?_word h hl, columnOperand, steps?_of_endsOperand he]
  | cons key keys =>
    have hl (hops : Nat) (rest : List (Token Unit)) :
        (Sql.stepTokens hops ++ rest).head? ≠ some .left := by
      cases hops <;> simp [Sql.stepTokens]
    simp only
    rw [leftOperand?_word h (hl _ _), columnOperand, steps?_stepTokens]
    simp [List.map_const', List.replicate_succ]

theorem comparison?_tokens {l : Leaf} (h : isReserved l.left.column = false)
    (rest : List (Token Unit)) : comparison? (l.tokens ++ rest) = some (l.comparison, rest) := by
  simp only [comparison?, leftOperand?_tokens h rest, Option.bind_eq_bind, Option.bind_some,
    comparison]
  cases l.test with
  | equal v => rfl
  | compare op c => cases op <;> rfl

end Leaf

namespace Segment

def tokens : Segment → List (Token Unit)
  | opening => [.left]
  | closing => [.right]
  | joint c => [.word c.symbol]
  | leaf l => l.tokens

/-- What a segment is read as, leaves as comparisons of any kind. -/
def itemOf {α : Type} (compare : Leaf → Comparison α) : Segment → Item α
  | opening => .left
  | closing => .right
  | joint .and => .and
  | joint .or => .or
  | leaf l => .comparison (compare l)

theorem cutTokens_text {s : Segment} (h : ∀ l ∈ s.leaf?, Text.IsWord l.left.column)
    (rest : List Char) :
    cutTokens 0 (s.text.toList ++ rest) = (cutTokens 0 rest).map (s.tokens ++ ·) := by
  cases s with
  | opening => simp [text, tokens]
  | closing => simp [text, tokens]
  | joint c =>
    simp only [text, tokens, String.toList_append, List.append_assoc, String.reduceToList,
      List.cons_append, List.nil_append, cutTokens_blank]
    rw [cutTokens_word c.isWord_symbol (Text.endsWord_blank _), cutTokens_blank]
  | leaf l => exact Leaf.cutTokens_text (h l rfl) rest

theorem cutItems_tokens {s : Segment} (h : ∀ l ∈ s.leaf?, isReserved l.left.column = false)
    (rest : List (Token Unit)) :
    cutItems 0 (s.tokens ++ rest) = (cutItems 0 rest).map (s.itemOf Leaf.comparison :: ·) := by
  cases s with
  | opening => rfl
  | closing => rfl
  | joint c => cases c <;> rfl
  | leaf l => exact cutItems_comparison (h l rfl) (Leaf.comparison?_tokens (h l rfl) rest)

theorem mem_leaves_cons {s : Segment} {rest : List Segment} {l : Leaf} :
    l ∈ leaves (s :: rest) ↔ l ∈ s.leaf? ∨ l ∈ leaves rest := by
  simp [mem_leaves]

theorem tokens?_textAll {segments : List Segment}
    (h : ∀ l ∈ leaves segments, Text.IsWord l.left.column) :
    tokens? (textAll segments).toList = some (segments.flatMap tokens) := by
  unfold tokens?
  induction segments with
  | nil => rfl
  | cons s rest ih =>
    rw [textAll_cons, String.toList_append,
      cutTokens_text fun l hl => h l (mem_leaves_cons.mpr (.inl hl)),
      ih fun l hl => h l (mem_leaves_cons.mpr (.inr hl))]
    rfl

theorem cutItems_flatMap {α : Type} {tokens : Segment → List (Token α)}
    {compare : Leaf → Comparison α} {segments : List Segment}
    (h : ∀ s ∈ segments, ∀ rest,
      cutItems 0 (tokens s ++ rest) = (cutItems 0 rest).map (s.itemOf compare :: ·)) :
    cutItems 0 (segments.flatMap tokens) = some (segments.map (itemOf compare)) := by
  induction segments with
  | nil => rfl
  | cons s rest ih =>
    rw [List.forall_mem_cons] at h
    rw [List.flatMap_cons, h.1, ih h.2]
    rfl

/-- Reading the text of segments is reading their items. -/
theorem ofText?_textAll {segments : List Segment}
    (h : ∀ l ∈ leaves segments, IsColumnName l.left.column) :
    Condition.ofText? (textAll segments) =
      readFactor .empty [] (segments.map (itemOf Leaf.comparison)) := by
  have hitems : cutItems 0 (segments.flatMap tokens) =
      some (segments.map (itemOf Leaf.comparison)) := by
    apply cutItems_flatMap
    intro s hs
    exact cutItems_tokens fun l hl => isReserved_of_isColumnName (h l (mem_leaves.mpr ⟨s, hs, hl⟩))
  rw [Condition.ofText?, tokens?_textAll fun l hl => (h l hl).1, Option.bind_some,
    Condition.ofTokens?, hitems, Option.bind_some]

end Segment

end SearchFilter
