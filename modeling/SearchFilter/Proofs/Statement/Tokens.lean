import SearchFilter.Proofs.Sql.Scanning
import SearchFilter.Proofs.Statement.Rendering
import SearchFilter.Proofs.Statement.Substitution

/-!
# The tokens of bound statements

For SQLite every value has the same placeholder, so that the statement of a filter can be told from
its outline alone. Main statement: it is cut into the tokens of its segments, and the values bound
are those of the tokens, in their order.
-/

namespace SearchFilter

open Sql

namespace Sql.Token

variable {α : Type}

/-- The token with nothing bound. -/
@[simp]
def erase : Token α → Token Unit
  | word w => word w
  | placeholder _ => placeholder ()
  | left => left
  | right => right
  | comma => comma
  | sign s => sign s
  | keep => keep
  | take => take
  | number n => number n
  | text s => text s

/-- What is bound for a placeholder. -/
@[simp]
def value? : Token α → Option α
  | placeholder v => some v
  | _ => none

theorem fill_map_erase (ts : List (Token α)) :
    fill (ts.map erase) (ts.filterMap value?) = some ts := by
  induction ts with
  | nil => rfl
  | cons t ts ih => cases t <;> simp [List.filterMap_cons, fill, ih]

end Sql.Token

theorem Sql.cutTokens_word_blank {w : String} (hw : Text.IsWord w) (rest : List Char) :
    cutTokens 0 (w.toList ++ ' ' :: rest) = (cutTokens 0 rest).map (.word w :: ·) := by
  rw [cutTokens_word hw (Text.endsWord_blank rest), cutTokens_blank]

namespace Parameter

/-- The tokens of a parameter's values, a word if it has none. -/
def boundTokens (p : Parameter) : List (Token String) :=
  match p.values with
  | [] => [.word "NULL"]
  | vs => (vs.map Token.placeholder).intersperse .comma

/-- The placeholders for SQLite do not tell what was bound before. -/
def marks (p : Parameter) : String := p.written (fun _ => "?") 0

theorem render_sqlite (type : ColumnType) (bound : Nat) (p : Parameter) :
    Binding.render .sqlite type bound p = p.marks := by
  have hp : (fun k => Backend.sqlite.typedPlaceholder k type) = fun _ => "?" := rfl
  rw [Binding.render_eq_written, hp, marks, written, written]
  cases p.values.length with
  | zero => rfl
  | succ n => simp only [List.map_const', List.length_range']

theorem cutTokens_intercalate (v : String) (vs : List String) (rest : List Char) :
    cutTokens 0 ((", ".intercalate (List.replicate (vs.length + 1) "?")).toList ++ rest) =
      (cutTokens 0 rest).map
        ((((v :: vs).map Token.placeholder).intersperse .comma).map Token.erase ++ ·) := by
  have hc (rest : List Char) : cutTokens 0 (',' :: rest) =
      (cutTokens 0 rest).map (.comma :: ·) :=
    cutTokens_token ',' [] rest rfl rfl
  induction vs generalizing v with
  | nil => simp
  | cons w vs ih =>
    have := ih w
    rw [List.length_cons, List.replicate_succ, List.replicate_succ, String.intercalate_cons_cons,
      ← List.replicate_succ]
    simp only [String.toList_append, String.reduceToList, List.cons_append,
      List.nil_append, cutTokens_placeholder, hc, cutTokens_blank, this]
    simp [Function.comp_def]

theorem cutTokens_marks (p : Parameter) {rest : List Char} (he : Text.EndsWord rest) :
    cutTokens 0 (p.marks.toList ++ rest) =
      (cutTokens 0 rest).map (p.boundTokens.map Token.erase ++ ·) := by
  rw [marks, written, boundTokens]
  cases p.values with
  | nil => exact cutTokens_word (w := "NULL") (by decide) he
  | cons v vs =>
    simp only [List.length_cons, List.map_const', List.length_range']
    exact cutTokens_intercalate v vs rest

theorem filterMap_value?_boundTokens (p : Parameter) :
    p.boundTokens.filterMap Token.value? = p.values := by
  have hl (v : String) (vs : List String) :
      (((v :: vs).map Token.placeholder).intersperse .comma).filterMap Token.value? = v :: vs := by
    induction vs generalizing v with
    | nil => rfl
    | cons w vs ih =>
      have := ih w
      simpa [List.filterMap_cons] using this
  rw [boundTokens]
  cases p.values with
  | nil => rfl
  | cons v vs => exact hl v vs

end Parameter

/-- The tokens of the steps of a walk. -/
def walkTokens : (keys : List String) → List (Token String)
  | [] => []
  | [key] => [.take, .placeholder key]
  | key :: keys => .keep :: .placeholder key :: walkTokens keys

theorem map_erase_walkTokens (key : String) (keys : List String) :
    (walkTokens (key :: keys)).map Token.erase = Sql.stepTokens keys.length := by
  induction keys generalizing key with
  | nil => rfl
  | cons next keys ih =>
    simp only [walkTokens, List.map_cons, ih, List.length_cons, Sql.stepTokens, Token.erase]

theorem filterMap_value?_walkTokens (keys : List String) :
    (walkTokens keys).filterMap Token.value? = keys := by
  fun_induction walkTokens keys with
  | case1 => rfl
  | case2 key => rfl
  | case3 key keys _ ih => simpa [List.filterMap_cons] using ih

namespace Attribute

/-- The attribute for SQLite. -/
def written (a : Attribute) : String :=
  match a.keys with
  | [] => a.column
  | _ => Backend.sqlite.jsonText a.expr

def boundTokens (a : Attribute) : List (Token String) :=
  match a.keys with
  | [] => [.word a.column]
  | keys =>
    [.word "CAST", .left, .word a.column] ++ walkTokens keys ++ [.word "AS", .word "TEXT", .right]

theorem filterMap_value?_boundTokens (a : Attribute) :
    a.boundTokens.filterMap Token.value? = a.keys := by
  rw [boundTokens]
  cases a.keys with
  | nil => rfl
  | cons key keys => simp [List.filterMap_cons, filterMap_value?_walkTokens]

theorem cutTokens_opening (rest : List Char) :
    cutTokens 0 ("CAST(".toList ++ rest) = (cutTokens 0 rest).map ([.word "CAST", .left] ++ ·) := by
  have hs : "CAST(".toList ++ rest = "CAST".toList ++ '(' :: rest := by simp
  rw [hs, cutTokens_word (by decide) (Text.endsWord_cons (by decide) rest), cutTokens_left]
  simp [Function.comp_def]

theorem cutTokens_closing (rest : List Char) :
    cutTokens 0 (" AS TEXT)".toList ++ rest) =
      (cutTokens 0 rest).map ([.word "AS", .word "TEXT", .right] ++ ·) := by
  have hs : " AS TEXT)".toList ++ rest =
      ' ' :: ("AS".toList ++ ' ' :: ("TEXT".toList ++ ')' :: rest)) := by simp
  rw [hs, cutTokens_blank, cutTokens_word_blank (by decide),
    cutTokens_word (by decide) (Text.endsWord_cons (by decide) rest), cutTokens_right]
  simp [Function.comp_def]

theorem cutTokens_written {a : Attribute} (h : Text.IsWord a.column) {rest : List Char}
    (he : Text.EndsWord rest) :
    cutTokens 0 (a.written.toList ++ rest) =
      (cutTokens 0 rest).map (a.boundTokens.map Token.erase ++ ·) := by
  rw [written, boundTokens, expr, exprList]
  cases a.keys with
  | nil => exact cutTokens_word h he
  | cons key keys =>
    have ht (hops : Nat) (rest : List Char) : Text.EndsWord (tail hops ++ rest) := by
      cases hops <;> exact Text.endsWord_blank _
    simp only [Backend.jsonText, String.toList_append, String.toList_ofList, List.append_assoc,
      List.map_append, map_erase_walkTokens]
    rw [cutTokens_opening, cutTokens_word h (ht _ _), cutTokens_tail, cutTokens_closing]
    simp [Function.comp_def]

theorem run_renderSteps (key : String) (keys binds : List String) :
    (Backend.sqlite.renderSteps (key :: keys)).run binds =
      .ok (String.ofList (tail keys.length), binds ++ key :: keys) := by
  induction keys generalizing key binds with
  | nil => rfl
  | cons next keys ih =>
    rw [Backend.renderSteps, RenderM.run_bind_of_ok (Backend.sqlite.run_bindText .text key binds),
      RenderM.run_bind_of_ok (ih next _), List.append_assoc]
    · have ht : " -> " ++ "?" ++ String.ofList (tail keys.length) =
          String.ofList (tail (next :: keys).length) := by
        simp [← String.toList_inj, tail]
      rw [← ht]
      rfl
    · rintro ⟨⟩

theorem run_renderAttribute (a : Attribute) (binds : List String) :
    (Backend.sqlite.renderAttribute a).run binds = .ok (a.written, binds ++ a.keys) := by
  rw [Backend.renderAttribute, written, expr, exprList]
  cases a.keys with
  | nil =>
    rw [List.append_nil]
    rfl
  | cons key keys =>
    simp only
    rw [RenderM.run_bind_of_ok (run_renderSteps key keys binds), String.ofList_append,
      String.ofList_toList]
    rfl

end Attribute

namespace Operator

def signOf : Operator → Token String
  | greater => .sign .greater
  | less => .sign .less
  | atLeast => .sign .atLeast
  | atMost => .sign .atMost
  | like => .word "LIKE"
  | oneOf => .word "IN"

theorem erase_signOf (op : Operator) : op.signOf.erase = op.signToken := by
  cases op <;> rfl

theorem value?_signOf (op : Operator) : op.signOf.value? = none := by
  cases op <;> rfl

end Operator

namespace Test

/-- The parameter of a test that has one. -/
def value (t : Test) : Parameter :=
  match t.parameter with
  | .ok value => value
  | .error _ => .list []

theorem value_eq {t : Test} {value : Parameter} (h : t.parameter = .ok value) :
    t.value = value := by
  rw [Test.value, h]

/-- The test for SQLite. -/
def written : Test → String
  | equal _ => " = ?"
  | compare op condition =>
    " " ++ op.symbol ++ " (" ++ (value (compare op condition)).marks ++ ")"

def boundTokens : Test → List (Token String)
  | equal value => [.sign .equal, .placeholder value.display]
  | compare op condition =>
    [op.signOf, .left] ++ (value (compare op condition)).boundTokens ++ [.right]

theorem filterMap_value?_boundTokens (t : Test) :
    t.boundTokens.filterMap Token.value? = t.value.values := by
  cases t with
  | equal v => rfl
  | compare op condition =>
    rw [boundTokens, List.cons_append, List.cons_append,
      List.filterMap_cons_none op.value?_signOf]
    simp [List.filterMap_cons, Parameter.filterMap_value?_boundTokens]

theorem cutTokens_written (t : Test) (rest : List Char) :
    cutTokens 0 (t.written.toList ++ rest) =
      (cutTokens 0 rest).map (t.boundTokens.map Token.erase ++ ·) := by
  cases t with
  | equal v =>
    exact (equal v).cutTokens_comparison rest
  | compare op condition =>
    have hm := (value (compare op condition)).cutTokens_marks
      (Text.endsWord_cons (c := ')') (by decide) rest)
    rw [boundTokens, List.cons_append, List.cons_append, List.map_cons, op.erase_signOf]
    simp [written, op.cutTokens_symbol, hm, Function.comp_def]

theorem endsWord_written (t : Test) (rest : List Char) :
    Text.EndsWord (t.written.toList ++ rest) := by
  cases t with
  | equal v => simpa [written] using Text.endsWord_blank ('=' :: ' ' :: '?' :: rest)
  | compare op condition =>
    simp only [written, String.toList_append, List.append_assoc]
    exact Text.endsWord_blank _

theorem run_renderTest (type : ColumnType) {t : Test} {value : Parameter}
    (h : t.parameter = .ok value) (binds : List String) :
    (Backend.sqlite.renderTest type t).run binds = .ok (t.written, binds ++ t.value.values) := by
  have hv : t.value = value := value_eq h
  cases t with
  | equal v => rfl
  | compare op condition =>
    have hl : (liftM (op.parameter condition) : RenderM Parameter) = pure value := by
      rw [show op.parameter condition = .ok value from h]
      rfl
    rw [Backend.renderTest, hl, pure_bind,
      RenderM.run_bind_of_ok (Backend.sqlite.run_renderParameter type value binds),
      Parameter.render_sqlite, written, hv]
    rfl

end Test

namespace Leaf

theorem exists_parameters_of_mem {leaves : List Leaf} {ps : List Parameter}
    (h : parametersAll leaves = .ok ps) {l : Leaf} (hl : l ∈ leaves) :
    ∃ own, l.parameters = .ok own := by
  induction leaves generalizing ps with
  | nil => cases hl
  | cons first rest ih =>
    obtain ⟨own, others, ho, hr, -⟩ := parametersAll_cons_eq_ok_iff.mp h
    rcases List.mem_cons.mp hl with rfl | hl
    · exact ⟨own, ho⟩
    · exact ih hr hl

/-- The leaf for SQLite. -/
def written (l : Leaf) : String := l.left.written ++ l.test.written

def boundTokens (l : Leaf) : List (Token String) := l.left.boundTokens ++ l.test.boundTokens

theorem cutTokens_written {l : Leaf} (h : Text.IsWord l.left.column) (rest : List Char) :
    cutTokens 0 (l.written.toList ++ rest) =
      (cutTokens 0 rest).map (l.boundTokens.map Token.erase ++ ·) := by
  rw [written, String.toList_append, List.append_assoc,
    Attribute.cutTokens_written h (l.test.endsWord_written rest), l.test.cutTokens_written]
  simp [boundTokens, Function.comp_def]

theorem run_render (columns : Allowlist) {l : Leaf} {ps : List Parameter}
    (h : l.parameters = .ok ps) (binds : List String) :
    (l.render .sqlite columns).run binds =
      .ok (l.written, binds ++ l.boundTokens.filterMap Token.value?) := by
  obtain ⟨value, hv, -⟩ := parameters_eq_ok_iff.mp h
  rw [render, RenderM.run_bind_of_ok (Attribute.run_renderAttribute l.left binds),
    RenderM.run_bind_of_ok (Test.run_renderTest _ hv _), boundTokens, List.filterMap_append,
    Attribute.filterMap_value?_boundTokens, Test.filterMap_value?_boundTokens, List.append_assoc]
  rfl

end Leaf

namespace Segment

/-- The segment for SQLite. -/
def written : Segment → String
  | leaf l => l.written
  | s => s.text

def boundTokens : Segment → List (Token String)
  | opening => [.left]
  | closing => [.right]
  | joint c => [.word c.symbol]
  | leaf l => l.boundTokens

/-- A row of segments for SQLite. -/
def writtenAll (segments : List Segment) : String := String.join (segments.map written)

@[simp] theorem writtenAll_nil : writtenAll [] = "" := rfl

@[simp] theorem writtenAll_cons (s : Segment) (rest : List Segment) :
    writtenAll (s :: rest) = s.written ++ writtenAll rest := by
  simp [writtenAll]

theorem cutTokens_written {s : Segment} (h : ∀ l ∈ s.leaf?, Text.IsWord l.left.column)
    (rest : List Char) :
    cutTokens 0 (s.written.toList ++ rest) =
      (cutTokens 0 rest).map (s.boundTokens.map Token.erase ++ ·) := by
  cases s with
  | leaf l => exact Leaf.cutTokens_written (h l rfl) rest
  | _ => exact cutTokens_text h rest

/-- The text of a row is cut into the tokens of its segments, whatever follows. -/
theorem cutTokens_writtenAll {segments : List Segment}
    (h : ∀ l ∈ leaves segments, Text.IsWord l.left.column) (rest : List Char) :
    cutTokens 0 ((writtenAll segments).toList ++ rest) =
      (cutTokens 0 rest).map ((segments.flatMap boundTokens).map Token.erase ++ ·) := by
  induction segments with
  | nil => simp
  | cons s segments ih =>
    have hs : ∀ l ∈ s.leaf?, Text.IsWord l.left.column := by
      intro l hl
      exact h l (mem_leaves_cons.mpr (.inl hl))
    have hr : ∀ l ∈ leaves segments, Text.IsWord l.left.column := by
      intro l hl
      exact h l (mem_leaves_cons.mpr (.inr hl))
    rw [writtenAll_cons, String.toList_append, List.append_assoc, cutTokens_written hs, ih hr]
    simp [Function.comp_def]

theorem run_write (columns : Allowlist) {s : Segment}
    (h : ∀ l ∈ s.leaf?, ∃ ps, l.parameters = .ok ps) (binds : List String) :
    (write (Leaf.render .sqlite columns) s).run binds =
      .ok (s.written, binds ++ s.boundTokens.filterMap Token.value?) := by
  cases s with
  | leaf l =>
    obtain ⟨ps, hp⟩ := h l rfl
    exact Leaf.run_render columns hp binds
  | _ =>
    rw [write_eq_pure _ rfl, show List.filterMap Token.value? (boundTokens _) = [] from rfl,
      List.append_nil]
    rfl

theorem run_writeAll (columns : Allowlist) {segments : List Segment}
    (h : ∀ l ∈ leaves segments, ∃ ps, l.parameters = .ok ps) (binds : List String) :
    (writeAll (Leaf.render .sqlite columns) segments).run binds =
      .ok (writtenAll segments,
        binds ++ (segments.flatMap boundTokens).filterMap Token.value?) := by
  induction segments generalizing binds with
  | nil =>
    rw [List.flatMap_nil, List.filterMap_nil, List.append_nil, writeAll, List.mapM_nil, pure_bind]
    rfl
  | cons s segments ih =>
    have hs : ∀ l ∈ s.leaf?, ∃ ps, l.parameters = .ok ps := by
      intro l hl
      exact h l (mem_leaves_cons.mpr (.inl hl))
    have hr : ∀ l ∈ leaves segments, ∃ ps, l.parameters = .ok ps := by
      intro l hl
      exact h l (mem_leaves_cons.mpr (.inr hl))
    rw [writeAll_cons, RenderM.run_bind_of_ok (run_write columns hs binds),
      RenderM.run_bind_of_ok (ih hr _), List.flatMap_cons, List.filterMap_append, writtenAll_cons,
      List.append_assoc]
    rfl

end Segment

/-- For SQLite the predicate of a filter is bound to the text and the values of its outline. -/
theorem Filter.bind_of_compile {f : Filter} {p : Predicate} (columns : Allowlist)
    (h : ∀ l ∈ f.leaves, IsColumnName l.left.column) (hp : f.compile = .ok p) :
    p.bind .sqlite columns =
      .ok ⟨Segment.writtenAll f.outline,
        (f.outline.flatMap Segment.boundTokens).filterMap Token.value?⟩ := by
  have hcount : p.placeholderCount = p.parameters.length :=
    placeholderCount_of_compile (fun l hl => Text.not_mem_of_isWord (h l hl).1 (by decide)) hp
  have hcut : Piece.ofText (Segment.textAll f.outline) = f.outline.flatMap Segment.pieces :=
    ofText_textAll_outline fun l hl => (h l hl).1
  obtain ⟨ht, hps⟩ := compile_eq_ok_iff.mp hp
  rw [← f.leaves_outline] at h hps
  obtain ⟨t, hb, hr⟩ := Binding.agrees_segments .sqlite columns h hps [] #[] ""
  have hw := Segment.run_writeAll columns (fun l hl => Leaf.exists_parameters_of_mem hps hl) []
  have heq := hr.symm.trans hw
  rw [Except.ok.injEq, Prod.mk.injEq] at heq
  obtain ⟨rfl, hv⟩ := heq
  rw [List.append_nil] at hb
  simp only [List.nil_append] at hv
  rw [Predicate.bind, if_neg (not_not_intro hcount), ht, hcut, hb, ← hv]
  simp [Bind.bind, Except.bind, pure, Except.pure]

end SearchFilter
