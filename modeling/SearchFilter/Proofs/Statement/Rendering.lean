import SearchFilter.Proofs.Statement.Pieces
import SearchFilter.Proofs.Statement.Supply

/-!
# Rendering filters

A filter can be written as a statement without a predicate in between: the tree is gone through
once, texts are bound where they are met, and every leaf knows the type of its value. Main
statement: binding the predicate of a filter comes to the same, for every backend.
-/

namespace SearchFilter

/-- Writes text and binds values; placeholders are counted by what is bound before. -/
abbrev RenderM := StateT (List String) (Except FilterError)

theorem RenderM.run_bind_of_ok {α β : Type} {x : RenderM α} {f : α → RenderM β}
    {binds between : List String} {a : α} (h : x.run binds = .ok (a, between)) :
    (x >>= f).run binds = (f a).run between := by
  rw [StateT.run_bind, h]
  rfl

namespace Backend

variable (b : Backend)

/-- Binds a text and writes its placeholder. -/
def bindText (type : ColumnType) (text : String) : RenderM String := do
  let binds ← get
  set (binds ++ [text])
  return b.typedPlaceholder (binds.length + 1) type

theorem run_bindText (type : ColumnType) (text : String) (binds : List String) :
    (b.bindText type text).run binds =
      .ok (b.typedPlaceholder (binds.length + 1) type, binds ++ [text]) := rfl

theorem run_mapM_bindText (type : ColumnType) (items binds : List String) :
    (items.mapM (b.bindText type)).run binds =
      .ok ((List.range items.length).map fun i => b.typedPlaceholder (binds.length + i + 1) type,
        binds ++ items) := by
  induction items generalizing binds with
  | nil => rw [List.mapM_nil, List.append_nil]; rfl
  | cons item items ih =>
    rw [List.mapM_cons, RenderM.run_bind_of_ok (b.run_bindText type item binds),
      RenderM.run_bind_of_ok (ih _), List.length_cons, List.range_succ_eq_map, List.map_cons,
      List.map_map]
    have hi : ∀ i ∈ List.range items.length,
        b.typedPlaceholder ((binds ++ [item]).length + i + 1) type =
          b.typedPlaceholder (binds.length + (i + 1) + 1) type := by
      intro i _
      rw [List.length_append, List.length_singleton, Nat.add_assoc binds.length 1 i, Nat.add_comm 1]
    rw [List.map_congr_left hi, List.append_assoc]
    rfl

/-- Binds a parameter and writes its placeholders. -/
def renderParameter (type : ColumnType) : Parameter → RenderM String
  | .text s => b.bindText type s
  | .list [] => return "NULL"
  | .list items => return ", ".intercalate (← items.mapM (b.bindText type))

theorem run_renderParameter (type : ColumnType) (p : Parameter) (binds : List String) :
    (b.renderParameter type p).run binds =
      .ok (Binding.render b type binds.length p, binds ++ p.values) := by
  cases p with
  | text s => rfl
  | list items =>
    cases items with
    | nil =>
      rw [renderParameter, Parameter.values, List.append_nil]
      rfl
    | cons item items =>
      rw [renderParameter, RenderM.run_bind_of_ok (b.run_mapM_bindText type _ binds)]
      · rfl
      · rintro ⟨⟩

/-- Binds the keys of a walk and writes its steps, of which the last takes the text. -/
def renderSteps : List String → RenderM String
  | [] => return ""
  | [key] => return " ->> " ++ (← b.bindText .text key)
  | key :: keys => do
    let placeholder ← b.bindText .text key
    return " -> " ++ placeholder ++ (← renderSteps keys)

/-- A column is written as it is, a walk is made to yield text as a whole. -/
def renderAttribute (a : Attribute) : RenderM String :=
  match a.keys with
  | [] => return a.column
  | keys => return b.jsonText (a.column ++ (← b.renderSteps keys))

def renderTest (type : ColumnType) : Test → RenderM String
  | .equal value => return " = " ++ (← b.bindText type value.display)
  | .compare op condition => do
    let value ← op.parameter condition
    return " " ++ op.symbol ++ " (" ++ (← b.renderParameter type value) ++ ")"

end Backend

/-- The type of a leaf's value: that of a bare column, except behind `LIKE`, else text. -/
def Leaf.valueType (columns : Allowlist) (l : Leaf) : ColumnType :=
  if l.left.keys = [] ∧ l.test.operator? ≠ some .like then columns.columnType l.left.column
  else .text

def Leaf.render (b : Backend) (columns : Allowlist) (l : Leaf) : RenderM String := do
  let left ← b.renderAttribute l.left
  return left ++ (← b.renderTest (l.valueType columns) l.test)

/-- The statement of a filter, written from its tree. -/
def Filter.render (b : Backend) (columns : Allowlist) (f : Filter) :
    Except FilterError BoundQuery := do
  let (sql, binds) ← (FilterNode.writeAll (Leaf.render b columns) [] .and f.nodes).run []
  return ⟨sql, binds⟩

namespace Binding

variable (b : Backend) (columns : Allowlist)

/-- Binding the pieces with the parameters comes to what is written: the same text and the same
values. The type that is awaited changes from `pending` to `after`. -/
def Agrees (pending after : Option ColumnType) (pieces : List Piece) (ps : List Parameter)
    (x : RenderM String) : Prop :=
  ∀ supply binds sql, ∃ t,
    pieces.foldlM (step b columns) ⟨pending, ps ++ supply, binds, sql⟩ =
      .ok ⟨after, supply, binds ++ ps.flatMap Parameter.values, sql ++ t⟩ ∧
    x.run binds.toList = .ok (t, binds.toList ++ ps.flatMap Parameter.values)

variable {b columns}

theorem Agrees.append {first second third : Option ColumnType} {u v : List Piece}
    {ps qs : List Parameter} {x y : RenderM String} (hx : Agrees b columns first second u ps x)
    (hy : Agrees b columns second third v qs y) :
    Agrees b columns first third (u ++ v) (ps ++ qs) (do
      let s ← x
      let t ← y
      return s ++ t) := by
  intro supply binds sql
  obtain ⟨s, hs, hxs⟩ := hx (qs ++ supply) binds sql
  obtain ⟨t, ht, hyt⟩ := hy supply (binds ++ ps.flatMap Parameter.values) (sql ++ s)
  refine ⟨s ++ t, ?_, ?_⟩
  · rw [List.foldlM_append, List.append_assoc, hs]
    refine ht.trans ?_
    rw [List.flatMap_append, appendList_appendList, String.append_assoc]
  · rw [Array.toList_appendList] at hyt
    rw [RenderM.run_bind_of_ok hxs, RenderM.run_bind_of_ok hyt, List.flatMap_append,
      List.append_assoc]
    rfl

theorem agrees_pure {pending after : Option ColumnType} {pieces : List Piece} {t : String}
    (h : ∀ supply binds sql, pieces.foldlM (step b columns) ⟨pending, supply, binds, sql⟩ =
      .ok ⟨after, supply, binds, sql ++ t⟩) :
    Agrees b columns pending after pieces [] (pure t) := by
  intro supply binds sql
  refine ⟨t, ?_, ?_⟩
  · simpa using h supply binds sql
  · rw [List.flatMap_nil, List.append_nil]
    rfl

variable (b columns)

theorem agrees_other (pending : Option ColumnType) (cs : List Char) :
    Agrees b columns pending pending (cs.map Piece.other) [] (pure (String.ofList cs)) := by
  apply agrees_pure
  intro supply binds sql
  induction cs generalizing sql with
  | nil => simp [pure, Except.pure]
  | cons c cs ih =>
    rw [List.map_cons, List.foldlM_cons, step]
    refine (ih _).trans ?_
    simp [← String.toList_inj]

theorem agrees_word (pending : Option ColumnType) (w : String) :
    Agrees b columns pending (pendingAfter columns pending w) [.word w.toList] [] (pure w) := by
  apply agrees_pure
  intro supply binds sql
  rw [List.foldlM_cons, step, String.ofList_toList]
  rfl

theorem agrees_placeholder (pending : Option ColumnType) (value : Parameter) :
    Agrees b columns pending none [.placeholder] [value]
      (b.renderParameter (pending.getD .text) value) := by
  intro supply binds sql
  refine ⟨render b (pending.getD .text) binds.size value, ?_, ?_⟩
  · rw [List.flatMap_singleton]
    rfl
  · rw [b.run_renderParameter, List.flatMap_singleton]
    rfl

theorem agrees_operator (op : Operator) (pending : Option ColumnType) :
    Agrees b columns pending (if op = .like then none else pending) op.pieces []
      (pure op.symbol) := by
  cases op with
  | greater => exact agrees_other b columns pending ['>']
  | less => exact agrees_other b columns pending ['<']
  | atLeast => exact agrees_other b columns pending ['>', '=']
  | atMost => exact agrees_other b columns pending ['<', '=']
  | like => exact agrees_word b columns pending "LIKE"
  | oneOf => exact agrees_word b columns pending "IN"

/-- The value of a comparison has the type that is awaited, except behind `LIKE`. -/
theorem agrees_test {t : Test} {value : Parameter} (hv : t.parameter = .ok value)
    (pending : Option ColumnType) :
    Agrees b columns pending none t.pieces [value]
      (b.renderTest (if t.operator? = some .like then .text else pending.getD .text) t) := by
  cases t with
  | equal v =>
    cases hv
    have := (agrees_other b columns pending " = ".toList).append
      (agrees_placeholder b columns pending (.text v.display))
    simpa [Backend.renderTest, Backend.renderParameter, Test.operator?, Test.pieces] using this
  | compare op c =>
    have hl : (liftM (op.parameter c) : RenderM Parameter) = pure value := by
      rw [show op.parameter c = .ok value from hv]
      rfl
    have ho := (agrees_other b columns pending [' ']).append (agrees_operator b columns op pending)
    have hp := (agrees_placeholder b columns (if op = .like then none else pending) value).append
      (agrees_other b columns none [')'])
    have := (ho.append (agrees_other b columns _ " (".toList)).append hp
    have hd : (if op = .like then none else pending).getD ColumnType.text =
        if op = .like then .text else pending.getD .text := by
      split <;> rfl
    rw [hd] at this
    simpa [Backend.renderTest, Test.operator?, Test.pieces, hl, String.append_assoc] using this

theorem takeSteps_eq (key : String) (keys : List String) (pending : Option ColumnType)
    (supply : List Parameter) (binds : Array String) (sql written : String) :
    ∃ t, Progress.takeSteps b keys.length written
        ⟨pending, (key :: keys).map Parameter.text ++ supply, binds, sql⟩ =
      .ok (written ++ t, ⟨pending, supply, binds ++ (key :: keys), sql⟩) ∧
    (b.renderSteps (key :: keys)).run binds.toList = .ok (t, binds.toList ++ (key :: keys)) := by
  induction keys generalizing key binds written with
  | nil =>
    refine ⟨" ->> " ++ b.typedPlaceholder (binds.size + 1) .text, ?_, rfl⟩
    rw [← String.append_assoc]
    rfl
  | cons next keys ih =>
    obtain ⟨t, ht, hr⟩ := ih next (binds ++ [key])
      (written ++ " -> " ++ b.typedPlaceholder (binds.size + 1) .text)
    refine ⟨" -> " ++ b.typedPlaceholder (binds.size + 1) .text ++ t, ?_, ?_⟩
    · rw [List.length_cons, Progress.takeSteps]
      refine ht.trans ?_
      rw [appendList_appendList, String.append_assoc, String.append_assoc, String.append_assoc]
      rfl
    · rw [Array.toList_appendList] at hr
      rw [Backend.renderSteps, RenderM.run_bind_of_ok (b.run_bindText .text key _),
        RenderM.run_bind_of_ok hr, List.append_assoc]
      · rfl
      · rintro ⟨⟩

theorem agrees_walk (pending : Option ColumnType) (column key : String) (keys : List String) :
    Agrees b columns pending none [.walk column.toList keys.length]
      ((key :: keys).map Parameter.text) (do
        let s ← b.renderSteps (key :: keys)
        return b.jsonText (column ++ s)) := by
  intro supply binds sql
  obtain ⟨t, ht, hr⟩ := takeSteps_eq b key keys pending supply binds sql column
  have hv : ((key :: keys).map Parameter.text).flatMap Parameter.values = key :: keys :=
    Parameter.flatMap_values_text (key :: keys)
  refine ⟨b.jsonText (column ++ t), ?_, ?_⟩
  · rw [List.foldlM_cons, step, String.ofList_toList, ht, hv]
    rfl
  · rw [RenderM.run_bind_of_ok hr, hv]
    rfl

theorem agrees_left {l : Leaf} (h : IsColumnName l.left.column) :
    Agrees b columns none
      (if l.left.keys = [] then some (columns.columnType l.left.column) else none)
      [l.leftPiece] l.left.parameters (b.renderAttribute l.left) := by
  rw [Leaf.leftPiece, Attribute.parameters, Backend.renderAttribute]
  cases l.left.keys with
  | nil =>
    have hp : pendingAfter columns none l.left.column =
        some (columns.columnType l.left.column) := by
      have := h.2
      simp only [List.mem_cons, List.not_mem_nil, not_or, or_false] at this
      simp [pendingAfter, this]
    simpa [hp] using agrees_word b columns none l.left.column
  | cons key keys => simpa using agrees_walk b columns none l.left.column key keys

theorem agrees_leaf {l : Leaf} (h : IsColumnName l.left.column) {ps : List Parameter}
    (hp : l.parameters = .ok ps) :
    Agrees b columns none none l.pieces ps (l.render b columns) := by
  obtain ⟨value, hv, rfl⟩ := Leaf.parameters_eq_ok_iff.mp hp
  have ht : l.valueType columns = if l.test.operator? = some .like then .text else
      (if l.left.keys = [] then some (columns.columnType l.left.column) else none).getD .text := by
    unfold Leaf.valueType
    by_cases hk : l.left.keys = [] <;> by_cases ho : l.test.operator? = some .like <;> simp [hk, ho]
  have := (agrees_left b columns h).append (agrees_test b columns hv _)
  rw [← ht] at this
  exact this

theorem agrees_mark {s : Segment} (h : s.leaf? = none) :
    Agrees b columns none none s.pieces [] (pure s.text) := by
  cases s with
  | opening => exact agrees_other b columns none ['(']
  | closing => exact agrees_other b columns none [')']
  | joint c =>
    have hw : pendingAfter columns none c.symbol = none := by
      cases c <;> simp [pendingAfter, Connective.symbol]
    have := ((agrees_other b columns none [' ']).append
      (agrees_word b columns none c.symbol)).append (agrees_other b columns _ [' '])
    rw [hw] at this
    simpa [Segment.pieces, Segment.text] using this
  | leaf l => cases h

/-- Segment by segment, the values are bound and the text is written alike. -/
theorem agrees_segments {segments : List Segment} {ps : List Parameter}
    (h : ∀ l ∈ Segment.leaves segments, IsColumnName l.left.column)
    (hp : Leaf.parametersAll (Segment.leaves segments) = .ok ps) :
    Agrees b columns none none (segments.flatMap Segment.pieces) ps
      (Segment.writeAll (Leaf.render b columns) segments) := by
  refine Segment.parameters_induction (P := fun row ps => Agrees b columns none none
    (row.flatMap Segment.pieces) ps (Segment.writeAll (Leaf.render b columns) row)) ?_ ?_ ?_ h hp
  · exact agrees_other b columns none []
  · intro s rest ps hs ih
    rw [List.flatMap_cons, Segment.writeAll_cons, Segment.write_eq_pure _ hs]
    exact (agrees_mark b columns hs).append ih
  · intro l rest first others hl hf ih
    rw [List.flatMap_cons, Segment.writeAll_cons]
    exact (agrees_leaf b columns hl hf).append ih

end Binding

/-- Whether no field can be taken for anything but a column. -/
def Allowlist.IsPlain (a : Allowlist) : Prop := ∀ field ∈ a.fields, IsColumnName field

theorem Entity.isPlain_allowlist (e : Entity) : e.allowlist.IsPlain := by
  unfold Allowlist.IsPlain
  cases e <;> decide

namespace Filter

/-- The statement of a filter is its outline with the leaves rendered. -/
theorem render_eq_writeAll (b : Backend) (f : Filter) (columns : Allowlist) :
    f.render b columns =
      ((Segment.writeAll (Leaf.render b columns) f.outline).run []).map
        fun (sql, binds) => ⟨sql, binds⟩ := by
  rw [render, FilterNode.writeAll_eq_writeAll]
  rfl

/-- The columns of entities are plain. For a filter over plain columns, binding its predicate never
fails and comes to what is rendered from its tree. -/
theorem exists_bind_eq_render :
    (∀ e : Entity, e.allowlist.IsPlain) ∧
    ∀ (b : Backend) (columns : Allowlist) (f : Filter) (p : Predicate), columns.IsPlain →
      (∀ column ∈ f.columns, columns.Allows column) → f.compile = .ok p →
        ∃ q, p.bind b columns = .ok q ∧ f.render b columns = .ok q := by
  refine ⟨Entity.isPlain_allowlist, ?_⟩
  intro b columns f p hplain hallowed hp
  have hl : ∀ l ∈ f.leaves, IsColumnName l.left.column := by
    intro l hl
    exact hplain _ (hallowed _ (f.column_mem_of_mem_leaves hl))
  have hcount : p.placeholderCount = p.parameters.length :=
    placeholderCount_of_compile (fun l h => Text.not_mem_of_isWord (hl l h).1 (by decide)) hp
  obtain ⟨ht, hps⟩ := compile_eq_ok_iff.mp hp
  have hcut : Piece.ofText p.text = f.outline.flatMap Segment.pieces := by
    rw [ht, ofText_textAll_outline fun l h => (hl l h).1]
  rw [← f.leaves_outline] at hl hps
  obtain ⟨t, hb, hr⟩ := Binding.agrees_segments b columns hl hps [] #[] ""
  refine ⟨⟨t, p.parameters.flatMap Parameter.values⟩, ?_, ?_⟩
  · rw [List.append_nil] at hb
    rw [Predicate.bind, if_neg (not_not_intro hcount), hcut, hb]
    simp [Bind.bind, Except.bind, pure, Except.pure]
  · rw [render_eq_writeAll, hr]
    rfl

/-- No type reaches over the end of a leaf, an empty list binds nothing. -/
theorem render_neighbours :
    let f : Filter := {
      nodes := [.range "id" .oneOf (.list [.string "1", .string "2"]),
        .path "metadata" [.path "a" [.range "?" .greater (.scalar (.text "3"))]],
        .range "due_date" .like (.scalar (.text "4")), .range "id" .oneOf (.list []),
        .equality "due_date" (.text "5")]
      nonempty := List.cons_ne_nil _ _ }
    f.render .postgres Entity.job.allowlist =
      .ok ⟨"id IN ($1::bigint, $2::bigint) AND ((metadata -> $3 ->> $4 > ($5))) AND " ++
          "due_date LIKE ($6) AND id IN (NULL) AND due_date = $7::date",
        ["1", "2", "a", "?", "3", "%4%", "5"]⟩ := by
  intro f
  have hb : Predicate.bind .postgres Entity.job.allowlist
      ⟨"id IN (?) AND ((metadata -> ? ->> ? > (?))) AND due_date LIKE (?) AND id IN (?) AND " ++
          "due_date = ?",
        [.list ["1", "2"], .text "a", .text "?", .text "3", .text "%4%", .list [], .text "5"]⟩ =
      .ok ⟨"id IN ($1::bigint, $2::bigint) AND ((metadata -> $3 ->> $4 > ($5))) AND " ++
          "due_date LIKE ($6) AND id IN (NULL) AND due_date = $7::date",
        ["1", "2", "a", "?", "3", "%4%", "5"]⟩ := by decide +kernel
  obtain ⟨q, hq, hr⟩ := exists_bind_eq_render.2 .postgres Entity.job.allowlist f _
    Entity.job.isPlain_allowlist (by decide) rfl
  cases hb.symm.trans hq
  exact hr

end Filter

end SearchFilter
