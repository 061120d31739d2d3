import SearchFilter.Proofs.Statement.Awaited

/-!
# Types as casts

What types do to a statement. Main statement: they add casts behind the placeholders of PostgreSQL,
the same one at each placeholder of a parameter, and nothing else; SQLite is written without them.
-/

namespace SearchFilter

/-- What stands behind a placeholder of the type. -/
def ColumnType.castSuffix (type : ColumnType) : String :=
  match type.cast? with
  | some cast => "::" ++ cast
  | none => ""

/-- The placeholders of each parameter with the cast of its type. -/
def castReplacements (types : List ColumnType) (ps : List Parameter) : List String :=
  ps.mapIdx fun i p =>
    p.written (fun k => "$" ++ toString k ++ (types.getD i .text).castSuffix)
      ((ps.take i).flatMap Parameter.values).length

theorem Backend.typedPlaceholder_postgres (type : ColumnType) (k : Nat) :
    postgres.typedPlaceholder k type = "$" ++ toString k ++ type.castSuffix := by
  cases type <;> simp [typedPlaceholder, ColumnType.castSuffix, ColumnType.cast?, placeholder,
    String.append_assoc]

namespace Binding

variable {p q : Progress}

theorem take_pending {b : Backend} {type : ColumnType} {s : String}
    (h : p.take b type = .ok (s, q)) (pending : Option ColumnType) :
    Progress.take b type { p with pending } = .ok (s, { q with pending }) := by
  obtain ⟨parameter, hs, rfl, hq⟩ := exists_of_take h
  simp only [Progress.take, hs]
  rw [hq]

/-- Steps of a walk are taken without regard to the type awaited. -/
theorem takeSteps_pending {b : Backend} {hops : Nat} {written s : String}
    (h : p.takeSteps b hops written = .ok (s, q)) (pending : Option ColumnType) :
    Progress.takeSteps b hops written { p with pending } = .ok (s, { q with pending }) := by
  induction hops generalizing written p with
  | zero =>
    obtain ⟨⟨t, r⟩, ht, hr⟩ := bind_eq_ok_iff.mp h
    cases hr
    rw [Progress.takeSteps, take_pending ht]
    rfl
  | succ hops ih =>
    obtain ⟨⟨t, r⟩, ht, hr⟩ := bind_eq_ok_iff.mp h
    rw [Progress.takeSteps, take_pending ht]
    exact ih hr

theorem step_sqlite {columns : Allowlist} {piece : Piece}
    (h : step .sqlite columns p piece = .ok q) (others : Allowlist) (type : Option ColumnType) :
    ∃ type', step .sqlite others { p with pending := type } piece =
      .ok { q with pending := type' } := by
  cases piece with
  | placeholder =>
    obtain ⟨⟨t, r⟩, ht, hr⟩ := bind_eq_ok_iff.mp h
    obtain ⟨parameter, hs, rfl, hq⟩ := exists_of_take ht
    cases hr
    refine ⟨none, ?_⟩
    simp only [step, Progress.take, hs]
    rw [hq]
    rfl
  | word letters =>
    cases h
    exact ⟨_, rfl⟩
  | walk column hops =>
    obtain ⟨⟨t, r⟩, ht, hr⟩ := bind_eq_ok_iff.mp h
    cases hr
    refine ⟨none, ?_⟩
    rw [step, takeSteps_pending ht]
    rfl
  | other c =>
    cases h
    exact ⟨_, rfl⟩

theorem steps_sqlite {columns : Allowlist} {pieces : List Piece}
    (h : pieces.foldlM (step .sqlite columns) p = .ok q) (others : Allowlist)
    (type : Option ColumnType) :
    ∃ type', pieces.foldlM (step .sqlite others) { p with pending := type } =
      .ok { q with pending := type' } := by
  induction pieces generalizing p type with
  | nil =>
    cases h
    exact ⟨type, rfl⟩
  | cons piece pieces ih =>
    rw [List.foldlM_cons] at h
    obtain ⟨r, hr, hq⟩ := bind_eq_ok_iff.mp h
    obtain ⟨next, hn⟩ := step_sqlite hr others type
    obtain ⟨last, hl⟩ := ih hq next
    refine ⟨last, ?_⟩
    rw [List.foldlM_cons, hn]
    exact hl

end Binding

namespace Predicate

theorem bind_sqlite_of_bind {p : Predicate} {columns : Allowlist} {q : BoundQuery}
    (h : p.bind .sqlite columns = .ok q) (others : Allowlist) : p.bind .sqlite others = .ok q := by
  have hcount : p.placeholderCount = p.parameters.length := bind_eq_ok_iff_count.mp ⟨q, h⟩
  rw [Predicate.bind, if_neg (not_not_intro hcount)] at h ⊢
  obtain ⟨done, hd, hq⟩ := bind_eq_ok_iff.mp h
  cases hq
  obtain ⟨type, ht⟩ := Binding.steps_sqlite hd others none
  rw [ht]
  rfl

/-- Types add nothing but casts. SQLite has none, so that it does not matter which columns are
known. For PostgreSQL the placeholders of a parameter have the cast of the one type that the place
of its placeholder tells, and the values bound are the same. -/
theorem bind_eq_cast {p : Predicate} (h : p.placeholderCount = p.parameters.length)
    (columns : Allowlist) :
    (∀ others, p.bind .sqlite others = p.bind .sqlite columns) ∧
    ∃ (types : List ColumnType) (plain typed : BoundQuery),
      p.bindUntyped .postgres = .ok plain ∧ p.bind .postgres columns = .ok typed ∧
      typed.binds = plain.binds ∧
      plain.sql.toList = substitute p.text.toList
        (replacements (fun k => "$" ++ toString k) p.parameters) ∧
      typed.sql.toList = substitute p.text.toList (castReplacements types p.parameters) ∧
      types.length = p.placeholderCount ∧
      ∀ before after, p.text.toList = before ++ '?' :: after →
        ∃ type, types[placeholders before]? = some type ∧ IsTyped columns before after type := by
  refine ⟨?_, ?_⟩
  · intro others
    obtain ⟨q, hq⟩ : ∃ q, p.bind .sqlite columns = .ok q := bind_eq_ok_iff_count.mpr h
    rw [hq]
    exact bind_sqlite_of_bind hq others
  · obtain ⟨plain, hplain⟩ : ∃ q, p.bindUntyped .postgres = .ok q := bind_eq_ok_iff_count.mpr h
    obtain ⟨typed, htyped⟩ : ∃ q, p.bind .postgres columns = .ok q := bind_eq_ok_iff_count.mpr h
    obtain ⟨types, runs, hl, ht, hsql, hruns⟩ := exists_runs_of_bind htyped
    refine ⟨types, plain, typed, hplain, htyped, ?_, ?_, ?_, ?_, ?_⟩
    · rw [binds_of_bind_eq_ok htyped, binds_of_bind_eq_ok hplain]
    · exact (bind_eq_substitute p).2.2.2.2.1 plain hplain
    · rw [hsql, Run.written_postgres, hruns, Binding.renderAll_eq_mapIdx_written .postgres hl,
        castReplacements]
      simp only [Backend.typedPlaceholder_postgres, Nat.zero_add]
    · rw [← hl, h]
    · rw [ht]
      exact areTyped_awaited (Boundary.start columns p.text.toList)

/-- A list has its cast at each item. A word may touch a digit, and no type reaches beyond the next
placeholder. -/
theorem bind_eq_cast_mixed :
    let p : Predicate := ⟨"born IN (?) OR 9n ? -> ? LIKE ? n ->> ? AND ?",
      [.list ["1", "2"], .text "3", .text "4", .list [], .text "k", .text "5"]⟩
    let columns : Allowlist := ⟨["born", "n"], [], [("born", .date), ("n", .integer)]⟩
    p.bind .sqlite columns = p.bind .sqlite .empty ∧
    ∃ types : List ColumnType, types.length = 6 ∧
      "born IN ($1::date, $2::date) OR 9n $3::bigint -> $4 LIKE NULL n ->> $5 AND $6".toList =
        substitute p.text.toList (castReplacements types p.parameters) ∧
      ∃ type, types[1]? = some type ∧
        IsTyped columns "born IN (?) OR 9n ".toList " -> ? LIKE ? n ->> ? AND ?".toList type := by
  intro p columns
  have hcount : p.placeholderCount = p.parameters.length := by decide
  have hbind : p.bind .postgres columns =
      .ok ⟨"born IN ($1::date, $2::date) OR 9n $3::bigint -> $4 LIKE NULL n ->> $5 AND $6",
        ["1", "2", "3", "4", "k", "5"]⟩ := by
    decide +kernel
  obtain ⟨hsqlite, types, plain, typed, -, htyped, -, -, hsql, hl, htypes⟩ :=
    bind_eq_cast hcount columns
  cases hbind.symm.trans htyped
  have hone : placeholders "born IN (?) OR 9n ".toList = 1 := by decide
  have hsix : p.placeholderCount = 6 := by decide
  refine ⟨(hsqlite .empty).symm, types, hl.trans hsix, hsql, ?_⟩
  rw [← hone]
  exact htypes _ _ (by decide)

end Predicate

end SearchFilter
