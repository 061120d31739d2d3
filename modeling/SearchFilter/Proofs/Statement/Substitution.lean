import Mathlib.Algebra.Ring.Nat
import SearchFilter.Proofs.Except
import SearchFilter.Proofs.Statement.Supply

/-!
# Binding as substitution

A text is bound piece by piece, with walks taken as a whole and with types awaited from the words
passed. Main statement: for any text, also one that no filter has, this comes to putting the
placeholders of the parameters in the places of those in the text, one after the other. Only casts
around walks are written besides.
-/

namespace SearchFilter

/-- A text with its placeholders replaced, each by the next of the replacements. -/
def substitute : List Char → List String → List Char
  | cs, [] => cs
  | [], _ :: _ => []
  | c :: cs, r :: rs =>
    if c = '?' then r.toList ++ substitute cs rs else c :: substitute cs (r :: rs)

@[simp] theorem substitute_nil (cs : List Char) : substitute cs [] = cs := by
  cases cs <;> rfl

theorem substitute_placeholder (cs : List Char) (r : String) (rs : List String) :
    substitute ('?' :: cs) (r :: rs) = r.toList ++ substitute cs rs := by
  rw [substitute, if_pos rfl]

theorem substitute_other {c : Char} (h : c ≠ '?') (cs : List Char) (rs : List String) :
    substitute (c :: cs) rs = c :: substitute cs rs := by
  cases rs with
  | nil => simp
  | cons r rs => rw [substitute, if_neg h]

theorem substitute_append {a : List Char} {rs : List String} (h : placeholders a = rs.length)
    (b : List Char) (ss : List String) :
    substitute (a ++ b) (rs ++ ss) = substitute a rs ++ substitute b ss := by
  induction a generalizing rs with
  | nil =>
    have : rs = [] := List.eq_nil_of_length_eq_zero h.symm
    rw [this]
    simp
  | cons c a ih =>
    by_cases hc : c = '?'
    · subst hc
      rw [placeholders, List.count_cons_self] at h
      cases rs with
      | nil => cases h
      | cons r rs =>
        rw [List.cons_append, List.cons_append, substitute_placeholder, substitute_placeholder,
          ih (Nat.succ.inj h), List.append_assoc]
    · rw [placeholders, List.count_cons_of_ne hc] at h
      rw [List.cons_append, substitute_other hc, substitute_other hc, ih h, List.cons_append]

/-- A character is where it was in the text, its placeholders apart, and in the replacements. -/
theorem count_substitute (c : Char) {cs : List Char} {rs : List String}
    (h : placeholders cs = rs.length) :
    (substitute cs rs).count c =
      (cs.filter (· ≠ '?')).count c + (rs.map fun r => r.toList.count c).sum := by
  induction cs generalizing rs with
  | nil =>
    have : rs = [] := List.eq_nil_of_length_eq_zero h.symm
    rw [this]
    rfl
  | cons d cs ih =>
    by_cases hd : d = '?'
    · subst hd
      rw [placeholders, List.count_cons_self] at h
      cases rs with
      | nil => cases h
      | cons r rs =>
        rw [substitute_placeholder, List.count_append, ih (Nat.succ.inj h), List.map_cons,
          List.sum_cons, List.filter_cons_of_neg (by simp), Nat.add_left_comm]
    · rw [placeholders, List.count_cons_of_ne hd] at h
      rw [substitute_other hd, List.count_cons, ih h, List.filter_cons_of_pos (by simpa using hd),
        List.count_cons, Nat.add_right_comm]

theorem placeholders_substitute {cs : List Char} {rs : List String}
    (h : placeholders cs = rs.length) :
    placeholders (substitute cs rs) = (rs.map fun r => placeholders r.toList).sum := by
  have hnone : (cs.filter (· ≠ '?')).count '?' = 0 := by
    rw [List.count_eq_zero, List.mem_filter]
    simp
  have := count_substitute '?' h
  rw [hnone, Nat.zero_add] at this
  exact this

/-- The placeholders of a parameter behind `before` binds, `place k` being that of the `k`-th bind
in all. -/
def Parameter.written (place : Nat → String) (before : Nat) (p : Parameter) : String :=
  match p.values.length with
  | 0 => "NULL"
  | n => ", ".intercalate ((List.range' (before + 1) n).map place)

/-- The placeholders of each parameter. -/
def replacements (place : Nat → String) (ps : List Parameter) : List String :=
  ps.mapIdx fun i p => p.written place ((ps.take i).flatMap Parameter.values).length

/-- A part of a statement. -/
structure Run where
  text : List Char
  isCast : Bool

namespace Run

/-- The part with the cast that stands around it. -/
def cast (r : Run) : List Char :=
  if r.isCast then "CAST(".toList ++ r.text ++ " AS TEXT)".toList else r.text

/-- The part as a backend writes it. -/
def written (b : Backend) (r : Run) : List Char :=
  if r.isCast then (b.jsonText (String.ofList r.text)).toList else r.text

theorem written_sqlite : written .sqlite = cast := by
  funext r
  simp only [written, cast, Backend.jsonText, String.toList_append, String.toList_ofList]

theorem written_postgres : written .postgres = text := by
  funext r
  simp only [written, Backend.jsonText, String.toList_ofList, ite_self]

theorem placeholders_cast (r : Run) : placeholders r.cast = placeholders r.text := by
  cases h : r.isCast <;> simp [cast, placeholders, h]

end Run

namespace Binding

variable (b : Backend)

theorem render_eq_written (type : ColumnType) (bound : Nat) (p : Parameter) :
    render b type bound p = p.written (b.typedPlaceholder · type) bound := by
  rw [render, Parameter.written]
  cases p.values.length with
  | zero => rfl
  | succ n =>
    simp only [List.range'_eq_map_range, List.map_map, Function.comp_def, Nat.add_right_comm]

/-- The placeholders of each parameter behind `bound` binds, each of its own type. -/
def renderAll : (bound : Nat) → List ColumnType → List Parameter → List String
  | bound, type :: types, p :: ps =>
    render b type bound p :: renderAll (bound + p.values.length) types ps
  | _, _, _ => []

theorem length_renderAll {bound : Nat} {types : List ColumnType} {ps : List Parameter}
    (h : ps.length = types.length) : (renderAll b bound types ps).length = types.length := by
  induction types generalizing bound ps with
  | nil => simp [renderAll]
  | cons type types ih =>
    cases ps with
    | nil => cases h
    | cons p ps => rw [renderAll, List.length_cons, ih (Nat.succ.inj h), List.length_cons]

theorem renderAll_append {bound : Nat} {types : List ColumnType} {ps : List Parameter}
    (h : ps.length = types.length) (others : List ColumnType) (qs : List Parameter) :
    renderAll b bound (types ++ others) (ps ++ qs) =
      renderAll b bound types ps ++
        renderAll b (bound + (ps.flatMap Parameter.values).length) others qs := by
  induction types generalizing bound ps with
  | nil =>
    have : ps = [] := List.eq_nil_of_length_eq_zero h
    rw [this]
    rfl
  | cons type types ih =>
    cases ps with
    | nil => cases h
    | cons p ps =>
      simp only [List.cons_append, renderAll, ih (Nat.succ.inj h), List.flatMap_cons,
        List.length_append, Nat.add_assoc]

theorem renderAll_eq_mapIdx_written {bound : Nat} {types : List ColumnType} {ps : List Parameter}
    (h : ps.length = types.length) :
    renderAll b bound types ps = ps.mapIdx fun i p =>
      p.written (b.typedPlaceholder · (types.getD i .text))
        (bound + ((ps.take i).flatMap Parameter.values).length) := by
  induction types generalizing bound ps with
  | nil =>
    have : ps = [] := List.eq_nil_of_length_eq_zero h
    rw [this]
    rfl
  | cons type types ih =>
    cases ps with
    | nil => cases h
    | cons p ps =>
      have ht := @ih (bound + p.values.length) ps (Nat.succ.inj h)
      simp [renderAll, render_eq_written, ht, List.mapIdx_cons, Nat.add_assoc]

theorem renderAll_eq_mapIdx {types : List ColumnType} {place : Nat → String}
    (hp : ∀ type ∈ types, ∀ n, b.typedPlaceholder n type = place n) {bound : Nat}
    {ps : List Parameter} (h : ps.length = types.length) :
    renderAll b bound types ps = ps.mapIdx fun i p =>
      p.written place (bound + ((ps.take i).flatMap Parameter.values).length) := by
  rw [renderAll_eq_mapIdx_written b h]
  refine List.ext_getElem (by simp) fun i hi _ => ?_
  have hlt : i < types.length := by simpa [h] using hi
  have hplace : (b.typedPlaceholder · (types.getD i .text)) = place := by
    rw [List.getD_eq_getElem?_getD, List.getElem?_eq_getElem hlt, Option.getD_some]
    exact funext (hp _ (List.getElem_mem hlt))
  rw [List.getElem_mapIdx, List.getElem_mapIdx, hplace]

/-- From the first to the second, parameters of the given types were bound and their placeholders
were written in the places of those of a text. -/
structure Writes (types : List ColumnType) (cs : List Char) (p q : Progress) : Prop where
  count : placeholders cs = types.length
  exists_taken : ∃ (taken : List Parameter) (runs : List Run),
    taken.length = types.length ∧ p.supply = taken ++ q.supply ∧
    q.binds.toList = p.binds.toList ++ taken.flatMap Parameter.values ∧
    q.sql.toList = p.sql.toList ++ runs.flatMap (Run.written b) ∧
    runs.flatMap Run.text = substitute cs (renderAll b p.binds.size types taken)

namespace Writes

variable {b}

theorem refl (p : Progress) : Writes b [] [] p p where
  count := rfl
  exists_taken := ⟨[], [], rfl, rfl, by simp, by simp, rfl⟩

theorem trans {types others : List ColumnType} {cs ds : List Char} {p q r : Progress}
    (h : Writes b types cs p q) (h' : Writes b others ds q r) :
    Writes b (types ++ others) (cs ++ ds) p r where
  count := by
    have hc := h.count
    have hd := h'.count
    rw [placeholders] at *
    rw [List.count_append, hc, hd, List.length_append]
  exists_taken := by
    obtain ⟨hc, taken, runs, hl, hs, hb, hq, hr⟩ := h
    obtain ⟨-, taken', runs', hl', hs', hb', hq', hr'⟩ := h'
    have hn : q.binds.size = p.binds.size + (taken.flatMap Parameter.values).length := by
      have := congrArg List.length hb
      simpa using this
    refine ⟨taken ++ taken', runs ++ runs', ?_, ?_, ?_, ?_, ?_⟩
    · rw [List.length_append, hl, hl', List.length_append]
    · rw [hs, hs', List.append_assoc]
    · rw [hb', hb, List.flatMap_append, List.append_assoc]
    · rw [hq', hq, List.flatMap_append, List.append_assoc]
    · have hc' : placeholders cs = (renderAll b p.binds.size types taken).length := by
        rw [length_renderAll b hl, hc]
      rw [List.flatMap_append, hr, hr', renderAll_append b hl, substitute_append hc', hn]

end Writes

variable {b}

theorem exists_of_take {type : ColumnType} {p q : Progress} {s : String}
    (h : p.take b type = .ok (s, q)) :
    ∃ parameter, p.supply = parameter :: q.supply ∧ s = render b type p.binds.size parameter ∧
      q = { p with supply := q.supply, binds := p.binds ++ parameter.values } := by
  unfold Progress.take at h
  split at h
  · cases h
  · rename_i parameter supply hs
    cases h
    exact ⟨parameter, hs, rfl, rfl⟩

theorem exists_of_takeSteps {hops : Nat} {written s : String} {p q : Progress}
    (h : p.takeSteps b hops written = .ok (s, q)) :
    ∃ taken : List Parameter, taken.length = hops + 1 ∧ p.supply = taken ++ q.supply ∧
      q = { p with supply := q.supply, binds := p.binds ++ taken.flatMap Parameter.values } ∧
      s.toList = written.toList ++ substitute (Attribute.tail hops)
        (renderAll b p.binds.size (List.replicate (hops + 1) .text) taken) := by
  induction hops generalizing written p with
  | zero =>
    obtain ⟨⟨t, r⟩, ht, hr⟩ := bind_eq_ok_iff.mp h
    obtain ⟨parameter, hs, rfl, hq⟩ := exists_of_take ht
    cases hr
    refine ⟨[parameter], rfl, hs, by simpa using hq, ?_⟩
    simp [Attribute.tail, renderAll, substitute]
  | succ hops ih =>
    obtain ⟨⟨t, r⟩, ht, hr⟩ := bind_eq_ok_iff.mp h
    obtain ⟨parameter, hs, rfl, hq⟩ := exists_of_take ht
    obtain ⟨taken, hl, hs', hq', hw⟩ := ih hr
    refine ⟨parameter :: taken, ?_, ?_, ?_, ?_⟩
    · rw [List.length_cons, hl]
    · rw [hs, hs', List.cons_append]
    · rw [hq', hq, appendList_appendList, List.flatMap_cons]
    · have hn : r.binds.size = p.binds.size + parameter.values.length := by
        rw [hq, ← Array.length_toList, Array.toList_appendList, List.length_append,
          Array.length_toList]
      have hr : renderAll b p.binds.size (List.replicate (hops + 1 + 1) .text)
            (parameter :: taken) =
          render b .text p.binds.size parameter ::
            renderAll b r.binds.size (List.replicate (hops + 1) .text) taken := by
        rw [hn, List.replicate_succ]
        rfl
      rw [hw, hr]
      simp [Attribute.tail, substitute]

end Binding

/-- The types of the placeholders of a piece. -/
def Piece.types (pending : Option ColumnType) : Piece → List ColumnType
  | placeholder => [pending.getD .text]
  | walk _ hops => List.replicate (hops + 1) .text
  | word _ | other _ => []

theorem Piece.length_types (pending : Option ColumnType) (piece : Piece) :
    (piece.types pending).length = piece.takes := by
  cases piece <;> simp [types, takes]

namespace Binding

variable (columns : Allowlist)

/-- The type awaited behind a piece. -/
def after (pending : Option ColumnType) : Piece → Option ColumnType
  | .placeholder | .walk _ _ => none
  | .word letters => pendingAfter columns pending (String.ofList letters)
  | .other _ => pending

/-- The types of the placeholders of pieces. -/
def awaited : (pending : Option ColumnType) → List Piece → List ColumnType
  | _, [] => []
  | pending, piece :: rest =>
    piece.types pending ++ awaited (after columns pending piece) rest

variable {b : Backend} {columns}

/-- A step writes the text of its piece with the placeholders of its parameters. -/
theorem writes_of_step {p q : Progress} {piece : Piece}
    (hc : placeholders piece.text = piece.takes) (h : step b columns p piece = .ok q) :
    Writes b (piece.types p.pending) piece.text p q ∧
      q.pending = after columns p.pending piece := by
  have count := hc.trans (piece.length_types p.pending).symm
  cases piece with
  | placeholder =>
    obtain ⟨⟨t, r⟩, ht, hr⟩ := bind_eq_ok_iff.mp h
    obtain ⟨parameter, hs, rfl, hq⟩ := exists_of_take ht
    cases hr
    refine ⟨⟨count, [parameter], [⟨(render b (p.pending.getD .text) p.binds.size parameter).toList,
      false⟩], rfl, hs, ?_, ?_, ?_⟩, rfl⟩
    · rw [hq]
      simp
    · rw [hq]
      simp [Run.written]
    · simp [Piece.types, Piece.text, renderAll, substitute]
  | word letters =>
    cases h
    refine ⟨⟨count, [], [⟨letters, false⟩], rfl, rfl, ?_, ?_, ?_⟩, rfl⟩
    · simp
    · simp [Run.written]
    · simp [Piece.types, Piece.text, renderAll]
  | walk column hops =>
    obtain ⟨⟨t, r⟩, ht, hr⟩ := bind_eq_ok_iff.mp h
    obtain ⟨taken, hl, hs, hq, hw⟩ := exists_of_takeSteps ht
    cases hr
    have hcol : placeholders column = 0 := by
      rw [Piece.text, Piece.takes, placeholders, List.count_append, Attribute.count_tail] at hc
      rw [placeholders]
      omega
    refine ⟨⟨count, taken, [⟨t.toList, true⟩], ?_, hs, ?_, ?_, ?_⟩, rfl⟩
    · rw [hl, Piece.types, List.length_replicate]
    · rw [hq]
      simp
    · rw [hq]
      simp [Run.written]
    · have ha := @substitute_append column [] hcol (Attribute.tail hops)
      rw [Piece.text, Piece.types, List.flatMap_singleton, hw, String.toList_ofList]
      simpa using (ha _).symm
  | other c =>
    cases h
    refine ⟨⟨count, [], [⟨[c], false⟩], rfl, rfl, ?_, ?_, ?_⟩, rfl⟩
    · simp
    · simp [Run.written]
    · simp [Piece.types, Piece.text, renderAll]

theorem writes_of_steps {pieces : List Piece} {p q : Progress}
    (hc : ∀ piece ∈ pieces, placeholders piece.text = piece.takes)
    (h : pieces.foldlM (step b columns) p = .ok q) :
    Writes b (awaited columns p.pending pieces) (pieces.flatMap Piece.text) p q := by
  induction pieces generalizing p with
  | nil =>
    cases h
    exact .refl _
  | cons piece pieces ih =>
    rw [List.foldlM_cons] at h
    obtain ⟨r, hr, hq⟩ := bind_eq_ok_iff.mp h
    obtain ⟨hw, hp⟩ := writes_of_step (hc piece List.mem_cons_self) hr
    have := ih (fun other ho => hc other (List.mem_cons_of_mem _ ho)) hq
    rw [hp] at this
    exact hw.trans this

theorem awaited_empty {pending : Option ColumnType} (hp : pending.getD .text = .text)
    (pieces : List Piece) : ∀ type ∈ awaited .empty pending pieces, type = .text := by
  induction pieces generalizing pending with
  | nil => simp [awaited]
  | cons piece pieces ih =>
    intro type ht
    rcases List.mem_append.mp ht with ht | ht
    · cases piece with
      | placeholder => rw [List.mem_singleton.mp ht, hp]
      | walk column hops => exact List.eq_of_mem_replicate ht
      | word letters => cases ht
      | other c => cases ht
    · refine ih ?_ type ht
      cases piece with
      | placeholder => rfl
      | walk column hops => rfl
      | word letters =>
        simp only [after, pendingAfter]
        split
        · rfl
        · split
          · exact hp
          · rfl
      | other c => exact hp

end Binding

theorem count_intercalate {c : Char} (hc : c ∉ [',', ' ']) {parts : List String}
    (h : ∀ part ∈ parts, part.toList.count c = 1) :
    (", ".intercalate parts).toList.count c = parts.length := by
  induction parts with
  | nil => rfl
  | cons part parts ih =>
    obtain ⟨hp, h⟩ := List.forall_mem_cons.mp h
    cases parts with
    | nil => rw [String.intercalate_singleton, hp]; rfl
    | cons next parts =>
      have hcomma : ", ".toList.count c = 0 := List.count_eq_zero.mpr hc
      rw [String.intercalate_cons_cons, String.toList_append, String.toList_append,
        List.count_append, List.count_append, hp, hcomma, ih h, List.length_cons (a := part)]
      omega

namespace Parameter

variable {c : Char} (hc : c ∉ [',', ' ']) (hnull : c ∉ "NULL".toList)

include hc hnull

theorem count_written {place : Nat → String} (hplace : ∀ k, (place k).toList.count c = 1)
    (before : Nat) (p : Parameter) : (p.written place before).toList.count c = p.values.length := by
  rw [written]
  cases p.values.length with
  | zero => exact List.count_eq_zero.mpr hnull
  | succ n =>
    have hparts : ∀ part ∈ (List.range' (before + 1) (n + 1)).map place,
        part.toList.count c = 1 := by
      intro part hm
      obtain ⟨k, -, rfl⟩ := List.mem_map.mp hm
      exact hplace k
    have hcount := count_intercalate hc hparts
    rw [List.length_map, List.length_range'] at hcount
    exact hcount

theorem sum_count_written {place : Nat → Nat → String}
    (hplace : ∀ i k, (place i k).toList.count c = 1) (before : Nat → Nat) (ps : List Parameter) :
    ((ps.mapIdx fun i p => p.written (place i) (before i)).map fun r => r.toList.count c).sum =
      (ps.flatMap values).length := by
  induction ps generalizing before place with
  | nil => rfl
  | cons p ps ih =>
    rw [List.mapIdx_cons, List.map_cons, List.sum_cons, count_written hc hnull (hplace 0),
      ih fun i => hplace (i + 1), List.flatMap_cons, List.length_append]

end Parameter

theorem sum_placeholders_written (before : Nat → Nat) (ps : List Parameter) :
    ((ps.mapIdx fun i p => p.written (fun _ => "?") (before i)).map fun r =>
      placeholders r.toList).sum = (ps.flatMap Parameter.values).length :=
  Parameter.sum_count_written (by decide) (by decide) (fun _ _ => rfl) before ps

namespace Predicate

variable {p : Predicate} {b : Backend} {columns : Allowlist} {q : BoundQuery}

/-- The statement of any predicate is its text with the placeholders of its parameters, but for
casts. -/
theorem exists_runs_of_bind (h : p.bind b columns = .ok q) :
    ∃ (types : List ColumnType) (runs : List Run), p.parameters.length = types.length ∧
      types = Binding.awaited columns none (Piece.ofText p.text) ∧
      q.sql.toList = runs.flatMap (Run.written b) ∧
      runs.flatMap Run.text =
        substitute p.text.toList (Binding.renderAll b 0 types p.parameters) := by
  have hcount : p.placeholderCount = p.parameters.length := bind_eq_ok_iff_count.mp ⟨q, h⟩
  rw [Predicate.bind, if_neg (not_not_intro hcount)] at h
  obtain ⟨done, hd, hq⟩ := bind_eq_ok_iff.mp h
  cases hq
  have hc : ∀ piece ∈ Piece.ofText p.text, placeholders piece.text = piece.takes := by
    intro piece hp
    exact Piece.count_text_of_mem_cut hp
  obtain ⟨htypes, taken, runs, hl, hs, -, hsql, hruns⟩ := Binding.writes_of_steps hc hd
  have htext : (Piece.ofText p.text).flatMap Piece.text = p.text.toList :=
    Piece.flatMap_text_cut p.text.toList
  rw [htext] at htypes hruns
  have hlen : p.parameters.length =
      (Binding.awaited columns none (Piece.ofText p.text)).length := by
    rw [← htypes, ← hcount, placeholderCount]
  have hrest : done.supply = [] := by
    have := congrArg List.length hs
    rw [List.length_append, hl, ← hlen] at this
    exact List.eq_nil_of_length_eq_zero (by simpa using this)
  have htaken : p.parameters = taken := by
    rw [hrest, List.append_nil] at hs
    exact hs
  refine ⟨_, runs, hlen, rfl, ?_, ?_⟩
  · simpa using hsql
  · rw [htaken]
    exact hruns

theorem bind_eq_error (h : p.placeholderCount ≠ p.parameters.length) (b : Backend)
    (columns : Allowlist) :
    p.bind b columns = .error (.countMismatch p.placeholderCount p.parameters.length) := by
  rw [Predicate.bind, if_pos h]

/-- A predicate of any text is bound if it has a parameter for every placeholder, and is refused
with both numbers if not. The values are bound in their order. Placeholders come one after the
other: numbered for PostgreSQL, if no types are known, and alike for SQLite, which casts besides. -/
theorem bind_eq_substitute (p : Predicate) :
    (∀ b columns, (∃ q, p.bind b columns = .ok q) ↔
      p.placeholderCount = p.parameters.length) ∧
    (∀ b columns, p.placeholderCount ≠ p.parameters.length →
      p.bind b columns =
        .error (.countMismatch p.placeholderCount p.parameters.length)) ∧
    (∀ b columns, p.bind b columns ≠ .error .outOfParameters) ∧
    (∀ b columns q, p.bind b columns = .ok q →
      q.binds = p.parameters.flatMap Parameter.values) ∧
    (∀ q, p.bindUntyped .postgres = .ok q →
      q.sql.toList = substitute p.text.toList
        (replacements (fun k => "$" ++ toString k) p.parameters)) ∧
    ∀ columns q, p.bind .sqlite columns = .ok q →
      placeholders q.sql.toList = q.binds.length ∧
      ∃ runs : List Run, q.sql.toList = runs.flatMap Run.cast ∧
        runs.flatMap Run.text =
          substitute p.text.toList (replacements (fun _ => "?") p.parameters) := by
  have hreplace {b : Backend} {types : List ColumnType} {place : Nat → String}
      (hp : ∀ type ∈ types, ∀ n, b.typedPlaceholder n type = place n)
      (hl : p.parameters.length = types.length) :
      Binding.renderAll b 0 types p.parameters = replacements place p.parameters := by
    rw [Binding.renderAll_eq_mapIdx b hp hl, replacements]
    simp only [Nat.zero_add]
  refine ⟨fun b columns => bind_eq_ok_iff_count, fun b columns h => bind_eq_error h b columns,
    ?_, fun b columns q h => binds_of_bind_eq_ok h, ?_, ?_⟩
  · intro b columns h
    by_cases hc : p.placeholderCount = p.parameters.length
    · obtain ⟨q, hq⟩ := bind_eq_ok_iff_count.mpr hc
      rw [hq] at h
      cases h
    · rw [bind_eq_error hc] at h
      cases h
  · intro q h
    obtain ⟨types, runs, hl, ht, hsql, hruns⟩ := exists_runs_of_bind h
    have hplain : ∀ type ∈ types, ∀ n,
        Backend.postgres.typedPlaceholder n type = "$" ++ toString n := by
      intro type hm n
      rw [ht] at hm
      rw [Binding.awaited_empty rfl _ type hm]
      rfl
    rw [hsql, Run.written_postgres, hruns, hreplace hplain hl]
  · intro columns q h
    obtain ⟨types, runs, hl, -, hsql, hruns⟩ := exists_runs_of_bind h
    have hplain : ∀ type ∈ types, ∀ n, Backend.sqlite.typedPlaceholder n type = "?" := by
      intro type _ n
      rfl
    rw [hreplace hplain hl] at hruns
    rw [Run.written_sqlite] at hsql
    refine ⟨?_, runs, hsql, hruns⟩
    have hcast : placeholders (runs.flatMap Run.cast) = placeholders (runs.flatMap Run.text) := by
      simp only [placeholders, List.count_flatMap]
      exact congrArg List.sum (List.map_congr_left fun r _ => r.placeholders_cast)
    have hcount : placeholders p.text.toList =
        (replacements (fun _ => "?") p.parameters).length := by
      rw [replacements, List.length_mapIdx]
      exact bind_eq_ok_iff_count.mp ⟨q, h⟩
    rw [hsql, hcast, hruns, placeholders_substitute hcount, replacements,
      sum_placeholders_written, binds_of_bind_eq_ok h]

/-- A walk that is cut short takes no cast, an empty list no number. -/
theorem bind_eq_substitute_half_walk :
    let text := "é -> ? a -> ? OR _1 -> ? ->> ?"
    let ps : List Parameter := [.text "k", .list [], .list ["l", "m"], .list ["?"]]
    substitute text.toList (replacements (fun k => "$" ++ toString k) ps) =
        "é -> $1 a -> NULL OR _1 -> $2, $3 ->> $4".toList ∧
      (∃ runs : List Run,
        "é -> ? a -> NULL OR CAST(_1 -> ?, ? ->> ? AS TEXT)".toList = runs.flatMap Run.cast ∧
        runs.flatMap Run.text = substitute text.toList (replacements (fun _ => "?") ps)) ∧
      Predicate.bind .sqlite .empty ⟨text, ps.drop 1⟩ = .error (.countMismatch 4 3) := by
  intro text ps
  obtain ⟨-, -, -, -, hpostgres, hsqlite⟩ := bind_eq_substitute ⟨text, ps⟩
  have hp : Predicate.bindUntyped .postgres ⟨text, ps⟩ =
      .ok ⟨"é -> $1 a -> NULL OR _1 -> $2, $3 ->> $4", ["k", "l", "m", "?"]⟩ := by
    decide +kernel
  have hs : Predicate.bind .sqlite .empty ⟨text, ps⟩ =
      .ok ⟨"é -> ? a -> NULL OR CAST(_1 -> ?, ? ->> ? AS TEXT)", ["k", "l", "m", "?"]⟩ := by
    decide +kernel
  have hc : Predicate.placeholderCount ⟨text, ps.drop 1⟩ = 4 := by decide
  have hm := (bind_eq_substitute ⟨text, ps.drop 1⟩).2.1 .sqlite .empty (by decide)
  rw [hc] at hm
  exact ⟨(hpostgres _ hp).symm, (hsqlite .empty _ hs).2, hm⟩

end Predicate

end SearchFilter
