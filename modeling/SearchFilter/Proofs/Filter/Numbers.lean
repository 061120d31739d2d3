import SearchFilter.Proofs.Filter.SpelledLeaves
import SearchFilter.Proofs.Json.Kept
import SearchFilter.Schema.Entity

/-!
# The texts that are bound for numbers

A number is bound as the text of its value. Main statement: in a compiled document the numbers whose
literals are canonical are bound as they are written, those whose literals are altered are not.
-/

namespace SearchFilter

open Json (IsAltered IsCanonical Numeral Spelled)

namespace SpelledLeaf

theorem pattern_inj (c : SpelledLeaf) {s t : String} : c.pattern s = c.pattern t ↔ s = t := by
  unfold pattern
  split
  · simp only [← String.toList_inj, String.toList_append, List.append_cancel_right_eq,
      List.append_cancel_left_eq]
  · rfl

/-- How a number that is compared with is bound. -/
structure Binds (c : SpelledLeaf) (n : Numeral) (parameter : Parameter) : Prop where
  text : parameter = .text (c.pattern n.value.text)
  canonical : IsCanonical n.literal → parameter = .text (c.pattern (String.ofList n.literal))
  altered : IsAltered n.literal → parameter ≠ .text (c.pattern (String.ofList n.literal))

theorem binds (c : SpelledLeaf) (n : Numeral) : c.Binds n (.text (c.pattern n.value.text)) where
  text := rfl
  canonical h := by rw [Json.Number.text, n.textList_of_isCanonical h]
  altered h := by
    intro he
    have ht := (pattern_inj c).mp (Parameter.text.inj he)
    exact n.textList_of_isAltered h (String.ofList_injective ht)

end SpelledLeaf

namespace Filter

/-- The parameters of a compiled document are those of its leaves in their order, and numbers are
bound by their values. -/
theorem numbers_of_compileText {allowlist : Allowlist} {limit : Nat} {raw : String}
    {p : Predicate} (h : compileText allowlist limit raw = .ok p) : ∃ members values,
      Spelled.parse raw = .ok (.object members) ∧
      List.Forall₂ (fun c value => ∀ n, c.value = .number n → c.Binds n value)
        (spelledLeavesOfEntries [] members) values ∧
      p.parameters = (List.zipWith (fun c value => c.left.parameters ++ [value])
        (spelledLeavesOfEntries [] members) values).flatten := by
  obtain ⟨members, values, hm, hb, hp⟩ := exists_values_of_compileText h
  refine ⟨members, values, hm, hb.imp ?_, hp⟩
  rintro c value hv n hn
  rw [hv n hn]
  exact c.binds n

/-- A canonical literal of a column and one with a zero at its end in JSON. -/
theorem numbers_of_compileText_mixed :
    let allowlist := (Allowlist.ofFields ["a"]).withJson ["m"]
    let raw := "\x7b\"a\":2.25,\"m\":\x7b\"k\":\x7b\"like\":1.10\x7d\x7d\x7d"
    let p : Predicate :=
      ⟨"a = ? AND (m ->> ? LIKE (?))", [.text "2.25", .text "k", .text "%1.1%"]⟩
    let n : Numeral := ⟨['2', '.', '2', '5'], .double false ⟨5066549580791808, -51⟩, rfl⟩
    let m : Numeral := ⟨['1', '.', '1', '0'], .double false ⟨4953959590107546, -52⟩, rfl⟩
    compileText allowlist 100 raw = .ok p ∧
      Spelled.parse raw = .ok (.object [("a", .number n),
        ("m", .object [("k", .object [("like", .number m)])])]) ∧
      IsCanonical n.literal ∧ SpelledLeaf.Binds ⟨.under [] "a", none, .number n⟩ n (.text "2.25") ∧
      IsAltered m.literal ∧
      SpelledLeaf.Binds ⟨.under ["m"] "k", some .like, .number m⟩ m (.text "%1.1%") := by
  intro allowlist raw p n m
  have hp : (compileText allowlist 100 raw).toOption = some p := by decide +kernel
  rw [toOption_eq_some_iff] at hp
  have hraw : Spelled.parse raw = .ok (.object [("a", .number n),
      ("m", .object [("k", .object [("like", .number m)])])]) := by
    simp only [Spelled.parse, raw, String.reduceToList]
    rfl
  have hn : IsCanonical n.literal := by
    refine @IsCanonical.decimal false ['2'] ['2', '5'] ?_ ?_ (by decide) (by decide) fun h => ?_
    · exact List.forall_mem_singleton.mpr rfl
    · exact List.forall_mem_cons.mpr ⟨rfl, List.forall_mem_singleton.mpr rfl⟩
    · exact absurd h.1 (by decide)
  have hm : IsAltered m.literal := by
    refine @IsAltered.zeros false ['1'] ['1', '0'] ?_ ?_ (by decide) (by decide)
    · exact List.forall_mem_singleton.mpr rfl
    · exact List.forall_mem_cons.mpr ⟨rfl, List.forall_mem_singleton.mpr rfl⟩
  obtain ⟨members, values, hmembers, hb, hv⟩ := numbers_of_compileText hp
  cases hmembers.symm.trans hraw
  obtain _ | ⟨hfirst, _ | ⟨hsecond, _ | _⟩⟩ := hb
  cases hv
  exact ⟨hp, hraw, hn, hfirst n rfl, hm, hsecond m rfl⟩

/-- Zeros at the end of a fraction and digits of an integer past 64 bits are not told apart. -/
theorem numbers_of_compileText_lost :
    let compiled (raw : String) := (compileText Entity.job.allowlist 65536 raw).toOption
    let n : Numeral := ⟨['1', '.', '1', '0'], .double false ⟨4953959590107546, -52⟩, rfl⟩
    Spelled.parse "\x7b\"name\":1.10\x7d" = .ok (.object [("name", .number n)]) ∧
      compiled "\x7b\"name\":1.10\x7d" = some ⟨"name = ?", [.text "1.1"]⟩ ∧
      String.ofList n.literal ≠ "1.1" ∧
      compiled "\x7b\"name\":1.1\x7d" = compiled "\x7b\"name\":1.10\x7d" ∧
      compiled "\x7b\"name\":18446744073709551616\x7d" =
        compiled "\x7b\"name\":18446744073709551617\x7d" := by
  intro compiled n
  refine ⟨?_, ?_, ?_, ?_, ?_⟩
  · simp only [Spelled.parse, String.reduceToList]
    rfl
  all_goals decide +kernel

end Filter

end SearchFilter
