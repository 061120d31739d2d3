import SearchFilter.Sql.Expression

/-!
# The grammar of conditions

A disjunction is a row of conjunctions, a conjunction a row of factors, and a factor a comparison or
a disjunction in parentheses. Main statement: the reader with its stack of open groups accepts the
disjunctions and nothing else, and yields their trees, so that a text has one meaning at most.
-/

namespace SearchFilter.Sql

variable {α : Type}

mutual

/-- A comparison or a group. -/
inductive Factor : List (Item α) → Condition α → Prop
  | comparison (c : Comparison α) : Factor [.comparison c] (.compare c)
  | group {is : List (Item α)} {c : Condition α} (h : Disjunction is c) :
      Factor (.left :: is ++ [.right]) c

/-- Factors joined by `AND`, grouped to the left. -/
inductive Conjunction : List (Item α) → Condition α → Prop
  | factor {is : List (Item α)} {c : Condition α} (h : Factor is c) : Conjunction is c
  | and {is js : List (Item α)} {a b : Condition α} (ha : Conjunction is a) (hb : Factor js b) :
      Conjunction (is ++ .and :: js) (.and a b)

/-- Conjunctions joined by `OR`, grouped to the left. -/
inductive Disjunction : List (Item α) → Condition α → Prop
  | term {is : List (Item α)} {c : Condition α} (h : Conjunction is c) : Disjunction is c
  | or {is js : List (Item α)} {a b : Condition α} (ha : Disjunction is a) (hb : Conjunction js b) :
      Disjunction (is ++ .or :: js) (.or a b)

end

mutual

/-- Behind a factor the reader has it as the last of the term at hand, whatever follows. -/
theorem Factor.read {is : List (Item α)} {c : Condition α} : Factor is c →
    ∀ (f : Frame α) (outer : List (Frame α)) (rest : List (Item α)),
      readFactor f outer (is ++ rest) = readJoint f.alternatives (f.term c) outer rest
  | .comparison c => by
    intro f outer rest
    simp [readFactor]
  | .group h => by
    intro f outer rest
    obtain ⟨alternatives, term, hc, hr⟩ := h.read (f :: outer) (.right :: rest)
    simp only [List.cons_append, List.append_assoc, List.nil_append, readFactor, hr, readJoint, hc]

theorem Conjunction.read {is : List (Item α)} {c : Condition α} : Conjunction is c →
    ∀ (alternatives : Option (Condition α)) (outer : List (Frame α)) (rest : List (Item α)),
      readFactor ⟨alternatives, none⟩ outer (is ++ rest) = readJoint alternatives c outer rest
  | .factor h => by
    intro alternatives outer rest
    exact h.read _ outer rest
  | .and ha hb => by
    intro alternatives outer rest
    rw [List.append_assoc, ha.read, List.cons_append, readJoint, hb.read]
    rfl

theorem Disjunction.read {is : List (Item α)} {c : Condition α} : Disjunction is c →
    ∀ (outer : List (Frame α)) (rest : List (Item α)),
      ∃ alternatives term, joinTerm alternatives term = c ∧
        readFactor .empty outer (is ++ rest) = readJoint alternatives term outer rest
  | .term h => by
    intro outer rest
    exact ⟨none, c, rfl, h.read none outer rest⟩
  | @Disjunction.or _ is js a b ha hb => by
    intro outer rest
    obtain ⟨alternatives, term, ht, hr⟩ := ha.read outer (.or :: js ++ rest)
    refine ⟨some a, b, rfl, ?_⟩
    rw [List.append_assoc, hr, List.cons_append, readJoint, hb.read, ht]

end

/-- The items of the alternatives before a term. -/
inductive Before : Option (Condition α) → List (Item α) → Prop
  | none : Before none []
  | some {is : List (Item α)} {a : Condition α} (h : Disjunction is a) :
      Before (some a) (is ++ [.or])

/-- The items of an open group behind its parenthesis. -/
inductive Frame.Spells : Frame α → List (Item α) → Prop
  | start {alternatives : Option (Condition α)} {is : List (Item α)} (h : Before alternatives is) :
      Spells ⟨alternatives, none⟩ is
  | joined {alternatives : Option (Condition α)} {is js : List (Item α)} {a : Condition α}
      (h : Before alternatives is) (ha : Conjunction js a) :
      Spells ⟨alternatives, some a⟩ (is ++ js ++ [.and])

/-- The items of the groups that are still open, up to the parenthesis of the innermost. -/
inductive Opened : List (Frame α) → List (Item α) → Prop
  | nil : Opened [] []
  | cons {f : Frame α} {outer : List (Frame α)} {is js : List (Item α)} (ho : Opened outer is)
      (hf : f.Spells js) : Opened (f :: outer) (is ++ js ++ [.left])

theorem Before.disjunction {alternatives : Option (Condition α)} {is js : List (Item α)}
    {term : Condition α} (hb : Before alternatives is) (ht : Conjunction js term) :
    Disjunction (is ++ js) (joinTerm alternatives term) := by
  cases hb with
  | none => exact .term ht
  | some ha =>
    rw [List.append_assoc]
    exact .or ha ht

theorem Frame.Spells.factor {f : Frame α} {is js : List (Item α)} {c : Condition α}
    (hf : f.Spells is) (hc : Factor js c) :
    ∃ before term, is ++ js = before ++ term ∧ Before f.alternatives before ∧
      Conjunction term (f.term c) := by
  cases hf with
  | start hb => exact ⟨is, js, rfl, hb, .factor hc⟩
  | @joined _ before ts a hb ha =>
    exact ⟨before, ts ++ .and :: js, by simp, hb, .and ha hc⟩

mutual

theorem disjunction_of_readFactor {c : Condition α} : (items : List (Item α)) →
    ∀ (f : Frame α) (outer : List (Frame α)) (os fs : List (Item α)),
      readFactor f outer items = some c → Opened outer os → f.Spells fs →
        Disjunction (os ++ fs ++ items) c
  | .comparison d :: rest => by
    intro f outer os fs h ho hf
    obtain ⟨before, term, he, hb, ht⟩ := hf.factor (.comparison d)
    have := disjunction_of_readJoint rest _ _ outer os before term h ho hb ht
    rw [List.append_assoc os, ← he] at this
    simpa using this
  | .left :: rest => by
    intro f outer os fs h ho hf
    have := disjunction_of_readFactor rest .empty (f :: outer) _ [] h (.cons ho hf) (.start .none)
    simpa using this
  | [] => by
    intro f outer os fs h
    simp [readFactor] at h
  | .right :: _ => by
    intro f outer os fs h
    simp [readFactor] at h
  | .and :: _ => by
    intro f outer os fs h
    simp [readFactor] at h
  | .or :: _ => by
    intro f outer os fs h
    simp [readFactor] at h

theorem disjunction_of_readJoint {c : Condition α} : (items : List (Item α)) →
    ∀ (alternatives : Option (Condition α)) (term : Condition α) (outer : List (Frame α))
      (os before ts : List (Item α)), readJoint alternatives term outer items = some c →
        Opened outer os → Before alternatives before → Conjunction ts term →
          Disjunction (os ++ (before ++ ts) ++ items) c
  | [] => by
    intro alternatives term outer os before ts h ho hb ht
    cases ho with
    | nil =>
      simp only [readJoint, Option.some.injEq] at h
      subst h
      simpa using hb.disjunction ht
    | cons ho hf => simp [readJoint] at h
  | .and :: rest => by
    intro alternatives term outer os before ts h ho hb ht
    have := disjunction_of_readFactor rest _ outer os _ h ho (.joined hb ht)
    simpa using this
  | .or :: rest => by
    intro alternatives term outer os before ts h ho hb ht
    have := disjunction_of_readFactor rest _ outer os _ h ho (.start (.some (hb.disjunction ht)))
    simpa using this
  | .right :: rest => by
    intro alternatives term outer os before ts h ho hb ht
    cases ho with
    | nil => simp [readJoint] at h
    | @cons f outer is js ho hf =>
      obtain ⟨b, t, he, hb', ht'⟩ := hf.factor (.group (hb.disjunction ht))
      have := disjunction_of_readJoint rest _ _ outer is b t h ho hb' ht'
      rw [← he] at this
      simpa using this
  | .comparison _ :: _ => by
    intro alternatives term outer os before ts h
    simp [readJoint] at h
  | .left :: _ => by
    intro alternatives term outer os before ts h
    simp [readJoint] at h

end

/-- The reader accepts the disjunctions and yields their trees. -/
theorem readFactor_eq_some_iff {is : List (Item α)} {c : Condition α} :
    readFactor .empty [] is = some c ↔ Disjunction is c := by
  constructor
  · intro h
    simpa using disjunction_of_readFactor is .empty [] [] [] h .nil (.start .none)
  · intro h
    obtain ⟨alternatives, term, hc, hr⟩ := h.read [] []
    rw [List.append_nil] at hr
    rw [hr, readJoint, hc]

end SearchFilter.Sql
