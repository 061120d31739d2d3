import SearchFilter.Proofs.Json.SkippedParts

/-!
# What is read is passed over

The machine that passes over a value goes from state to state, and readers go through the same
states. Main statements: what is skipped is what the machine gets behind in no more than three steps
for each character, and a value that is read is passed over to the same place.
-/

namespace SearchFilter.Json

def Bracket.opening : Bracket → Char
  | list => '['
  | object => '\x7b'

/-- What a state is within: a value stands for itself, all else stands within a container. -/
def Expecting.IsWithin : Expecting → List Bracket → Prop
  | .value, inner => inner = []
  | .first, inner | .item, inner | .behind, inner => ∃ b, inner = [b]

/-- The steps that are left over in a state for those that take no character. -/
def Expecting.slack : Expecting → Nat
  | .value | .first => 0
  | .item => 1
  | .behind => 2

/-- From a state the machine gets behind the innermost containers, whatever others are open, and
takes at most three steps for each character. Blanks do not matter. -/
def Passes (e : Expecting) (inner : List Bracket) (cs rest : List Char) : Prop :=
  ∃ n, n + e.slack + 3 * rest.length ≤ 3 * (skipBlank cs).length ∧
    ∀ cs', skipBlank cs' = skipBlank cs → ∀ bound opened,
      skipOn (bound + n) e (inner ++ opened) cs' = skipOn bound .behind opened rest

namespace Passes

variable {e : Expecting} {inner : List Bracket} {b : Bracket} {cs mid rest : List Char} {c : Char}

theorem congr (h : skipBlank cs = skipBlank mid) (hp : Passes e inner mid rest) :
    Passes e inner cs rest := by
  rw [Passes, h]
  exact hp

theorem length_le (h : Passes e inner cs rest) : rest.length ≤ cs.length := by
  obtain ⟨n, hn, -⟩ := h
  have := length_skipBlank_le cs
  omega

theorem scalar (h : skipScalar (skipBlank cs) = .ok rest) : Passes .value [] cs rest := by
  have hlt := length_skipScalar_lt h
  refine ⟨1, by rw [Expecting.slack]; omega, ?_⟩
  intro cs' hc bound opened
  rw [List.nil_append, skipOn, hc]
  split
  · rename_i hb
    rw [hb] at h
    cases h
  · rename_i hb
    rw [hb] at h
    cases h
  · rw [h]
    rfl

theorem container (h : skipBlank cs = b.opening :: mid) (hp : Passes .first [b] mid rest) :
    Passes .value [] cs rest := by
  obtain ⟨n, hn, hsteps⟩ := hp
  have hmid := length_skipBlank_le mid
  refine ⟨n + 1, ?_, ?_⟩
  · rw [h, List.length_cons]
    simp only [Expecting.slack] at hn ⊢
    omega
  · intro cs' hc bound opened
    rw [← Nat.add_assoc, List.nil_append, skipOn, hc, h]
    cases b <;> exact hsteps mid rfl bound opened

theorem first_end (h : skipBlank cs = b.closing :: rest) : Passes .first [b] cs rest := by
  refine ⟨1, ?_, ?_⟩
  · rw [h, List.length_cons, Expecting.slack]
    omega
  · intro cs' hc bound opened
    rw [List.singleton_append, skipOn, hc, h]
    exact if_pos rfl

theorem first_item (h : skipBlank cs = c :: mid) (hc : c ≠ b.closing)
    (hp : Passes .item [b] cs rest) : Passes .first [b] cs rest := by
  obtain ⟨n, hn, hsteps⟩ := hp
  refine ⟨n + 1, ?_, ?_⟩
  · simp only [Expecting.slack] at hn ⊢
    omega
  · intro cs' hcs bound opened
    rw [← Nat.add_assoc, List.singleton_append, skipOn, hcs, h]
    have hblank : skipBlank (c :: mid) = skipBlank cs := by
      rw [← h, skipBlank_skipBlank]
    exact (if_neg hc).trans (hsteps (c :: mid) hblank bound opened)

theorem behind_end (h : skipBlank cs = b.closing :: rest) : Passes .behind [b] cs rest := by
  refine ⟨1, ?_, ?_⟩
  · rw [h, List.length_cons, Expecting.slack]
    omega
  · intro cs' hc bound opened
    have hcomma : b.closing ≠ ',' := by cases b <;> decide
    rw [List.singleton_append, skipOn, hc, h]
    exact (if_neg hcomma).trans (if_pos rfl)

theorem behind_item (h : skipBlank cs = ',' :: mid) (hp : Passes .item [b] mid rest) :
    Passes .behind [b] cs rest := by
  obtain ⟨n, hn, hsteps⟩ := hp
  have hmid := length_skipBlank_le mid
  refine ⟨n + 1, ?_, ?_⟩
  · rw [h, List.length_cons]
    simp only [Expecting.slack] at hn ⊢
    omega
  · intro cs' hc bound opened
    rw [← Nat.add_assoc, List.singleton_append, skipOn, hc, h]
    exact (if_pos rfl).trans (hsteps mid rfl bound opened)

theorem item_list (hv : Passes .value [] cs mid) (hp : Passes .behind [.list] mid rest) :
    Passes .item [.list] cs rest := by
  obtain ⟨m, hm, hvalue⟩ := hv
  obtain ⟨n, hn, hbehind⟩ := hp
  have hmid := length_skipBlank_le mid
  refine ⟨n + m + 1, ?_, ?_⟩
  · simp only [Expecting.slack] at hm hn ⊢
    omega
  · intro cs' hc bound opened
    rw [← Nat.add_assoc, List.singleton_append, skipOn, ← Nat.add_assoc]
    exact (hvalue cs' hc (bound + n) (.list :: opened)).trans (hbehind mid rfl bound opened)

theorem item_object {behindName : List Char} (hname : skipName (skipBlank cs) = .ok behindName)
    (hv : Passes .value [] behindName mid) (hp : Passes .behind [.object] mid rest) :
    Passes .item [.object] cs rest := by
  obtain ⟨m, hm, hvalue⟩ := hv
  obtain ⟨n, hn, hbehind⟩ := hp
  have hmid := length_skipBlank_le mid
  have hblank := length_skipBlank_le behindName
  have hlength := length_skipName_lt hname
  refine ⟨n + m + 1, ?_, ?_⟩
  · simp only [Expecting.slack] at hm hn ⊢
    omega
  · intro cs' hc bound opened
    rw [← Nat.add_assoc, List.singleton_append, skipOn, hc, hname, ← Nat.add_assoc]
    exact (hvalue behindName rfl (bound + n) (.object :: opened)).trans
      (hbehind mid rfl bound opened)

end Passes

/-- A run of the machine that ends got behind the innermost container, or behind the value that it
expected, and went on from there in fewer steps. -/
theorem exists_passes_of_skipOn {rest : List Char} (bound : Nat) :
    ∀ (e : Expecting) (inner opened : List Bracket) (cs : List Char), e.IsWithin inner →
      skipOn bound e (inner ++ opened) cs = .ok rest →
      ∃ mid before, before < bound ∧ Passes e inner cs mid ∧
        skipOn before .behind opened mid = .ok rest := by
  induction bound using Nat.strong_induction_on with
  | _ bound ih =>
  intro e inner opened cs hi h
  cases bound with
  | zero => cases h
  | succ bound =>
    cases e with
    | value =>
      obtain rfl : inner = [] := hi
      rw [List.nil_append, skipOn] at h
      split at h
      · rename_i hb
        obtain ⟨mid, before, hlt, hp, hr⟩ :=
          ih bound (Nat.lt_succ_self _) .first [.list] opened _ ⟨_, rfl⟩ h
        exact ⟨mid, before, by omega, .container (b := .list) hb hp, hr⟩
      · rename_i hb
        obtain ⟨mid, before, hlt, hp, hr⟩ :=
          ih bound (Nat.lt_succ_self _) .first [.object] opened _ ⟨_, rfl⟩ h
        exact ⟨mid, before, by omega, .container (b := .object) hb hp, hr⟩
      · obtain ⟨mid, hs, hr⟩ := bind_eq_ok_iff.mp h
        exact ⟨mid, bound, Nat.lt_succ_self _, .scalar hs, hr⟩
    | first =>
      obtain ⟨b, rfl⟩ : ∃ b, inner = [b] := hi
      rw [List.singleton_append, skipOn] at h
      split at h
      · cases h
      · rename_i c mid hb
        split at h
        · rename_i hc
          subst hc
          exact ⟨mid, bound, Nat.lt_succ_self _, .first_end hb, h⟩
        · rename_i hc
          obtain ⟨mid', before, hlt, hp, hr⟩ :=
            ih bound (Nat.lt_succ_self _) .item [b] opened _ ⟨_, rfl⟩ h
          rw [← hb] at hp
          exact ⟨mid', before, by omega,
            .first_item hb hc (hp.congr (skipBlank_skipBlank cs).symm), hr⟩
    | item =>
      obtain ⟨b, rfl⟩ : ∃ b, inner = [b] := hi
      cases b with
      | list =>
        rw [List.singleton_append, skipOn] at h
        obtain ⟨mid, before, hlt, hv, hr⟩ :=
          ih bound (Nat.lt_succ_self _) .value [] (.list :: opened) _ rfl h
        obtain ⟨mid', before', hlt', hp, hr'⟩ :=
          ih before (by omega) .behind [.list] opened _ ⟨_, rfl⟩ hr
        exact ⟨mid', before', by omega, .item_list hv hp, hr'⟩
      | object =>
        rw [List.singleton_append, skipOn] at h
        obtain ⟨behindName, hn, h⟩ := bind_eq_ok_iff.mp h
        obtain ⟨mid, before, hlt, hv, hr⟩ :=
          ih bound (Nat.lt_succ_self _) .value [] (.object :: opened) _ rfl h
        obtain ⟨mid', before', hlt', hp, hr'⟩ :=
          ih before (by omega) .behind [.object] opened _ ⟨_, rfl⟩ hr
        exact ⟨mid', before', by omega, .item_object hn hv hp, hr'⟩
    | behind =>
      obtain ⟨b, rfl⟩ : ∃ b, inner = [b] := hi
      rw [List.singleton_append, skipOn] at h
      split at h
      · cases h
      · rename_i c mid hb
        split at h
        · rename_i hc
          subst hc
          obtain ⟨mid', before, hlt, hp, hr⟩ :=
            ih bound (Nat.lt_succ_self _) .item [b] opened _ ⟨_, rfl⟩ h
          exact ⟨mid', before, by omega, .behind_item hb hp, hr⟩
        · split at h
          · rename_i hc
            subst hc
            exact ⟨mid, bound, Nat.lt_succ_self _, .behind_end hb, h⟩
          · cases h

theorem skipValue_eq_ok_iff {cs rest : List Char} :
    skipValue cs = .ok rest ↔ Passes .value [] cs rest := by
  constructor
  · intro h
    obtain ⟨mid, before, -, hp, hr⟩ := exists_passes_of_skipOn _ .value [] [] cs rfl h
    cases before with
    | zero => cases hr
    | succ before =>
      rw [skipOn] at hr
      cases hr
      exact hp
  · rintro ⟨n, hn, hsteps⟩
    have hblank := length_skipBlank_le cs
    obtain ⟨bound, hbound⟩ : ∃ bound, 3 * cs.length + 3 = bound + 1 + n :=
      ⟨3 * cs.length + 2 - n, by omega⟩
    rw [skipValue, hbound]
    exact (hsteps cs rfl (bound + 1) []).trans (by rw [skipOn])

/-- Whether all that is read is passed over to the same place. -/
def IsPassed {α : Type} (read : List Char → Reading α) : Prop :=
  ∀ ⦃cs v rest⦄, read cs = .ok (v, rest) → Passes .value [] cs rest

section Containers

variable {α : Type} {item : List Char → Reading α}
  {put : String → α → List (String × α) → List (String × α)} (hi : IsPassed item)

include hi

theorem passes_readItems {bound : Nat} {read items : List α} {cs rest : List Char}
    (h : readItems item bound read cs = .ok (items, rest)) : Passes .item [.list] cs rest := by
  induction bound generalizing read cs with
  | zero => cases h
  | succ bound ih =>
    rw [readItems] at h
    obtain ⟨⟨v, mid⟩, hv, h⟩ := bind_eq_ok_iff.mp h
    refine Passes.item_list (hi hv) ?_
    dsimp only at h
    split at h
    · cases h
    · rename_i hb
      cases h
      exact .behind_end hb
    · rename_i behind hb
      refine Passes.behind_item hb ?_
      split at h
      · cases h
      · cases h
      · exact (ih h).congr (skipBlank_skipBlank behind).symm
    · cases h

theorem passes_readList {items : List α} {cs rest : List Char}
    (h : readList item cs = .ok (items, rest)) : Passes .first [.list] cs rest := by
  unfold readList at h
  split at h
  · cases h
  · rename_i hb
    cases h
    exact .first_end hb
  · rename_i hnil hclosing
    cases hs : skipBlank cs with
    | nil => exact absurd hs hnil
    | cons c mid =>
      have hc : c ≠ Bracket.list.closing := by
        rintro rfl
        exact hclosing mid hs
      exact .first_item hs hc ((passes_readItems hi h).congr (skipBlank_skipBlank cs).symm)

theorem passes_readMembers {bound : Nat} {read members : List (String × α)} {cs rest : List Char}
    (h : readMembers readName item put bound read cs = .ok (members, rest))
    (hb : skipBlank cs = cs) : Passes .item [.object] cs rest := by
  induction bound generalizing read cs with
  | zero => cases h
  | succ bound ih =>
    rw [readMembers] at h
    obtain ⟨⟨k, behindName⟩, hk, h⟩ := bind_eq_ok_iff.mp h
    obtain ⟨⟨v, mid⟩, hv, h⟩ := bind_eq_ok_iff.mp h
    refine Passes.item_object (by rw [hb]; exact skipName_of_readName hk) (hi hv) ?_
    dsimp only at h
    split at h
    · cases h
    · rename_i hend
      cases h
      exact .behind_end hend
    · rename_i behind hcomma
      refine Passes.behind_item hcomma ?_
      split at h
      · cases h
      · cases h
      · have hblank := skipBlank_skipBlank behind
        exact (ih h hblank).congr hblank.symm
    · cases h

theorem passes_readObject {members : List (String × α)} {cs rest : List Char}
    (h : readObject readName item put cs = .ok (members, rest)) :
    Passes .first [.object] cs rest := by
  unfold readObject at h
  split at h
  · cases h
  · rename_i hb
    cases h
    exact .first_end hb
  · rename_i hnil hclosing
    have hblank := skipBlank_skipBlank cs
    cases hs : skipBlank cs with
    | nil => exact absurd hs hnil
    | cons c mid =>
      have hc : c ≠ Bracket.object.closing := by
        rintro rfl
        exact hclosing mid hs
      exact .first_item hs hc ((passes_readMembers hi h hblank).congr hblank.symm)

end Containers

/-- A value that is read is passed over to the same place. -/
theorem isPassed_readValue (depth : Nat) : IsPassed (readValue depth) := by
  induction depth with
  | zero =>
    intro cs v rest h
    unfold readValue at h
    split at h
    · cases h
    · cases h
    · exact .scalar (skipScalar_of_readScalar h)
  | succ depth ih =>
    intro cs v rest h
    unfold readValue at h
    split at h
    · rename_i hb
      obtain ⟨⟨items, r⟩, hl, he⟩ := map_eq_ok_iff.mp h
      cases he
      exact .container (b := .list) hb (passes_readList ih hl)
    · rename_i hb
      obtain ⟨⟨members, r⟩, ho, he⟩ := map_eq_ok_iff.mp h
      cases he
      exact .container (b := .object) hb (passes_readObject ih ho)
    · exact .scalar (skipScalar_of_readScalar h)

end SearchFilter.Json
