import SearchFilter.Proofs.Predicate.Tails
import SearchFilter.Proofs.Statement.Pieces
import SearchFilter.Proofs.Statement.Substitution
import SearchFilter.Proofs.Text.Passed

/-!
# Awaited types and their places

The binder carries a type along from the last word to the placeholder that it is for. Main
statement: for any text the type of a placeholder can be told from its place alone. It is text in
the tail of a walk, else that of the last name since the placeholder before.
-/

namespace SearchFilter

/-- What stands behind the last placeholder of a text. -/
def recent (cs : List Char) : List Char :=
  cs.foldl (fun r c => if c = '?' then [] else r ++ [c]) []

@[simp] theorem recent_append_placeholder (cs : List Char) : recent (cs ++ ['?']) = [] := by
  simp [recent]

theorem recent_append {b : List Char} (h : '?' ∉ b) (a : List Char) :
    recent (a ++ b) = recent a ++ b := by
  induction b generalizing a with
  | nil => simp
  | cons c b ih =>
    rw [List.mem_cons, not_or] at h
    have hc : recent (a ++ [c]) = recent a ++ [c] := by
      simp [recent, Ne.symm h.1]
    have := ih h.2 (a ++ [c])
    rw [hc] at this
    simpa using this

theorem recent_append_tail (a : List Char) (hops : Nat) :
    recent (a ++ Attribute.tail hops) = [] := by
  induction hops generalizing a with
  | zero =>
    have := recent_append_placeholder (a ++ [' ', '-', '>', '>', ' '])
    simpa [Attribute.tail] using this
  | succ hops ih =>
    have := ih (a ++ [' ', '-', '>', ' ', '?'])
    simpa [Attribute.tail] using this

/-- The type that the words before a placeholder give it: that of the last one that is no
connective and not `IN`, where `LIKE` and no word at all stand for text. -/
def Allowlist.typeNamed (columns : Allowlist) (before : List Char) : ColumnType :=
  match ((Text.words (recent before)).filter (· ∉ ["AND", "OR", "IN"])).getLast? with
  | none => .text
  | some word => if word = "LIKE" then .text else columns.columnType word

/-- Whether a placeholder stands in the tail of a walk, right behind a word. -/
def InWalk (before after : List Char) : Prop :=
  ∃ (lead : List Char) (word : String) (hops : Nat) (front back rest : List Char),
    Text.IsWord word ∧ before = lead ++ word.toList ++ front ∧ after = back ++ rest ∧
      front ++ '?' :: back = Attribute.tail hops

/-- The type of a placeholder by its place. -/
structure IsTyped (columns : Allowlist) (before after : List Char) (type : ColumnType) :
    Prop where
  walk : InWalk before after → type = .text
  named : ¬ InWalk before after → type = columns.typeNamed before

theorem Text.exists_word_append {c : Char} (hs : startsWord c = true) (rest : List Char) :
    ∃ w behind, IsWord w ∧ EndsWord behind ∧ c :: rest = w.toList ++ behind := by
  refine ⟨String.ofList (c :: rest.takeWhile continuesWord), rest.dropWhile continuesWord,
    ⟨c, _, String.toList_ofList, hs, List.all_eq_true.mp List.all_takeWhile⟩, ?_, ?_⟩
  · intro d hd
    have := List.head?_dropWhile_not continuesWord rest
    rw [hd] at this
    simpa using this
  · rw [String.toList_ofList, List.cons_append, List.takeWhile_append_dropWhile]

namespace Piece

theorem cut_induction {P : List Char → List Piece → Prop} (nil : P [] [])
    (placeholder : ∀ rest, P rest (cut 0 rest) → P ('?' :: rest) (placeholder :: cut 0 rest))
    (word : ∀ w rest, Text.IsWord w → Text.EndsWord rest → Attribute.readTail rest = none →
      P rest (cut 0 rest) → P (w.toList ++ rest) (word w.toList :: cut 0 rest))
    (walk : ∀ w hops rest, Text.IsWord w → P rest (cut 0 rest) →
      P (w.toList ++ (Attribute.tail hops ++ rest)) (walk w.toList hops :: cut 0 rest))
    (other : ∀ c rest, c ≠ '?' → Text.startsWord c = false → P rest (cut 0 rest) →
      P (c :: rest) (other c :: cut 0 rest))
    (cs : List Char) : P cs (cut 0 cs) := by
  induction h : cs.length using Nat.strongRecOn generalizing cs with
  | ind n ih =>
    subst h
    cases cs with
    | nil => exact nil
    | cons c rest =>
      by_cases hc : c = '?'
      · subst hc
        rw [cut_placeholder]
        exact placeholder rest (ih _ (by simp) rest rfl)
      · by_cases hs : Text.startsWord c = true
        · obtain ⟨w, behind, hw, he, hsplit⟩ := Text.exists_word_append hs rest
          have hlen : behind.length < (c :: rest).length := by
            obtain ⟨d, more, hd, -⟩ := hw
            rw [hsplit, List.length_append, hd, List.length_cons]
            omega
          rw [hsplit]
          rcases ht : Attribute.readTail behind with _ | ⟨hops, r⟩
          · rw [cut_word hw he ht]
            exact word w behind hw he ht (ih _ hlen behind rfl)
          · have hb := Attribute.eq_tail_append_of_readTail ht
            rw [hb, cut_walk hw]
            refine walk w hops r hw (ih _ ?_ r rfl)
            rw [hb, List.length_append] at hlen
            omega
        · rw [cut_other hc (by simpa using hs)]
          exact other c rest hc (by simpa using hs) (ih _ (by simp) rest rfl)

end Piece

/-- Whether a walk has been started, or is about to go on, between two parts of a text. -/
def WalkGoesOn (done rest : List Char) : Prop :=
  ∃ (lead : List Char) (word : String) (hops : Nat) (front back more : List Char),
    Text.IsWord word ∧ done = lead ++ word.toList ++ front ∧ rest = back ++ more ∧
      back ≠ [] ∧ front ++ back = Attribute.tail hops

theorem Attribute.continuesWord_of_mem_tail {hops : Nat} {c : Char} (h : c ∈ tail hops) :
    Text.continuesWord c = false := by
  have hmark : ∀ d ∈ [' ', '-', '>', '?'], Text.continuesWord d = false := by
    simp only [List.forall_mem_cons]
    exact ⟨by decide, by decide, by decide, by decide, by simp⟩
  apply hmark
  induction hops with
  | zero =>
    rw [tail] at h
    grind
  | succ hops ih =>
    rw [tail, List.mem_append] at h
    rcases h with h | h
    · grind
    · exact ih h

theorem Attribute.eq_nil_of_tail_append_eq_tail {hops hops' : Nat} {back : List Char}
    (h : tail hops ++ back = tail hops') : back = [] := by
  exact (tail_append_inj (h.trans (List.append_nil _).symm)).2

theorem Text.IsWord.exists_of_append_eq {lead a : List Char} {w : String} {c : Char}
    (hw : IsWord w) (h : lead ++ w.toList = a ++ [c]) :
    continuesWord c = true ∧
      (startsWord c = false → ∃ v, IsWord v ∧ a = lead ++ v.toList) := by
  obtain ⟨d, more, hs, hd, hm⟩ := hw
  rw [hs] at h
  rcases List.eq_nil_or_concat' more with rfl | ⟨init, e, rfl⟩
  · obtain ⟨-, he⟩ := List.append_inj' h rfl
    cases he
    refine ⟨continuesWord_of_startsWord hd, ?_⟩
    intro hc
    rw [hd] at hc
    cases hc
  · have h' : (lead ++ d :: init) ++ [e] = a ++ [c] := by simpa using h
    obtain ⟨ha, he⟩ := List.append_inj' h' rfl
    cases he
    refine ⟨hm _ (by simp), fun _ => ⟨String.ofList (d :: init), ?_, ?_⟩⟩
    · exact ⟨d, init, String.toList_ofList, hd, fun x hx => hm x (by simp [hx])⟩
    · rw [String.toList_ofList, ha]

namespace WalkGoesOn

theorem nil (rest : List Char) : ¬ WalkGoesOn [] rest := by
  rintro ⟨lead, word, hops, front, back, more, ⟨c, ms, hs, -⟩, hd, -⟩
  have := congrArg List.length hd
  simp [hs] at this

/-- A walk that goes on behind a part went on before it, or was started within the part. -/
theorem of_append {done part rest : List Char} (h : WalkGoesOn (done ++ part) rest) :
    WalkGoesOn done (part ++ rest) ∨
      ∃ (lead : List Char) (word : String) (hops : Nat) (m front back more : List Char),
        Text.IsWord word ∧ lead ++ word.toList = done ++ m ∧ m ≠ [] ∧ part = m ++ front ∧
          rest = back ++ more ∧ back ≠ [] ∧ front ++ back = Attribute.tail hops := by
  obtain ⟨lead, word, hops, front, back, more, hw, hd, hr, hb, ht⟩ := h
  rcases List.append_eq_append_iff.mp hd with ⟨m, hl, hp⟩ | ⟨m, hl, hp⟩
  · by_cases hm : m = []
    · subst hm
      refine .inl ⟨lead, word, hops, [], part ++ back, more, hw, ?_, ?_, ?_, ?_⟩
      · simpa using hl.symm
      · rw [hr, List.append_assoc]
      · simp [hb]
      · rw [hp]
        simpa using ht
    · exact .inr ⟨lead, word, hops, m, front, back, more, hw, hl, hm, hp, hr, hb, ht⟩
  · refine .inl ⟨lead, word, hops, m, part ++ back, more, hw, hl, ?_, ?_, ?_⟩
    · rw [hr, List.append_assoc]
    · simp [hb]
    · rw [← List.append_assoc, ← hp, ht]

theorem of_append_word {done rest : List Char} {w : String} (hw : Text.IsWord w)
    (ht : Attribute.readTail rest = none) (h : WalkGoesOn (done ++ w.toList) rest) :
    WalkGoesOn done (w.toList ++ rest) := by
  rcases h.of_append with h | ⟨-, -, hops, m, front, back, more, -, -, -, hp, hrest, -, htail⟩
  · exact h
  · cases front with
    | nil =>
      rw [List.nil_append] at htail
      rw [hrest, htail, Attribute.readTail_tail_append] at ht
      cases ht
    | cons c front =>
      have hc : c ∈ Attribute.tail hops := by simp [← htail]
      have := Text.not_mem_of_isWord hw (Attribute.continuesWord_of_mem_tail hc)
      rw [hp] at this
      simp at this

theorem of_append_walk {done rest : List Char} {w : String} {hops : Nat} (hw : Text.IsWord w)
    (h : WalkGoesOn (done ++ (w.toList ++ Attribute.tail hops)) rest) :
    WalkGoesOn done (w.toList ++ (Attribute.tail hops ++ rest)) := by
  rcases h.of_append with h |
    ⟨lead, word, hops', m, front, back, more, hv, hl, hm, hp, -, hb, htail⟩
  · rwa [List.append_assoc] at h
  · obtain ⟨init, c, rfl⟩ := (List.eq_nil_or_concat' m).resolve_left hm
    rw [← List.append_assoc] at hl
    obtain ⟨hcont, -⟩ := hv.exists_of_append_eq hl
    have hfront : front ≠ Attribute.tail hops := by
      rintro rfl
      exact hb (Attribute.eq_nil_of_tail_append_eq_tail htail)
    rcases List.append_eq_append_iff.mp hp with ⟨k, hk, ht⟩ | ⟨k, hk, ht⟩
    · rcases List.eq_nil_or_concat' k with rfl | ⟨k, d, rfl⟩
      · exact absurd (by simpa using ht.symm) hfront
      · rw [← List.append_assoc] at hk
        obtain ⟨-, hd⟩ := List.append_inj' hk rfl
        cases hd
        have hc : c ∈ Attribute.tail hops := by simp [ht]
        rw [Attribute.continuesWord_of_mem_tail hc] at hcont
        cases hcont
    · cases k with
      | nil => exact absurd (by simpa using ht) hfront
      | cons d k =>
        have hd : d ∈ Attribute.tail hops' := by simp [← htail, ht]
        have := Text.not_mem_of_isWord hw (Attribute.continuesWord_of_mem_tail hd)
        simp [hk] at this

end WalkGoesOn

/-- A word behind a text gives it its type, or keeps the type that it had. -/
theorem getD_pendingAfter {columns : Allowlist} {done : List Char} {pending : Option ColumnType}
    (hp : pending.getD .text = columns.typeNamed done) {w : String} (hw : Text.IsWord w)
    (hc : (Text.scan (recent done)).current = []) :
    (Binding.pendingAfter columns pending w).getD .text =
      columns.typeNamed (done ++ w.toList) := by
  rw [Allowlist.typeNamed, recent_append (Text.not_mem_of_isWord hw (by decide)) done,
    Text.words_append_word hw hc, List.filter_append, Binding.pendingAfter]
  by_cases hk : w ∈ ["AND", "OR", "IN"]
  · have hk' : w = "AND" ∨ w = "OR" ∨ w = "IN" := by simpa using hk
    have hlike : w ≠ "LIKE" := by
      rintro rfl
      exact absurd hk (by decide)
    have hf : [w].filter (· ∉ ["AND", "OR", "IN"]) = [] := by
      rw [List.filter_cons_of_neg (by rwa [decide_eq_true_eq, not_not]), List.filter_nil]
    rw [if_neg hlike, if_pos hk', hf, List.append_nil]
    exact hp
  · have hk' : ¬ (w = "AND" ∨ w = "OR" ∨ w = "IN") := by simpa using hk
    have hf : [w].filter (· ∉ ["AND", "OR", "IN"]) = [w] := by
      rw [List.filter_cons_of_pos (by simpa using hk'), List.filter_nil]
    rw [hf, List.getLast?_concat, if_neg hk']
    by_cases hlike : w = "LIKE"
    · rw [if_pos hlike]
      simp [hlike]
    · rw [if_neg hlike]
      simp [hlike]

/-- Between what was bound of a text and the rest, neither a word nor a walk goes on, and the type
awaited is that of the words passed. -/
structure Boundary (columns : Allowlist) (done rest : List Char) (pending : Option ColumnType) :
    Prop where
  word : (Text.scan (recent done)).current ≠ [] → Text.EndsWord rest
  walk : ¬ WalkGoesOn done rest
  pending : pending.getD .text = columns.typeNamed done

namespace Boundary

variable {columns : Allowlist} {done rest : List Char} {pending : Option ColumnType}

theorem start (columns : Allowlist) (cs : List Char) : Boundary columns [] cs none where
  word h := absurd rfl h
  walk := WalkGoesOn.nil cs
  pending := rfl

theorem current_eq_nil {w : String} (hw : Text.IsWord w)
    (h : Boundary columns done (w.toList ++ rest) pending) :
    (Text.scan (recent done)).current = [] := by
  obtain ⟨c, more, hs, hc, -⟩ := hw
  by_contra hne
  have := h.word hne c (by simp [hs])
  rw [Text.continuesWord_of_startsWord hc] at this
  cases this

theorem current_ne_nil {lead : List Char} {w : String} (hw : Text.IsWord w) :
    (Text.scan (recent (lead ++ w.toList))).current ≠ [] := by
  rw [recent_append (Text.not_mem_of_isWord hw (by decide)), Text.scan_append_word hw]
  obtain ⟨c, more, hs, -⟩ := hw
  simp [hs]

theorem not_walkGoesOn_single {c : Char} (hc : Text.startsWord c = false)
    (h : Boundary columns done (c :: rest) pending) : ¬ WalkGoesOn (done ++ [c]) rest := by
  intro hg
  rcases hg.of_append with hg | ⟨lead, word, hops, m, front, back, more, hw, hl, hm, hp, -⟩
  · exact h.walk hg
  · obtain ⟨rfl, rfl⟩ : m = [c] ∧ front = [] := by
      cases m with
      | nil => exact absurd rfl hm
      | cons d m =>
        rw [List.cons_append, List.cons.injEq, eq_comm (a := c), eq_comm (a := []),
          List.append_eq_nil_iff] at hp
        obtain ⟨rfl, rfl, rfl⟩ := hp
        exact ⟨rfl, rfl⟩
    obtain ⟨hcont, hex⟩ := hw.exists_of_append_eq hl
    obtain ⟨v, hv, rfl⟩ := hex hc
    have := h.word (current_ne_nil hv) c (by simp)
    rw [hcont] at this
    cases this

theorem placeholder (h : Boundary columns done ('?' :: rest) pending) :
    Boundary columns (done ++ ['?']) rest none where
  word hne := by
    rw [recent_append_placeholder] at hne
    exact absurd rfl hne
  walk := h.not_walkGoesOn_single (by decide)
  pending := by
    rw [Allowlist.typeNamed, recent_append_placeholder]
    rfl

theorem other {c : Char} (hq : c ≠ '?') (hc : Text.startsWord c = false)
    (h : Boundary columns done (c :: rest) pending) :
    Boundary columns (done ++ [c]) rest pending := by
  have hr : recent (done ++ [c]) = recent done ++ [c] := recent_append (by simpa using hq.symm) done
  have hends : (Text.scan (recent done)).current ≠ [] → Text.continuesWord c = false :=
    fun hne => h.word hne c (by simp)
  refine ⟨?_, h.not_walkGoesOn_single hc, ?_⟩
  · intro hne
    rw [hr, Text.scan_append_other hc hends] at hne
    exact absurd rfl hne
  · rw [h.pending, Allowlist.typeNamed, Allowlist.typeNamed, hr, Text.words_append_other hc hends]

/-- A word that no walk starts from gives its type. -/
theorem append_word {w : String} (hw : Text.IsWord w) (he : Text.EndsWord rest)
    (ht : Attribute.readTail rest = none)
    (h : Boundary columns done (w.toList ++ rest) pending) :
    Boundary columns (done ++ w.toList) rest (Binding.pendingAfter columns pending w) where
  word _ := he
  walk hg := h.walk (hg.of_append_word hw ht)
  pending := getD_pendingAfter h.pending hw (h.current_eq_nil hw)

/-- A walk is bound whole. -/
theorem append_walk {w : String} {hops : Nat} (hw : Text.IsWord w)
    (h : Boundary columns done (w.toList ++ (Attribute.tail hops ++ rest)) pending) :
    Boundary columns (done ++ (w.toList ++ Attribute.tail hops)) rest none := by
  have hr : recent (done ++ (w.toList ++ Attribute.tail hops)) = [] := by
    rw [← List.append_assoc, recent_append_tail]
  refine ⟨?_, fun hg => h.walk (hg.of_append_walk hw), ?_⟩
  · intro hne
    rw [hr] at hne
    exact absurd rfl hne
  · rw [Allowlist.typeNamed, hr]
    rfl

end Boundary

theorem exists_of_append_eq_placeholder {part rest before after : List Char}
    (h : part ++ rest = before ++ '?' :: after) :
    (∃ more, before = part ++ more ∧ rest = more ++ '?' :: after) ∨
      ∃ back, part = before ++ '?' :: back ∧ after = back ++ rest := by
  rcases List.append_eq_append_iff.mp h with ⟨more, hb, hr⟩ | ⟨more, hp, hr⟩
  · exact .inl ⟨more, hb, hr⟩
  · cases more with
    | nil => exact .inl ⟨[], by simpa using hp.symm, by simpa using hr.symm⟩
    | cons d back =>
      rw [List.cons_append, List.cons.injEq] at hr
      obtain ⟨rfl, ha⟩ := hr
      exact .inr ⟨back, hp, ha⟩

theorem Boundary.not_inWalk {columns : Allowlist} {done after : List Char}
    {pending : Option ColumnType} (h : Boundary columns done ('?' :: after) pending) :
    ¬ InWalk done after := by
  rintro ⟨lead, word, hops, front, back, rest, hw, hd, ha, ht⟩
  exact h.walk ⟨lead, word, hops, front, '?' :: back, rest, hw, hd, by rw [ha]; rfl, by simp, ht⟩

/-- Whether the types are those of the placeholders of a text that goes on behind `done`. -/
def AreTyped (columns : Allowlist) (done cs : List Char) (types : List ColumnType) : Prop :=
  ∀ before after, cs = before ++ '?' :: after →
    ∃ type, types[placeholders before]? = some type ∧ IsTyped columns (done ++ before) after type

namespace AreTyped

variable {columns : Allowlist} {done rest : List Char} {types : List ColumnType}

theorem nil : AreTyped columns done [] [] := by
  intro before after hcs
  cases before <;> cases hcs

theorem append {part : List Char} (hp : '?' ∉ part)
    (h : AreTyped columns (done ++ part) rest types) :
    AreTyped columns done (part ++ rest) types := by
  intro before after hcs
  rcases exists_of_append_eq_placeholder hcs with ⟨more, rfl, hr⟩ | ⟨back, hs, -⟩
  · obtain ⟨type, hi, ht⟩ := h more after hr
    refine ⟨type, ?_, by rwa [List.append_assoc] at ht⟩
    rwa [placeholders, List.count_append, List.count_eq_zero.mpr hp, Nat.zero_add]
  · simp [hs] at hp

theorem placeholder {pending : Option ColumnType}
    (hb : Boundary columns done ('?' :: rest) pending)
    (h : AreTyped columns (done ++ ['?']) rest types) :
    AreTyped columns done ('?' :: rest) (pending.getD .text :: types) := by
  intro before after hcs
  cases before with
  | nil =>
    cases hcs
    rw [List.append_nil]
    exact ⟨_, rfl, fun hw => absurd hw hb.not_inWalk, fun _ => hb.pending⟩
  | cons d before =>
    cases hcs
    obtain ⟨type, hi, ht⟩ := h before after rfl
    refine ⟨type, ?_, by rwa [List.append_assoc] at ht⟩
    rwa [placeholders, List.count_cons_self]

theorem walk {w : String} {hops : Nat} (hw : Text.IsWord w)
    (h : AreTyped columns (done ++ w.toList ++ Attribute.tail hops) rest types) :
    AreTyped columns done (w.toList ++ (Attribute.tail hops ++ rest))
      (List.replicate (hops + 1) .text ++ types) := by
  refine append (Text.not_mem_of_isWord hw (by decide)) ?_
  intro before after hcs
  rcases exists_of_append_eq_placeholder hcs with ⟨more, rfl, hr⟩ | ⟨back, ht, ha⟩
  · obtain ⟨type, hi, ht⟩ := h more after hr
    refine ⟨type, ?_, by rwa [List.append_assoc _ (Attribute.tail hops)] at ht⟩
    rw [List.getElem?_append_right] <;>
      rw [placeholders, List.count_append, Attribute.count_tail, List.length_replicate]
    · rwa [Nat.add_sub_cancel_left]
    · omega
  · have hlt : placeholders before < hops + 1 := by
      rw [← Attribute.count_tail, ht, List.count_append, List.count_cons_self, placeholders]
      omega
    refine ⟨.text, ?_, fun _ => rfl, fun hn => absurd ?_ hn⟩
    · rw [List.getElem?_append_left (by rwa [List.length_replicate]), List.getElem?_replicate,
        if_pos hlt]
    · exact ⟨done, w, hops, before, back, rest, hw, rfl, ha, ht.symm⟩

end AreTyped

/-- The binder awaits the types that the places of the placeholders tell. -/
theorem areTyped_awaited {columns : Allowlist} {done cs : List Char} {pending : Option ColumnType}
    (h : Boundary columns done cs pending) :
    AreTyped columns done cs (Binding.awaited columns pending (Piece.cut 0 cs)) := by
  induction cs using Piece.cut_induction generalizing done pending with
  | nil => exact .nil
  | placeholder rest ih => exact .placeholder h (ih h.placeholder)
  | word w rest hw he ht ih =>
    have := ih (h.append_word hw he ht)
    rw [Binding.awaited, Binding.after, String.ofList_toList]
    exact this.append (Text.not_mem_of_isWord hw (by decide))
  | walk w hops rest hw ih =>
    have := ih (h.append_walk hw)
    rw [← List.append_assoc] at this
    exact this.walk hw
  | other c rest hq hc ih =>
    have hp : '?' ∉ [c] := by simpa using hq.symm
    exact (ih (h.other hq hc)).append hp

end SearchFilter
