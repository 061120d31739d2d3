import SearchFilter.Proofs.Filter.Places
import SearchFilter.Proofs.Settings.Sections
import SearchFilter.Settings.Load

/-!
# Unknown keys

The keys of an object are told from its text alone, whatever its values are read to. Two keys of a
file name its sections, and the settings of a section are named by the keys in it. Main statement:
the unknown keys that loading tells of are those beside the sections, file by file and each once,
while a section is read as though the unknown keys in it were not there.
-/

namespace SearchFilter.Settings

open Json (Fault Passes Reading expectEnd readMembers readName readObject skipBlank skipValue)

/-- Passes over a value and keeps the text from its start. -/
def textOfValue (cs : List Char) : Reading (List Char) := (skipValue cs).map (cs, ·)

def addMember (name : String) (value : List Char) (read : List (String × List Char)) :
    List (String × List Char) :=
  read ++ [(name, value)]

/-- The members of an object from behind its opening bracket on, in their order: their names, and
the texts from where their values start. -/
def membersBehind (cs : List Char) : Reading (List (String × List Char)) :=
  readObject readName textOfValue addMember cs

/-- The members of the object that a text is. -/
def membersOf (text : List Char) : Except Fault (List (String × List Char)) :=
  match skipBlank text with
  | '\x7b' :: cs => do
    let (members, rest) ← membersBehind cs
    expectEnd rest
    return members
  | cs => Json.faultAt .expectedValue cs

/-- The keys that a file may have. -/
def sectionNames : List String := ["database", "filters"]

/-- The keys that a section may have. -/
def Shape.names {σ : Type} (shape : Shape σ) : List String := shape.fields.map (·.name)

/-- The unknown keys beside the sections of a file. -/
def strayBeside (members : List (String × List Char)) : List String :=
  (members.map Prod.fst).filter (· ∉ sectionNames)

/-- The unknown keys in a section that has the form of an object. -/
def Shape.strayKeys {σ : Type} (shape : Shape σ) (value : List Char) : List String :=
  match skipBlank value with
  | '\x7b' :: cs =>
    match membersBehind cs with
    | .ok (settings, _) => (settings.map Prod.fst).filter (· ∉ shape.names)
    | .error _ => []
  | _ => []

/-- The unknown keys inside the sections of a file. -/
def strayInside (members : List (String × List Char)) : List String :=
  members.flatMap fun (name, value) =>
    if name = "database" then databaseShape.strayKeys value
    else if name = "filters" then filterShape.strayKeys value
    else []

/-! ### The members of a text -/

theorem textOfValue_eq_ok {cs rest : List Char} (h : Passes .value [] cs rest) :
    textOfValue cs = .ok (cs, rest) :=
  map_eq_ok_iff.mpr ⟨rest, Json.skipValue_eq_ok_iff.mpr h, rfl⟩

theorem readMembers_of_hasMembers {bound : Nat} {cs value behind rest : List Char} {name : String}
    {read members : List (String × List Char)} (hn : readName cs = .ok (name, value))
    (hv : Passes .value [] value behind) (hm : HasMembers false behind members rest)
    (hb : cs.length ≤ bound) : readMembers readName textOfValue addMember bound read cs =
      .ok (read ++ (name, value) :: members, rest) := by
  have hlt := Json.length_readName_le hn
  induction bound generalizing cs value behind name read members with
  | zero => omega
  | succ bound ih =>
    rw [readMembers]
    refine bind_eq_ok_iff.mpr ⟨_, hn, bind_eq_ok_iff.mpr ⟨_, textOfValue_eq_ok hv, ?_⟩⟩
    cases hm with
    | last hend =>
      dsimp only
      rw [hend]
      rfl
    | @member _ _ key value' _ _ name' members hk hn' hv' hm' =>
      obtain ⟨after, hcomma, hquote⟩ := hk
      have hbehind := hv.length_le
      have hafter := Json.length_lt_of_skipBlank_eq hcomma
      have hkey := Json.length_lt_of_skipBlank_eq hquote
      have hnext : readMembers readName textOfValue addMember bound
          (addMember name value read) ('"' :: key) =
            .ok (addMember name value read ++ (name', value') :: members, rest) :=
        ih hn' hv' hm' (by rw [List.length_cons]; omega) (Json.length_readName_le hn')
      rw [addMember, List.append_assoc] at hnext
      simp only [hcomma, hquote]
      exact hnext

theorem membersBehind_of_hasMembers {cs rest : List Char} {members : List (String × List Char)}
    (h : HasMembers true cs members rest) : membersBehind cs = .ok (members, rest) := by
  cases h with
  | last hend =>
    rw [membersBehind, readObject, hend]
    rfl
  | @member _ _ key _ _ _ _ _ hk hn hv hm =>
    have hquote : skipBlank cs = '"' :: key := hk
    rw [membersBehind, readObject, hquote]
    exact readMembers_of_hasMembers hn hv hm (Nat.le_refl _)

/-! ### Keys inside a section -/

section Shapes

variable {σ : Type} {shape : Shape σ}

theorem put_of_not_mem_names {member : String × List Char} (h : member.1 ∉ shape.names) (s : σ) :
    shape.put s member = s := by
  have hf : shape.fields.find? (·.name = member.1) = none := by
    rw [List.find?_eq_none]
    intro field hfield hname
    exact h (List.mem_map.mpr ⟨field, hfield, of_decide_eq_true hname⟩)
  simp only [Shape.put, hf]

theorem foldl_put_filter (members : List (String × List Char)) (s : σ) :
    members.foldl shape.put s =
      (members.filter (·.1 ∈ shape.names)).foldl shape.put s := by
  induction members generalizing s with
  | nil => rfl
  | cons member members ih =>
    by_cases hm : member.1 ∈ shape.names
    · rw [List.filter_cons_of_pos (by simpa using hm), List.foldl_cons, List.foldl_cons, ih]
    · rw [List.filter_cons_of_neg (by simpa using hm), List.foldl_cons,
        put_of_not_mem_names hm, ih]

end Shapes

/-! ### Keys of a file -/

/-- How a section, `old` before some members are read, has become `new` behind them: a member of the
section's name is read to it, or it is still the same. -/
def Shape.ComesFrom {σ : Type} (shape : Shape σ) (name : String)
    (members : List (String × List Char)) (old new : Option σ) : Prop :=
  new = old ∨
    ∃ value rest, (name, value) ∈ members ∧ readOptional shape.read value = .ok (new, rest)

section Shapes

variable {σ : Type} {shape : Shape σ} {name : String} {members : List (String × List Char)}
  {old mid new : Option σ}

theorem Shape.ComesFrom.cons (h : shape.ComesFrom name members old new)
    (member : String × List Char) : shape.ComesFrom name (member :: members) old new := by
  rcases h with h | ⟨value, rest, hm, hr⟩
  · exact .inl h
  · exact .inr ⟨value, rest, List.mem_cons_of_mem _ hm, hr⟩

theorem Shape.ComesFrom.read {value rest : List Char}
    (hr : readOptional shape.read value = .ok (mid, rest))
    (h : shape.ComesFrom name members mid new) :
    shape.ComesFrom name ((name, value) :: members) old new := by
  rcases h with rfl | ⟨value', rest', hm, hr'⟩
  · exact .inr ⟨value, rest, List.mem_cons_self, hr⟩
  · exact .inr ⟨value', rest', List.mem_cons_of_mem _ hm, hr'⟩

/-- A section that has the form of an object is what the known keys in it make of it, as though it
had no others. -/
def Shape.IsMadeByKnown (shape : Shape σ) (name : String) (members : List (String × List Char))
    (s : σ) : Prop :=
  ∃ value, (name, value) ∈ members ∧ ∀ cs, skipBlank value = '\x7b' :: cs →
    ∃ settings rest, membersBehind cs = .ok (settings, rest) ∧
      s = (settings.filter (·.1 ∈ shape.names)).foldl shape.put shape.empty

theorem Shape.ComesFrom.isMadeByKnown (hs : shape.IsPassed) {s : σ}
    (h : shape.ComesFrom name members none (some s)) : shape.IsMadeByKnown name members s := by
  rcases h with h | ⟨value, rest, hm, hr⟩
  · cases h
  · refine ⟨value, hm, fun cs hb => ?_⟩
    rw [readOptional, hb] at hr
    obtain ⟨⟨s', r⟩, hr, he⟩ := map_eq_ok_iff.mp hr
    cases he
    obtain ⟨settings, hin, hfold⟩ := exists_members_of_readByName hs hr
    exact ⟨settings, _, membersBehind_of_hasMembers hin,
      hfold.trans (foldl_put_filter settings _)⟩

end Shapes

/-- Every key of a file is noted, if it is not the name of a section. -/
theorem exists_members_of_readSections {bound : Nat} {isFirst : Bool} {seen : List String}
    {d d' : Decoded} {cs rest : List Char}
    (h : readSections bound isFirst seen d cs = .ok (d', rest)) :
    ∃ members, HasMembers isFirst cs members rest ∧
      d'.unknownKeys = addAllNew d.unknownKeys (strayBeside members) ∧
      databaseShape.ComesFrom "database" members d.settings.database d'.settings.database ∧
      filterShape.ComesFrom "filters" members d.settings.filters d'.settings.filters := by
  induction bound generalizing isFirst seen d cs with
  | zero => cases h
  | succ bound ih =>
    rw [readSections] at h
    obtain ⟨⟨key?, r⟩, hk, h⟩ := bind_eq_ok_iff.mp h
    cases key? with
    | none =>
      cases h
      exact ⟨[], .last (skipBlank_of_nextKey_eq_none hk), rfl, .inl rfl, .inl rfl⟩
    | some key =>
      have hk := keyAt_of_nextKey hk
      obtain ⟨⟨name, r⟩, hn, h⟩ := bind_eq_ok_iff.mp h
      dsimp only at h
      split at h
      · rename_i hname
        subst hname
        split at h
        · cases h
        · obtain ⟨value, hc, h⟩ := bind_eq_ok_iff.mp h
          obtain ⟨⟨s, behind⟩, hr, h⟩ := bind_eq_ok_iff.mp h
          obtain ⟨members, hm, hkeys, hd, hf⟩ := ih h
          have hv := isPassed_readOptional (isPassed_read isPassed_databaseShape) hr
          exact ⟨_, .member hk (readName_of_readColon hn hc) hv hm, hkeys, hd.read hr, hf.cons _⟩
      · rename_i hdatabase
        split at h
        · rename_i hname
          subst hname
          split at h
          · cases h
          · obtain ⟨value, hc, h⟩ := bind_eq_ok_iff.mp h
            obtain ⟨⟨s, behind⟩, hr, h⟩ := bind_eq_ok_iff.mp h
            obtain ⟨members, hm, hkeys, hd, hf⟩ := ih h
            have hv := isPassed_readOptional (isPassed_read isPassed_filterShape) hr
            exact ⟨_, .member hk (readName_of_readColon hn hc) hv hm, hkeys, hd.cons _, hf.read hr⟩
        · rename_i hfilters
          obtain ⟨value, hc, h⟩ := bind_eq_ok_iff.mp h
          obtain ⟨⟨v, behind⟩, hr, h⟩ := bind_eq_ok_iff.mp h
          obtain ⟨members, hm, hkeys, hd, hf⟩ := ih h
          have hv := Json.isPassed_readValue _ hr
          have hname : name ∉ sectionNames := by simp [sectionNames, hdatabase, hfilters]
          refine ⟨(name, value) :: members, .member hk (readName_of_readColon hn hc) hv hm, ?_,
            hd.cons _, hf.cons _⟩
          rw [hkeys, strayBeside, strayBeside, List.map_cons,
            List.filter_cons_of_pos (by simpa using hname)]
          rfl

theorem exists_members_of_decode {text : String} {d : Decoded} (h : decode text = .ok d) :
    ∃ members, membersOf text.toList = .ok members ∧
      d.unknownKeys = (strayBeside members).eraseDups ∧
      databaseShape.ComesFrom "database" members none d.settings.database ∧
      filterShape.ComesFrom "filters" members none d.settings.filters := by
  have hfile : readFile text.toList = .ok d := mapError_eq_ok_iff.mp h
  unfold readFile at hfile
  split at hfile
  · cases hfile
  · rename_i cs hb
    obtain ⟨⟨d', rest⟩, hr, hfile⟩ := bind_eq_ok_iff.mp hfile
    obtain ⟨_, he, hfile⟩ := bind_eq_ok_iff.mp hfile
    obtain rfl := pure_eq_ok_iff.mp hfile
    obtain ⟨members, hm, hkeys, hd, hf⟩ := exists_members_of_readSections hr
    refine ⟨members, ?_, hkeys.trans (addAllNew_nil _), hd, hf⟩
    rw [membersOf, hb]
    exact bind_eq_ok_iff.mpr ⟨_, membersBehind_of_hasMembers hm,
      bind_eq_ok_iff.mpr ⟨_, he, rfl⟩⟩
  · exact absurd hfile refuseValue_ne_ok

/-! ### Keys of the files that are loaded -/

/-- The keys that are told of what was found in the place of a file: those beside its sections, each
once. -/
def Layer.strayKeys (l : Layer) : List String :=
  match l.found with
  | some (.text content) =>
    match membersOf content.toList with
    | .ok members => (strayBeside members).eraseDups
    | .error _ => []
  | _ => []

theorem Layer.strayKeys_of_text {l : Layer} {text : String}
    {members : List (String × List Char)} (hf : l.found = some (.text text))
    (hm : membersOf text.toList = .ok members) : l.strayKeys = (strayBeside members).eraseDups := by
  rw [Layer.strayKeys, hf]
  dsimp only
  rw [hm]

theorem unknownKeysOf_eq {l : Layer} {d : Option Decoded} (h : l.read = .ok d) :
    unknownKeysOf d = [l.strayKeys].filter (· ≠ []) := by
  unfold Layer.read at h
  split at h
  · rename_i hf
    rw [Layer.strayKeys, hf]
    split at h <;> cases h
    rfl
  · cases h
  · cases h
  · rename_i content hf
    split at h <;> cases h
    rename_i d hd
    obtain ⟨members, hm, hkeys, -⟩ := exists_members_of_decode hd
    rw [Layer.strayKeys_of_text hf hm, ← hkeys, unknownKeysOf]
    by_cases hd : d.unknownKeys = []
    · simp [hd]
    · simp [hd]

/-- Of the files that are loaded the unknown keys are told one file after the other, up to the first
that does not load: those beside its sections, each once. So all the unknown keys of a file are told
exactly if those inside its sections are beside them as well. A section has the settings that the
known keys in it make, as though there were no others. -/
theorem unknownKeys_beside_sections (command : CommandSettings) (profile overlay : Layer) :
    (assemble command profile overlay).unknownKeys =
      (([profile, overlay].takeWhile (·.read.isOk)).map Layer.strayKeys).filter (· ≠ []) ∧
    ∀ l ∈ [profile, overlay], ∀ text d, l.found = some (.text text) → decode text = .ok d →
      ∃ members, membersOf text.toList = .ok members ∧
        l.strayKeys = (strayBeside members).eraseDups ∧
        ((∀ key, key ∈ l.strayKeys ↔ key ∈ strayBeside members ∨ key ∈ strayInside members) ↔
          strayInside members ⊆ strayBeside members) ∧
        (∀ s, d.settings.database = some s → databaseShape.IsMadeByKnown "database" members s) ∧
        ∀ s, d.settings.filters = some s → filterShape.IsMadeByKnown "filters" members s := by
  constructor
  · unfold assemble
    cases hp : profile.read with
    | error e =>
      have hprofile : profile.read.isOk = false := by rw [hp]; rfl
      simp [hprofile]
    | ok lower =>
      have hprofile : profile.read.isOk = true := by rw [hp]; rfl
      cases ho : overlay.read with
      | error e =>
        have hoverlay : overlay.read.isOk = false := by rw [ho]; rfl
        simp [hprofile, hoverlay, unknownKeysOf_eq hp]
      | ok upper =>
        have hoverlay : overlay.read.isOk = true := by rw [ho]; rfl
        dsimp only
        rw [unknownKeysOf_eq hp, unknownKeysOf_eq ho, ← List.filter_append]
        simp [hprofile, hoverlay]
  · intro l _ text d hf h
    obtain ⟨members, hm, -, hdatabase, hfilters⟩ := exists_members_of_decode h
    have hl := Layer.strayKeys_of_text hf hm
    refine ⟨members, hm, hl, ?_, fun s hs => ?_, fun s hs => ?_⟩
    · simp only [hl, List.mem_eraseDups, List.subset_def]
      exact forall_congr' fun key => iff_comm.trans or_iff_left_iff_imp
    · rw [hs] at hdatabase
      exact hdatabase.isMadeByKnown isPassed_databaseShape
    · rw [hs] at hfilters
      exact hfilters.isMadeByKnown isPassed_filterShape

/-- Of the keys beside the sections of a file two are unknown, and one of them is there twice. A key
that is unknown inside a section is not told of. -/
theorem unknownKeys_beside_sections_twice :
    let text := "\x7b\"port\":1,\"database\":\x7b\"max_conections\":5,\"min_connections\":3\x7d," ++
      "\"filter\":\x7b\x7d,\"port\":[2],\"filters\":null\x7d"
    let d : Decoded := ⟨⟨some ⟨none, none, none, some 3, none, none⟩, none⟩, ["port", "filter"]⟩
    let profile : Layer := ⟨"a", none, false⟩
    let overlay : Layer := ⟨"b", some (.text text), true⟩
    decode text = .ok d ∧
      (assemble ⟨none, none, none, none⟩ profile overlay).unknownKeys = [["port", "filter"]] ∧
      ∃ members, membersOf text.toList = .ok members ∧
        overlay.strayKeys = (strayBeside members).eraseDups ∧
        ¬ ∀ key, key ∈ overlay.strayKeys ↔
          key ∈ strayBeside members ∨ key ∈ strayInside members := by
  intro text d profile overlay
  have hd : decode text = .ok d := by decide +kernel
  have h := unknownKeys_beside_sections ⟨none, none, none, none⟩ profile overlay
  obtain ⟨members, hm, hl, hiff, -⟩ := h.2 overlay (by simp) text d rfl hd
  have hstray : (membersOf text.toList).map strayInside = .ok ["max_conections"] ∧
      (membersOf text.toList).map strayBeside = .ok ["port", "filter", "port"] := by
    decide +kernel
  rw [hm] at hstray
  obtain ⟨hinside, hbeside⟩ := hstray
  refine ⟨hd, by decide +kernel, members, hm, hl, ?_⟩
  rw [hiff, Except.ok.inj hinside, Except.ok.inj hbeside]
  decide

/-- A key inside a section that is none of its settings is told of nowhere: no file has any unknown
keys, and the setting that was meant has its default. -/
theorem unknownKeys_miss_section :
    let inside := "\x7b\"max_conections\":5\x7d"
    let text := "\x7b\"database\":" ++ inside ++ "\x7d"
    let profile : Layer := ⟨"a", none, false⟩
    let overlay : Layer := ⟨"b", some (.text text), false⟩
    let loaded := assemble ⟨none, none, none, none⟩ profile overlay
    (membersOf text.toList).map strayInside = .ok ["max_conections"] ∧
      databaseShape.strayKeys inside.toList = ["max_conections"] ∧
      loaded.outcome = .ok
        ⟨⟨.sqlite, "sqlite://tdjobs.db", defaultMaxConnections, 2, 30, 60⟩, Filter.defaultLimit⟩ ∧
      loaded.unknownKeys = [] := by
  decide +kernel

end SearchFilter.Settings
