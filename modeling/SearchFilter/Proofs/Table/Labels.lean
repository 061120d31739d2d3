import Mathlib.Data.List.TakeWhile
import SearchFilter.Proofs.Engine.Lookup
import SearchFilter.Proofs.Table.Content

/-!
# Labels in tables

A key is made into a path, and the path of a label is one step to the member of its name. Main
statement: the tables of a store whose metadata is JSON look into it as an engine is assumed to, for
keys that are labels.
-/

namespace SearchFilter.Table

open Sql

namespace StoredJson

/-- Whether a name as it is spelled is the key. A name ends at its first null character. -/
def isNamed (key : String) (name : List Char) : Bool :=
  (codes name).takeWhile (· ≠ 0) = key.toList.map Char.toNat

/-- The text of a name, up to its first null character. -/
def nameText (name : List Char) : String :=
  String.ofList (((codes name).takeWhile (· ≠ 0)).map Char.ofNat)

theorem nameText_of_isNamed {key : String} {name : List Char} (h : isNamed key name = true) :
    nameText name = key := by
  rw [isNamed, decide_eq_true_iff] at h
  rw [nameText, h, List.map_map]
  simp [Function.comp_def]

def namedMembers : StoredJson → List (String × StoredJson)
  | .object members => members.map fun m => (nameText m.1, m.2)
  | _ => []

theorem member?_eq_find? {b : Bool} {key : String}
    (h : ∀ c ∈ key.toList, c.toNat ≠ 0 ∧ c ≠ '\\') (members : List (List Char × StoredJson)) :
    member? b key.toList members =
      (members.find? fun m => isNamed key m.1).map Prod.snd := by
  have hesc : key.toList.contains '\\' = false := by
    rw [List.contains_eq_mem, decide_eq_false_iff_not]
    exact fun hm => (h _ hm).2 rfl
  have hnull : (key.toList.map Char.toNat).takeWhile (· ≠ 0) = key.toList.map Char.toNat := by
    rw [List.takeWhile_eq_self_iff]
    intro n hn
    obtain ⟨c, hc, rfl⟩ := List.mem_map.mp hn
    simpa using (h c hc).1
  have hs (name : List Char) : spells b key.toList name = isNamed key name := by
    rw [spells, hesc, Bool.and_false, if_neg Bool.false_ne_true, hnull, isNamed]
    exact decide_eq_decide.mpr eq_comm
  induction members with
  | nil => rfl
  | cons m rest ih =>
    obtain ⟨name, v⟩ := m
    rw [member?, hs, List.find?_cons]
    cases hn : isNamed key name <;> simp [ih]

end StoredJson

/-- Whether a key is taken for the name of a member: it is not empty, has no null character, quote
or backslash, does not start with a dollar sign, and does not stand between brackets. -/
def IsLabel (key : String) : Prop :=
  key ≠ "" ∧ (∀ c ∈ key.toList, c.toNat ≠ 0 ∧ c ≠ '"' ∧ c ≠ '\\') ∧ key.toList.head? ≠ some '$' ∧
    ¬ (key.toList.head? = some '[' ∧ key.toList.getLast? = some ']' ∧ 3 ≤ key.utf8ByteSize)

instance (key : String) : Decidable (IsLabel key) :=
  letI : Decidable (∀ c ∈ key.toList, c.toNat ≠ 0 ∧ c ≠ '"' ∧ c ≠ '\\') :=
    List.decidableBAll _ _
  inferInstanceAs (Decidable (_ ∧ _ ∧ _ ∧ _))

namespace IsLabel

variable {key : String}

theorem pathOf_eq (h : IsLabel key) : pathOf key =
    if key.toList.all Char.isAlphanum then '.' :: key.toList
    else ['.', '"'] ++ key.toList ++ ['"'] := by
  obtain ⟨-, hc, hdollar, hbracket⟩ := h
  have hnull : key.toList.takeWhile (fun c => c.toNat ≠ 0) = key.toList := by
    rw [List.takeWhile_eq_self_iff]
    intro c hm
    simpa using (hc c hm).1
  rw [pathOf, hnull]
  split
  · rename_i path hp
    rw [hp] at hdollar
    exact absurd rfl hdollar
  · rw [String.ofList_toList, if_neg hbracket]

theorem first?_plain (h : IsLabel key) (ha : key.toList.all Char.isAlphanum = true) :
    PathStep.first? ('.' :: key.toList) = some (.member false key.toList, []) := by
  have hend : ∀ c ∈ key.toList, (!(c = '.' || c = '[')) = true := by
    intro c hm
    have : c.isAlphanum = true := List.all_eq_true.mp ha c hm
    have hcs : c ≠ '.' ∧ c ≠ '[' := by
      constructor <;> rintro rfl <;> exact absurd this (by decide)
    simpa using hcs
  rw [PathStep.first?]
  · simp only [List.takeWhile_eq_self_iff.mpr hend, List.dropWhile_eq_nil_iff.mpr hend]
    split
    · rename_i hk
      exact absurd (String.toList_eq_nil_iff.mp hk) h.1
    · rfl
  · intro rest hr
    exact (h.2.1 '"' (by simp [hr])).2.1 rfl

theorem first?_quoted (h : IsLabel key) :
    PathStep.first? (['.', '"'] ++ key.toList ++ ['"']) = some (.member true key.toList, []) := by
  have hq : ∀ c ∈ key.toList, (decide (c ≠ '"')) = true := by
    intro c hm
    simpa using (h.2.1 c hm).2.1
  have hd : (key.toList ++ ['"']).dropWhile (· ≠ '"') = ['"'] := by
    rw [List.dropWhile_append_of_pos hq]
    rfl
  have ht : (key.toList ++ ['"']).takeWhile (· ≠ '"') = key.toList := by
    rw [List.takeWhile_append_of_pos hq]
    simp
  simp only [List.cons_append, List.nil_append, PathStep.first?, hd, ht]

theorem exists_first? (h : IsLabel key) :
    ∃ b, PathStep.first? (pathOf key) = some (.member b key.toList, []) := by
  rw [h.pathOf_eq]
  split
  · exact ⟨false, h.first?_plain ‹_›⟩
  · exact ⟨true, h.first?_quoted⟩

theorem followKey_eq (h : IsLabel key) (v : StoredJson) :
    ∃ found, followKey key v = .ok found ∧ ∀ w ∈ found, (key, w) ∈ v.namedMembers := by
  obtain ⟨b, hf⟩ := h.exists_first?
  have hmember : ∀ members, StoredJson.member? b key.toList members =
      (members.find? fun m => StoredJson.isNamed key m.1).map Prod.snd :=
    StoredJson.member?_eq_find? fun c hc => ⟨(h.2.1 c hc).1, (h.2.1 c hc).2.2⟩
  obtain ⟨rest, hp⟩ : ∃ rest, pathOf key = '.' :: rest := by
    rw [h.pathOf_eq]
    split <;> exact ⟨_, rfl⟩
  rw [followKey, hp, List.length_cons, followPath, ← hp, hf]
  have hskip : skipsBracket (pathOf key) v = false := by
    rw [hp]
    rfl
  rw [hskip]
  cases v with
  | object members =>
    simp only [PathStep.follow, hmember]
    cases hfind : members.find? fun m => StoredJson.isNamed key m.1 with
    | none => exact ⟨none, rfl, by simp⟩
    | some m =>
      refine ⟨some m.2, by simp [followPath], ?_⟩
      rintro w ⟨rfl⟩
      have hnamed : StoredJson.isNamed key m.1 = true := by simpa using List.find?_some hfind
      refine List.mem_map.mpr ⟨m, List.mem_of_find?_eq_some hfind, ?_⟩
      rw [StoredJson.nameText_of_isNamed hnamed]
  | _ => exact ⟨none, rfl, by simp⟩

end IsLabel

/-- The JSON in a row's metadata, if it is JSON. -/
def Row.metadata? (r : Row) : Option StoredJson :=
  match r.cell "metadata" with
  | .text t => StoredJson.read? t
  | _ => none

def Value.text? : Value → Option String
  | .text s => some s
  | _ => none

/-- How the tables look into metadata. -/
def lookup : Lookup Row StoredJson where
  root r := r.metadata?.getD .null
  members := StoredJson.namedMembers
  follow key v := (followKey key v).mapError fun _ => .rejected
  text v := (Value.ofJson v).toText.text?

theorem followKeys_of_followAll {keys : List String} {v : StoredJson} {found : Option StoredJson}
    (h : lookup.followAll keys v = .ok found) : followKeys keys (some v) = .ok found := by
  induction keys generalizing v with
  | nil =>
    cases h
    rfl
  | cons key keys ih =>
    obtain ⟨next, hn, h⟩ := bind_eq_ok_iff.mp h
    have hk : followKey key v = .ok next := mapError_eq_ok_iff.mp hn
    rw [followKeys, hk]
    cases next with
    | none =>
      rw [pure_eq_ok_iff.mp h]
      cases keys <;> rfl
    | some w => exact ih h

theorem walk_metadata {r : Row} {v : StoredJson} (hr : r.metadata? = some v) {keys : List String}
    {found : Option StoredJson} (h : followKeys keys (some v) = .ok found) :
    (r.cell "metadata").walk keys true = .ok (found.elim .null Value.ofJson) := by
  rw [Row.metadata?] at hr
  split at hr
  · rename_i t ht
    rw [ht, Value.walk]
    simp only [Value.toText, hr, h]
    cases found <;> rfl
  · cases hr

theorem compareBy_equal_text (x : Value) (s : String) :
    compareBy .equal (x.toText, .text) (.text s, .none) = .yes ↔ x.toText = .text s := by
  have htext (t : String) :
      compareBy .equal (.text t, .text) (.text s, .none) = .yes ↔ t = s := by
    simp [compareBy, alike, Value.toText, Value.compare?, signHolds, Sql.Truth.ofBool]
  cases x with
  | null => simp [compareBy, alike, Value.toText, Value.compare?]
  | integer n => simpa [Value.toText] using htext _
  | real x => simpa [Value.toText] using htext _
  | text t => simpa [Value.toText] using htext _

theorem text?_eq_some_iff {x : Value} {s : String} : x.text? = some s ↔ x = .text s := by
  cases x <;> simp [Value.text?]

section Keyed

variable {e : Entity} {r : Row} {keys : List String} {found : Option StoredJson} {s : String}

/-- The comparison of the text below keys is true in the rows that have it there. -/
theorem exists_comparisonTruth_keyed (hr : r.metadata?.isSome)
    (h : lookup.followAll keys (lookup.root r) = .ok found) :
    ∃ t, comparisonTruth e r (keyedComparison keys s) = .ok t ∧
      (t = .yes ↔ ∃ w ∈ found, lookup.text w = some s) := by
  obtain ⟨v, hv⟩ := Option.isSome_iff_exists.mp hr
  have hroot : lookup.root r = v := by simp [lookup, hv]
  rw [hroot] at h
  let x := found.elim .null Value.ofJson
  refine ⟨compareBy .equal (x.toText, .text) (.text s, .none), ?_, ?_⟩
  · rw [keyedComparison, comparisonTruth, operandValue, operandValue,
      walk_metadata hv (followKeys_of_followAll h)]
    rfl
  · rw [compareBy_equal_text]
    cases found with
    | none => simp [x, Value.toText]
    | some w => simp [x, lookup, text?_eq_some_iff]

end Keyed

/-- Where the metadata is JSON, the tables look labels up in it. -/
theorem Store.looksUp {store : Store} {e : Entity} (he : e.allowlist.HoldsJson "metadata")
    (hrows : ∀ r ∈ (store.rows e).toList, r.metadata?.isSome) {keys : List String} {s : String}
    (hlen : keys.length + 3 ≤ heightMax) (h : ∀ key ∈ keys, ¬ IsJsonPath key → IsLabel key) :
    store.engine.LooksUp e (store.content e) lookup keys s where
  answers := by
    intro q hq hfound
    have hknown : namesKnown e (.compare (keyedComparison keys s)) = true := by
      cases e <;> first | rfl | exact absurd he (by decide)
    have hheight : ¬ heightMax < conditionHeight (.compare (keyedComparison keys s)) := by
      simp [conditionHeight, comparisonHeight, keyedComparison, operandHeight]
      omega
    have hvalues : ¬ valuesMax <
        (conditionValues (.compare (keyedComparison keys s))).length := by
      simp [conditionValues, Sql.Condition.comparisons, keyedComparison, operandValues, valuesMax]
      rw [heightMax] at hlen
      omega
    obtain ⟨ids, hids⟩ := exists_selectFrom (e := e) fun r hr => by
      obtain ⟨found, hf⟩ := hfound r hr
      obtain ⟨t, ht, -⟩ := exists_comparisonTruth_keyed (e := e) (s := s) (hrows r hr) hf
      exact ⟨_, by rw [conditionHolds, ht]; rfl⟩
    refine ⟨ids, mapError_eq_ok_iff.mpr ?_⟩
    simp only [search, hq, entityOf?_table, if_neg hheight, if_neg hvalues, hknown, if_true]
    exact hids
  decides := by
    intro r hr found hf
    obtain ⟨t, ht, hy⟩ := exists_comparisonTruth_keyed (e := e) (s := s) (hrows r hr) hf
    change truthIn e r (keyedComparison keys s) = .yes ↔ _
    rw [truthIn_eq ht, hy]
  labels := by
    intro key hk hp v
    obtain ⟨found, hf, hm⟩ := (h key hk hp).followKey_eq v
    exact ⟨found, mapError_eq_ok_iff.mpr hf, hm⟩

end SearchFilter.Table
