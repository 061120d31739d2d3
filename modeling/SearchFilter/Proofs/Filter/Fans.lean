import Mathlib.Data.String.Basic
import SearchFilter.Proofs.Filter.Room
import SearchFilter.Proofs.Predicate.Collecting

/-!
# Fans

A fan is an object that has one value under each of its names. Fans put into each other are read
and accepted as they are written. Main statement: there are as many comparisons as the widths of the
fans multiply to, each of them below as many keys as there are fans.
-/

namespace SearchFilter

namespace Json

/-- A character that stands for itself in a string. -/
def IsPlainChar (c : Char) : Prop := c ≠ '"' ∧ c ≠ '\\' ∧ 0x20 ≤ c.toNat

instance (c : Char) : Decidable (IsPlainChar c) :=
  inferInstanceAs (Decidable (_ ∧ _ ∧ _))

/-- The names of a fan. -/
structure Fan where
  names : List String
  nonempty : names ≠ []
  nodup : names.Nodup
  plain : ∀ name ∈ names, ∀ c ∈ name.toList, IsPlainChar c
  isPathKey : ∀ name ∈ names, Filter.IsPathKey name

namespace Fan

/-- The members of a fan of one value. -/
def members (names : List String) (v : Json) : List (String × Json) := names.map (·, v)

def json (fan : Fan) (v : Json) : Json := .object (members fan.names v)

/-- The members as they are written. -/
def membersText (names : List String) (value : List Char) : List Char :=
  [','].intercalate (names.map fun name => '"' :: (name.toList ++ '"' :: ':' :: value))

def text (fan : Fan) (value : List Char) : List Char :=
  '\x7b' :: membersText fan.names value ++ ['\x7d']

/-- Fans put into each other, the last one around the value. -/
def nest (fans : List Fan) (v : Json) : Json := fans.foldr json v

def nestText (fans : List Fan) (value : List Char) : List Char := fans.foldr text value

theorem nestText_nil (value : List Char) : nestText [] value = value := by
  rw [nestText, List.foldr_nil]

theorem nestText_cons (fan : Fan) (fans : List Fan) (value : List Char) :
    nestText (fan :: fans) value = fan.text (nestText fans value) := by
  rw [nestText, List.foldr_cons, ← nestText]

/-- The number of values in fans put into each other. -/
def width (fans : List Fan) : Nat := (fans.map fun fan => fan.names.length).prod

/-- Names of one byte. -/
def alphabet : List String :=
  ["a", "b", "c", "d", "e", "f", "g", "h", "i", "j", "k", "l", "m", "n", "o", "p", "q", "r", "s",
    "t", "u", "v", "w", "x", "y", "z"]

/-- The fan of the first letters. -/
def letters (n : Nat) (h : 0 < n) : Fan where
  names := alphabet.take n
  nonempty := by simpa [alphabet] using Nat.ne_of_gt h
  nodup := (by decide : alphabet.Nodup).sublist (List.take_sublist n alphabet)
  plain := by
    have hplain : ∀ name ∈ alphabet, name.toList.all (IsPlainChar ·) := by decide
    intro name hn c hc
    have hall := List.all_eq_true.mp (hplain name (List.mem_of_mem_take hn))
    exact of_decide_eq_true (hall c hc)
  isPathKey := by
    have hkeys : ∀ name ∈ alphabet, Filter.IsPathKey name := by decide
    exact fun name hn => hkeys name (List.mem_of_mem_take hn)

/-- The fan around the keys of the metadata. -/
def metadata : Fan where
  names := ["metadata"]
  nonempty := by decide
  nodup := by decide
  plain := by
    have hplain : "metadata".toList.all (IsPlainChar ·) := by decide
    intro name hn c hc
    rw [List.mem_singleton.mp hn] at hc
    exact of_decide_eq_true (List.all_eq_true.mp hplain c hc)
  isPathKey := by decide

end Fan

/-- The document that compares the metadata below the fans with one. -/
def Fan.document (fans : List Fan) : String := String.ofList (nestText (metadata :: fans) ['1'])

theorem readStringFrom_plain {name : List Char} (h : ∀ c ∈ name, IsPlainChar c)
    (read rest : List Char) :
    readStringFrom read (name ++ '"' :: rest) =
      .ok (String.ofList (read.reverse ++ name), rest) := by
  induction name generalizing read with
  | nil => simp [readStringFrom]
  | cons c name ih =>
    rw [List.forall_mem_cons] at h
    obtain ⟨hquote, hescape, hc⟩ := h.1
    rw [List.cons_append, readStringFrom, if_neg (Nat.not_lt.mpr hc), ih h.2]
    · simp
    · exact hquote
    · exact fun _ _ _ _ _ he => absurd he hescape
    · exact fun _ he => absurd he hescape
    · exact fun he => absurd he hescape
    · exact fun _ _ he => absurd he hescape

theorem readName_plain {name : String} (h : ∀ c ∈ name.toList, IsPlainChar c) (rest : List Char) :
    readName ('"' :: (name.toList ++ '"' :: ':' :: rest)) = .ok (name, rest) := by
  have hs : readString (name.toList ++ '"' :: ':' :: rest) = .ok (name, ':' :: rest) := by
    rw [readString, readStringFrom_plain h, List.reverse_nil, List.nil_append, String.ofList_toList]
  rw [readName, hs]
  rfl

theorem setMember_of_notMem {name : String} {members : List (String × Json)}
    (h : name ∉ names members) (v : Json) : setMember name v members = members ++ [(name, v)] := by
  induction members with
  | nil => rfl
  | cons m rest ih =>
    obtain ⟨k, w⟩ := m
    rw [names, List.map_cons, List.mem_cons, not_or] at h
    rw [setMember, if_neg (Ne.symm h.1), ih h.2, List.cons_append]

/-- Whether the text is read as the value in an object. -/
def IsReadAs (depth : Nat) (text : List Char) (v : Json) : Prop :=
  ∀ c rest, c = ',' ∨ c = '\x7d' → readValue depth (text ++ c :: rest) = .ok (v, c :: rest)

namespace Fan

theorem membersText_singleton (name : String) (value : List Char) :
    membersText [name] value = '"' :: (name.toList ++ '"' :: ':' :: value) := by
  simp [membersText]

theorem membersText_cons_cons (name next : String) (ns : List String) (value : List Char) :
    membersText (name :: next :: ns) value =
      '"' :: (name.toList ++
        '"' :: ':' :: (value ++ ',' :: membersText (next :: ns) value)) := by
  simp [membersText, List.intercalate_cons_cons]

theorem exists_membersText (name : String) (ns : List String) (value : List Char) :
    ∃ cs, membersText (name :: ns) value = '"' :: cs := by
  cases ns with
  | nil => exact ⟨_, membersText_singleton name value⟩
  | cons next ns => exact ⟨_, membersText_cons_cons name next ns value⟩

theorem utf8Len_membersText {ns : List String} (hne : ns ≠ [])
    (h : ∀ name ∈ ns, name.utf8ByteSize = 1) (value : List Char) :
    String.utf8Len (membersText ns value) + 1 = ns.length * (String.utf8Len value + 5) := by
  have hsize (name : String) : String.utf8Len name.toList = name.utf8ByteSize := by
    rw [← String.utf8ByteSize_ofList, String.ofList_toList]
  have hmarks : Char.utf8Size '"' = 1 ∧ Char.utf8Size ':' = 1 ∧ Char.utf8Size ',' = 1 := by decide
  obtain ⟨hquote, hcolon, hcomma⟩ := hmarks
  induction ns with
  | nil => exact absurd rfl hne
  | cons name ns ih =>
    obtain ⟨hname, h⟩ := List.forall_mem_cons.mp h
    cases ns with
    | nil =>
      simp only [membersText_singleton, String.utf8Len_cons, String.utf8Len_append, hsize, hname,
        hquote, hcolon, List.length_singleton]
      omega
    | cons next ns =>
      have hrest := ih (List.cons_ne_nil next ns) h
      rw [List.length_cons, Nat.succ_mul, ← hrest]
      simp only [membersText_cons_cons, String.utf8Len_cons, String.utf8Len_append, hsize, hname,
        hquote, hcolon, hcomma]
      omega

theorem utf8Len_text (fan : Fan) (h : ∀ name ∈ fan.names, name.utf8ByteSize = 1)
    (value : List Char) :
    String.utf8Len (fan.text value) = fan.names.length * (String.utf8Len value + 5) + 1 := by
  have hmembers := utf8Len_membersText fan.nonempty h value
  have hbraces : Char.utf8Size '\x7b' = 1 ∧ Char.utf8Size '\x7d' = 1 := by decide
  rw [text, String.utf8Len_append, String.utf8Len_cons, String.utf8Len_cons, String.utf8Len_nil,
    hbraces.1, hbraces.2]
  omega

theorem utf8Len_letters (n : Nat) (h : 0 < n) (value : List Char) :
    String.utf8Len ((letters n h).text value) = min n 26 * (String.utf8Len value + 5) + 1 := by
  have hbytes : ∀ name ∈ alphabet, name.utf8ByteSize = 1 := by decide
  rw [utf8Len_text _ fun name hn => hbytes name (List.mem_of_mem_take hn), letters,
    List.length_take]
  rfl

theorem utf8Len_metadata (value : List Char) :
    String.utf8Len (metadata.text value) = String.utf8Len value + 13 := by
  have hname : String.utf8Len "metadata".toList = 8 := by decide
  have hsigns : Char.utf8Size '"' = 1 ∧ Char.utf8Size ':' = 1 ∧ Char.utf8Size '\x7b' = 1 ∧
      Char.utf8Size '\x7d' = 1 := by decide
  obtain ⟨hquote, hcolon, hopen, hclose⟩ := hsigns
  rw [text, metadata, membersText_singleton]
  simp only [String.utf8Len_append, String.utf8Len_cons, String.utf8Len_nil, hname, hquote, hcolon,
    hopen, hclose]
  omega

theorem utf8ByteSize_document (fans : List Fan) :
    (document fans).utf8ByteSize = String.utf8Len (nestText fans ['1']) + 13 := by
  rw [document, String.utf8ByteSize_ofList, nestText_cons, utf8Len_metadata]

end Fan

variable {depth : Nat} {value : List Char} {v : Json}

theorem readMembers_fan (hv : IsReadAs depth value v) {ns : List String} {bound : Nat}
    {read : List (String × Json)} (hne : ns ≠ []) (hd : (names read ++ ns).Nodup)
    (hp : ∀ name ∈ ns, ∀ c ∈ name.toList, IsPlainChar c) (rest : List Char)
    (hb : (Fan.membersText ns value).length ≤ bound) :
    readMembers readName (readValue depth) setMember bound read
      (Fan.membersText ns value ++ '\x7d' :: rest) = .ok (read ++ Fan.members ns v, rest) := by
  induction ns generalizing read bound with
  | nil => exact absurd rfl hne
  | cons name ns ih =>
    obtain ⟨hname, hp⟩ := List.forall_mem_cons.mp hp
    have hnew : setMember name v read = read ++ [(name, v)] := by
      refine setMember_of_notMem ?_ v
      intro hm
      exact (List.nodup_append.mp hd).2.2 name hm name List.mem_cons_self rfl
    have hd' : (names (read ++ [(name, v)]) ++ ns).Nodup := by
      rw [names, List.map_append, List.append_assoc]
      exact hd
    cases bound with
    | zero =>
      obtain ⟨cs, hcs⟩ := Fan.exists_membersText name ns value
      rw [hcs] at hb
      cases hb
    | succ bound =>
      cases ns with
      | nil =>
        rw [Fan.membersText_singleton, List.cons_append, List.append_assoc, List.cons_append,
          List.cons_append, readMembers]
        refine bind_eq_ok_iff.mpr ⟨_, readName_plain hname _, ?_⟩
        refine bind_eq_ok_iff.mpr ⟨_, hv _ _ (.inr rfl), ?_⟩
        exact congrArg (fun ms => Except.ok (ms, rest)) hnew
      | cons next ns =>
        obtain ⟨cs, hcs⟩ := Fan.exists_membersText next ns value
        rw [Fan.membersText_cons_cons] at hb
        simp only [List.length_cons, List.length_append] at hb
        have hrest := @ih bound _ (List.cons_ne_nil next ns) hd' hp (by omega)
        rw [Fan.membersText_cons_cons, List.cons_append, List.append_assoc, List.cons_append,
          List.cons_append, List.append_assoc, readMembers]
        refine bind_eq_ok_iff.mpr ⟨_, readName_plain hname _, ?_⟩
        refine bind_eq_ok_iff.mpr ⟨_, hv _ _ (.inl rfl), ?_⟩
        rw [hcs, ← hnew] at hrest
        rw [hcs]
        refine Eq.trans hrest ?_
        rw [hnew, List.append_assoc]
        rfl

/-- A fan is read one level above its value, whatever stands behind it. -/
theorem readValue_fan (fan : Fan) (hv : IsReadAs depth value v) (rest : List Char) :
    readValue (depth + 1) (fan.text value ++ rest) = .ok (fan.json v, rest) := by
  obtain ⟨name, ns, hns⟩ := List.exists_cons_of_ne_nil fan.nonempty
  obtain ⟨cs, hcs⟩ := Fan.exists_membersText name ns value
  have hlen : (Fan.membersText fan.names value).length ≤
      (Fan.membersText fan.names value ++ '\x7d' :: rest).length := by
    rw [List.length_append]
    omega
  have h := @readMembers_fan _ _ _ hv _ _ [] fan.nonempty fan.nodup fan.plain rest hlen
  have ho : readObject readName (readValue depth) setMember
      (Fan.membersText fan.names value ++ '\x7d' :: rest) =
        .ok (Fan.members fan.names v, rest) := by
    rw [hns, hcs] at h ⊢
    exact h
  rw [Fan.text, List.append_assoc, List.cons_append, List.singleton_append, readValue]
  exact map_eq_ok_iff.mpr ⟨_, ho, rfl⟩

theorem IsReadAs.nest (hv : IsReadAs depth value v) (fans : List Fan) :
    IsReadAs (fans.length + depth) (Fan.nestText fans value) (Fan.nest fans v) := by
  induction fans with
  | nil =>
    rw [List.length_nil, Nat.zero_add]
    exact hv
  | cons fan fans ih =>
    rw [List.length_cons, Nat.succ_add]
    exact fun c rest _ => readValue_fan fan ih (c :: rest)

theorem isReadAs_one (depth : Nat) : IsReadAs depth ['1'] (.number (.natural 1)) := by
  rintro c rest (rfl | rfl) <;> cases depth <;> rfl

theorem parse_nest (hv : ∀ depth, IsReadAs depth value v) (fan : Fan) {fans : List Fan}
    (h : fans.length < depthMax) :
    parse (String.ofList (Fan.nestText (fan :: fans) value)) = .ok (Fan.nest (fan :: fans) v) := by
  obtain ⟨more, hmore⟩ := Nat.exists_eq_add_of_lt h
  have hr : readText (Fan.nestText (fan :: fans) value) = .ok (Fan.nest (fan :: fans) v) := by
    have := readValue_fan fan ((hv more).nest fans) []
    rw [← hmore, List.append_nil] at this
    rw [readText]
    exact bind_eq_ok_iff.mpr ⟨_, this, rfl⟩
  rw [parse, String.toList_ofList, hr]
  rfl

end Json

namespace Filter

open Json (Fan)
open FilterNode (leavesAll)

variable {allowlist : Allowlist} {scope : Scope} {key : String} {v : Json}

theorem wellFormed_fan (fan : Fan) (hf : allowlist.IsField scope key)
    (hj : scope = .json ∨ allowlist.HoldsJson key)
    (hv : ∀ name, IsPathKey name → WellFormed allowlist .json name v) :
    WellFormed allowlist scope key (fan.json v) := by
  refine .conditions hf (by simpa [Fan.members] using fan.nonempty) ?_
  intro m hm
  obtain ⟨name, hn, rfl⟩ := List.mem_map.mp hm
  have hkey := fan.isPathKey name hn
  exact .entry (Operator.ofToken?_eq_none_iff.mp hkey.2) hj (hv name hkey)

theorem wellFormed_nest (fans : List Fan) (hf : allowlist.IsField scope key)
    (hj : scope = .json ∨ allowlist.HoldsJson key)
    (hv : ∀ {scope key}, allowlist.IsField scope key → WellFormed allowlist scope key v) :
    WellFormed allowlist scope key (Fan.nest fans v) := by
  induction fans generalizing scope key with
  | nil => exact hv hf
  | cons fan fans ih =>
    exact wellFormed_fan fan hf hj fun name hn => ih (hn.isField allowlist) (.inl rfl)

/-- Whether a value has so many leaves, each of them so many keys below it and with the same test,
whatever key it stands under. -/
def IsEven (count keys : Nat) (test : Test) (v : Json) : Prop :=
  ∀ base key, Connective.ofKeyword? key = none →
    (leavesAll base (nodesOf key v)).map (fun l => (l.left.keys.length, l.test)) =
      List.replicate count (base.length + keys, test)

/-- A fan has the leaves of its value once for each name, one key further below. -/
theorem IsEven.fan {count keys : Nat} {test : Test} (h : IsEven count keys test v) (fan : Fan) :
    IsEven (fan.names.length * count) (keys + 1) test (fan.json v) := by
  intro base key hk
  have hbelow (names : List String) (hn : ∀ name ∈ names, IsPathKey name) :
      (leavesAll base (nodesBelow key (Fan.members names v))).map
          (fun l => (l.left.keys.length, l.test)) =
        List.replicate (names.length * count) (base.length + (keys + 1), test) := by
    induction names with
    | nil => rw [List.length_nil, Nat.zero_mul]; rfl
    | cons name names ih =>
      obtain ⟨⟨hkey, hop⟩, hn⟩ := List.forall_mem_cons.mp hn
      have hv := h (base ++ [key]) name hkey
      rw [List.length_append, List.length_singleton, Nat.add_assoc, Nat.add_comm 1] at hv
      have hi := ih hn
      rw [Fan.members] at hi
      rw [Fan.members, List.map_cons, nodesBelow, hop, FilterNode.leavesAll_append,
        FilterNode.leavesAll_path, List.map_append, hv, hi, List.replicate_append_replicate,
        List.length_cons, Nat.succ_mul, Nat.add_comm count]
  rw [Fan.json, nodesOf, hk]
  exact hbelow fan.names fan.isPathKey

theorem IsEven.nest {count keys : Nat} {test : Test} (h : IsEven count keys test v)
    (fans : List Fan) : IsEven (Fan.width fans * count) (keys + fans.length) test
      (Fan.nest fans v) := by
  induction fans with
  | nil =>
    rw [Fan.width, List.map_nil, List.prod_nil, Nat.one_mul]
    exact h
  | cons fan fans ih =>
    have := ih.fan fan
    rw [← Nat.mul_assoc] at this
    exact this

theorem isEven_number (n : Json.Number) : IsEven 1 0 (.equal (.number n)) (.number n) := by
  intro base key _
  rw [nodesOf]
  exact congrArg (fun keys => [(keys, _)]) (Attribute.length_keys_under base key)

theorem sum_bindCount_of_even {ls : List Leaf} {count keys : Nat} {value : Scalar}
    (h : ls.map (fun l => (l.left.keys.length, l.test)) =
      List.replicate count (keys, .equal value)) :
    (∀ l ∈ ls, l.left.keys.length = keys ∧ l.test = .equal value) ∧
      (ls.map Leaf.bindCount).sum = count * (keys + 1) := by
  have heach : ∀ l ∈ ls, l.left.keys.length = keys ∧ l.test = .equal value := by
    intro l hl
    have hmem : (l.left.keys.length, l.test) ∈ List.replicate count (keys, Test.equal value) :=
      h ▸ List.mem_map_of_mem hl
    exact Prod.mk.inj (List.eq_of_mem_replicate hmem)
  have hbind : ∀ l ∈ ls, l.bindCount = keys + 1 := by
    intro l hl
    rw [Leaf.bindCount, Leaf.width, Leaf.listLength?, (heach l hl).1, (heach l hl).2]
    rfl
  have hlen : ls.length = count := by
    rw [← List.length_map, h, List.length_replicate]
  refine ⟨heach, ?_⟩
  rw [List.map_congr_left hbind, List.map_const', List.sum_replicate_nat, hlen]

/-- Fans below the metadata are accepted and compiled, each of their values with all its keys. -/
theorem exists_parse_document (ha : allowlist.Allows "metadata")
    (hj : allowlist.HoldsJson "metadata") {limit : Nat} {fans : List Fan}
    (hn : fans.length < Json.depthMax) (hl : (Fan.document fans).utf8ByteSize ≤ limit) :
    ∃ f p, parse allowlist limit (Fan.document fans) = .ok f ∧
      f.compile = .ok p ∧ (∀ l ∈ f.leaves, l.left.keys.length = fans.length) ∧
      (f.leaves.map Leaf.bindCount).sum = Fan.width fans * (fans.length + 1) := by
  have hraw : Json.parse (Fan.document fans) = .ok (Fan.nest (.metadata :: fans) _) :=
    Json.parse_nest Json.isReadAs_one .metadata hn
  have hkey : Connective.ofKeyword? "metadata" = none := by decide
  have hfield : allowlist.IsField .columns "metadata" :=
    ⟨Connective.ofKeyword?_eq_none_iff.mp hkey, fun _ => ha⟩
  have hw : ∀ m ∈ [("metadata", Fan.nest fans (.number (.natural 1)))],
      WellFormed allowlist .columns m.1 m.2 := by
    rw [List.forall_mem_singleton]
    exact wellFormed_nest fans hfield (.inr hj) fun h => .number _ h
  obtain ⟨f, hf, hnodes⟩ := exists_ofMembers_of_wellFormed (List.cons_ne_nil _ _) hw
  have hleaves : f.leaves.map (fun l => (l.left.keys.length, l.test)) =
      List.replicate (Fan.width fans) (fans.length, .equal (.number (.natural 1))) := by
    have := (isEven_number (.natural 1)).nest fans [] "metadata" hkey
    rw [Nat.mul_one, List.length_nil, Nat.zero_add, Nat.zero_add] at this
    rw [leaves, hnodes, nodesOfEntries, nodesOfEntries, List.append_nil, this]
  obtain ⟨heach, hsum⟩ := sum_bindCount_of_even hleaves
  obtain ⟨p, hp⟩ := exists_compile_iff.mpr fun l hl => by
    rw [(heach l hl).2]
    trivial
  exact ⟨f, p, (parse_of_short hl hraw).trans hf, hp, fun l hl => (heach l hl).1, hsum⟩

end Filter

end SearchFilter
