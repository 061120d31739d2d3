import SearchFilter.Proofs.Filter.Acceptance
import SearchFilter.Proofs.Predicate.Collecting
import SearchFilter.Proofs.Predicate.Reordering

/-!
# The order of keys

Keys are read, compiled and numbered in the order of the document. Main statement: in another order,
at whatever depth, an accepted document is still accepted, with the same leaves in another order and
with a predicate of the same value.
-/

namespace SearchFilter

namespace Json

/-- Whether values differ at most in the order of the members of objects, at any depth. -/
inductive Permuted : Json → Json → Prop
  | refl (v : Json) : Permuted v v
  | trans {u v w : Json} (huv : Permuted u v) (hvw : Permuted v w) : Permuted u w
  | members {ms ms' : List (String × Json)} (h : ms.Perm ms') :
      Permuted (.object ms) (.object ms')
  | inMember (before : List (String × Json)) (key : String) {v v' : Json} (h : Permuted v v')
      (after : List (String × Json)) :
      Permuted (.object (before ++ (key, v) :: after)) (.object (before ++ (key, v') :: after))
  | inItem (before : List Json) {v v' : Json} (h : Permuted v v') (after : List Json) :
      Permuted (.array (before ++ v :: after)) (.array (before ++ v' :: after))

/-- Whether a value is no object, and if it is a list, then one of texts. -/
def IsFlat : Json → Prop
  | .object _ => False
  | .array items => ∀ item ∈ items, ∃ s, item = .string s
  | _ => True

namespace Permuted

variable {v v' : Json}

theorem exists_members (h : Permuted v v') :
    ∀ {ms}, v = .object ms → ∃ ms', v' = .object ms' := by
  induction h with
  | refl v => exact fun hv => ⟨_, hv⟩
  | trans _ _ ih ih' =>
    intro ms hv
    obtain ⟨_, hw⟩ := ih hv
    exact ih' hw
  | members h => exact fun _ => ⟨_, rfl⟩
  | inMember before key h after ih => exact fun _ => ⟨_, rfl⟩
  | inItem before h after ih => exact fun hv => by cases hv

theorem eq_of_isFlat (h : Permuted v v') (hv : IsFlat v) : v' = v := by
  induction h with
  | refl v => rfl
  | trans _ _ ih ih' =>
    have he := ih hv
    rw [he] at ih'
    exact ih' hv
  | members h => exact hv.elim
  | inMember before key h after ih => exact hv.elim
  | inItem before h after ih =>
    obtain ⟨s, rfl⟩ := hv _ (List.mem_append_right _ List.mem_cons_self)
    rw [ih trivial]

end Permuted

end Json

namespace Filter

open FilterNode

variable {allowlist : Allowlist} {v v' : Json}

theorem exists_ofJson_of_permuted (h : v.Permuted v')
    (hv : ∃ condition, Condition.ofJson v = .ok condition) :
    ∃ condition, Condition.ofJson v' = .ok condition := by
  induction h with
  | refl v => exact hv
  | trans _ _ ih ih' => exact ih' (ih hv)
  | members h => exact ⟨_, rfl⟩
  | inMember before key h after ih => exact ⟨_, rfl⟩
  | inItem before h after ih => exact ⟨_, rfl⟩

/-- The grammar knows no order. -/
theorem wellFormed_of_permuted (h : v.Permuted v') {scope : Scope} {key : String}
    (hv : WellFormed allowlist scope key v) : WellFormed allowlist scope key v' := by
  induction h generalizing scope key with
  | refl v => exact hv
  | trans _ _ ih ih' => exact ih' (ih hv)
  | members h =>
    cases hk : Connective.ofKeyword? key with
    | some c =>
      rw [wellFormed_group_iff hk] at hv ⊢
      exact ⟨fun hn => hv.1 (hn ▸ h).eq_nil, fun m hm => hv.2 m (h.mem_iff.mpr hm)⟩
    | none =>
      rw [wellFormed_conditions_iff hk] at hv ⊢
      exact ⟨hv.1, fun hn => hv.2.1 (hn ▸ h).eq_nil, fun m hm => hv.2.2 m (h.mem_iff.mpr hm)⟩
  | inMember before name h after ih =>
    cases hk : Connective.ofKeyword? key with
    | some c =>
      rw [wellFormed_group_iff hk] at hv ⊢
      simp only [List.forall_mem_append, List.forall_mem_cons] at hv ⊢
      exact ⟨by simp, hv.2.1, ih hv.2.2.1, hv.2.2.2⟩
    | none =>
      rw [wellFormed_conditions_iff hk] at hv ⊢
      simp only [List.forall_mem_append, List.forall_mem_cons] at hv ⊢
      refine ⟨hv.1, by simp, hv.2.2.1, ?_, hv.2.2.2.2⟩
      have hm := hv.2.2.2.1
      cases ho : Operator.ofToken? name with
      | some op =>
        rw [wellFormedBelow_operator_iff ho] at hm ⊢
        exact exists_ofJson_of_permuted h hm
      | none =>
        rw [wellFormedBelow_entry_iff ho] at hm ⊢
        exact ⟨hm.1, ih hm.2⟩
  | inItem before h after ih => cases hv

/-- The nodes of a member of a field's value. -/
def nodesOfMember (field : String) (m : String × Json) : List FilterNode :=
  nodesBelow field [m]

theorem nodesBelow_eq_flatMap (field : String) (members : List (String × Json)) :
    nodesBelow field members = members.flatMap (nodesOfMember field) := by
  induction members with
  | nil => rw [nodesBelow, List.flatMap_nil]
  | cons m members ih =>
    obtain ⟨key, value⟩ := m
    rw [nodesBelow, List.flatMap_cons, ih, nodesOfMember, nodesBelow, nodesBelow, List.append_nil]

theorem nodesOfEntries_eq_flatMap (members : List (String × Json)) :
    nodesOfEntries members = members.flatMap fun m => nodesOf m.1 m.2 := by
  induction members with
  | nil => rw [nodesOfEntries, List.flatMap_nil]
  | cons m members ih =>
    obtain ⟨key, value⟩ := m
    rw [nodesOfEntries, List.flatMap_cons, ih]

theorem isFlat_of_takes {op : Operator}
    (h : ∀ condition, Condition.ofJson v = .ok condition → op.Takes condition) : v.IsFlat := by
  cases v with
  | array items => exact (h _ rfl).2
  | object members => exact h _ rfl
  | _ => trivial

theorem reorders_nodesOfMember {base : List String} {field name : String} (h : v.Permuted v')
    (ih : ∀ {base key}, (∀ l ∈ leavesAll base (nodesOf key v), l.test.Fits) →
      Reorders (nodesOf key v) (nodesOf key v'))
    (hf : ∀ l ∈ leavesAll base (nodesOfMember field (name, v)), l.test.Fits) :
    Reorders (nodesOfMember field (name, v)) (nodesOfMember field (name, v')) := by
  cases ho : Operator.ofToken? name with
  | some op =>
    have ht : ∀ condition, Condition.ofJson v = .ok condition → op.Takes condition := by
      intro condition hc
      simp only [nodesOfMember, nodesBelow, ho, hc] at hf
      exact hf _ List.mem_cons_self
    rw [h.eq_of_isFlat (isFlat_of_takes ht)]
    exact .refl _
  | none =>
    have hn (w : Json) : nodesOfMember field (name, w) = [.path field (nodesOf name w)] := by
      simp [nodesOfMember, nodesBelow, ho]
    rw [hn] at hf
    rw [hn, hn]
    have hf' : ∀ l ∈ leavesAll (base ++ [field]) (nodesOf name v), l.test.Fits := by
      rwa [leavesAll_path] at hf
    exact (ih hf').path field

/-- Nodes change places with the members that they are read from. -/
theorem reorders_of_permuted (h : v.Permuted v') {base : List String} {key : String}
    (hf : ∀ l ∈ leavesAll base (nodesOf key v), l.test.Fits) :
    Reorders (nodesOf key v) (nodesOf key v') := by
  induction h generalizing base key with
  | refl v => exact .refl _
  | trans _ _ ih ih' =>
    have hr := ih hf
    exact hr.trans (ih' fun l hl => hf l ((hr.perm_leavesAll base).mem_iff.mp hl))
  | members h =>
    rw [nodesOf, nodesOf]
    cases Connective.ofKeyword? key with
    | some c =>
      simp only [nodesOfEntries_eq_flatMap]
      exact (Reorders.of_perm h _).group c
    | none =>
      simp only [nodesBelow_eq_flatMap]
      exact Reorders.of_perm h _
  | @inMember before name v v' h after ih =>
    rw [nodesOf] at hf
    rw [nodesOf, nodesOf]
    cases hk : Connective.ofKeyword? key with
    | some c =>
      simp only [hk, nodesOfEntries_eq_flatMap, List.flatMap_append, List.flatMap_cons] at hf ⊢
      have hv : ∀ l ∈ leavesAll base (nodesOf name v), l.test.Fits := by
        intro l hl
        exact hf l (by simp [leavesAll_group, leavesAll_append, hl])
      exact Reorders.group (.append (.refl _) (.append (ih hv) (.refl _))) c
    | none =>
      simp only [hk, nodesBelow_eq_flatMap, List.flatMap_append, List.flatMap_cons] at hf ⊢
      have hv : ∀ l ∈ leavesAll base (nodesOfMember key (name, v)), l.test.Fits := by
        intro l hl
        exact hf l (by simp [leavesAll_append, hl])
      exact .append (.refl _) (.append (reorders_nodesOfMember h ih hv) (.refl _))
  | inItem before h after ih =>
    have hn (items : List Json) : nodesOf key (.array items) = [] := by simp [nodesOf]
    rw [hn, hn]
    exact .refl _

/-- Every leaf of a filter whose tree changes places is found at some number of the other. -/
theorem exists_order_of_reorders {f f' : Filter}
    (h : Reorders [.group .and f.nodes] [.group .and f'.nodes]) :
    ∃ order : List Nat, order.Perm (List.range f.leaves.length) ∧
      f'.leaves.map some = order.map (f.leaves[·]?) ∧
      ∀ v, f'.truth (fun j => v (order.getD j 0)) = f.truth v := by
  have hlabels : Labels [] [.group .and f.nodes] f.leaves.zipIdx :=
    labels_group.mpr (List.zipIdx_map_fst 0 f.leaves)
  obtain ⟨row, hp, hl, hv⟩ := h [] _ hlabels
  have hleaves : row.map Prod.fst = f'.leaves := labels_group.mp hl
  refine ⟨row.map Prod.snd, ?_, ?_, ?_⟩
  · have := hp.map Prod.snd
    rwa [List.zipIdx_map_snd, ← List.range_eq_range'] at this
  · rw [← hleaves, List.map_map, List.map_map]
    refine List.map_congr_left fun m hm => ?_
    have := List.mem_zipIdx_iff_getElem?.mp (hp.mem_iff.mp hm)
    exact this.symm
  · intro v
    have := hv .and v
    rw [valueOf_group, valueOf_group] at this
    rw [truth, ← valueOf, this, valueOf, truth, List.zipIdx_map_snd]
    refine truthAll_congr fun i hi => ?_
    have hlt : i < f.leaves.length := hi
    simp [List.getElem?_range' hlt]

theorem admitted_of_ofMembers {members : List (String × Json)} {f : Filter}
    (h : ofMembers allowlist members = .ok f) : ∀ n ∈ f.nodes, n.Admitted allowlist .columns := by
  obtain ⟨-, hs, hr⟩ := ofMembers_eq_ok_iff.mp h
  exact (admitted_of_readEntries members f.nodes (fun _ => hs) hr).2

theorem exists_condition_of_ofMembers (hnames : ∀ field ∈ allowlist.fields, IsColumnName field)
    {members : List (String × Json)} {f : Filter} {p : Predicate}
    (h : ofMembers allowlist members = .ok f) (hp : f.compile = .ok p) :
    ∃ c, Sql.Condition.ofText? p.text = some c ∧
      c.comparisons = f.leaves.map Leaf.comparison ∧ ∀ v, c.truth v 0 = f.truth v := by
  have ha := admitted_of_ofMembers h
  refine exists_condition_of_compile ?_ ?_ hp
  · intro m hm
    obtain ⟨n, hn, hm⟩ := List.mem_flatMap.mp hm
    exact (ha n hn).notBarren m hm
  · intro column hc
    obtain ⟨n, hn, hc⟩ := List.mem_flatMap.mp hc
    exact hnames column ((ha n hn).allows rfl column hc)

theorem exists_ofMembers_of_permuted {members : List (String × Json)} {f : Filter} {p : Predicate}
    (hf : ofMembers allowlist members = .ok f) (hp : f.compile = .ok p)
    (h : (Json.object members).Permuted v') :
    ∃ (members' : List (String × Json)) (f' : Filter) (p' : Predicate),
      v' = .object members' ∧ ofMembers allowlist members' = .ok f' ∧ f'.compile = .ok p' ∧
        Reorders [.group .and f.nodes] [.group .and f'.nodes] := by
  have hk : Connective.ofKeyword? "$and" = some .and := by decide
  have hnodes (ms : List (String × Json)) :
      nodesOf "$and" (.object ms) = [.group .and (nodesOfEntries ms)] := by
    rw [nodesOf, hk]
  obtain ⟨hne, hs, hr⟩ := ofMembers_eq_ok_iff.mp hf
  obtain ⟨hw, hn⟩ := (readEntries_iff_wellFormed members f.nodes).mp ⟨hr, fun _ => hs⟩
  obtain ⟨members', rfl⟩ := h.exists_members rfl
  have hw' := wellFormed_of_permuted h ((wellFormed_group_iff hk).mpr ⟨hne, hw⟩)
  rw [wellFormed_group_iff hk] at hw'
  obtain ⟨f', hf', hn'⟩ := exists_ofMembers_of_wellFormed hw'.1 hw'.2
  have hfits : ∀ l ∈ f.leaves, l.test.Fits := exists_compile_iff.mp ⟨p, hp⟩
  have hre : Reorders [.group .and f.nodes] [.group .and f'.nodes] := by
    have hg : ∀ l ∈ leavesAll [] (nodesOf "$and" (.object members)), l.test.Fits := by
      intro l hl
      rw [hnodes, leavesAll_group, ← hn] at hl
      exact hfits l hl
    have := reorders_of_permuted h hg
    rwa [hnodes, hnodes, ← hn, ← hn'] at this
  have hfits' : ∀ l ∈ f'.leaves, l.test.Fits := by
    intro l hl
    have hperm := hre.perm_leavesAll []
    rw [leavesAll_group, leavesAll_group] at hperm
    exact hfits l (hperm.mem_iff.mp hl)
  obtain ⟨p', hp'⟩ := exists_compile_iff.mpr hfits'
  exact ⟨members', f', p', rfl, hf', hp', hre⟩

/-- What is left of a filter and its predicate when leaves change places: the `j`-th leaf was the
one of the `j`-th number, and the value is the same for all values of the leaves. -/
structure IsReordered (f f' : Filter) (p p' : Predicate) (order : List Nat) : Prop where
  perm : order.Perm (List.range f.leaves.length)
  leaves : f'.leaves.map some = order.map (f.leaves[·]?)
  condition : ∃ c c', Sql.Condition.ofText? p.text = some c ∧
    Sql.Condition.ofText? p'.text = some c' ∧
    c.comparisons = f.leaves.map Leaf.comparison ∧
    c'.comparisons = f'.leaves.map Leaf.comparison ∧
    ∀ v, c'.truth (fun j => v (order.getD j 0)) 0 = c.truth v 0

/-- The order of keys does not matter. A document whose keys are put into another order, at any
depth, is accepted as before, and it means the same. -/
theorem exists_order_of_permuted (hnames : ∀ field ∈ allowlist.fields, IsColumnName field)
    {limit : Nat} {raw : String} {p : Predicate} {document document' : Json}
    (hp : compileText allowlist limit raw = .ok p) (hj : Json.parse raw = .ok document)
    (h : document.Permuted document') :
    ∃ (members' : List (String × Json)) (f f' : Filter) (p' : Predicate) (order : List Nat),
      parse allowlist limit raw = .ok f ∧ document' = .object members' ∧
      ofMembers allowlist members' = .ok f' ∧ f'.compile = .ok p' ∧
      (∀ limit' raw', raw'.utf8ByteSize ≤ limit' → Json.parse raw' = .ok document' →
        compileText allowlist limit' raw' = .ok p') ∧
      IsReordered f f' p p' order := by
  obtain ⟨f, hf, hc⟩ := bind_eq_ok_iff.mp hp
  obtain ⟨-, members, hj', hne, hs, hr⟩ := parse_eq_ok_iff.mp hf
  cases hj.symm.trans hj'
  have hm : ofMembers allowlist members = .ok f := ofMembers_eq_ok_iff.mpr ⟨hne, hs, hr⟩
  obtain ⟨members', f', p', rfl, hm', hc', hre⟩ := exists_ofMembers_of_permuted hm hc h
  obtain ⟨order, hperm, hleaves, hv⟩ := exists_order_of_reorders hre
  obtain ⟨c, ht, hcs, htruth⟩ := exists_condition_of_ofMembers hnames hm hc
  obtain ⟨c', ht', hcs', htruth'⟩ := exists_condition_of_ofMembers hnames hm' hc'
  refine ⟨members', f, f', p', order, hf, rfl, hm', hc', ?_, hperm, hleaves, c, c', ht, ht', hcs,
    hcs', ?_⟩
  · intro limit' raw' hl hj
    rw [compileText, parse_of_short hl hj]
    exact bind_eq_ok_iff.mpr ⟨f', hm', hc'⟩
  · intro v
    rw [htruth', hv, htruth]

/-- Within a group and within the JSON of a column, down to the conditions of one key. -/
theorem exists_order_of_permuted_nested :
    let allowlist := (Allowlist.ofFields ["a"]).withJson ["m"]
    let raw' :=
      "\x7b\"$or\":\x7b\"a\":\"6\",\"m\":\x7b\"k\":\x7b\"y\":\"5\",\"in\":[\"4\"]\x7d\x7d\x7d\x7d"
    let p : Predicate := ⟨"((m ->> ? IN (?) OR (m -> ? ->> ? = ?)) OR a = ?)",
      [.text "k", .list ["4"], .text "k", .text "y", .text "5", .text "6"]⟩
    let p' : Predicate := ⟨"(a = ? OR ((m -> ? ->> ? = ?) OR m ->> ? IN (?)))",
      [.text "6", .text "k", .text "y", .text "5", .text "k", .list ["4"]]⟩
    compileText allowlist 100 raw' = .ok p' ∧ ∃ f f' order, IsReordered f f' p p' order := by
  intro allowlist raw' p p'
  let raw :=
    "\x7b\"$or\":\x7b\"m\":\x7b\"k\":\x7b\"in\":[\"4\"],\"y\":\"5\"\x7d\x7d,\"a\":\"6\"\x7d\x7d"
  have hp : (compileText allowlist 100 raw).toOption = some p := by decide +kernel
  have hp' : (compileText allowlist 100 raw').toOption = some p' := by decide +kernel
  rw [toOption_eq_some_iff] at hp hp'
  have hj : Json.parse raw = .ok (.object [("$or", .object [
      ("m", .object [("k", .object [("in", .array [.string "4"]), ("y", .string "5")])]),
      ("a", .string "6")])]) := by
    simp only [Json.parse, raw, String.reduceToList]
    rfl
  have hj' : Json.parse raw' = .ok (.object [("$or", .object [("a", .string "6"),
      ("m", .object [("k", .object [("y", .string "5"), ("in", .array [.string "4"])])])])]) := by
    simp only [Json.parse, raw', String.reduceToList]
    rfl
  have hinner : (Json.object [("in", .array [.string "4"]), ("y", .string "5")]).Permuted
      (.object [("y", .string "5"), ("in", .array [.string "4"])]) :=
    .members (.swap ..)
  have houter := (Json.Permuted.inMember [] "m" (.inMember [] "k" hinner [])
    [("a", .string "6")]).trans (.members (.swap ..))
  have hnames : ∀ field ∈ allowlist.fields, IsColumnName field := by decide
  obtain ⟨_, f, f', q, order, -, -, -, -, hraw, hr⟩ :=
    exists_order_of_permuted hnames hp hj (.inMember [] "$or" houter [])
  cases hp'.symm.trans (hraw 100 raw' (by decide) hj')
  exact ⟨hp', f, f', order, hr⟩

end Filter

end SearchFilter
