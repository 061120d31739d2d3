import SearchFilter.Proofs.Predicate.Meaning

/-!
# Siblings in another order

A tree is evaluated by the numbers of its leaves, and these change when siblings change places. Here
leaves are followed by labels instead. Main statement: siblings in another order have the same
leaves in another order and, with the leaves' values carried along, the same value.
-/

namespace SearchFilter

open Sql

theorem Connective.combine_comm (c : Connective) (x y : Truth) : c.combine x y = c.combine y x := by
  cases c with
  | and => exact x.and_comm y
  | or => exact x.or_comm y

namespace FilterNode

variable {v w : Nat → Truth} {joint : Connective} {first second : Nat} {base : List String}
  {ns ms : List FilterNode}

theorem length_leavesAll (base : List String) (ns : List FilterNode) :
    (leavesAll base ns).length = (leavesAll [] ns).length := by
  induction ns with
  | nil => rfl
  | cons n ns ih => rw [leavesAll, leavesAll, List.length_append, List.length_append, ih,
      length_leaves]

theorem truthAll_congr_of_forall
    (hn : ∀ n ∈ ns, ∀ {first second : Nat},
      (∀ i < (leaves [] n).length, v (first + i) = w (second + i)) →
        truth v joint first n = truth w joint second n)
    (h : ∀ i < (leavesAll [] ns).length, v (first + i) = w (second + i)) :
    truthAll v joint first ns = truthAll w joint second ns := by
  induction ns generalizing first second with
  | nil => rfl
  | cons n ns ih =>
    rw [leavesAll, List.length_append] at h
    rw [truthAll, truthAll, hn n List.mem_cons_self fun i hi => h i (by omega)]
    congr 1
    refine ih (fun m hm => hn m (List.mem_cons_of_mem _ hm)) fun i hi => ?_
    rw [Nat.add_assoc, Nat.add_assoc]
    exact h _ (by omega)

theorem truth_congr {n : FilterNode}
    (h : ∀ i < (leaves [] n).length, v (first + i) = w (second + i)) :
    truth v joint first n = truth w joint second n := by
  induction n using FilterNode.induction generalizing first second joint with
  | equality field value => exact h 0 Nat.one_pos
  | range field op condition => exact h 0 Nat.one_pos
  | path field children ih =>
    rw [leaves, length_leavesAll] at h
    exact truthAll_congr_of_forall (fun n hn => ih n hn) h
  | group c children ih => exact truthAll_congr_of_forall (fun n hn => ih n hn) h

theorem truthAll_congr (h : ∀ i < (leavesAll [] ns).length, v (first + i) = w (second + i)) :
    truthAll v joint first ns = truthAll w joint second ns :=
  truthAll_congr_of_forall (fun _ _ => truth_congr) h

theorem truthAll_append : truthAll v joint first (ns ++ ms) =
    joint.combine (truthAll v joint first ns)
      (truthAll v joint (first + (leavesAll [] ns).length) ms) := by
  induction ns generalizing first with
  | nil =>
    rw [truthAll, Connective.combine_comm, Connective.combine_neutral]
    rfl
  | cons n ns ih =>
    rw [List.cons_append, truthAll, ih, truthAll, Connective.combine_assoc, leavesAll,
      List.length_append, Nat.add_assoc]

/-- Whether the row has the leaves of the siblings below `base`, each with a label. -/
def Labels (base : List String) (ns : List FilterNode) (row : List (Leaf × Nat)) : Prop :=
  row.map Prod.fst = leavesAll base ns

/-- The value of siblings of which each leaf has the value of its label. -/
def valueOf (joint : Connective) (ns : List FilterNode) (row : List (Leaf × Nat))
    (v : Nat → Truth) : Truth :=
  truthAll (fun i => v ((row.map Prod.snd).getD i 0)) joint 0 ns

theorem Labels.length_eq {row : List (Leaf × Nat)} (h : Labels base ns row) :
    (leavesAll [] ns).length = row.length := by
  rw [← length_leavesAll base, ← h, List.length_map]

theorem labels_append {row : List (Leaf × Nat)} : Labels base (ns ++ ms) row ↔
    ∃ front back, row = front ++ back ∧ Labels base ns front ∧ Labels base ms back := by
  rw [Labels, leavesAll_append, List.map_eq_append_iff]
  rfl

theorem valueOf_append {front : List (Leaf × Nat)} (h : Labels base ns front)
    (back : List (Leaf × Nat)) (v : Nat → Truth) :
    valueOf joint (ns ++ ms) (front ++ back) v =
      joint.combine (valueOf joint ns front v) (valueOf joint ms back v) := by
  have hl := h.length_eq
  rw [valueOf, truthAll_append, Nat.zero_add, List.map_append]
  congr 1
  · refine truthAll_congr fun i hi => ?_
    rw [List.getD_eq_getElem?_getD, List.getD_eq_getElem?_getD,
      List.getElem?_append_left (by rw [List.length_map]; omega)]
  · refine truthAll_congr fun i hi => ?_
    rw [hl, List.getD_eq_getElem?_getD, List.getD_eq_getElem?_getD,
      List.getElem?_append_right (by rw [List.length_map]; omega), List.length_map,
      Nat.add_sub_cancel_left, Nat.zero_add]

@[simp] theorem labels_path {field : String} {row : List (Leaf × Nat)} :
    Labels base [.path field ns] row ↔ Labels (base ++ [field]) ns row := by
  rw [Labels, leavesAll_path, Labels]

@[simp] theorem labels_group {c : Connective} {row : List (Leaf × Nat)} :
    Labels base [.group c ns] row ↔ Labels base ns row := by
  rw [Labels, leavesAll_group, Labels]

@[simp] theorem valueOf_path (field : String) (row : List (Leaf × Nat)) (v : Nat → Truth) :
    valueOf joint [.path field ns] row v = valueOf joint ns row v := by
  simp [valueOf, truthAll, truth]

@[simp] theorem valueOf_group (c : Connective) (row : List (Leaf × Nat)) (v : Nat → Truth) :
    valueOf joint [.group c ns] row v = valueOf c ns row v := by
  simp [valueOf, truthAll, truth]

/-- The same leaves in another order and, whatever values the labels stand for, the same value. -/
def Reorders (ns ms : List FilterNode) : Prop :=
  ∀ base row, Labels base ns row → ∃ row', row'.Perm row ∧ Labels base ms row' ∧
    ∀ joint v, valueOf joint ms row' v = valueOf joint ns row v

namespace Reorders

variable {a b c d : List FilterNode}

theorem refl (a : List FilterNode) : Reorders a a :=
  fun _ row h => ⟨row, .refl _, h, fun _ _ => rfl⟩

theorem trans (hab : Reorders a b) (hbc : Reorders b c) : Reorders a c := by
  intro base row h
  obtain ⟨between, hp, hb, hv⟩ := hab base row h
  obtain ⟨row', hp', hc, hv'⟩ := hbc base between hb
  exact ⟨row', hp'.trans hp, hc, fun joint v => (hv' joint v).trans (hv joint v)⟩

theorem append (hab : Reorders a b) (hcd : Reorders c d) : Reorders (a ++ c) (b ++ d) := by
  intro base row h
  obtain ⟨front, back, rfl, hf, hb⟩ := labels_append.mp h
  obtain ⟨front', hpf, hlf, hvf⟩ := hab base front hf
  obtain ⟨back', hpb, hlb, hvb⟩ := hcd base back hb
  refine ⟨front' ++ back', hpf.append hpb, labels_append.mpr ⟨front', back', rfl, hlf, hlb⟩, ?_⟩
  intro joint v
  rw [valueOf_append hlf, valueOf_append hf, hvf, hvb]

theorem swap (a b : List FilterNode) : Reorders (a ++ b) (b ++ a) := by
  intro base row h
  obtain ⟨front, back, rfl, hf, hb⟩ := labels_append.mp h
  refine ⟨back ++ front, List.perm_append_comm, labels_append.mpr ⟨back, front, rfl, hb, hf⟩, ?_⟩
  intro joint v
  rw [valueOf_append hb, valueOf_append hf, Connective.combine_comm]

/-- Siblings that come from a list change places with its items. -/
theorem of_perm {α : Type} {l m : List α} (h : l.Perm m) (f : α → List FilterNode) :
    Reorders (l.flatMap f) (m.flatMap f) := by
  induction h with
  | nil => exact refl _
  | cons x _ ih =>
    rw [List.flatMap_cons, List.flatMap_cons]
    exact (refl _).append ih
  | swap x y rest =>
    simp only [List.flatMap_cons, ← List.append_assoc]
    exact (swap _ _).append (refl _)
  | trans _ _ ih ih' => exact ih.trans ih'

theorem path (h : Reorders a b) (field : String) : Reorders [.path field a] [.path field b] := by
  intro base row hr
  obtain ⟨row', hp, hl, hv⟩ := h (base ++ [field]) row (labels_path.mp hr)
  refine ⟨row', hp, labels_path.mpr hl, ?_⟩
  intro joint v
  rw [valueOf_path, valueOf_path, hv]

theorem group (h : Reorders a b) (c : Connective) : Reorders [.group c a] [.group c b] := by
  intro base row hr
  obtain ⟨row', hp, hl, hv⟩ := h base row (labels_group.mp hr)
  refine ⟨row', hp, labels_group.mpr hl, ?_⟩
  intro joint v
  rw [valueOf_group, valueOf_group, hv]

theorem perm_leavesAll (h : Reorders a b) (base : List String) :
    (leavesAll base b).Perm (leavesAll base a) := by
  have hr : Labels base a ((leavesAll base a).map (·, 0)) := by
    simp [Labels, Function.comp_def]
  obtain ⟨row', hp, hl, -⟩ := h base _ hr
  rw [← hl, ← hr]
  exact hp.map _

end Reorders

end FilterNode

end SearchFilter
