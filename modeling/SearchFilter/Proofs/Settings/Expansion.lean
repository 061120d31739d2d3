import Mathlib.Data.List.Basic
import SearchFilter.Settings.Path

/-!
# Expanded paths

A path is expanded to an absolute one: behind a tilde it is taken from the home directory, and a
relative path from the working directory. Main statement: the components of that directory come
first, and those of the path follow them. Where a second slash stands behind the tilde, nothing is
taken from the home directory.
-/

namespace SearchFilter.Settings

@[simp] theorem components_empty : components "" = [] := by
  decide

theorem components_append_slash (front back : String) :
    components (front ++ "/" ++ back) = components front ++ components back := by
  have h : (front ++ "/" ++ back).toList = front.toList ++ '/' :: back.toList := by simp
  rw [components, pathParts, h, Text.split_append_cons, List.map_append, List.filter_append]
  rfl

theorem components_concat_slash (front : String) :
    components (front ++ "/") = components front := by
  simpa using components_append_slash front ""

theorem joinPath_of_isAbsolute {base path : String} (h : IsAbsolute path) :
    joinPath base path = path :=
  if_pos h

/-- Of a path that is not absolute all components follow those of the base. -/
theorem components_joinPath {base path : String} (h : ¬ IsAbsolute path) :
    components (joinPath base path) = components base ++ components path := by
  rw [joinPath, if_neg h]
  rcases List.eq_nil_or_concat' base.toList with hb | ⟨front, c, hb⟩
  · obtain rfl : base = "" := String.toList_eq_nil_iff.mp hb
    simp
  · rw [hb, List.getLast?_concat]
    dsimp only
    split
    · rename_i hc
      have hbase : base = String.ofList front ++ "/" := by
        rw [← String.toList_inj, hb, hc]
        simp
      rw [hbase, components_append_slash, components_concat_slash]
    · exact components_append_slash base path

theorem isAbsolute_append {front : String} (h : IsAbsolute front) (back : String) :
    IsAbsolute (front ++ back) := by
  unfold IsAbsolute at h ⊢
  rw [String.toList_append, List.head?_append, h]
  rfl

theorem isAbsolute_joinPath {base path : String} (h : IsAbsolute base) :
    IsAbsolute (joinPath base path) := by
  unfold joinPath
  split
  · assumption
  · split
    · rename_i hb
      rw [IsAbsolute, List.getLast?_eq_none_iff.mp hb] at h
      cases h
    · split
      · exact isAbsolute_append h path
      · exact isAbsolute_append (isAbsolute_append h "/") path

/-! ### Tildes -/

theorem replaceTilde_append (home rest : String) :
    replaceTilde home ("~/" ++ rest) = joinPath home rest := by
  have h : ("~/" ++ rest).toList = '~' :: '/' :: rest.toList := by simp
  rw [replaceTilde, h]
  simp

theorem replaceTilde_of_ne {home path : String} (ht : path ≠ "~")
    (hr : ∀ rest, path ≠ "~/" ++ rest) : replaceTilde home path = path := by
  unfold replaceTilde
  split
  · rename_i h
    exact absurd (String.toList_inj.mp h) ht
  · rename_i rest h
    refine absurd ?_ (hr (String.ofList rest))
    rw [← String.toList_inj, h]
    simp
  · rfl

theorem replaceTilde_of_isAbsolute {home path : String} (h : IsAbsolute path) :
    replaceTilde home path = path := by
  apply replaceTilde_of_ne
  · rintro rfl
    exact absurd h (by decide)
  · rintro rest rfl
    simp [IsAbsolute] at h

/-! ### Expansion -/

variable {home workingDirectory : String}

theorem expandPath_of_ne (home workingDirectory : String) {path : String}
    (h : Text.trim path ≠ "") : expandPath home workingDirectory path =
      joinPath workingDirectory (replaceTilde home (Text.trim path)) := by
  unfold expandPath
  rw [if_neg h]
  dsimp only
  split
  · rename_i ha
    exact (joinPath_of_isAbsolute ha).symm
  · rfl

theorem isAbsolute_expandPath (hwork : IsAbsolute workingDirectory) (path : String) :
    IsAbsolute (expandPath home workingDirectory path) := by
  by_cases h : Text.trim path = ""
  · rw [expandPath, if_pos h]
    exact hwork
  · rw [expandPath_of_ne home workingDirectory h]
    exact isAbsolute_joinPath hwork

/-- A path without a tilde for the home directory is taken from the working directory. -/
theorem components_expandPath {path : String} (ht : Text.trim path ≠ "~")
    (hr : ∀ rest, Text.trim path ≠ "~/" ++ rest) (ha : ¬ IsAbsolute (Text.trim path)) :
    components (expandPath home workingDirectory path) =
      components workingDirectory ++ components (Text.trim path) := by
  by_cases h : Text.trim path = ""
  · rw [expandPath, if_pos h, h]
    simp
  · rw [expandPath_of_ne home workingDirectory h, replaceTilde_of_ne ht hr]
    exact components_joinPath ha

/-- A path is expanded to an absolute one. The components of the home directory come first if the
path is a tilde or has a relative path behind one, and those of the working directory if it is
relative without one. An absolute path is left as it is, also behind a tilde, which is lost. -/
theorem expandPath_anchored (hhome : IsAbsolute home) (hwork : IsAbsolute workingDirectory)
    (path : String) :
    let trimmed := Text.trim path
    let expanded := expandPath home workingDirectory path
    IsAbsolute expanded ∧
    (trimmed = "~" → expanded = home) ∧
    (∀ rest, trimmed = "~/" ++ rest →
      (¬ IsAbsolute rest → components expanded = components home ++ components rest) ∧
      (IsAbsolute rest → expanded = rest)) ∧
    (IsAbsolute trimmed → expanded = trimmed) ∧
    (trimmed ≠ "~" → (∀ rest, trimmed ≠ "~/" ++ rest) → ¬ IsAbsolute trimmed →
      components expanded = components workingDirectory ++ components trimmed) := by
  intro trimmed expanded
  refine ⟨isAbsolute_expandPath hwork path, ?_, ?_, ?_, components_expandPath⟩
  · intro ht
    have hne : trimmed ≠ "" := by rw [ht]; decide
    calc expanded = joinPath workingDirectory (replaceTilde home "~") := by
          rw [← ht]
          exact expandPath_of_ne home workingDirectory hne
      _ = home := joinPath_of_isAbsolute hhome
  · intro rest hr
    have hne : trimmed ≠ "" := by rw [hr]; simp
    have he : expanded = joinPath home rest :=
      calc expanded = joinPath workingDirectory (replaceTilde home ("~/" ++ rest)) := by
            rw [← hr]
            exact expandPath_of_ne home workingDirectory hne
        _ = joinPath workingDirectory (joinPath home rest) := by rw [replaceTilde_append]
        _ = joinPath home rest := joinPath_of_isAbsolute (isAbsolute_joinPath hhome)
    rw [he]
    exact ⟨components_joinPath, joinPath_of_isAbsolute⟩
  · intro ha
    have hne : trimmed ≠ "" := by
      intro h
      rw [h] at ha
      exact absurd ha (by decide)
    calc expanded = joinPath workingDirectory (replaceTilde home trimmed) :=
          expandPath_of_ne home workingDirectory hne
      _ = joinPath workingDirectory trimmed := by rw [replaceTilde_of_isAbsolute ha]
      _ = trimmed := joinPath_of_isAbsolute ha

/-- Neither empty parts nor single points are components, but two points are one. A tilde stands
for the home directory only at the start and before a slash. -/
theorem expandPath_anchored_odd_paths :
    let expand := expandPath "/home/u/" "/srv//./jobs"
    IsAbsolute "/home/u/" ∧ IsAbsolute "/srv//./jobs" ∧
      components (expand " ~/a//./b/..\n") = ["home", "u", "a", "b", ".."] ∧
      expand "~///etc" = "//etc" ∧ expand " /~/ " = "/~/" ∧
      components (expand "~u/a") = ["srv", "jobs", "~u", "a"] ∧
      components (expand "\t") = ["srv", "jobs"] := by
  intro expand
  have hhome : IsAbsolute "/home/u/" := by decide
  have hwork : IsAbsolute "/srv//./jobs" := by decide
  have anchored := expandPath_anchored hhome hwork
  refine ⟨hhome, hwork, ?_, ?_, ?_, ?_, ?_⟩
  · have h := (anchored " ~/a//./b/..\n").2.2.1 "a//./b/.." (by decide +kernel)
    exact (h.1 (by decide)).trans (by decide +kernel)
  · exact ((anchored "~///etc").2.2.1 "//etc" (by decide +kernel)).2 (by decide)
  · have htrim : Text.trim " /~/ " = "/~/" := by decide +kernel
    have h := (anchored " /~/ ").2.2.2.1
    rw [htrim] at h
    exact h (by decide)
  · have htrim : Text.trim "~u/a" = "~u/a" := by decide +kernel
    have h := (anchored "~u/a").2.2.2.2
    rw [htrim] at h
    refine (h (by decide) (fun rest he => ?_) (by decide)).trans (by decide +kernel)
    simp [← String.toList_inj] at he
  · have htrim : Text.trim "\t" = "" := by decide +kernel
    have h := (anchored "\t").2.2.2.2
    rw [htrim] at h
    refine (h (by decide) (fun rest he => ?_) (by decide)).trans (by decide +kernel)
    simp [← String.toList_inj] at he

/-- The path behind the tilde and its slash starts with a slash itself, and the home directory is
lost. -/
theorem expandPath_loses_home :
    IsAbsolute "/home/u" ∧ IsAbsolute "/" ∧ Text.trim "~//etc/x" = "~/" ++ "/etc/x" ∧
      expandPath "/home/u" "/" "~//etc/x" = "/etc/x" ∧
      ¬ components "/home/u" <+: components (expandPath "/home/u" "/" "~//etc/x") := by
  decide +kernel

end SearchFilter.Settings
