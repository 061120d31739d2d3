import Mathlib.Data.List.TakeWhile
import SearchFilter.Proofs.Except
import SearchFilter.Settings.Load

/-!
# Settings from layers

Files are laid over each other section by section, and each section may be missing. Main statement:
every setting is decided for itself by the uppermost layer that has it, a section or a file without
settings changes nothing, and loading ends in the settings that were decided or in the first rule
that they break.
-/

namespace SearchFilter.Settings

/-- The settings that are decided. -/
inductive Key where
  | backend
  | url
  | maxConnections
  | minConnections
  | acquireTimeout
  | statementTimeout
  | maxFilterBytes
deriving DecidableEq, Repr

namespace Key

abbrev Value : Key → Type
  | backend => Backend
  | url => String
  | _ => Nat

/-- The value on the command line, where only three settings have a place. -/
def onCommand : (k : Key) → CommandSettings → Option k.Value
  | backend, c => c.backend
  | url, c => c.databaseUrl
  | maxFilterBytes, c => c.maxFilterBytes
  | maxConnections, _ | minConnections, _ | acquireTimeout, _ | statementTimeout, _ => none

/-- The value in a file, if the file has the section and the section has the setting. -/
def inFile : (k : Key) → FileSettings → Option k.Value
  | backend, f => f.database.bind (·.backend)
  | url, f => f.database.bind (·.url)
  | maxConnections, f => f.database.bind (·.maxConnections)
  | minConnections, f => f.database.bind (·.minConnections)
  | acquireTimeout, f => f.database.bind (·.acquireTimeout)
  | statementTimeout, f => f.database.bind (·.statementTimeout)
  | maxFilterBytes, f => f.filters.bind (·.maxBytes)

def inProgram : (k : Key) → ProgramSettings → k.Value
  | backend, s => s.database.backend
  | url, s => s.database.url
  | maxConnections, s => s.database.maxConnections
  | minConnections, s => s.database.minConnections
  | acquireTimeout, s => s.database.acquireTimeout
  | statementTimeout, s => s.database.statementTimeout
  | maxFilterBytes, s => s.maxFilterBytes

/-- The value that no layer has to name, for the backend that is decided. -/
def default (decided : Backend) : (k : Key) → k.Value
  | backend => .sqlite
  | url => defaultUrl decided
  | maxConnections => defaultMaxConnections
  | minConnections => defaultMinConnections
  | acquireTimeout => defaultAcquireTimeout
  | statementTimeout => defaultStatementTimeout
  | maxFilterBytes => Filter.defaultLimit

variable {k : Key}

@[simp] theorem inFile_empty : k.inFile .empty = none := by
  cases k <;> rfl

theorem inFile_over (upper lower : FileSettings) :
    k.inFile (upper.over lower) = (k.inFile upper).or (k.inFile lower) := by
  obtain ⟨database, filters⟩ := upper
  obtain ⟨database', filters'⟩ := lower
  cases k <;> cases database <;> cases database' <;> cases filters <;> cases filters' <;>
    simp [inFile, FileSettings.over, DatabaseSection.over, DatabaseSection.empty,
      FilterSection.over, FilterSection.empty]

theorem ext_inProgram {s t : ProgramSettings} (h : ∀ k : Key, k.inProgram s = k.inProgram t) :
    s = t := by
  obtain ⟨⟨b, u, max, min, acquire, statement⟩, bytes⟩ := s
  obtain ⟨⟨b', u', max', min', acquire', statement'⟩, bytes'⟩ := t
  simp only [ProgramSettings.mk.injEq, DatabaseSettings.mk.injEq]
  exact ⟨⟨h backend, h url, h maxConnections, h minConnections, h acquireTimeout,
    h statementTimeout⟩, h maxFilterBytes⟩

end Key

theorem DatabaseSection.over_empty (s : DatabaseSection) : s.over .empty = s := by
  simp [DatabaseSection.over, DatabaseSection.empty]

theorem DatabaseSection.over_assoc (a b c : DatabaseSection) :
    (a.over b).over c = a.over (b.over c) := by
  simp [DatabaseSection.over, Option.or_assoc]

theorem FilterSection.over_empty (s : FilterSection) : s.over .empty = s := by
  simp [FilterSection.over, FilterSection.empty]

theorem FilterSection.over_assoc (a b c : FilterSection) :
    (a.over b).over c = a.over (b.over c) := by
  simp [FilterSection.over, Option.or_assoc]

namespace FileSettings

theorem over_empty (f : FileSettings) : f.over .empty = f := by
  obtain ⟨database, filters⟩ := f
  cases database <;> cases filters <;>
    simp [FileSettings.over, empty, DatabaseSection.over_empty, FilterSection.over_empty]

theorem over_assoc (a b c : FileSettings) : (a.over b).over c = a.over (b.over c) := by
  obtain ⟨database, filters⟩ := a
  obtain ⟨database', filters'⟩ := b
  obtain ⟨database'', filters''⟩ := c
  simp only [FileSettings.over, mk.injEq]
  constructor
  · cases database <;> cases database' <;>
      simp [DatabaseSection.over_empty, DatabaseSection.over_assoc]
  · cases filters <;> cases filters' <;>
      simp [FilterSection.over_empty, FilterSection.over_assoc]

/-- Files laid over each other, the lowest first, the whole over nothing. -/
def layered (files : List FileSettings) : FileSettings :=
  files.foldl (fun lower upper => upper.over lower) .empty

end FileSettings

open FileSettings (layered)

theorem Key.inFile_foldl_over (k : Key) (files : List FileSettings) (lowest : FileSettings) :
    k.inFile (files.foldl (fun lower upper => upper.over lower) lowest) =
      (files.reverse.findSome? k.inFile).or (k.inFile lowest) := by
  induction files generalizing lowest with
  | nil => rfl
  | cons f files ih =>
    rw [List.foldl_cons, ih, Key.inFile_over, List.reverse_cons, List.findSome?_append,
      Option.or_assoc, List.findSome?_singleton]

/-- In layers a setting has the value of the uppermost file that has it. -/
theorem Key.inFile_layered (k : Key) (files : List FileSettings) :
    k.inFile (layered files) = files.reverse.findSome? k.inFile := by
  rw [layered, Key.inFile_foldl_over, Key.inFile_empty, Option.or_none]

/-- What the layers leave open is decided by the default of the backend that is decided. -/
theorem inProgram_resolve (command : CommandSettings) (file : FileSettings) (k : Key) :
    k.inProgram (resolve command file) = ((k.onCommand command).or (k.inFile file)).getD
      (k.default (resolve command file).database.backend) := by
  obtain ⟨database, filters⟩ := file
  cases k <;> cases database <;> cases filters <;>
    simp [Key.inProgram, Key.onCommand, Key.inFile, Key.default, resolve, DatabaseSection.empty,
      FilterSection.empty]

theorem resolve_congr {command : CommandSettings} {f g : FileSettings}
    (h : ∀ k : Key, k.inFile f = k.inFile g) : resolve command f = resolve command g := by
  have hb : (resolve command f).database.backend = (resolve command g).database.backend := by
    have hf := inProgram_resolve command f .backend
    have hg := inProgram_resolve command g .backend
    rw [h .backend] at hf
    exact hf.trans hg.symm
  apply Key.ext_inProgram
  intro k
  rw [inProgram_resolve, inProgram_resolve, h k, hb]

theorem resolve_layered_congr {command : CommandSettings} {f g : FileSettings}
    (h : ∀ k : Key, k.inFile f = k.inFile g) (below above : List FileSettings) :
    resolve command (layered (below ++ f :: above)) =
      resolve command (layered (below ++ g :: above)) := by
  apply resolve_congr
  intro k
  rw [Key.inFile_layered, Key.inFile_layered]
  simp [List.findSome?_append, List.findSome?_cons, h k]

theorem resolve_layered_of_none {command : CommandSettings} {f : FileSettings}
    (h : ∀ k : Key, k.inFile f = none) (below above : List FileSettings) :
    resolve command (layered (below ++ f :: above)) =
      resolve command (layered (below ++ above)) := by
  apply resolve_congr
  intro k
  rw [Key.inFile_layered, Key.inFile_layered]
  simp [List.findSome?_append, h k]

theorem trim_eq_empty_iff {s : String} :
    Text.trim s = "" ↔ ∀ c ∈ s.toList, Text.isBlank c = true := by
  rw [← String.toList_eq_nil_iff, Text.toList_trim, Text.trimList, List.reverse_eq_nil_iff,
    List.dropWhile_eq_nil_iff]
  constructor
  · intro h c hc
    rw [← List.takeWhile_append_dropWhile (p := Text.isBlank) (l := s.toList)] at hc
    rcases List.mem_append.mp hc with hc | hc
    · exact List.mem_takeWhile_imp hc
    · exact h c (List.mem_reverse.mpr hc)
  · intro h
    rw [List.dropWhile_eq_nil_iff.mpr h]
    simp

namespace ProgramSettings

variable {s : ProgramSettings}

/-- The rules that settings have to keep, in their order, with the error that reports each. -/
def rules (s : ProgramSettings) : List (Bool × SettingsError) :=
  [(s.database.url.toList.any (!Text.isBlank ·), .urlMissing s.database.backend),
    (0 < s.database.maxConnections, .noConnections),
    (s.database.minConnections ≤ s.database.maxConnections,
      .connectionsOutOfOrder s.database.minConnections s.database.maxConnections),
    (0 < s.maxFilterBytes, .noFilterBytes)]

/-- The errors of the rules that are broken. -/
def broken (s : ProgramSettings) : List SettingsError :=
  (s.rules.filter fun rule => !rule.1).map Prod.snd

theorem any_not_isBlank_iff :
    s.database.url.toList.any (!Text.isBlank ·) = true ↔ Text.trim s.database.url ≠ "" := by
  rw [ne_eq, trim_eq_empty_iff, List.any_eq_true]
  simp

theorem broken_eq_nil_iff : s.broken = [] ↔
    (∃ c ∈ s.database.url.toList, Text.isBlank c = false) ∧ 0 < s.database.maxConnections ∧
      s.database.minConnections ≤ s.database.maxConnections ∧ 0 < s.maxFilterBytes := by
  simp [broken, rules, List.filter_eq_nil_iff]

/-- The check ends in the first rule that is broken. -/
theorem check_eq : s.check = match s.broken.head? with
    | some e => .error e
    | none => .ok () := by
  unfold check broken rules
  by_cases hu : Text.trim s.database.url = ""
  · have hb : s.database.url.toList.any (!Text.isBlank ·) = false := by
      rw [← Bool.not_eq_true, any_not_isBlank_iff]
      simpa using hu
    rw [if_pos hu, hb]
    rfl
  rw [if_neg hu, any_not_isBlank_iff.mpr hu]
  by_cases hmax : s.database.maxConnections = 0
  · simp [hmax]
  rw [if_neg hmax]
  have hpos : 0 < s.database.maxConnections := Nat.pos_of_ne_zero hmax
  by_cases hmin : s.database.maxConnections < s.database.minConnections
  · simp [hpos, hmin]
  rw [if_neg hmin]
  have hle : s.database.minConnections ≤ s.database.maxConnections := Nat.not_lt.mp hmin
  by_cases hbytes : s.maxFilterBytes = 0
  · simp [hpos, hle, hbytes]
  · simp [hpos, hle, hbytes, Nat.pos_of_ne_zero hbytes]

end ProgramSettings

/-- Each setting is decided by the uppermost layer that has it, whatever else the layers have:
the command line, the files from the last one on, the default. Layers may be laid over each other in
any grouping, and a section or a file without settings is as good as none. Files that can be read
lead to the settings that are decided, unless these break a rule; then to the first one broken. -/
theorem decided_by_uppermost (command : CommandSettings) :
    (∀ (files : List FileSettings) (k : Key),
      let s := resolve command (layered files)
      k.inProgram s = ((k.onCommand command).or (files.reverse.findSome? k.inFile)).getD
        (k.default s.database.backend)) ∧
    (∀ a b c : FileSettings, (a.over b).over c = a.over (b.over c)) ∧
    (∀ below above database filters,
      resolve command (layered (below ++ ⟨some .empty, filters⟩ :: above)) =
        resolve command (layered (below ++ ⟨none, filters⟩ :: above)) ∧
      resolve command (layered (below ++ ⟨database, some .empty⟩ :: above)) =
        resolve command (layered (below ++ ⟨database, none⟩ :: above)) ∧
      resolve command (layered (below ++ .empty :: above)) =
        resolve command (layered (below ++ above))) ∧
    ∀ profile overlay lower upper, profile.read = .ok lower → overlay.read = .ok upper →
      let s := resolve command (layered [settingsOf lower, settingsOf upper])
      ((assemble command profile overlay).outcome =
        match s.broken.head? with
        | some e => .error e
        | none => .ok s) ∧
      ((∃ t, (assemble command profile overlay).outcome = .ok t) ↔
        (∃ c ∈ s.database.url.toList, Text.isBlank c = false) ∧ 0 < s.database.maxConnections ∧
          s.database.minConnections ≤ s.database.maxConnections ∧ 0 < s.maxFilterBytes) := by
  refine ⟨?_, FileSettings.over_assoc, ?_, ?_⟩
  · intro files k s
    rw [← Key.inFile_layered]
    exact inProgram_resolve command (layered files) k
  · intro below above database filters
    refine ⟨resolve_layered_congr ?_ below above, resolve_layered_congr ?_ below above,
      resolve_layered_of_none (fun _ => Key.inFile_empty) below above⟩
    · intro k
      cases k <;> rfl
    · intro k
      cases k <;> rfl
  · intro profile overlay lower upper hl hu s
    have hs : (assemble command profile overlay).outcome = s.check.map fun _ => s := by
      rw [assemble, hl, hu]
      simp [settle, s, layered, FileSettings.over_empty]
    rw [hs, ProgramSettings.check_eq, ← ProgramSettings.broken_eq_nil_iff]
    cases s.broken with
    | nil => simp [Except.map]
    | cons e rest => simp [Except.map]

/-- A section of the upper file takes nothing from that of the lower one: the backend and the most
connections are still those of the lower file. Of the two rules broken the first is reported. -/
theorem decided_by_uppermost_two_faults :
    let profile : Layer := ⟨"a", some (.text
      "\x7b\"database\":\x7b\"backend\":\"postgres\",\"max_connections\":1\x7d\x7d"), false⟩
    let overlay : Layer := ⟨"b", some (.text
      "\x7b\"filters\":null,\"database\":\x7b\"min_connections\":2\x7d\x7d"), true⟩
    let command : CommandSettings := ⟨none, none, none, some 9⟩
    let lower : FileSettings := ⟨some ⟨some .postgres, none, some 1, none, none, none⟩, none⟩
    let upper : FileSettings := ⟨some ⟨none, none, none, some 2, none, none⟩, none⟩
    profile.read = .ok (some ⟨lower, []⟩) ∧ overlay.read = .ok (some ⟨upper, []⟩) ∧
      resolve command (layered [lower, upper]) = ⟨⟨.postgres, "", 1, 2, 30, 60⟩, 9⟩ ∧
      (assemble command profile overlay).outcome = .error (.urlMissing .postgres) := by
  intro profile overlay command lower upper
  have hl : profile.read = .ok (some ⟨lower, []⟩) := by decide +kernel
  have hu : overlay.read = .ok (some ⟨upper, []⟩) := by decide +kernel
  have hs : resolve command (layered [lower, upper]) = ⟨⟨.postgres, "", 1, 2, 30, 60⟩, 9⟩ := by
    decide
  have hb : (resolve command (layered [lower, upper])).broken.head? =
      some (.urlMissing .postgres) := by
    rw [hs]
    decide
  have ho := ((decided_by_uppermost command).2.2.2 profile overlay _ _ hl hu).1
  simp only [settingsOf] at ho
  rw [hb] at ho
  exact ⟨hl, hu, hs, ho⟩

end SearchFilter.Settings
