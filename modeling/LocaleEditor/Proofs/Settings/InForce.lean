/-
LocaleEditor.Proofs.Settings.InForce — the settings that are in force.

Settings come into force by being loaded for a workspace or by being changed
there. Both go through `validated`, so that whatever is tried, and however
often, the settings in force are valid and their pattern can be read; that the
files of locales can be listed rests on this.

* `load_eq_ok`, `update_eq_ok` — when a change succeeds, and what it does.
* `IsValid.after` — the step; `IsValid.run` — any number of changes.
* `changes_all_or_nothing` — the configuration after changes in a row, and what
  one more change does to it.
* `exists_root_moved_by_update` — the folder of the locales is one of the
  settings, and moves with them.
-/
import LocaleEditor.Settings.Configuration

namespace LocaleEditor

namespace Settings

variable {s : Settings}

/-- The pattern of valid settings can be read. -/
theorem IsValid.pattern (h : s.IsValid) : ∃ g, Glob.Pattern.ofText s.filePattern = .ok g := by
  unfold IsValid faults at h
  simp only [List.append_eq_nil_iff] at h
  have hpattern := h.1.1.2
  unfold patternFaults at hpattern
  split at hpattern
  · cases hpattern
  · cases hread : Glob.Pattern.ofText s.filePattern with
    | ok g => exact ⟨g, rfl⟩
    | error e => simp [hread] at hpattern

/-- And they indent by a width in the range. -/
theorem IsValid.indentWidth (h : s.IsValid) : 1 ≤ s.indentWidth ∧ s.indentWidth ≤ 16 := by
  unfold IsValid faults at h
  simp only [List.append_eq_nil_iff] at h
  have hwidth := h.1.2
  split at hwidth
  · next hrange => simpa [indentWidthRange] using hrange
  · cases hwidth

theorem isValid_default : Settings.default.IsValid := by decide +kernel

end Settings

namespace Configuration

/-! ## 1. One change -/

theorem validated_of_isValid {s : Settings} (h : s.IsValid) : validated s = .ok s := by
  unfold validated
  rw [show s.faults = [] from h]

theorem validated_of_not_isValid {s : Settings} (h : ¬ s.IsValid) :
    validated s = .error (.invalid s.faults) := by
  unfold validated
  split
  · next hnil => exact absurd hnil h
  · rfl

/-- The settings that are there for a workspace, valid or not; without a workspace those are the
defaults. -/
def found (disk : Files.Disk) : Option String → Except ConfigurationError Settings
  | some workspace => readSettings disk workspace
  | none => .ok Settings.default

variable {c changed : Configuration} {disk : Files.Disk} {workspace : Option String}
  {s : Settings} {e : ConfigurationError}

theorem load_eq (disk : Files.Disk) (workspace : Option String) :
    load disk workspace
      = (found disk workspace).bind fun s => (validated s).map fun valid => ⟨valid, workspace⟩ := by
  cases workspace <;> rfl

/-- Loading succeeds if valid settings are found, and replaces everything. -/
theorem load_eq_ok : load disk workspace = .ok changed ↔
    ∃ s, found disk workspace = .ok s ∧ s.IsValid ∧ changed = ⟨s, workspace⟩ := by
  rw [load_eq]
  cases found disk workspace with
  | error e => simp [Except.bind]
  | ok s =>
    by_cases h : s.IsValid
    · simp [Except.bind, validated_of_isValid h, Except.map, h, eq_comm]
    · simp [Except.bind, validated_of_not_isValid h, Except.map, h]

/-- Changing the settings succeeds if the new ones are valid, and keeps the workspace. -/
theorem update_eq_ok : c.update s = .ok changed ↔
    s.IsValid ∧ changed = { c with settings := s } := by
  rw [update]
  by_cases h : s.IsValid
  · simp [validated_of_isValid h, Except.map, h, eq_comm]
  · simp [validated_of_not_isValid h, Except.map, h]

theorem after_of_ok {change : Change} (h : c.attempt change = .ok changed) :
    c.after change = changed := by
  rw [after, h]

theorem after_of_error {change : Change} (h : c.attempt change = .error e) :
    c.after change = c := by
  rw [after, h]

/-! ## 2. Changes in a row -/

/-- A change lets no settings into force that are not valid. -/
theorem IsValid.after (hc : c.settings.IsValid) (change : Change) :
    (c.after change).settings.IsValid := by
  cases hattempt : c.attempt change with
  | error e => rwa [after_of_error hattempt]
  | ok changed =>
    rw [after_of_ok hattempt]
    cases change with
    | load disk workspace =>
      obtain ⟨s, -, hs, rfl⟩ := load_eq_ok.mp hattempt
      exact hs
    | update s =>
      obtain ⟨hs, rfl⟩ := update_eq_ok.mp hattempt
      exact hs

theorem IsValid.run (hc : c.settings.IsValid) (changes : List Change) :
    (c.run changes).settings.IsValid := by
  induction changes generalizing c with
  | nil => exact hc
  | cons change changes ih => exact ih (IsValid.after hc change)

/-- Valid settings describe a folder of locales. -/
theorem localeFolder_of_isValid (hc : c.settings.IsValid) :
    ∃ g, c.localeFolder = .ok ⟨c.localesRoot, g⟩ := by
  obtain ⟨g, hg⟩ := hc.pattern
  exact ⟨g, by rw [localeFolder, LocaleFolder.ofPattern, hg]; rfl⟩

/-- In every configuration that is reached the settings are valid and their folder of locales can
be opened. A change that fails leaves everything as it was. Loading succeeds exactly if valid
settings are found, and replaces the settings and the workspace; changing the settings succeeds
exactly if they are valid, and replaces nothing else, so that the folder of the locales stays where
it is unless the settings name another one. -/
theorem changes_all_or_nothing (changes : List Change) :
    let c := initial.run changes
    c.settings.IsValid ∧
    (∃ g, c.localeFolder = .ok ⟨c.localesRoot, g⟩) ∧
    (∀ change e, c.attempt change = .error e → c.after change = c) ∧
    (∀ change changed, c.attempt change = .ok changed → c.after change = changed) ∧
    (∀ disk workspace changed, c.attempt (.load disk workspace) = .ok changed ↔
      ∃ s, found disk workspace = .ok s ∧ s.IsValid ∧ changed = ⟨s, workspace⟩) ∧
    (∀ s changed, c.attempt (.update s) = .ok changed ↔
      s.IsValid ∧ changed = ⟨s, c.workspace⟩) ∧
    (∀ s, s.localesDir = c.settings.localesDir →
      (c.after (.update s)).localesRoot = c.localesRoot) := by
  intro c
  have hvalid : c.settings.IsValid := IsValid.run Settings.isValid_default changes
  refine ⟨hvalid, localeFolder_of_isValid hvalid, fun _ _ => after_of_error,
    fun _ _ => after_of_ok, fun _ _ _ => load_eq_ok, fun _ _ => update_eq_ok, fun s hdir => ?_⟩
  cases hattempt : c.attempt (.update s) with
  | error e => rw [after_of_error hattempt]
  | ok changed =>
    obtain ⟨-, rfl⟩ := update_eq_ok.mp hattempt
    rw [after_of_ok hattempt, localesRoot, localesRoot, hdir]

/-- Settings with another folder for the locales. -/
def movedLocales : Settings := { Settings.default with localesDir := "i18n" }

/-- Settings that are not valid. -/
def unindented : Settings := { Settings.default with indentWidth := 0 }

/-- After a change that succeeds, one that fails, which leaves the settings as they are. -/
theorem changes_all_or_nothing_unindented :
    (initial.run [.update movedLocales, .update unindented]).settings.IsValid ∧
    ¬ ∃ changed, (initial.run [.update movedLocales]).attempt (.update unindented) = .ok changed := by
  obtain ⟨hvalid, -⟩ := changes_all_or_nothing [.update movedLocales, .update unindented]
  obtain ⟨-, -, -, -, -, hupdate, -⟩ := changes_all_or_nothing [.update movedLocales]
  refine ⟨hvalid, ?_⟩
  rintro ⟨changed, hattempt⟩
  have hnot : ¬ unindented.IsValid := by decide +kernel
  exact hnot ((hupdate unindented changed).mp hattempt).1

/-- New settings can name another folder for the locales, and so changing the settings need not
keep that folder. -/
theorem exists_root_moved_by_update :
    ¬ ∀ (changes : List Change) (s : Settings) (changed : Configuration),
      (initial.run changes).attempt (.update s) = .ok changed →
      ((initial.run changes).after (.update s)).localesRoot
        = (initial.run changes).localesRoot := by
  intro h
  have hvalid : movedLocales.IsValid := by decide +kernel
  have hattempt : (initial.run []).attempt (.update movedLocales) = .ok ⟨movedLocales, none⟩ :=
    update_eq_ok.mpr ⟨hvalid, rfl⟩
  have hsame := h [] movedLocales _ hattempt
  rw [after_of_ok hattempt] at hsame
  exact absurd hsame (by decide +kernel)

end Configuration

end LocaleEditor
