/-
LocaleEditor.Settings.Decoded — settings from their written form.

Settings are a record: an object that names those it sets, or a list of
them in order. What is not set keeps its default. Of two templates for
one stem the later one counts.
-/
import LocaleEditor.Json.Record
import LocaleEditor.Settings.Basic

namespace LocaleEditor.Settings

open LocaleEditor.Json

/-- The settings that were read. -/
structure Parts where
  localesDir : Option String
  referenceLocale : Option String
  preferredFiles : Option (List String)
  filePattern : Option String
  indentWidth : Option Nat
  hideTranslated : Option Bool
  templates : Option (List (String × String))

/-- Nothing is read yet. -/
def Parts.none : Parts := ⟨.none, .none, .none, .none, .none, .none, .none⟩

/-- The later one of any two entries with one key. -/
def lastOfEach : List (String × String) → List (String × String)
  | [] => []
  | (key, v) :: rest =>
    if rest.any (·.1 = key) then lastOfEach rest else (key, v) :: lastOfEach rest

/-- What was read, and defaults for the rest. -/
def Parts.settings (p : Parts) : Settings where
  localesDir := p.localesDir.getD default.localesDir
  referenceLocale := p.referenceLocale.getD default.referenceLocale
  preferredFiles := p.preferredFiles.getD default.preferredFiles
  filePattern := p.filePattern.getD default.filePattern
  indentWidth := p.indentWidth.getD default.indentWidth
  hideTranslated := p.hideTranslated.getD default.hideTranslated
  templates := (p.templates.map lastOfEach).getD default.templates

/-- The settings by name. -/
def fields (levels : Nat) : List (Field (Reader (Parts → Parts)) Parts) := [
  .reading "localesDir" Parts.localesDir (fun a p => { p with localesDir := some a }) text,
  .reading "referenceLocale" Parts.referenceLocale
    (fun a p => { p with referenceLocale := some a }) text,
  .reading "preferredFiles" Parts.preferredFiles
    (fun a p => { p with preferredFiles := some a }) (list levels text),
  .reading "filePattern" Parts.filePattern (fun a p => { p with filePattern := some a }) text,
  .reading "indentWidth" Parts.indentWidth (fun a p => { p with indentWidth := some a }) count,
  .reading "hideTranslated" Parts.hideTranslated
    (fun a p => { p with hideTranslated := some a }) boolean,
  .reading "assemblyTemplates" Parts.templates
    (fun a p => { p with templates := some a }) (map levels text)]

/-- Settings as a record. -/
def record (levels : Nat) : Record (Reader (Parts → Parts)) Parts Settings where
  name := "struct TranslatorSettings"
  fields := fields levels
  start := Parts.none
  complete := false
  finish p := .ok p.settings

/-- The settings that a text is. -/
def decode (document : String) : Except DocumentError Settings :=
  readDocument ((record (depthLimit - 1)).read depthLimit) document

end LocaleEditor.Settings
