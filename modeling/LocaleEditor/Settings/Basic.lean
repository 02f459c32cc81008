/-
LocaleEditor.Settings.Basic — what a workspace may set.

Every setting has a default. Settings may be wrong in several ways at
once: `Settings.faults` lists them all, in the order of the settings,
and settings are valid when there are none.
-/
import LocaleEditor.Assemble
import LocaleEditor.Glob.Pattern

namespace LocaleEditor

/-! ## 1. Settings -/

/-- The settings of a workspace. -/
structure Settings where
  /-- The folder of the locales, from the workspace on. -/
  localesDir : String
  /-- The locale whose files give keys and their order. -/
  referenceLocale : String
  /-- The files to open where none is named, the most wanted first. -/
  preferredFiles : List String
  /-- The pattern for locale files. -/
  filePattern : String
  indentWidth : Nat
  hideTranslated : Bool
  /-- Text for files that do not exist yet, by the stem of their name. -/
  templates : List (String × String)
  deriving DecidableEq, Repr

namespace Settings

/-- The settings where nothing is set. -/
def default : Settings where
  localesDir := "locales"
  referenceLocale := "en"
  preferredFiles := ["translation.ts", "game.json"]
  filePattern := "*.\x7bts,tsx,js,jsx,json\x7d"
  indentWidth := defaultIndentWidth
  hideTranslated := true
  templates := []

/-- Whether two texts differ at most in the case of ASCII letters. -/
def sameButCase (a b : String) : Bool := a.toList.map Char.toLower == b.toList.map Char.toLower

/-- The file to open where none is named: the most wanted of those that are there, or else the
first of all. -/
def defaultFile? (s : Settings) (files : List String) : Option String :=
  s.preferredFiles.findSome? (fun wanted => files.find? fun f => sameButCase f wanted)
    <|> files.head?

/-- How files are assembled under the settings. -/
def assembleOptions (s : Settings) : AssembleOptions := ⟨s.indentWidth, s.templates⟩

end Settings

/-! ## 2. Faults -/

/-- What can be wrong with settings. -/
inductive SettingsFault where
  | emptyLocalesDir
  | emptyReferenceLocale
  | emptyFilePattern
  | unreadablePattern (error : Glob.PatternError)
  | indentWidthOutOfRange (width : Nat)
  | unusableTemplate (stem : String) (error : Script.ExportError)
  deriving DecidableEq, Repr

/-- The smallest and the greatest indentation. -/
def indentWidthRange : Nat × Nat := (1, 16)

namespace SettingsFault

/-- The setting that is wrong. -/
def setting : SettingsFault → String
  | .emptyLocalesDir => "localesDir"
  | .emptyReferenceLocale => "referenceLocale"
  | .emptyFilePattern => "filePattern"
  | .unreadablePattern _ => "filePattern"
  | .indentWidthOutOfRange _ => "indentWidth"
  | .unusableTemplate stem _ => "assemblyTemplates." ++ stem

def message : SettingsFault → String
  | .emptyLocalesDir => "The directory cannot be empty. Example: \"locales\""
  | .emptyReferenceLocale => "The reference locale cannot be empty. Example: \"en\""
  | .emptyFilePattern => "The pattern cannot be empty. Example: \"*.\x7bts,json\x7d\""
  | .unreadablePattern e => "Invalid glob pattern '" ++ e.pattern ++ "': " ++ e.message
  | .indentWidthOutOfRange width =>
    "Must be between " ++ toString indentWidthRange.1 ++ " and " ++ toString indentWidthRange.2
      ++ ", got " ++ toString width
  | .unusableTemplate _ e => "The boilerplate is not a usable locale module: " ++ e.message

/-- The fault with its setting. -/
def text (f : SettingsFault) : String :=
  "Configuration error in '" ++ f.setting ++ "': " ++ f.message

/-- Faults as a numbered list, the first with the number given. -/
def numbered : Nat → List SettingsFault → List String
  | _, [] => []
  | n, f :: fs =>
    ("  " ++ toString n ++ ". " ++ f.setting ++ " - " ++ f.message) :: numbered (n + 1) fs

end SettingsFault

namespace Settings

/-- What is wrong with the pattern for files. -/
def patternFaults (pattern : String) : List SettingsFault :=
  if pattern.isEmpty then [.emptyFilePattern]
  else
    match Glob.Pattern.ofText pattern with
    | .ok _ => []
    | .error e => [.unreadablePattern e]

/-- What is wrong with a template: every template has to be a script that exports something. -/
def templateFaults : String × String → List SettingsFault
  | (stem, text) =>
    match Language.typeScript.dialect? with
    | none => []
    | some dialect =>
      match Script.readExports dialect text.toList with
      | .ok _ => []
      | .error e => [.unusableTemplate stem e]

/-- The templates in the order of their stems. -/
def sortedTemplates (s : Settings) : List (String × String) :=
  s.templates.mergeSort fun a b => decide (a.1 ≤ b.1)

/-- Everything that is wrong with the settings. -/
def faults (s : Settings) : List SettingsFault :=
  (if s.localesDir.isEmpty then [.emptyLocalesDir] else [])
    ++ (if s.referenceLocale.isEmpty then [.emptyReferenceLocale] else [])
    ++ patternFaults s.filePattern
    ++ (if indentWidthRange.1 ≤ s.indentWidth ∧ s.indentWidth ≤ indentWidthRange.2 then []
      else [.indentWidthOutOfRange s.indentWidth])
    ++ s.sortedTemplates.flatMap templateFaults

/-- Nothing is wrong with the settings. -/
def IsValid (s : Settings) : Prop := s.faults = []

instance (s : Settings) : Decidable s.IsValid := inferInstanceAs (Decidable (s.faults = []))

end Settings

end LocaleEditor
