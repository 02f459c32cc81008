/-
LocaleEditor.Settings.Configuration — the settings in force.

Settings come into force only when they are valid, and all at once: when
loading or changing them fails, everything stays as it was.
-/
import LocaleEditor.Locales.Folder
import LocaleEditor.Settings.Decoded

namespace LocaleEditor

/-- The name of the file that holds the settings of a workspace. -/
def settingsFile : String := ".js-i18n-translator.json"

/-- Why settings do not come into force. -/
inductive ConfigurationError where
  | invalid (faults : List SettingsFault)
  | unreadable (error : Files.FileError)
  | malformed (error : Json.DocumentError)

namespace ConfigurationError

def message : ConfigurationError → String
  | .invalid faults =>
    "Configuration validation failed:\n" ++ "\n".intercalate (SettingsFault.numbered 1 faults)
  | .unreadable e => "Failed to load configuration file: " ++ e.message
  | .malformed e => "Failed to parse configuration: " ++ e.message

/-- The message of what lies behind the error. -/
def cause? : ConfigurationError → Option String
  | .invalid _ => none
  | .unreadable e => some e.message
  | .malformed e => some e.message

end ConfigurationError

/-- The settings in force, and the workspace that they were loaded for. -/
structure Configuration where
  settings : Settings
  workspace : Option String
  deriving DecidableEq, Repr

namespace Configuration

/-- Defaults, and no workspace. -/
def initial : Configuration := ⟨Settings.default, none⟩

/-- The settings if they are valid. -/
def validated (s : Settings) : Except ConfigurationError Settings :=
  match s.faults with
  | [] => .ok s
  | faults => .error (.invalid faults)

/-- The settings that a workspace holds; defaults if it holds none. -/
def readSettings (disk : Files.Disk) (workspace : String) : Except ConfigurationError Settings :=
  let path := Files.join workspace settingsFile
  if disk.contains path then
    match disk.readText path with
    | .error e => .error (.unreadable e)
    | .ok text =>
      match Settings.decode text with
      | .error e => .error (.malformed e)
      | .ok s => .ok s
  else .ok Settings.default

/-- The configuration of a workspace, or of none. -/
def load (disk : Files.Disk) (workspace : Option String) :
    Except ConfigurationError Configuration := do
  let settings ←
    match workspace with
    | some w => readSettings disk w
    | none => .ok Settings.default
  let valid ← validated settings
  pure ⟨valid, workspace⟩

/-- The configuration with other settings. -/
def update (c : Configuration) (settings : Settings) : Except ConfigurationError Configuration :=
  (validated settings).map fun valid => { c with settings := valid }

/-- The folder of the locales. -/
def localesRoot (c : Configuration) : String :=
  Files.join (c.workspace.getD "") c.settings.localesDir

/-- The locales of the workspace. -/
def localeFolder (c : Configuration) : Except Glob.PatternError LocaleFolder :=
  LocaleFolder.ofPattern c.localesRoot c.settings.filePattern

/-! ## Changes in a row -/

/-- What can be asked of a configuration. -/
inductive Change where
  | load (disk : Files.Disk) (workspace : Option String)
  | update (settings : Settings)

/-- The outcome of a change. -/
def attempt (c : Configuration) : Change → Except ConfigurationError Configuration
  | .load disk workspace => Configuration.load disk workspace
  | .update settings => c.update settings

/-- The configuration after a change; one that fails changes nothing. -/
def after (c : Configuration) (change : Change) : Configuration :=
  match c.attempt change with
  | .ok changed => changed
  | .error _ => c

/-- The configuration after changes in a row. -/
def run (c : Configuration) (changes : List Change) : Configuration := changes.foldl after c

end Configuration

end LocaleEditor
