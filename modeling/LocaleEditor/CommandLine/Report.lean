/-
LocaleEditor.CommandLine.Report — what is said when a command fails.

A report names what went wrong and then what lies behind it, the nearest
cause first. Several causes are numbered.
-/
import LocaleEditor.Draft.Decoded
import LocaleEditor.Session
import LocaleEditor.Settings.Configuration

namespace LocaleEditor.CommandLine

/-! ## 1. Failures -/

/-- Why a command fails. -/
inductive CommandError where
  | settings (workspace : String) (error : ConfigurationError)
  | indentWidth (error : ConfigurationError)
  | pattern (error : Glob.PatternError)
  | source (error : SourceError)
  | noFiles (locale : String)
  | unreadableDraft (path : String) (error : Files.FileError)
  | malformedDraft (error : Json.DocumentError)
  | opening (error : OpenError)
  | assembling (error : AssembleError)
  | unwritable (path : String) (error : Files.FileError)

/-- What lies behind the failure of a source. -/
def sourceCauses : SourceError → List String
  | .unreadable _ e => [e.message]
  | .invalidPath _ => []

namespace CommandError

def message : CommandError → String
  | .settings workspace _ => "Failed to load settings from " ++ workspace
  | .indentWidth _ => "Invalid --indent-width"
  | .pattern e => LocaleFolder.patternMessage e
  | .source e => e.message
  | .noFiles locale => "No locale files found for '" ++ locale ++ "'"
  | .unreadableDraft path _ => "Failed to read draft " ++ path
  | .malformedDraft e => Draft.invalidMessage e
  | .opening e => e.message
  | .assembling e => e.message
  | .unwritable path _ => "Failed to write " ++ path

/-- What lies behind a failure, the nearest cause first. -/
def causes : CommandError → List String
  | .settings _ e => e.message :: e.cause?.toList
  | .indentWidth e => e.message :: e.cause?.toList
  | .pattern e => [e.message]
  | .source e => sourceCauses e
  | .noFiles _ => []
  | .unreadableDraft _ e => [e.message]
  | .malformedDraft e => [e.message]
  | .opening (.source e) => sourceCauses e
  | .opening (.unsupportedFile _) => []
  | .assembling _ => []
  | .unwritable _ e => [e.message]

end CommandError

/-! ## 2. Reports -/

/-- A text with every line but the first moved to the right. -/
def hanging (width : Nat) (text : String) : String :=
  text.replace "\n" ("\n".pushn ' ' width)

/-- A number, to the right in a column. -/
def rightAligned (width n : Nat) : String :=
  let digits := toString n
  "".pushn ' ' (width - digits.length) ++ digits

/-- Causes with their numbers, from the one given on. -/
def numberedCauses : Nat → List String → List String
  | _, [] => []
  | n, c :: cs => (rightAligned 5 n ++ ": " ++ hanging 7 c) :: numberedCauses (n + 1) cs

/-- The lines of causes. -/
def causeLines : List String → List String
  | [] => []
  | [c] => ["", "Caused by:", "    " ++ hanging 4 c]
  | cs => "" :: "Caused by:" :: numberedCauses 0 cs

/-- The report of a failure. -/
def CommandError.report (e : CommandError) : String :=
  "\n".intercalate (("Error: " ++ e.message) :: causeLines e.causes) ++ "\n"

end LocaleEditor.CommandLine
