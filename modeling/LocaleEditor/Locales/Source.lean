/-
LocaleEditor.Locales.Source — where the files of locales come from.

A source answers with the text of a file of a locale, with `none` where
there is no such file, or with the reason why it cannot be had.
-/
import LocaleEditor.Files.Disk

namespace LocaleEditor

/-- Why a source cannot answer. -/
inductive SourceError where
  /-- A path that cannot be read. -/
  | unreadable (path : String) (error : Files.FileError)
  /-- A locale or file whose name would lead elsewhere. -/
  | invalidPath (name : String)
  deriving DecidableEq, Repr

def SourceError.message : SourceError → String
  | .unreadable path error => "Failed to read " ++ path ++ ": " ++ error.message
  | .invalidPath name => "Invalid locale path: " ++ name

/-- The name of a file together with its locale. -/
def fileKey (locale file : String) : String := locale ++ "/" ++ file

/-- Gives the texts of files by locale and name. -/
structure LocaleSource where
  fileText? : (locale file : String) → Except SourceError (Option String)

/-- A source that holds its texts by key. -/
def LocaleSource.ofTexts (texts : List (String × String)) : LocaleSource where
  fileText? locale file := .ok (texts.lookup (fileKey locale file))

end LocaleEditor
