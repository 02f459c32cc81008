/-
LocaleEditor.Locales.Folder — locales on a disk.

A folder holds a folder for each locale, and this one its files. Names
of locales and files have to be plain, so that no path leads out of the
folder. The files of a locale are those that its pattern matches and
that no rule leaves out.
-/
import LocaleEditor.Files.Ignore
import LocaleEditor.Locales.Source

namespace LocaleEditor

open LocaleEditor.Files

/-- A folder of locales, and the pattern for the files in them. -/
structure LocaleFolder where
  root : String
  pattern : Glob.Pattern

namespace LocaleFolder

/-- What is said of a pattern that cannot be read. -/
def patternMessage (e : Glob.PatternError) : String :=
  "Invalid file pattern '" ++ e.pattern ++ "': " ++ e.message

/-- The folder at `root` with the files that `pattern` describes. -/
def ofPattern (root pattern : String) : Except Glob.PatternError LocaleFolder :=
  (Glob.Pattern.ofText pattern).map fun g => ⟨root, g⟩

/-- A path extended by names, each of which has to be plain. -/
def pathFrom (path : String) : List String → Except SourceError String
  | [] => .ok path
  | name :: names =>
    if isPlain name then pathFrom (join path name) names else .error (.invalidPath name)

/-- The path of names inside the folder. -/
def path (f : LocaleFolder) (names : List String) : Except SourceError String :=
  pathFrom f.root names

/-- The text of a file. -/
def fileText? (f : LocaleFolder) (disk : Disk) (locale file : String) :
    Except SourceError (Option String) :=
  match f.path [locale, file] with
  | .error e => .error e
  | .ok path =>
    match disk.readText path with
    | .ok text => .ok (some text)
    | .error .notFound => .ok none
    | .error e => .error (.unreadable path e)

/-- The folder as a source. -/
def source (f : LocaleFolder) (disk : Disk) : LocaleSource := ⟨f.fileText? disk⟩

/-- Names in order. -/
def sorted (names : List String) : List String := names.mergeSort fun a b => decide (a ≤ b)

/-- The locales, in order. Where there is no folder there are none. -/
def locales (f : LocaleFolder) (disk : Disk) : Except SourceError (List String) :=
  match disk.readFolder f.root with
  | .ok entries => .ok (sorted ((entries.filter fun e => e.2.isFolder).map (·.1)))
  | .error .notFound => .ok []
  | .error e => .error (.unreadable f.root e)

/-- The files of a locale, in order. -/
def files (f : LocaleFolder) (disk : Disk) (locale : String) : Except SourceError (List String) :=
  (f.path [locale]).map fun path => sorted ((disk.files path).filter f.pattern.isMatch)

end LocaleFolder

end LocaleEditor
