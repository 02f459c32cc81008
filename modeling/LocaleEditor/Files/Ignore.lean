/-
LocaleEditor.Files.Ignore — files that are left out of a listing.

A folder may hold lists of rules, a rule a line. A rule is a pattern
for paths below that folder: it leaves out what it matches, or keeps it
after a `!`. Of the rules in a list the last one that applies decides,
of the lists of one kind the one that lies nearest.

`.ignore` lists always count. `.gitignore` lists and `.git/info/exclude`
count up to the nearest folder that is a repository, and not at all
where there is none. A name that begins with a dot is left out unless a
rule keeps it.
-/
import LocaleEditor.Files.Disk
import LocaleEditor.Glob.Pattern
import LocaleEditor.Text.Blank

namespace LocaleEditor.Files

/-! ## 1. Rules -/

/-- What is done with an entry. -/
inductive Verdict where
  | leaveOut
  | keep
  deriving DecidableEq, Repr

/-- A rule for the entries below a folder. -/
structure IgnoreRule where
  pattern : Glob.Pattern
  verdict : Verdict
  foldersOnly : Bool
  deriving Repr

namespace IgnoreRule

/-- A line without the white space at its end, unless that is escaped. -/
def trimLine (line : List Char) : List Char :=
  match line.reverse with
  | ' ' :: '\\' :: _ => line
  | _ => Text.dropRightWhile Text.isBlank line

/-- The verdict of a rule, whether it is tied to its folder, and its pattern. -/
def splitFront : List Char → Verdict × Bool × List Char
  | '\\' :: '!' :: r => (.leaveOut, false, '!' :: r)
  | '\\' :: '#' :: r => (.leaveOut, false, '#' :: r)
  | '!' :: '/' :: r => (.keep, true, r)
  | '!' :: r => (.keep, false, r)
  | '/' :: r => (.leaveOut, true, r)
  | r => (.leaveOut, false, r)

/-- Whether a rule is for folders only, and its pattern without the slash that says so. -/
def splitEnd (pattern : List Char) : Bool × List Char :=
  match pattern.reverse with
  | '/' :: '\\' :: r => (true, r.reverse)
  | '/' :: r => (true, r.reverse)
  | _ => (false, pattern)

/-- The pattern for paths from the folder on. A pattern without a slash that is not tied to the
folder holds at any depth. -/
def placed (tied : Bool) (pattern : List Char) : List Char :=
  if tied || pattern.contains '/' || pattern == "**".toList then pattern
  else "**/".toList ++ pattern

/-- The pattern made to mean what lies inside a folder and not the folder itself. -/
def inside (pattern : List Char) : List Char :=
  if "**/".toList.isPrefixOf pattern.reverse then pattern ++ "/*".toList else pattern

/-- The rule of a line, if it holds one that can be read. -/
def ofLine? (line : List Char) : Option IgnoreRule :=
  if line.head? = some '#' then none
  else
    let rule := trimLine line
    if rule.isEmpty then none
    else
      let (verdict, tied, rest) := splitFront rule
      let (foldersOnly, body) := splitEnd rest
      match Glob.parse true (String.ofList (inside (placed tied body))) with
      | .ok tokens => some ⟨⟨tokens, true⟩, verdict, foldersOnly⟩
      | .error _ => none

/-- The lines of a file up to the first that is no text. -/
def textLines (bytes : ByteArray) : List (List Char) :=
  let lines := (bytes.toList.splitOn 10).map fun l => String.fromUTF8? ⟨l.toArray⟩
  (lines.takeWhile Option.isSome).filterMap fun l => l.map String.toList

/-- A line without the carriage return at its end. -/
def dropReturn (line : List Char) : List Char :=
  match line.reverse with
  | '\r' :: r => r.reverse
  | _ => line

/-- The rules of a file, in order. Byte order marks in front do not count. -/
def ofFile (bytes : ByteArray) : List IgnoreRule :=
  match (textLines bytes).map dropReturn with
  | [] => []
  | first :: rest => (first.dropWhile (· = '\ufeff') :: rest).filterMap ofLine?

/-- Whether a rule applies to an entry. -/
def applies (path : String) (isFolder : Bool) (r : IgnoreRule) : Bool :=
  (isFolder || !r.foldersOnly) && r.pattern.isMatch path

end IgnoreRule

/-- The verdict of the last rule that applies. -/
def verdict? (rules : List IgnoreRule) (path : String) (isFolder : Bool) : Option Verdict :=
  (rules.reverse.find? (IgnoreRule.applies path isFolder)).map IgnoreRule.verdict

/-! ## 2. The rules of a folder -/

/-- The lists of rules that a folder holds, and whether it is a repository. -/
structure FolderRules where
  always : List IgnoreRule
  tracked : List IgnoreRule
  excluded : List IgnoreRule
  isRepository : Bool

/-- The rules of the file that names lead to. -/
def rulesAt (entries : List (String × Entry)) (names : List String) : List IgnoreRule :=
  match entryAt? entries names with
  | some (.file bytes) => IgnoreRule.ofFile bytes
  | _ => []

def FolderRules.ofEntries (entries : List (String × Entry)) : FolderRules where
  always := rulesAt entries [".ignore"]
  tracked := rulesAt entries [".gitignore"]
  excluded := rulesAt entries [".git", "info", "exclude"]
  isRepository := (entries.lookup ".git").isSome || (entries.lookup ".jj").isSome

/-- A folder around an entry, with the names that lead from it to the folder of the entry. -/
structure Enclosing where
  rules : FolderRules
  names : List String

/-- The folders up to the nearest that is a repository; none where there is no such. -/
def upToRepository : List Enclosing → List Enclosing
  | [] => []
  | f :: fs =>
    if f.rules.isRepository then [f]
    else
      match upToRepository fs with
      | [] => []
      | outer => f :: outer

/-- The verdict of the nearest list of a kind that has one. -/
def nearestVerdict? (kind : FolderRules → List IgnoreRule) (around : List Enclosing) (name : String)
    (isFolder : Bool) : Option Verdict :=
  around.findSome? fun f =>
    verdict? (kind f.rules) ("/".intercalate (f.names ++ [name])) isFolder

/-- Whether an entry is left out. `around` are the folders it lies in, the nearest first. -/
def isLeftOut (around : List Enclosing) (name : String) (isFolder : Bool) : Bool :=
  let repository := upToRepository around
  let verdict := nearestVerdict? FolderRules.always around name isFolder
    <|> nearestVerdict? FolderRules.tracked repository name isFolder
    <|> nearestVerdict? FolderRules.excluded repository name isFolder
  match verdict with
  | some .leaveOut => true
  | some .keep => false
  | none => name.startsWith "."

/-! ## 3. Listings -/

def Entry.isFolder : Entry → Bool
  | .folder _ => true
  | .file _ => false

/-- The folders around the entries of a folder that lies in others. -/
def enter (around : List Enclosing) (entries : List (String × Entry)) : List Enclosing :=
  ⟨FolderRules.ofEntries entries, []⟩ :: around

/-- The folders around, seen from the folder with this name. -/
def descend (around : List Enclosing) (name : String) : List Enclosing :=
  around.map fun f => { f with names := f.names ++ [name] }

mutual

/-- The files that an entry holds, or is, as the names that lead to them. -/
def Entry.files (around : List Enclosing) : Entry → List (List String)
  | .file _ => [[]]
  | .folder entries => filesAmong (enter around entries) entries

/-- The files among entries that are not left out, and in their folders. -/
def filesAmong (around : List Enclosing) : List (String × Entry) → List (List String)
  | [] => []
  | (name, entry) :: rest =>
    let here :=
      if isLeftOut around name entry.isFolder then []
      else (Entry.files (descend around name) entry).map (name :: ·)
    here ++ filesAmong around rest

end

/-- The folders that names lead through from the top, the last one first. -/
def Disk.enclosing (d : Disk) (names : List String) : List Enclosing :=
  (List.range names.length).reverse.filterMap fun i =>
    match d.entry? (names.take i) with
    | some (.folder entries) => some ⟨FolderRules.ofEntries entries, names.drop i⟩
    | _ => none

/-- The paths of the files below the folder that a path leads to. A file is its own only file, and
where nothing is there are no files. -/
def Disk.files (d : Disk) (path : String) : List String :=
  match d.resolve path with
  | .error _ => []
  | .ok names =>
    match d.entry? names with
    | some entry => (entry.files (d.enclosing names)).map "/".intercalate
    | none => []

end LocaleEditor.Files
