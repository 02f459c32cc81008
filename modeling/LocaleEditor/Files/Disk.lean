/-
LocaleEditor.Files.Disk — files and folders.

A disk is a tree of folders with a working folder. A path is followed
step by step: every step but the last has to lead into a folder, `..`
leads to the folder above, and a slash at the end demands a folder.
Only texts are read, so that bytes that are no text are a failure.
-/
import LocaleEditor.Files.Path

namespace LocaleEditor.Files

/-! ## 1. Entries and failures -/

/-- A file or a folder. -/
inductive Entry where
  | file (bytes : ByteArray)
  | folder (entries : List (String × Entry))

/-- Why a path cannot be used. -/
inductive FileError where
  | notFound
  | notFolder
  | isFolder
  | nameTooLong
  | nulInPath
  | notText
  deriving DecidableEq, Repr

def FileError.message : FileError → String
  | .notFound => "No such file or directory (os error 2)"
  | .notFolder => "Not a directory (os error 20)"
  | .isFolder => "Is a directory (os error 21)"
  | .nameTooLong => "File name too long (os error 36)"
  | .nulInPath => "file name contained an unexpected NUL byte"
  | .notText => "stream did not contain valid UTF-8"

/-- The folder at the top, and the names that lead to the working folder. -/
structure Disk where
  top : List (String × Entry)
  here : List String

/-! ## 2. Following paths -/

/-- The entry reached from a folder by names. -/
def entryAt? : List (String × Entry) → List String → Option Entry
  | entries, [] => some (.folder entries)
  | entries, name :: rest =>
    match entries.lookup name with
    | some (.folder inner) => entryAt? inner rest
    | some (.file bytes) => if rest.isEmpty then some (.file bytes) else none
    | none => none

/-- The greatest length of a name in bytes. -/
def longestName : Nat := 255

/-- The length in bytes from which on a path is too long. -/
def pathLimit : Nat := 4096

/-- The steps of a path. -/
def steps (path : String) : List String := (splitSlashes path.toList).map String.ofList

namespace Disk

/-- The entry with these names from the top. -/
def entry? (d : Disk) (names : List String) : Option Entry := entryAt? d.top names

/-- Follows steps from the entry with the names `at`; the names of the entry they lead to. -/
def follow (d : Disk) : List String → List String → Except FileError (List String)
  | [], names => .ok names
  | step :: rest, names =>
    match d.entry? names with
    | some (.folder entries) =>
      if step = "" ∨ step = "." then d.follow rest names
      else if step = ".." then d.follow rest names.dropLast
      else if longestName < step.utf8ByteSize then .error .nameTooLong
      else if (entries.lookup step).isSome then d.follow rest (names ++ [step])
      else .error .notFound
    | _ => .error .notFolder

/-- Where a path begins to be followed. -/
def start (d : Disk) (path : String) : List String := if path.startsWith "/" then [] else d.here

/-- Whether a text can be a path at all. -/
def checkPath (path : String) : Except FileError Unit :=
  if path.toList.contains '\x00' then .error .nulInPath
  else if path.isEmpty then .error .notFound
  else if pathLimit ≤ path.utf8ByteSize then .error .nameTooLong
  else .ok ()

/-- The names of the entry that a path leads to. -/
def resolve (d : Disk) (path : String) : Except FileError (List String) :=
  (checkPath path).bind fun _ => d.follow (steps path) (d.start path)

/-- Whether a path leads to something. -/
def contains (d : Disk) (path : String) : Bool :=
  match d.resolve path with
  | .ok _ => true
  | .error _ => false

/-! ## 3. Reading -/

/-- The text of a file. -/
def readText (d : Disk) (path : String) : Except FileError String :=
  match d.resolve path with
  | .error e => .error e
  | .ok names =>
    match d.entry? names with
    | some (.file bytes) =>
      match String.fromUTF8? bytes with
      | some text => .ok text
      | none => .error .notText
    | some (.folder _) => .error .isFolder
    | none => .error .notFound

/-- The entries of a folder. -/
def readFolder (d : Disk) (path : String) : Except FileError (List (String × Entry)) :=
  match d.resolve path with
  | .error e => .error e
  | .ok names =>
    match d.entry? names with
    | some (.folder entries) => .ok entries
    | some (.file _) => .error .notFolder
    | none => .error .notFound

/-! ## 4. Writing -/

/-- Puts a file into a folder under a name, in place of what has that name. -/
def putEntry (entry : Entry) (name : String) : List (String × Entry) → List (String × Entry)
  | [] => [(name, entry)]
  | (n, e) :: r => if n = name then (n, entry) :: r else (n, e) :: putEntry entry name r

/-- Puts an entry where names lead. Folders that are missing on the way are made; where a file
stands in the way nothing changes. -/
def putAt (entry : Entry) : List String → List (String × Entry) → List (String × Entry)
  | [], entries => entries
  | [name], entries => putEntry entry name entries
  | name :: rest, entries =>
    match entries.lookup name with
    | some (.folder inner) => putEntry (.folder (putAt entry rest inner)) name entries
    | some (.file _) => entries
    | none => putEntry (.folder (putAt entry rest [])) name entries

/-- The folder that a new file would lie in and its name; there is no file at a path that ends
in a slash or in dots. -/
def target (d : Disk) (path : String) : Except FileError (List String × String) :=
  (checkPath path).bind fun _ =>
    let all := steps path
    match (all.reverse.dropWhile (· = "")) with
    | [] => .error .isFolder
    | last :: before =>
      match d.follow before.reverse (d.start path) with
      | .error e => .error e
      | .ok names =>
        match d.entry? names with
        | some (.folder _) =>
          if all.getLast? = some "" ∨ last = "." ∨ last = ".." then .error .isFolder
          else if longestName < last.utf8ByteSize then .error .nameTooLong
          else .ok (names, last)
        | _ => .error .notFolder

/-- The disk with an entry put where names lead from the top. -/
def put (d : Disk) (names : List String) (entry : Entry) : Disk :=
  { d with top := putAt entry names d.top }

/-- The disk with a text written to a file, which need not exist before. -/
def writeText (d : Disk) (path text : String) : Except FileError Disk :=
  match d.target path with
  | .error e => .error e
  | .ok (names, name) =>
    match d.entry? (names ++ [name]) with
    | some (.folder _) => .error .isFolder
    | _ => .ok (d.put (names ++ [name]) (.file text.toUTF8))

/-- Makes the folders that components lead through from the folder with the names given. -/
def makeAlong (d : Disk) : List Component → List String → Except FileError Disk
  | [], _ => .ok d
  | .root :: rest, _ => d.makeAlong rest []
  | .here :: rest, names => d.makeAlong rest names
  | .up :: rest, names => d.makeAlong rest names.dropLast
  | .name n :: rest, names =>
    let inner := names ++ [n]
    if longestName < n.utf8ByteSize then .error .nameTooLong
    else
      match d.entry? inner with
      | some (.folder _) => d.makeAlong rest inner
      | some (.file _) => .error .notFolder
      | none => (d.put inner (.folder [])).makeAlong rest inner

/-- The disk with a folder at a path, and with all folders on the way. -/
def makeFolder (d : Disk) (path : String) : Except FileError Disk :=
  (checkPath path).bind fun _ => d.makeAlong (components path) d.here

end Disk

end LocaleEditor.Files
