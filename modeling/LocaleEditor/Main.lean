/-
LocaleEditor.Main — the program.

What a command does is a function of the files it may look at. Here they
are read beforehand, and the outcome is printed and written afterwards.
-/
import LocaleEditor.CommandLine.Run

namespace LocaleEditor.CommandLine

open LocaleEditor.Files

/-! ## 1. Reading files -/

/-- The bytes of a file; none where it cannot be read. -/
def fileBytes? (path : String) : IO (Option Entry) := do
  try
    let bytes ← IO.FS.readBinFile (System.mkFilePath [path])
    pure (some (.file bytes))
  catch _ => pure none

/-- Whether a path leads to a folder. -/
def leadsToFolder (path : String) : IO Bool := (System.mkFilePath [path]).isDir

/-- Whether a path leads to a folder by way of a link. -/
def isLink (path : String) : IO Bool := do
  try
    let data ← (System.mkFilePath [path]).symlinkMetadata
    pure (data.type == .symlink)
  catch _ => pure false

/-- A file, or a folder with all that is in it. Links to folders are left out. -/
partial def wholeEntry? (path : String) : IO (Option Entry) := do
  if ← leadsToFolder path then
    let listed ← try (System.mkFilePath [path]).readDir catch _ => pure #[]
    let mut entries : List (String × Entry) := []
    for e in listed do
      let inner := join path e.fileName
      let isLinkedFolder ← (do pure ((← isLink inner) && (← leadsToFolder inner)))
      if !isLinkedFolder then
        if let some entry ← wholeEntry? inner then entries := (e.fileName, entry) :: entries
    pure (some (.folder entries))
  else fileBytes? path

/-- What a folder holds that has a say in listings. -/
def listingFiles (path : String) : IO (List (String × Entry)) := do
  let mut entries : List (String × Entry) := []
  for name in [".ignore", ".gitignore"] do
    if let some entry ← fileBytes? (join path name) then entries := (name, entry) :: entries
  for name in [".git", ".jj"] do
    let inner := join path name
    if ← (System.mkFilePath [inner]).pathExists then
      let exclude ← fileBytes? (join inner "info/exclude")
      let info := exclude.toList.map fun e => ("info", Entry.folder [("exclude", e)])
      entries := (name, .folder info) :: entries
  pure entries

/-! ## 2. The disk for an invocation -/

/-- The path that leads from the top along names. -/
def pathOf (names : List String) : String := "/" ++ "/".intercalate names

/-- The disk with what components lead to from the entry with the names given: folders on the way,
a file, and at the end, if `whole` is set, a folder with all that is in it. -/
def along (whole : Bool) (disk : Disk) : List Component → List String → IO Disk
  | [], names => do
    if whole then
      match ← wholeEntry? (pathOf names) with
      | some entry => pure (disk.put names entry)
      | none => pure disk
    else pure disk
  | .root :: rest, _ => along whole disk rest []
  | .here :: rest, names => along whole disk rest names
  | .up :: rest, names => along whole disk rest names.dropLast
  | .name n :: rest, names => do
    let inner := names ++ [n]
    let path := pathOf inner
    if (disk.entry? inner).isSome then along whole disk rest inner
    else if ← leadsToFolder path then
      let entries ← listingFiles path
      along whole (disk.put inner (.folder entries)) rest inner
    else
      match ← fileBytes? path with
      | some entry => pure (disk.put inner entry)
      | none => pure disk

/-- The disk with what a path leads to. -/
def lookAt (whole : Bool) (disk : Disk) (path : String) : IO Disk :=
  along whole disk (components path) disk.here

/-- The disk with nothing but the working folder. -/
def workingDisk : IO Disk := do
  let here := names (toString (← IO.currentDir))
  let top ← listingFiles "/"
  along false ⟨top, here⟩ (here.map .name) []

/-- The paths that a command is given. -/
def Command.paths : Command → List String
  | .locales => []
  | .status o _ => o.draft.toList
  | .assemble o output _ => o.draft.toList ++ output.toList

/-- The part of the disk that an invocation may look at. -/
def diskFor (i : Invocation) : IO Disk := do
  let settingsPath := join i.workspace settingsFile
  let given := i.command.paths ++ i.logFolder.toList
  let disk ← (settingsPath :: given).foldlM (lookAt false) (← workingDisk)
  match i.configuration disk with
  | .ok c => lookAt true disk c.localesRoot
  | .error _ => pure disk

/-! ## 3. The program -/

/-- Prints and writes what a run leaves. -/
def Outcome.carryOut (outcome : Outcome) : IO UInt32 := do
  if let some (path, text) := outcome.written then
    IO.FS.writeFile (System.mkFilePath [path]) text
  IO.print outcome.output
  IO.eprint outcome.errors
  pure outcome.exitCode.toUInt32

/-- Reads what the arguments ask for, and does it. -/
def runProgram (arguments : List String) : IO UInt32 := do
  match readArguments arguments with
  | .ok (.run i) =>
    let outcome := run (← diskFor i) arguments
    if let some folder := i.logFolder then
      if outcome.exitCode ≠ 101 then IO.FS.createDirAll (System.mkFilePath [folder])
    outcome.carryOut
  | _ => (CommandLine.run ⟨[], []⟩ arguments).carryOut

end LocaleEditor.CommandLine

/-- The program. -/
def main (arguments : List String) : IO UInt32 := LocaleEditor.CommandLine.runProgram arguments
