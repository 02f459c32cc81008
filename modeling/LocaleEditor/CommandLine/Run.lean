/-
LocaleEditor.CommandLine.Run — what commands do.

A command reads from a disk. It either fails, and then prints and writes
nothing, or it leaves a text: printed, or written to one file.
-/
import LocaleEditor.CommandLine.Report
import LocaleEditor.CommandLine.Usage

namespace LocaleEditor.CommandLine

open LocaleEditor.Files

/-! ## 1. Files and drafts -/

/-- The configuration that an invocation works under; a width for the indentation among its
options takes the place of the one that is set. -/
def Invocation.configuration (i : Invocation) (disk : Disk) : Except CommandError Configuration :=
  match Configuration.load disk (some i.workspace) with
  | .error e => .error (.settings i.workspace e)
  | .ok c =>
    match i.command with
    | .assemble _ _ (some width) =>
      (c.update { c.settings with indentWidth := width }).mapError .indentWidth
    | _ => .ok c

/-- The file to open: the one that is named, or else the default among those of a locale. -/
def chosenFile (c : Configuration) (folder : LocaleFolder) (disk : Disk) (reference : String) :
    Option String → Except CommandError String
  | some file => .ok file
  | none =>
    match folder.files disk reference with
    | .error e => .error (.source e)
    | .ok files =>
      match c.settings.defaultFile? files with
      | some file => .ok file
      | none => .error (.noFiles reference)

/-- The drafts to open a file with: the one at a path, if a path is given. -/
def givenDrafts (disk : Disk) (locale file : String) :
    Option String → Except CommandError DraftStore
  | none => .ok DraftStore.empty
  | some path =>
    match disk.readText path with
    | .error e => .error (.unreadableDraft path e)
    | .ok text =>
      match Draft.decode text with
      | .error e => .error (.malformedDraft e)
      | .ok tree => .ok (DraftStore.empty.save tree locale file)

/-- Opens the file that the options ask for. -/
def openSession (c : Configuration) (folder : LocaleFolder) (disk : Disk) (o : SessionOptions) :
    Except CommandError Session := do
  let reference := o.reference.getD c.settings.referenceLocale
  let file ← chosenFile c folder disk reference o.file
  let drafts ← givenDrafts disk o.target file o.draft
  (Session.start (folder.source disk) drafts ⟨file, reference, some o.target⟩).mapError .opening

/-! ## 2. Texts -/

/-- A locale and its files, a name a line. -/
def localeText (folder : LocaleFolder) (disk : Disk) (locale : String) :
    Except SourceError String :=
  (folder.files disk locale).map fun files =>
    String.join ((locale ++ "\n") :: files.map fun f => "  " ++ f ++ "\n")

/-- All locales and their files. -/
def localesText (folder : LocaleFolder) (disk : Disk) : Except SourceError String := do
  let locales ← folder.locales disk
  let texts ← locales.mapM (localeText folder disk)
  pure (String.join texts)

/-- An entry, marked when it is translated. -/
def statusLine : Event → Option String
  | .entry place _ edit =>
    some ((if edit.isBlank then "[ ] " else "[x] ") ++ place.dotted ++ "\n")
  | _ => none

/-- The entries of a file. -/
def statusText (session : Session) (hideTranslated : Bool) : String :=
  String.join ((session.events hideTranslated).filterMap statusLine)

/-! ## 3. Commands -/

/-- What a command leaves. -/
inductive Product where
  | printed (text : String)
  /-- A text at a path, and the disk with it. -/
  | written (path text : String) (disk : Disk)

/-- Prints a text, or writes it if a path is given. -/
def deliver (disk : Disk) (text : String) : Option String → Except CommandError Product
  | none => .ok (.printed text)
  | some path =>
    match disk.writeText path text with
    | .error e => .error (.unwritable path e)
    | .ok disk' => .ok (.written path text disk')

/-- Carries out a command. -/
def Command.run (c : Configuration) (folder : LocaleFolder) (disk : Disk) :
    Command → Except CommandError Product
  | .locales => ((localesText folder disk).mapError .source).map .printed
  | .status o all => do
    let session ← openSession c folder disk o
    pure (.printed (statusText session (c.settings.hideTranslated && !all)))
  | .assemble o output _ => do
    let session ← openSession c folder disk o
    let text ← (session.assemble c.settings.assembleOptions).mapError .assembling
    deliver disk text output

/-- Carries out an invocation. -/
def Invocation.run (i : Invocation) (disk : Disk) : Except CommandError Product := do
  let c ← i.configuration disk
  let folder ← c.localeFolder.mapError .pattern
  i.command.run c folder disk

/-! ## 4. The program -/

/-- What a run of the program leaves. -/
structure Outcome where
  exitCode : Nat
  output : String
  errors : String
  /-- The file that was written, and its text. -/
  written : Option (String × String)
  disk : Disk

/-- The disk with the folder for logs. -/
def withLogFolder (disk : Disk) : Option String → Except FileError Disk
  | none => .ok disk
  | some path => disk.makeFolder path

/-- What an invocation leaves. A folder for logs is made first, and has to be there. -/
def Invocation.outcome (i : Invocation) (disk : Disk) : Outcome :=
  match withLogFolder disk i.logFolder with
  | .error e => ⟨101, "", "Failed to make the folder for logs: " ++ e.message ++ "\n", none, disk⟩
  | .ok disk' =>
    match i.run disk' with
    | .error e => ⟨1, "", e.report, none, disk'⟩
    | .ok (.printed text) => ⟨0, text, "", none, disk'⟩
    | .ok (.written path text disk'') => ⟨0, "", "", some (path, text), disk''⟩

/-- Runs the program. -/
def run (disk : Disk) (arguments : List String) : Outcome :=
  match readArguments arguments with
  | .error e => ⟨2, "", e.report, none, disk⟩
  | .ok (.help topic) => ⟨0, usage topic, "", none, disk⟩
  | .ok .version => ⟨0, versionText, "", none, disk⟩
  | .ok (.run i) => i.outcome disk

end LocaleEditor.CommandLine
