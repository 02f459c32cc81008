/-
LocaleEditor.Session — one file that is being translated.

A session holds the tree of the reference locale, which is only read,
and the tree of the target locale, which is edited. Each edit is kept as
a draft; when the file is opened again, the draft is laid over what the
file says by then.
-/
import LocaleEditor.Assemble
import LocaleEditor.Draft.Store
import LocaleEditor.LocaleFile
import LocaleEditor.Tree.Align
import LocaleEditor.Tree.Edit
import LocaleEditor.Tree.Merge

namespace LocaleEditor

/-- The file to open, and its locales. Without a target the tree to edit begins empty, and no
draft is kept. -/
structure SessionRequest where
  file : String
  reference : String
  target : Option String
  deriving DecidableEq, Repr

/-- Why a file cannot be opened. -/
inductive OpenError where
  | unsupportedFile (file : String)
  | source (error : SourceError)
  deriving DecidableEq, Repr

/-- What is said of a file whose name stands for no language. -/
def unsupportedMessage (file : String) : String := "Unsupported locale file: " ++ file

def OpenError.message : OpenError → String
  | .unsupportedFile file => unsupportedMessage file
  | .source e => e.message

/-- A file that is open. -/
structure Session where
  request : SessionRequest
  reference : Tree
  edit : Tree
  /-- The text of the target, where there is one. -/
  existing : Option String

namespace Session

/-- The text of a file in a locale that need not be given. -/
def readTarget (source : LocaleSource) (file : String) :
    Option String → Except SourceError (Option String)
  | none => .ok none
  | some locale => source.fileText? locale file

/-- The tree to edit: what the target's text says, and the draft over it. -/
def openedTree (language : Language) (drafts : DraftStore) (file : String) (text : Option String) :
    Option String → Tree
  | none => []
  | some locale =>
    let fresh := language.readTree (text.getD language.emptyDocument)
    match drafts.load? locale file with
    | some draft => fresh.merge draft
    | none => fresh

/-- Opens a file. A file that does not exist reads as one without translations. -/
def start (source : LocaleSource) (drafts : DraftStore) (request : SessionRequest) :
    Except OpenError Session :=
  match Language.ofFileName? request.file with
  | none => .error (.unsupportedFile request.file)
  | some language =>
    match source.fileText? request.reference request.file with
    | .error e => .error (.source e)
    | .ok reference =>
      match readTarget source request.file request.target with
      | .error e => .error (.source e)
      | .ok existing => .ok {
          request
          reference := language.readTree (reference.getD language.emptyDocument)
          edit := openedTree language drafts request.file existing request.target
          existing }

/-- What the editor shows. -/
def events (s : Session) (hideTranslated : Bool) : List Event :=
  align s.reference s.edit hideTranslated

/-- Sets or removes the node at a path, and keeps the tree as the draft of the target. -/
def set (s : Session) (path : List String) (node : Option Node) (drafts : DraftStore) :
    Session × DraftStore :=
  let edit := s.edit.setAt path node
  ({ s with edit }, match s.request.target with
    | some locale => drafts.persist edit locale s.request.file
    | none => drafts)

/-- The text of the target with the edits in it. -/
def assemble (s : Session) (options : AssembleOptions) : Except AssembleError String :=
  LocaleEditor.assemble s.request.file s.edit s.reference s.existing options

end Session

end LocaleEditor
