/-
LocaleEditor.Assemble — the text of a locale file from its tree.

A JSON file is written anew, in the key order of the reference. A script
is changed in place: in its present text, or else in the template
registered for the stem of its name, or else in an empty default export.
-/
import LocaleEditor.Json.Printer
import LocaleEditor.Script.Splice

namespace LocaleEditor

/-- How files are assembled. -/
structure AssembleOptions where
  indentWidth : Nat
  /-- Text for files that do not exist yet, by the stem of their name. -/
  templates : List (String × String)
  deriving DecidableEq, Repr

/-- The indentation used where none is set. -/
def defaultIndentWidth : Nat := 4

/-- Why a file cannot be assembled. -/
inductive AssembleError where
  /-- Its name stands for no language. -/
  | noTemplate (file : String)
  /-- The text to change cannot be read, or exports nothing. -/
  | unreadableTemplate (file : String)
  /-- An export does not fit the text. -/
  | invalidSpan
  deriving DecidableEq, Repr

def AssembleError.message : AssembleError → String
  | .noTemplate file => "No template available for " ++ file
  | .unreadableTemplate file => "Template for " ++ file ++ " could not be parsed"
  | .invalidSpan => "Export span is out of range for the template"

/-- The script that stands in where there is neither a file nor a template. -/
def defaultTemplate : String := "export default \x7b\x7d;\n"

/-- The text that new translations are written into. -/
def resolveTemplate (file : String) (existing : Option String)
    (templates : List (String × String)) : String :=
  match existing with
  | some text => text
  | none =>
    match (Files.fileStem? file).bind fun stem => templates.lookup stem with
    | some text => text
    | none => defaultTemplate

/-- A script with the tree written into it. -/
def assembleScript (file : String) (language : Language) (dialect : Dialect) (template : String)
    (tree : Tree) (indentWidth : Nat) : Except AssembleError String :=
  match Script.readExports dialect template.toList with
  | .error _ => .error (.unreadableTemplate file)
  | .ok exports =>
    let style : Script.Style := ⟨indentWidth, language.hasAnnotations⟩
    match Script.splice? template.toList (Script.replacements style exports.layout tree) with
    | some text => .ok (String.ofList text)
    | none => .error .invalidSpan

/-- The text of a file. `reference` gives the order of keys in JSON, `existing` is the present
text. -/
def assemble (file : String) (tree reference : Tree) (existing : Option String)
    (options : AssembleOptions) : Except AssembleError String :=
  match Language.ofFileName? file with
  | none => .error (.noTemplate file)
  | some language =>
    match language.dialect? with
    | none => .ok (Json.render options.indentWidth tree reference)
    | some dialect =>
      assembleScript file language dialect (resolveTemplate file existing options.templates) tree
        options.indentWidth

end LocaleEditor
