/-
LocaleEditor.Script.Exports — the translations that a script exports.

A script exports its translations in one of two layouts: as one object
exported by default, or as named exports. The object wins where a script
has both, and of several default exports the first object.

A value that cannot be a translation is left out of the tree. A named
export stays in the layout even then.
-/
import LocaleEditor.Text.Lines
import LocaleEditor.Script.Program

namespace LocaleEditor.Script

open LocaleEditor.Text

/-! ## 1. From expressions to nodes -/

/-- The text of a piece. -/
def Extent.text (source : List Char) (e : Extent) : List Char :=
  (source.drop (source.length - e.left)).take (e.left - e.right)

/-- Where a piece stands, in bytes. -/
def Extent.span (source : List Char) (e : Extent) : Span :=
  let before := source.take (source.length - e.left)
  let start := byteLength before
  ⟨start, start + byteLength (e.text source)⟩

/-- How many bytes stand before a piece on its line. -/
def Extent.column (source : List Char) (e : Extent) : Nat :=
  (Position.after (source.take (source.length - e.left))).column

/-- The item that an atom stands for. A template without parts `${…}` is a plain text. -/
def Atom.item : Atom → Item
  | .string inner => .literal (String.ofList (unescape inner))
  | .template inner true => .template (String.ofList inner)
  | .template inner false => .literal (String.ofList (unescape inner))
  | .name w => .variable w

/-- The statements of a block, with the indentation of the first taken from all. -/
def blockText (source : List Char) (e : Extent) : List Char :=
  dedent (e.column source) (e.text source)

/-- The statement that returns an expression, with the indentation that its lines share taken
away. -/
def returnText (text : List Char) : List Char :=
  "return ".toList ++ dedent (continuationIndent text) text ++ [';']

/-- The body that is kept for a function. -/
def FunctionBody.toBody (source : List Char) : FunctionBody → Body
  | .block e => .block (String.ofList (blockText source e))
  | .returned (some (.inl a)) _ =>
    match a.item with
    | .literal v => .literal v
    | .template v => .template v
    | .variable n => .variable n
  | .returned (some (.inr es)) _ => .array (es.map Atom.item)
  | .returned none text => .block (String.ofList (returnText text))

mutual

/-- The node that an expression stands for, if it can be a translation. -/
def Expr.node? (source : List Char) : Expr → Option Node
  | .atom a => some a.item.toNode
  | .array (some es) => some (.array (es.map Atom.item))
  | .array none => none
  | .undefined => some (.variable "undefined")
  | .object members => some (.object (treeOf source [] members))
  | .function head body => some (.function head.params (body.toBody source))
  | .other => none

/-- The tree `t` with what the members of an object stand for inserted one after another. -/
def treeOf (source : List Char) (t : Tree) : List (String × Expr) → Tree
  | [] => t
  | (key, e) :: r =>
    match e.node? source with
    | some n => treeOf source (t.insert key n) r
    | none => treeOf source t r

end

/-! ## 2. Exports -/

/-- A named export and where it stands: a value, or the whole declaration of a function. -/
structure NamedExport where
  name : String
  span : Span
  kind : ExportKind
  deriving DecidableEq, Repr

/-- How a script exports its translations. -/
inductive Layout where
  /-- One object, which stands there. -/
  | default (span : Span)
  /-- Each under its own name. -/
  | named (exports : List NamedExport)
  deriving DecidableEq, Repr

/-- The translations of a script, and how it exports them. -/
structure Exports where
  tree : Tree
  layout : Layout
  deriving Repr

/-- Why a script has no translations. -/
inductive ExportError where
  /-- It cannot be read. -/
  | unreadable (place : Position)
  /-- It exports neither an object by default nor anything under a name. -/
  | noExports
  deriving DecidableEq, Repr

def ExportError.message : ExportError → String
  | .unreadable place => "Syntax error at " ++ place.toText
  | .noExports => "No default-exported object literal or named exports found"

/-- Whether an expression is an object. -/
def Expr.isObject : Expr → Bool
  | .object _ => true
  | _ => false

/-- The first object that is exported by default. -/
def defaultObject? (statements : List Statement) : Option Value :=
  statements.findSome? fun
    | .exportDefault v => if v.core.isObject then some v else none
    | _ => none

/-- Everything that is exported under a name. -/
def namedBindings (statements : List Statement) : List (ExportKind × Binding) :=
  statements.flatMap fun
    | .exportNamed kind bindings => bindings.map (kind, ·)
    | _ => []

/-- The exports of a script that was read. -/
def exportsOf (source : List Char) (statements : List Statement) : Except ExportError Exports :=
  match defaultObject? statements with
  | some v =>
    .ok ⟨((v.core.node? source).bind Node.entries?).getD [], .default (v.extent.span source)⟩
  | none =>
    let bindings := namedBindings statements
    if bindings.isEmpty then .error .noExports
    else
      .ok ⟨treeOf source [] (bindings.map fun (_, b) => (b.name, b.core)),
        .named (bindings.map fun (kind, b) => ⟨b.name, b.extent.span source, kind⟩)⟩

/-- The exports of a script. -/
def readExports (d : Dialect) (source : List Char) : Except ExportError Exports :=
  match program d source with
  | .error place => .error (.unreadable place)
  | .ok statements => exportsOf source statements

end LocaleEditor.Script
