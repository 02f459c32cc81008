/-
LocaleEditor.Script.Printer — trees written as script source.

Objects and arrays take one line per entry, with a comma after each. A
key is quoted unless it reads as a name. A function that returns one
expression becomes an arrow function, and one with statements a function
with a block. Nodes of unknown kind are left out of objects.

Lines of statements are indented by one level more than the function
itself, but lines inside a template literal are content and stay as they
are, and blank lines stay empty.
-/
import LocaleEditor.Text.Letters
import LocaleEditor.Text.Lines
import LocaleEditor.Text.Quoted
import LocaleEditor.Tree.Basic

namespace LocaleEditor.Script

open LocaleEditor.Text

/-- How source is written. -/
structure Style where
  /-- Spaces per level of indentation. -/
  indentWidth : Nat
  /-- Whether the types of parameters are written. -/
  annotations : Bool
  deriving DecidableEq, Repr

/-- The indentation of a level. -/
def Style.indent (style : Style) (level : Nat) : List Char :=
  List.replicate (style.indentWidth * level) ' '

/-! ## 1. Names and texts -/

/-- Whether a key can be written without quotes. -/
def isPlainKey : List Char → Bool
  | [] => false
  | c :: r =>
    (isLetter c || c == '_' || c == '$')
      && r.all fun c => isLetterOrNumeral c || c == '_' || c == '$'

/-- A key as it is written in an object. -/
def printKey (key : String) : List Char :=
  if isPlainKey key.toList then key.toList else quote key.toList

/-- A template literal. -/
def backticked (value : String) : List Char := '`' :: value.toList ++ ['`']

def printItem : Item → List Char
  | .literal v => quote v.toList
  | .template v => backticked v
  | .variable n => n.toList

/-! ## 2. Arrays and functions -/

/-- An array whose closing bracket is indented by `level`. -/
def printItems (style : Style) (level : Nat) (items : List Item) : List Char :=
  if items.isEmpty then ['[', ']']
  else
    ['[', '\n']
      ++ items.flatMap (fun i => style.indent (level + 1) ++ printItem i ++ [',', '\n'])
      ++ style.indent level ++ [']']

def printParam (style : Style) (p : Param) : List Char :=
  if style.annotations && p.isAnnotated then
    p.name.toList ++ [':', ' '] ++ p.type.toList
  else p.name.toList

/-- Parameters between commas. -/
def printParams (style : Style) : List Param → List Char
  | [] => []
  | [p] => printParam style p
  | p :: ps => printParam style p ++ [',', ' '] ++ printParams style ps

/-- Indents each line that is neither blank nor inside a template literal. -/
def indentLines (inner : List Char) (ls : List (List Char)) : List (List Char) :=
  (marked false ls).map fun (inside, l) =>
    if inside then l else if allBlank l then [] else inner ++ l

/-- Statements in braces, where the closing one is indented by `level`. -/
def printBlock (style : Style) (level : Nat) (text : List Char) : List Char :=
  if allBlank text then ['{', '}']
  else
    ['{', '\n'] ++ unlines (indentLines (style.indent (level + 1)) (lines text)) ++ ['\n']
      ++ style.indent level ++ ['}']

/-- What a function returns, as an expression; statements are none. -/
def printReturned? (style : Style) (level : Nat) : Body → Option (List Char)
  | .literal v => some (quote v.toList)
  | .template v => some (backticked v)
  | .variable n => some n.toList
  | .array items => some (printItems style level items)
  | .block _ => none

/-- A function as an expression. -/
def printFunction (style : Style) (level : Nat) (params : List Param) (body : Body) : List Char :=
  match body with
  | .block text =>
    "function (".toList ++ printParams style params ++ [')', ' ']
      ++ printBlock style level text.toList
  | body =>
    '(' :: printParams style params ++ ") => ".toList ++ (printReturned? style level body).getD []

/-- A function as a declaration. -/
def printDeclaration (style : Style) (name : String) (params : List Param) (body : Body) :
    List Char :=
  let text :=
    match body with
    | .block text => text.toList
    | body => "return ".toList ++ (printReturned? style 1 body).getD [] ++ [';']
  "function ".toList ++ name.toList ++ ['('] ++ printParams style params ++ [')', ' ']
    ++ printBlock style 0 text

/-! ## 3. Nodes -/

/-- Whether a node is of unknown kind. -/
def isUnknown : Node → Bool
  | .unknown => true
  | _ => false

mutual

/-- A node as an expression whose last line is indented by `level`. -/
def printNode (style : Style) (level : Nat) : Node → List Char
  | .literal v => quote v.toList
  | .template v => backticked v
  | .variable n => n.toList
  | .array items => printItems style level items
  | .object entries =>
    match printEntries style (level + 1) entries with
    | [] => ['{', '}']
    | inside => ['{', '\n'] ++ inside ++ style.indent level ++ ['}']
  | .function params body => printFunction style level params body
  | .unknown => "undefined".toList

/-- The lines of the entries that are of a known kind. -/
def printEntries (style : Style) (level : Nat) : List (String × Node) → List Char
  | [] => []
  | (key, node) :: r =>
    (if isUnknown node then []
    else
      style.indent level ++ printKey key ++ [':', ' '] ++ printNode style level node ++ [',', '\n'])
      ++ printEntries style level r

end

end LocaleEditor.Script
