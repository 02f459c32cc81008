/-
LocaleEditor.Json.Printer — trees written as JSON.

Keys come in the order of the reference tree, and those that it lacks
after them in their own order. Everything is written as text: a template
as its raw text and a variable as its name. Functions and nodes of
unknown kind have no form in JSON and are left out.
-/
import LocaleEditor.Text.Quoted
import LocaleEditor.Tree.Basic

namespace LocaleEditor.Json

open LocaleEditor.Text

/-! ## 1. Layout -/

/-- Members or elements, each on a line of its own at `level`, between `opening` and `closing`. -/
def bracketed (indentWidth level : Nat) (opening closing : Char) (parts : List (List Char)) :
    List Char :=
  let newline (l : Nat) : List Char := '\n' :: List.replicate (indentWidth * l) ' '
  match parts with
  | [] => [opening, closing]
  | first :: rest =>
    opening :: newline (level + 1) ++ first
      ++ rest.flatMap (fun p => ',' :: newline (level + 1) ++ p)
      ++ newline level ++ [closing]

/-! ## 2. Trees -/

/-- The keys of a tree in the order of the reference, if there is one. -/
def orderedKeys (tree : Tree) (reference : Option Tree) : List String :=
  match reference with
  | none => tree.keys
  | some r => r.keys.filter tree.contains ++ tree.keys.filter fun k => !r.contains k

/-- The written members of an object with their keys; a key that is absent has no member. -/
def membersFor (keys : List String) (written : List (String × Option (List Char))) :
    List (List Char) :=
  keys.filterMap fun k =>
    match written.find? (·.1 = k) with
    | some (_, some text) => some (quote k.toList ++ [':', ' '] ++ text)
    | _ => none

mutual

/-- The JSON form of a node whose last line stands at `level`, if it has one. -/
def printNode? (indentWidth level : Nat) (reference : Option Tree) : Node → Option (List Char)
  | .literal v => some (quote v.toList)
  | .template v => some (quote v.toList)
  | .variable n => some (quote n.toList)
  | .array items =>
    some (bracketed indentWidth level '[' ']' (items.map fun i => quote i.text.toList))
  | .object entries =>
    some (bracketed indentWidth level '{' '}'
      (membersFor (orderedKeys entries reference)
        (printEntries indentWidth (level + 1) reference entries)))
  | .function _ _ => none
  | .unknown => none

/-- Each key with the JSON form of its node. -/
def printEntries (indentWidth level : Nat) (reference : Option Tree) :
    List (String × Node) → List (String × Option (List Char))
  | [] => []
  | (k, n) :: r =>
    (k, printNode? indentWidth level ((reference.bind (Tree.get? · k)).bind Node.entries?) n)
      :: printEntries indentWidth level reference r

end

/-- The text of a JSON file. -/
def render (indentWidth : Nat) (tree reference : Tree) : String :=
  String.ofList ((printNode? indentWidth 0 (some reference) (.object tree)).getD [] ++ ['\n'])

end LocaleEditor.Json
