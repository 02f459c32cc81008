/-
LocaleEditor.Script.Splice — a tree written into an existing script.

Only what the script exports is replaced; imports, comments and all
other text stay. With an object exported by default that object is
replaced. With named exports each keeps its text if the tree has no node
for it, if that node is of unknown kind, or if it would turn the
declaration of a function into something else.
-/
import LocaleEditor.Script.Exports
import LocaleEditor.Script.Printer

namespace LocaleEditor.Script

open LocaleEditor.Text

/-- A text to put in the place of a span. -/
structure Replacement where
  span : Span
  text : List Char
  deriving DecidableEq, Repr

/-- The text from `start` on with the replacements made, if each span begins and ends between
characters and after the one before. -/
def spliceFrom? (start : Nat) (rest : List Char) : List Replacement → Option (List Char)
  | [] => some rest
  | r :: rs =>
    if start ≤ r.span.start ∧ r.span.start ≤ r.span.stop then
      match splitBytes? (r.span.start - start) rest with
      | none => none
      | some (before, after) =>
        match splitBytes? (r.span.stop - r.span.start) after with
        | none => none
        | some (_, after') =>
          (spliceFrom? r.span.stop after' rs).map fun tail => before ++ r.text ++ tail
    else none

/-- The text with the replacements made. -/
def splice? (text : List Char) (rs : List Replacement) : Option (List Char) := spliceFrom? 0 text rs

/-- What is written for a named export, unless its text is kept. -/
def replacementText? (style : Style) (e : NamedExport) : Node → Option (List Char)
  | .unknown => none
  | node =>
    match e.kind, node with
    | .initializer, node => some (printNode style 0 node)
    | .function, .function params body => some (printDeclaration style e.name params body)
    | .function, _ => none

/-- What is put in the place of which spans. -/
def replacements (style : Style) (layout : Layout) (tree : Tree) : List Replacement :=
  match layout with
  | .default span => [⟨span, printNode style 0 (.object tree)⟩]
  | .named es =>
    es.filterMap fun e =>
      (tree.get? e.name).bind fun node => (replacementText? style e node).map (⟨e.span, ·⟩)

end LocaleEditor.Script
