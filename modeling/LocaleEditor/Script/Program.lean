/-
LocaleEditor.Script.Program — whole scripts.

`Grammar.upTo` ties the readers together: at level 0 nothing can be
read, and each level reads one more depth of nesting. A script is read
with more levels than it has characters.

When a script cannot be read, the place reported is where reading could
not go on, or the first character of the statement if none of it could
be read.
-/
import LocaleEditor.Text.Span
import LocaleEditor.Script.Statement

namespace LocaleEditor.Script

open LocaleEditor.Text

/-- The readers one level above `g`. -/
def Grammar.above (d : Dialect) (g : Grammar) : Grammar where
  value := readValue d g
  operand := readOperand d g
  statement := readStatement d g
  type := readType d g
  pattern := readPattern d g
  element := readElement d g

/-- The readers for pieces with up to so many levels of nesting. -/
def Grammar.upTo (d : Dialect) : Nat → Grammar
  | 0 => .none
  | n + 1 => (Grammar.upTo d n).above d

/-- The text without a first line that names an interpreter. -/
def afterShebang (s : List Char) : List Char :=
  match trivia true s with
  | '#' :: '!' :: r => r.dropWhile (· != '\n')
  | _ => s

/-- Reads statements up to the end of the text, for at most as many as given. -/
def statementsWithin (statement : Reader Statement) : Nat → Reader (List Statement)
  | 0 => Reader.fail
  | n + 1 => fun s =>
    let t := trivia true s
    if t.isEmpty then .done [] []
    else
      match statement s with
      | .stuck m => .stuck (min m t.length)
      | .done a rest =>
        match statementsWithin statement n rest with
        | .stuck m => .stuck m
        | .done as rest' => .done (a :: as) rest'

/-- Reads the statements of a script, or gives the place where it cannot be read. -/
def program (d : Dialect) (source : List Char) : Except Position (List Statement) :=
  let g := Grammar.upTo d (2 * source.length + 4)
  match statementsWithin g.statement (source.length + 1) (afterShebang source) with
  | .done statements _ => .ok statements
  | .stuck left => .error (Position.after (source.take (source.length - left)))

end LocaleEditor.Script
