/-
LocaleEditor.Text.Lines — the lines of a piece of code, and its indentation.

A multi-line template literal spans several lines, and the lines it
covers are content: they may not be re-indented. `marked` pairs every
line with whether it starts inside such a literal. It counts backticks
that do not follow a backslash and knows nothing of quotes or comments,
so a lone backtick in a comment also switches it.

`dedent` takes indentation away from the lines after the first,
`continuationIndent` measures how much they share. Both leave marked
lines alone.
-/
import LocaleEditor.Text.Blank

namespace LocaleEditor.Text

/-! ## 1. Lines -/

/-- The lines of `s`: its parts between line feeds. There is always at least one. -/
def lines : List Char → List (List Char)
  | [] => [[]]
  | '\n' :: r => [] :: lines r
  | c :: r =>
    match lines r with
    | [] => [[c]]
    | l :: ls => (c :: l) :: ls

/-- Lines joined by line feeds. -/
def unlines : List (List Char) → List Char
  | [] => []
  | [l] => l
  | l :: ls => l ++ '\n' :: unlines ls

/-! ## 2. Template literals that span lines -/

/-- Whether the number of backticks in the line that do not follow a backslash is odd;
`escaped` tells whether a backslash came just before. -/
def oddTicks (escaped : Bool) : List Char → Bool
  | [] => false
  | c :: r => Bool.xor (c == '`' && !escaped) (oddTicks (c == '\\') r)

/-- Whether the line after `line` starts inside a template literal, when `line` itself does or does
not. -/
def insideAfter (inside : Bool) (line : List Char) : Bool :=
  Bool.xor inside (oddTicks false line)

/-- Each line with whether it starts inside a template literal. -/
def marked (inside : Bool) : List (List Char) → List (Bool × List Char)
  | [] => []
  | l :: ls => (inside, l) :: marked (insideAfter inside l) ls

/-- After each line, whether the next one starts inside a template literal. -/
def insideAfterEach (inside : Bool) : List (List Char) → List Bool
  | [] => []
  | l :: ls => insideAfter inside l :: insideAfterEach (insideAfter inside l) ls

/-! ## 3. Indentation -/

/-- The characters that indent a line. -/
def isIndent (c : Char) : Bool := c == ' ' || c == '\t'

/-- The line without its first `width` characters of indentation, or without all it has. -/
def stripIndent : Nat → List Char → List Char
  | width + 1, c :: r => if isIndent c then stripIndent width r else c :: r
  | _, line => line

/-- Takes up to `width` characters of indentation from every line after the first that does not
start inside a template literal. -/
def dedentLines (width : Nat) : List (List Char) → List (List Char)
  | [] => []
  | first :: rest =>
    first :: (marked (insideAfter false first) rest).map fun (inside, l) =>
      if inside then l else stripIndent width l

/-- `dedentLines` on the lines of a text. -/
def dedent (width : Nat) (s : List Char) : List Char :=
  unlines (dedentLines width (lines s))

/-- How far a line is indented. -/
def indentOf (l : List Char) : Nat := (l.takeWhile isIndent).length

/-- The smallest of some numbers, 0 when there are none. -/
def least : List Nat → Nat
  | [] => 0
  | n :: ns => ns.foldl min n

/-- The indentation that the lines after the first share; blank lines and lines that start inside a
template literal have no say. -/
def continuationIndent (s : List Char) : Nat :=
  match lines s with
  | [] => 0
  | first :: rest =>
    least (((marked (insideAfter false first) rest).filter fun (inside, l) =>
      !inside && !allBlank l).map fun (_, l) => indentOf l)

end LocaleEditor.Text
