/-
LocaleEditor.Text.Span — byte spans of a text and positions in it.

Offsets count UTF-8 bytes. A span can be cut out of a text only when
both its ends fall between characters (`Span.slice?`).
-/
namespace LocaleEditor.Text

/-- How many bytes a text takes in UTF-8. -/
def byteLength : List Char → Nat
  | [] => 0
  | c :: r => c.utf8Size + byteLength r

/-- The text cut `n` bytes from its start, when that falls between characters. -/
def splitBytes? : Nat → List Char → Option (List Char × List Char)
  | 0, s => some ([], s)
  | _ + 1, [] => none
  | n + 1, c :: r =>
    if c.utf8Size ≤ n + 1 then
      (splitBytes? (n + 1 - c.utf8Size) r).map fun (a, b) => (c :: a, b)
    else none

/-- The bytes from `start` up to but not including `stop`. -/
structure Span where
  start : Nat
  stop : Nat
  deriving DecidableEq, Repr

/-- The spanned part of a text. -/
def Span.slice? (span : Span) (s : List Char) : Option (List Char) :=
  if span.start ≤ span.stop then
    (splitBytes? span.start s).bind fun (_, rest) =>
      (splitBytes? (span.stop - span.start) rest).map (·.1)
  else none

/-- A place in a text: its line and its column, both counted from 0. -/
structure Position where
  line : Nat
  column : Nat
  deriving DecidableEq, Repr

/-- Shown counting from 1. -/
def Position.toText (p : Position) : String :=
  toString (p.line + 1) ++ ":" ++ toString (p.column + 1)

/-- The place reached after reading `before`: columns count bytes since the last line feed. -/
def Position.after (before : List Char) : Position :=
  before.foldl (fun p c =>
    if c = '\n' then ⟨p.line + 1, 0⟩ else ⟨p.line, p.column + c.utf8Size⟩) ⟨0, 0⟩

end LocaleEditor.Text
