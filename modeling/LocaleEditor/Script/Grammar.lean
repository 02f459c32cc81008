/-
LocaleEditor.Script.Grammar — readers of the pieces that contain one another, and of punctuation.

An expression may hold functions, whose bodies hold statements, which
hold expressions. The readers of such pieces get a `Grammar`, the
readers to use for what is nested in them. Every nested piece comes
after at least one character of the piece around it, so that as many
levels as the text has characters are enough.
-/
import LocaleEditor.Script.Semicolon
import LocaleEditor.Script.Outline

namespace LocaleEditor.Script

open LocaleEditor.Text

/-! ## 1. The readers of nested pieces -/

/-- What ends an expression. -/
structure Setting where
  /-- It is part of a statement that a line break may end. -/
  line : Bool
  /-- It stands between the question mark and the colon of a conditional expression. -/
  choice : Bool
  deriving DecidableEq, Repr

/-- Inside brackets. -/
def Setting.enclosed : Setting := ⟨false, false⟩

/-- In a statement. -/
def Setting.statement : Setting := ⟨true, false⟩

/-- What ends a type. -/
structure TypeSetting where
  /-- A line break may end it. -/
  line : Bool
  /-- It is part of an expression, where `||` and `&&` are operators. -/
  operators : Bool
  deriving DecidableEq, Repr

/-- After a colon. -/
def TypeSetting.afterColon : TypeSetting := ⟨false, false⟩

/-- The readers of pieces that may be nested in others. -/
structure Grammar where
  /-- An expression without commas. -/
  value : Setting → Reader Value
  /-- An expression without binary operators. -/
  operand : Setting → Reader Value
  statement : Reader Statement
  type : TypeSetting → Reader Unit
  /-- What a value is taken apart into. -/
  pattern : Reader Unit
  /-- An element written as a tag, after its `<`. -/
  element : Reader Unit

/-- Reads nothing. -/
def Grammar.none : Grammar where
  value _ := Reader.fail
  operand _ := Reader.fail
  statement := Reader.fail
  type _ := Reader.fail
  pattern := Reader.fail
  element := Reader.fail

/-! ## 2. Punctuation and words -/

/-- Passes over white space and comments. -/
def gap : Reader Unit := fun s => .done () (trivia false s)

/-- Passes over white space and comments where something may begin. -/
def gapBefore : Reader Unit := fun s => .done () (trivia true s)

/-- Reads the characters `t`. -/
def symbol (t : List Char) : Reader Unit := fun s =>
  let s' := trivia false s
  if t.isPrefixOf s' then .done () (s'.drop t.length) else .stuck s.length

/-- Reads one character of punctuation. -/
def sign (c : Char) : Reader Unit := symbol [c]

/-- Reads the characters `t` when none of `next` follows. -/
def symbolUnless (t next : List Char) : Reader Unit := fun s =>
  let s' := trivia false s
  let rest := s'.drop t.length
  if t.isPrefixOf s' && !(rest.head?.elim false next.contains) then .done () rest
  else .stuck s.length

/-- The equals sign before an initial value. -/
def equals : Reader Unit := symbolUnless ['='] ['=', '>']

/-- The arrow of a function. -/
def arrow : Reader Unit := symbol ['=', '>']

/-- Reads a word. -/
def word : Reader String := fun s =>
  let s' := trivia true s
  match wordLength s' with
  | 0 => .stuck s.length
  | n + 1 => .done (String.ofList (s'.take (n + 1))) (s'.drop (n + 1))

/-- Reads exactly this word. -/
def keyword (k : String) : Reader Unit := fun s =>
  match word s with
  | .done w rest => if w = k then .done () rest else .stuck s.length
  | .stuck n => .stuck n

/-- The next word, or the empty one. -/
def nextWord (s : List Char) : String :=
  let s' := trivia true s
  String.ofList (s'.take (wordLength s'))

/-- The next character after white space and comments. -/
def nextChar (s : List Char) : Option Char := (trivia false s).head?

/-- Whether `t` comes next. -/
def startsWith (t s : List Char) : Bool := t.isPrefixOf (trivia false s)

/-- Reads a string literal and gives its inside. -/
def stringLiteral : Reader (List Char) := fun s =>
  match trivia true s with
  | q :: r =>
    if q == '"' || q == '\'' then
      match stringLength? q 0 r with
      | some n => .done (r.take n) (r.drop (n + 1))
      | none => .stuck s.length
    else .stuck s.length
  | [] => .stuck 0

/-- Reads a number. -/
def number : Reader Unit := fun s =>
  let s' := trivia true s
  match numberLength s' with
  | 0 => .stuck s.length
  | n + 1 => .done () (s'.drop (n + 1))

/-! ## 3. Lists -/

/-- Reads items between commas up to `close`; items may be missing. -/
def looseListWithin {α : Type} (close : Char) (item : Reader α) : Nat → Reader (List α)
  | 0 => Reader.fail
  | n + 1 => fun s =>
    match trivia true s with
    | [] => .stuck 0
    | c :: r =>
      if c == close then .done [] r
      else if c == ',' then looseListWithin close item n r
      else
        match item s with
        | .stuck m => .stuck m
        | .done a s' =>
          match trivia false s' with
          | ',' :: r' =>
            match looseListWithin close item n r' with
            | .done as rest => .done (a :: as) rest
            | .stuck m => .stuck m
          | c' :: r' => if c' == close then .done [a] r' else .stuck s'.length
          | [] => .stuck 0

/-- Reads items between commas up to `close`; items may be missing. -/
def looseList {α : Type} (close : Char) (item : Reader α) : Reader (List α) := fun s =>
  looseListWithin close item (s.length + 1) s

/-- Reads items up to `close` with one comma between two of them; one more may stand at the end. -/
def strictListWithin {α : Type} (close : Char) (item : Reader α) : Nat → Reader (List α)
  | 0 => Reader.fail
  | n + 1 => fun s =>
    if nextChar s == some close then .done [] ((trivia false s).drop 1)
    else
      match item s with
      | .stuck m => .stuck m
      | .done a s' =>
        match trivia false s' with
        | ',' :: r' =>
          match strictListWithin close item n r' with
          | .done as rest => .done (a :: as) rest
          | .stuck m => .stuck m
        | c' :: r' => if c' == close then .done [a] r' else .stuck s'.length
        | [] => .stuck 0

/-- Reads items up to `close` with one comma between two of them; one more may stand at the end. -/
def strictList {α : Type} (close : Char) (item : Reader α) : Reader (List α) := fun s =>
  strictListWithin close item (s.length + 1) s

/-- Reads at least one item, with one comma between two of them. -/
def series {α : Type} (item : Reader α) : Reader (List α) := do
  let first ← item
  let rest ← Reader.extend (fun acc => do sign ','; return acc ++ [← item]) []
  return first :: rest

end LocaleEditor.Script
