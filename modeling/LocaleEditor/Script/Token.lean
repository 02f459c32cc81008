/-
LocaleEditor.Script.Token — the smallest pieces of a script.

Words, numbers, escapes, string literals and regular expressions are
measured from the front of a text: each function gives the number of
characters that the piece takes. Between pieces there may be white
space and comments (`trivia`). An HTML comment counts as one only where
an expression or statement may begin, because elsewhere its characters
are operators.

A NUL character is part of no piece.
-/
import LocaleEditor.Text.Blank
import LocaleEditor.Text.Escape
import LocaleEditor.Script.Reader

namespace LocaleEditor.Script

open LocaleEditor.Text

/-! ## 1. Characters -/

/-- White space of a script: the blank characters and three that have no width. -/
def isSpace (c : Char) : Bool :=
  isBlank c || c == '\ufeff' || c == '\u200b' || c == '\u2060'

/-- The characters that end a line of a script. -/
def isLineEnd (c : Char) : Bool := c == '\n' || c == '\r' || c == '\u2028' || c == '\u2029'

/-- The ASCII characters that no word contains. -/
def punctuation : List Char := ":;`\"'@#.,|^&<=>+-*/\\%?!~()[]\x7b\x7d".toList

/-- A character that may stand in a word, escapes aside. -/
def isWordPart (c : Char) : Bool :=
  0x1f < c.toNat && !punctuation.contains c && !isSpace c

/-- A character that may begin a word. -/
def isWordStart (c : Char) : Bool := isWordPart c && !c.isDigit

/-! ## 2. Comments and white space -/

/-- How many characters of a block comment are left, counting its end. -/
def blockRest? : List Char → Option Nat
  | [] => none
  | '*' :: '/' :: _ => some 2
  | _ :: r => (blockRest? r).map (· + 1)

/-- How many characters the text has up to the end of its line. -/
def lineRest (s : List Char) : Nat := (s.takeWhile fun c => !isLineEnd c).length

/-- The length of the comment at the front, 0 if there is none. -/
def commentLength (html : Bool) : List Char → Nat
  | '/' :: '/' :: r => lineRest r + 2
  | '/' :: '*' :: r =>
    match blockRest? r with
    | some n => n + 2
    | none => 0
  | '<' :: '!' :: '-' :: '-' :: r => if html then lineRest r + 4 else 0
  | '-' :: '-' :: '>' :: r => if html then lineRest r + 3 else 0
  | _ => 0

/-- The text after white space and comments, of which `skip` characters still belong to a
comment. -/
def triviaFrom (html : Bool) (skip : Nat) : List Char → List Char
  | [] => []
  | c :: r =>
    match skip with
    | k + 1 => triviaFrom html k r
    | 0 =>
      if isSpace c then triviaFrom html 0 r
      else
        match commentLength html (c :: r) with
        | 0 => c :: r
        | n + 1 => triviaFrom html n r

/-- The text after white space and comments. -/
def trivia (html : Bool) (s : List Char) : List Char := triviaFrom html 0 s

/-! ## 3. Escapes and words -/

/-- How many hexadecimal digits stand in front. -/
def hexRun (s : List Char) : Nat := (s.takeWhile fun c => (hexDigit? c).isSome).length

/-- The length of an escape `\u…` at the front, 0 if there is none. -/
def unicodeLength : List Char → Nat
  | '\\' :: 'u' :: '{' :: r =>
    let n := hexRun r
    if 0 < n && (r.drop n).head? == some '}' then n + 4 else 0
  | '\\' :: 'u' :: r => if 4 ≤ hexRun r then 6 else 0
  | _ => 0

/-- An octal digit. -/
def isOctal (c : Char) : Bool := '0' ≤ c && c ≤ '7'

/-- The length of the escape at the front of a string or template, 0 if it is not well formed. -/
def escapeLength : List Char → Nat
  | '\\' :: c :: r =>
    if c == 'u' then unicodeLength ('\\' :: c :: r)
    else if c == 'x' then (if 2 ≤ hexRun r then 4 else 0)
    else if isOctal c then ((c :: r).take 3 |>.takeWhile isOctal).length + 1
    else if c == '\x00' then 0
    else if (c == '\r' || c == '?') &&
        (r.head? == some '\n' || r.head? == some '\u2028' || r.head? == some '\u2029') then 3
    else 2
  | _ => 0

/-- The length of the word at the front, of which `skip` characters belong to an escape. -/
def wordLengthFrom (skip : Nat) : List Char → Nat
  | [] => 0
  | c :: r =>
    match skip with
    | k + 1 => wordLengthFrom k r + 1
    | 0 =>
      if isWordPart c then wordLengthFrom 0 r + 1
      else
        match unicodeLength (c :: r) with
        | 0 => 0
        | n + 1 => wordLengthFrom n r + 1

/-- The length of the word at the front, 0 if there is none. -/
def wordLength : List Char → Nat
  | [] => 0
  | c :: r => if c.isDigit then 0 else wordLengthFrom 0 (c :: r)

/-! ## 4. Literals -/

/-- The length of the inside of a string up to its closing quote, if it is well formed. -/
def stringLength? (quote : Char) (skip : Nat) : List Char → Option Nat
  | [] => none
  | c :: r =>
    match skip with
    | k + 1 => (stringLength? quote k r).map (· + 1)
    | 0 =>
      if c == quote then some 0
      else if c == '\\' then
        match escapeLength (c :: r) with
        | 0 => none
        | n + 1 => (stringLength? quote n r).map (· + 1)
      else if c == '\n' || c == '\r' || c == '\x00' then none
      else (stringLength? quote 0 r).map (· + 1)

/-- How many characters of a regular expression are left up to its closing slash; `inClass` tells
whether it is inside square brackets, `escaped` whether a backslash came just before. -/
def patternLength? (inClass escaped : Bool) : List Char → Option Nat
  | [] => none
  | c :: r =>
    if c == '\n' || c == '\x00' then none
    else if escaped then (patternLength? inClass false r).map (· + 1)
    else if c == '\\' then (patternLength? inClass true r).map (· + 1)
    else if inClass then (patternLength? (c != ']') false r).map (· + 1)
    else if c == '/' then some 0
    else (patternLength? (c == '[') false r).map (· + 1)

/-- The length of the regular expression at the front, with its flags. -/
def regexLength? : List Char → Option Nat
  | '/' :: r =>
    match patternLength? false false r with
    | some (n + 1) =>
      some (n + 3 + ((r.drop (n + 2)).takeWhile fun c => 'a' ≤ c && c ≤ 'z').length)
    | _ => none
  | _ => none

/-- The length of a run of digits, where single underscores may stand between two of them. -/
def digitRun (isDigit : Char → Bool) : List Char → Nat
  | [] => 0
  | c :: r =>
    if isDigit c then
      match r with
      | '_' :: d :: _ => if isDigit d then digitRun isDigit r + 1 else 1
      | _ => digitRun isDigit r + 1
    else if c == '_' then
      match r with
      | d :: _ => if isDigit d then digitRun isDigit r + 1 else 0
      | [] => 0
    else 0

/-- The length of a run of digits that begins with one. -/
def digitsLength (isDigit : Char → Bool) (s : List Char) : Nat :=
  match s with
  | c :: _ => if isDigit c then digitRun isDigit s else 0
  | [] => 0

/-- The length of an exponent at the front, 0 if there is none. -/
def exponentLength : List Char → Nat
  | c :: r =>
    if c == 'e' || c == 'E' then
      let sign := if r.head? == some '-' || r.head? == some '+' then 1 else 0
      match digitsLength Char.isDigit (r.drop sign) with
      | 0 => 0
      | n + 1 => n + 2 + sign
    else 0
  | [] => 0

/-- The length of the number at the front, 0 if there is none. -/
def numberLength (s : List Char) : Nat :=
  let radix (isDigit : Char → Bool) : Nat :=
    match digitsLength isDigit (s.drop 2) with
    | 0 => 0
    | n + 1 => n + 3 + (if (s.drop (n + 3)).head? == some 'n' then 1 else 0)
  let prefixed :=
    match s with
    | '0' :: 'x' :: _ => radix fun c => (hexDigit? c).isSome
    | '0' :: 'X' :: _ => radix fun c => (hexDigit? c).isSome
    | '0' :: 'b' :: _ => radix fun c => c == '0' || c == '1'
    | '0' :: 'B' :: _ => radix fun c => c == '0' || c == '1'
    | '0' :: 'o' :: _ => radix isOctal
    | '0' :: 'O' :: _ => radix isOctal
    | _ => 0
  if prefixed != 0 then prefixed
  else
    match s with
    | '.' :: r =>
      match digitsLength Char.isDigit r with
      | 0 => 0
      | n + 1 => n + 2 + exponentLength (r.drop (n + 1))
    | _ =>
      match digitsLength Char.isDigit s with
      | 0 => 0
      | n + 1 =>
        match s.drop (n + 1) with
        | 'n' :: _ => n + 2
        | '.' :: r =>
          let f := digitsLength Char.isDigit r
          n + 2 + f + exponentLength (r.drop f)
        | r => n + 1 + exponentLength r

end LocaleEditor.Script
