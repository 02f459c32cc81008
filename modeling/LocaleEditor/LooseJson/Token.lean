/-
LocaleEditor.LooseJson.Token — the tokens of JSON as people write it.

Besides what JSON has there are comments, strings in single quotes,
numbers with a plus sign or in hexadecimal, and words. A word ends only
at white space or a colon, so that it can serve as a key and nothing
else. The words `true`, `false` and `null` are never keys.
-/
import LocaleEditor.Text.Escape
import LocaleEditor.Text.Letters
import LocaleEditor.Text.Blank

namespace LocaleEditor.LooseJson

open LocaleEditor.Text

/-- A token. Numbers keep their text. -/
inductive Token where
  | openBrace
  | closeBrace
  | openBracket
  | closeBracket
  | comma
  | colon
  | string (value : List Char)
  | number (text : List Char)
  | boolean (value : Bool)
  | null
  | word (text : List Char)
  deriving DecidableEq, Repr

/-! ## 1. Strings -/

/-- The character that an escape of one letter stands for, in a string between quotes `q`. -/
def simpleEscape? (q c : Char) : Option Char :=
  match c with
  | '\\' => some '\\'
  | '/' => some '/'
  | 'b' => some '\x08'
  | 'f' => some '\x0c'
  | 'n' => some '\n'
  | 'r' => some '\r'
  | 't' => some '\t'
  | c => if c = q then some c else none

/-- The character that the digits after `\u` write, and how many characters write it. Surrogates
have to come in pairs. -/
def unicodeEscape? (s : List Char) : Option (Char × Nat) :=
  match hexPrefix? 4 s with
  | none => none
  | some n =>
    if isHighSurrogate n then
      (lowSurrogate? (s.drop 4)).bind fun low => (scalar? (joinSurrogates n low)).map (·, 10)
    else (scalar? n).map (·, 4)

/-- The value of a string up to its closing quote `q`, and the text after that. The first `skip`
characters belong to an escape. -/
def stringRest? (q : Char) (skip : Nat) : List Char → Option (List Char × List Char)
  | [] => none
  | c :: r =>
    match skip with
    | k + 1 => stringRest? q k r
    | 0 =>
      if c = q then some ([], r)
      else if c = '\\' then
        match r with
        | [] => none
        | e :: r' =>
          if e = 'u' then
            match unicodeEscape? r' with
            | none => none
            | some (v, n) => (stringRest? q (n + 1) r).map fun (value, rest) => (v :: value, rest)
          else
            match simpleEscape? q e with
            | none => none
            | some v => (stringRest? q 1 r).map fun (value, rest) => (v :: value, rest)
      else (stringRest? q 0 r).map fun (value, rest) => (c :: value, rest)

/-! ## 2. Numbers -/

/-- How many characters in front satisfy `p`. -/
def run (p : Char → Bool) (s : List Char) : Nat := (s.takeWhile p).length

/-- A dot with at least one digit after it, or nothing: how many characters, unless digits are
missing. -/
def fractionLength? (s : List Char) : Option Nat :=
  match s with
  | '.' :: r => if run Char.isDigit r = 0 then none else some (run Char.isDigit r + 1)
  | _ => some 0

/-- An exponent, or nothing: how many characters, unless digits are missing. -/
def exponentLength? (s : List Char) : Option Nat :=
  match s with
  | c :: r =>
    if c = 'e' ∨ c = 'E' then
      let sign := if r.head? = some '-' ∨ r.head? = some '+' then 1 else 0
      let n := run Char.isDigit (r.drop sign)
      if n = 0 then none else some (n + sign + 1)
    else some 0
  | [] => some 0

/-- The length of a number without its sign. -/
def unsignedLength? (s : List Char) : Option Nat :=
  let withTail (n : Nat) : Option Nat :=
    (fractionLength? (s.drop n)).bind fun f =>
      (exponentLength? (s.drop (n + f))).map fun e => n + f + e
  match s with
  | [] => none
  | c :: r =>
    if c = '0' then
      match r with
      | x :: r' =>
        if x = 'x' ∨ x = 'X' then
          let n := run (fun d => (hexDigit? d).isSome) r'
          if n = 0 then none else some (n + 2)
        else withTail 1
      | [] => some 1
    else if c.isDigit then withTail (run Char.isDigit s)
    else none

/-- The length of a number. -/
def numberLength? (s : List Char) : Option Nat :=
  match s with
  | c :: r =>
    if c = '-' ∨ c = '+' then (unsignedLength? r).map (· + 1) else unsignedLength? s
  | [] => none

/-! ## 3. Words -/

/-- The text after the word `w`, if it stands in front and no letter or digit follows. -/
def afterWord? (w s : List Char) : Option (List Char) :=
  if w.isPrefixOf s && !((s.drop w.length).head?.elim false isLetterOrNumeral) then
    some (s.drop w.length)
  else none

/-- Whether a character ends a word. -/
def endsWord (c : Char) : Bool := isBlank c || c == ':'

/-- Whether a character may stand in a word. -/
def isWordChar (c : Char) : Bool := isLetterOrNumeral c || c == '-' || c == '_'

/-- A word of any other kind, and the text after it. -/
def word? (s : List Char) : Option (Token × List Char) :=
  let w := s.takeWhile fun c => !endsWord c
  if w.isEmpty || !w.all isWordChar then none else some (.word w, s.drop w.length)

/-! ## 4. Tokens -/

/-- The text after a block comment of which the beginning was read. -/
def afterBlock? : List Char → Option (List Char)
  | [] => none
  | '*' :: '/' :: r => some r
  | _ :: r => afterBlock? r

/-- The text after a line comment of which the beginning was read. -/
def afterLine : List Char → List Char
  | [] => []
  | '\n' :: r => '\n' :: r
  | _ :: r => afterLine r

/-- The first token and the text after it; a comment or white space gives no token. -/
def next? (c : Char) (r : List Char) : Option (Option Token × List Char) :=
  if isBlank c then some (none, r)
  else
    match c with
    | '{' => some (some .openBrace, r)
    | '}' => some (some .closeBrace, r)
    | '[' => some (some .openBracket, r)
    | ']' => some (some .closeBracket, r)
    | ',' => some (some .comma, r)
    | ':' => some (some .colon, r)
    | '"' => (stringRest? '"' 0 r).map fun (v, rest) => (some (.string v), rest)
    | '\'' => (stringRest? '\'' 0 r).map fun (v, rest) => (some (.string v), rest)
    | '/' =>
      match r with
      | '/' :: r' => some (none, afterLine r')
      | '*' :: r' => (afterBlock? r').map (none, ·)
      | _ => none
    | c =>
      let s := c :: r
      if c = '-' ∨ c = '+' ∨ c.isDigit then
        (numberLength? s).map fun n => (some (.number (s.take n)), s.drop n)
      else
        match afterWord? "true".toList s, afterWord? "false".toList s,
          afterWord? "null".toList s with
        | some rest, _, _ => some (some (.boolean true), rest)
        | _, some rest, _ => some (some (.boolean false), rest)
        | _, _, some rest => some (some .null, rest)
        | _, _, _ => (word? s).map fun (t, rest) => (some t, rest)

/-- The tokens of a text, for at most as many rounds as given. -/
def tokensWithin? : Nat → List Char → Option (List Token)
  | _, [] => some []
  | 0, _ :: _ => none
  | n + 1, c :: r =>
    match next? c r with
    | none => none
    | some (none, rest) => tokensWithin? n rest
    | some (some t, rest) => (tokensWithin? n rest).map (t :: ·)

/-- The tokens of a text. -/
def tokens? (s : List Char) : Option (List Token) := tokensWithin? s.length s

end LocaleEditor.LooseJson
