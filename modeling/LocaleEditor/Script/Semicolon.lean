/-
LocaleEditor.Script.Semicolon — where a statement ends without a semicolon.

A statement may end at the end of the text, before a closing brace, and
at a line break, unless what follows the line break would go on with the
statement (`continues`). The answer depends on whether an operator could
stand there, which is not so right after `return`, for example.
-/
import LocaleEditor.Language
import LocaleEditor.Script.Token

namespace LocaleEditor.Script

/-- The white space that the search for a line break passes over. -/
def isPlainSpace (c : Char) : Bool := c == ' ' || ('\t' ≤ c && c ≤ '\r')

/-- What a block comment leaves, and whether it holds a line break. -/
def afterBlock : List Char → List Char × Bool
  | [] => ([], false)
  | '*' :: '/' :: r => (r, false)
  | c :: r =>
    let (rest, broken) := afterBlock r
    (rest, broken || c == '\n' || c == '\u2028' || c == '\u2029')

/-- Passes over comments and white space. With `all` it passes over everything, and otherwise stops
after a block comment that no other comment follows; then the answer tells whether a line break was
seen. There is no answer where a slash begins no comment. -/
def passComments? (all : Bool) : Nat → List Char → Option (List Char × Bool)
  | 0, s => some (s, true)
  | n + 1, s =>
    match s.dropWhile isPlainSpace with
    | '/' :: '/' :: r => passComments? all n (r.drop (lineRest r))
    | '/' :: '*' :: r =>
      let (rest, broken) := afterBlock r
      if !all && rest.head? != some '/' then some (rest, broken) else passComments? all n rest
    | '/' :: _ => none
    | rest => some (rest, true)

/-- Whether what follows a line break goes on with the statement. -/
def continues (types operator : Bool) (s : List Char) : Bool :=
  match passComments? true (s.length + 1) s with
  | none => true
  | some (rest, _) =>
    match rest with
    | [] => false
    | '.' :: r => types || !(r.head?.elim false Char.isDigit)
    | '+' :: r => r.head? != some '+'
    | '-' :: r => r.head? != some '-'
    | '!' :: r => r.head? == some '='
    | 'i' :: 'n' :: r =>
      !(r.head?.elim false Char.isAlpha)
        || ("stanceof".toList.isPrefixOf r && !((r.drop 8).head?.elim false Char.isAlpha))
    | c :: _ =>
      "`,:;*%><=?^|&/".toList.contains c || ((c == '(' || c == '[') && (operator || !types))

/-- Whether the text in front lets a statement end; a comment in front lets it end only where there
are no types. `operator` tells whether an operator could stand here. -/
def endsWithin (types operator : Bool) : Nat → List Char → Bool
  | 0, _ => false
  | n + 1, s =>
    match s with
    | [] => true
    | '\x7d' :: r =>
      if types && (r.dropWhile isPlainSpace).head? == some ':' then operator else true
    | '/' :: _ =>
      if types then false
      else
        match passComments? false s.length s with
        | none => false
        | some (rest, broken) =>
          if broken && !operator && rest.head? != some ',' && rest.head? != some '=' then true
          else endsWithin types operator n rest
    | c :: r =>
      if c == '\n' || (!types && (c == '\u2028' || c == '\u2029')) then !continues types operator r
      else if isPlainSpace c then endsWithin types operator n r
      else false

/-- Where a statement ends without a semicolon, for at most as many comments as given: here, or
after comments that follow on its line. -/
def endWithin? (d : Dialect) (operator : Bool) : Nat → List Char → Option (List Char)
  | 0, _ => none
  | n + 1, s =>
    if endsWithin d.types operator (s.length + 1) s then some s
    else
      let t := s.dropWhile isSpace
      match commentLength false t with
      | 0 => none
      | k + 1 => endWithin? d operator n (t.drop (k + 1))

/-- Where a statement ends without a semicolon, if it may end so. -/
def end? (d : Dialect) (operator : Bool) (s : List Char) : Option (List Char) :=
  endWithin? d operator (s.length + 1) s

/-- Whether a statement may end here without a semicolon. -/
def mayEnd (d : Dialect) (operator : Bool) (s : List Char) : Bool := (end? d operator s).isSome

/-- Reads the end of a statement: a semicolon, or nothing where it may be left out. -/
def semicolon (d : Dialect) (operator : Bool) : Reader Unit := fun s =>
  match end? d operator s with
  | some rest => .done () rest
  | none =>
    match trivia false s with
    | ';' :: r => .done () r
    | t => .stuck t.length

end LocaleEditor.Script
