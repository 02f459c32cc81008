/-
LocaleEditor.Script.Element — elements written as tags.

An element is a tag that closes itself, or an opening tag, children and
a closing tag; the names of the two tags need not agree. Between tags
stand text, character references, braces with an expression and further
elements.
-/
import LocaleEditor.Script.Type

namespace LocaleEditor.Script

/-! ## 1. Character references -/

/-- The length of the character reference at the front, 0 if there is none. -/
def referenceLength : List Char → Nat
  | '&' :: '#' :: x :: r =>
    if x == 'x' || x == 'X' then
      let n := hexRun r
      if 1 ≤ n && n ≤ 6 && (r.drop n).head? == some ';' then n + 4 else 0
    else
      let n := ((x :: r).takeWhile Char.isDigit).length
      if 1 ≤ n && n ≤ 5 && ((x :: r).drop n).head? == some ';' then n + 3 else 0
  | '&' :: r =>
    let n := (r.takeWhile Char.isAlpha).length
    if 1 ≤ n && n ≤ 30 && (r.drop n).head? == some ';' then n + 2 else 0
  | _ => 0

/-- The length of the inside of an attribute's text up to its closing quote; `skip` characters
belong to a reference. -/
def attributeLength? (quote : Char) (skip : Nat) : List Char → Option Nat
  | [] => none
  | c :: r =>
    match skip with
    | k + 1 => (attributeLength? quote k r).map (· + 1)
    | 0 =>
      if c == quote then some 0
      else if c == '&' then
        match referenceLength (c :: r) with
        | n + 1 => (attributeLength? quote n r).map (· + 1)
        | 0 =>
          match r with
          | d :: _ =>
            if d == '#' || d.isAlpha then none else (attributeLength? quote 0 r).map (· + 1)
          | [] => none
      else (attributeLength? quote 0 r).map (· + 1)

/-! ## 2. Tags -/

/-- Reads a word of a tag, which may contain hyphens. -/
def tagWord : Reader Unit := fun s =>
  let s' := trivia false s
  match wordLength s' with
  | 0 => .stuck s.length
  | n + 1 =>
    let rest := s'.drop (n + 1)
    .done () (if rest.head? == some '-' then rest.dropWhile fun c => isWordPart c || c == '-'
      else rest)

/-- Reads the name of an element. -/
def tagName : Reader Unit := do
  tagWord
  Reader.extend (fun () => do
    (sign '.' <|> sign ':')
    tagWord) ()

/-- Reads the inside of braces in an element, and the closing brace. -/
def braced (g : Grammar) : Reader Unit := do
  if ← Reader.sees (sign '\x7d') then sign '\x7d'
  else do
    let _ ← Reader.option (symbol ['.', '.', '.'])
    let _ ← series (g.value .enclosed)
    sign '\x7d'

/-- Reads the value of an attribute. -/
def attributeValue (g : Grammar) : Reader Unit := do
  gap
  let s ← Reader.left
  match s with
  | [] => Reader.fail
  | c :: r =>
    if c == '"' || c == '\'' then
      match attributeLength? c 0 r with
      | some n => Reader.goTo (r.drop (n + 1))
      | none => Reader.fail
    else if c == '\x7b' then do
      Reader.goTo r
      braced g
    else if c == '<' then do
      Reader.goTo r
      g.element
    else Reader.fail

/-- Reads an attribute. -/
def tagAttribute (g : Grammar) : Reader Unit := do
  gap
  let s ← Reader.left
  match s with
  | '\x7b' :: r => do
    Reader.goTo r
    braced g
  | _ => do
    tagWord
    let _ ← Reader.option (do sign ':'; tagWord)
    if ← Reader.sees (sign '=') then do
      sign '='
      attributeValue g
    else return ()

/-- Reads the attributes of a tag. -/
def attributes (g : Grammar) : Reader Unit :=
  Reader.extend (fun () => tagAttribute g) ()

/-! ## 3. Elements -/

/-- Reads text between tags and gives nothing back; it reads at least one character. -/
def tagText : Reader Unit := fun s =>
  let rest := s.dropWhile fun c => !("<>\x7b\x7d&".toList.contains c) && c != '\x00'
  if rest.length < s.length then .done () rest else .stuck s.length

/-- Whether a closing tag begins here. -/
def seesClosing (s : List Char) : Bool := ['<', '/'].isPrefixOf s

/-- Reads one child of an element. -/
def child (g : Grammar) : Reader Unit := fun s =>
  match s with
  | '<' :: r => g.element r
  | '\x7b' :: r => braced g r
  | '&' :: _ =>
    match referenceLength s with
    | 0 => .stuck s.length
    | n + 1 => .done () (s.drop (n + 1))
  | _ => tagText s

/-- Reads the children of an element and its closing tag. -/
def children (g : Grammar) : Reader Unit := do
  let _ ← Reader.repeatUntil seesClosing (child g)
  symbol ['<', '/']
  let _ ← Reader.option tagName
  sign '>'

/-- Reads an element after its `<`. -/
def readElement (d : Dialect) (g : Grammar) : Reader Unit := do
  if ← Reader.sees (sign '>') then do
    sign '>'
    children g
  else do
    tagName
    if d.types then do
      let _ ← Reader.option (typeArguments g)
    attributes g
    (symbol ['/', '>']) <|> (do
      sign '>'
      children g)

end LocaleEditor.Script
