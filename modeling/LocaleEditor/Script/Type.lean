/-
LocaleEditor.Script.Type — types.

Types are read only to find where they end. A type is an atom with
suffixes; the operators of types have no precedence here because nothing
depends on how they group.
-/
import LocaleEditor.Script.Signature

namespace LocaleEditor.Script

/-! ## 1. Templates -/

/-- Reads the inside of a template and its closing backtick, for at most as many rounds as given.
`hole` reads what is in `${…}`. The answer tells whether there was such a part. -/
def templateRestWithin (hole : Reader Unit) : Nat → Reader Bool
  | 0 => Reader.fail
  | n + 1 => fun s =>
    match s with
    | [] => .stuck 0
    | '`' :: r => .done false r
    | '$' :: '\x7b' :: r =>
      match hole r with
      | .stuck m => .stuck m
      | .done _ r' =>
        match trivia false r' with
        | '\x7d' :: r'' =>
          match templateRestWithin hole n r'' with
          | .done _ rest => .done true rest
          | .stuck m => .stuck m
        | _ => .stuck r'.length
    | '\\' :: _ =>
      match escapeLength s with
      | 0 => .stuck s.length
      | k + 1 => templateRestWithin hole n (s.drop (k + 1))
    | '\x00' :: _ => .stuck s.length
    | _ :: r => templateRestWithin hole n r

/-- Reads a template after its opening backtick. -/
def templateRest (hole : Reader Unit) : Reader Bool := fun s =>
  templateRestWithin hole (s.length + 1) s

/-! ## 2. Members of object types -/

/-- Reads the name of a property, method or member. -/
def propertyName (g : Grammar) : Reader Unit := do
  let s ← Reader.left
  match trivia true s with
  | [] => Reader.fail
  | c :: r =>
    if c == '"' || c == '\'' then do let _ ← stringLiteral; return ()
    else if c.isDigit || c == '.' then number
    else if c == '[' then do
      Reader.goTo r
      let _ ← g.value .enclosed
      sign ']'
    else if c == '#' then
      if wordLength r = 0 then Reader.fail else do
        Reader.goTo (r.drop (wordLength r))
    else do let _ ← word; return ()

/-- Whether the name of a property may begin here. -/
def seesPropertyName (s : List Char) : Bool :=
  match trivia true s with
  | [] => false
  | c :: _ => "\"'[#".toList.contains c || c.isDigit || nextWord s != ""

/-- Reads words from `words` that stand before the name of a property. -/
def modifiers (words : List String) : Reader Unit :=
  Reader.extend (fun () => do
    let w ← word
    let s ← Reader.left
    if words.contains w && (seesPropertyName s || nextChar s == some '*') then return ()
    else Reader.fail) ()

/-- Reads the type of an index signature or mapped type. -/
def indexedType (g : Grammar) : Reader Unit := do
  let _ ← Reader.option (sign '-' <|> sign '+')
  let _ ← Reader.option (sign '?')
  sign ':'
  g.type ⟨true, false⟩

/-- Reads an index signature or a mapped type. -/
def indexSignature (g : Grammar) : Reader Unit := do
  let _ ← Reader.option (do
    let _ ← Reader.option (sign '-' <|> sign '+')
    keyword "readonly")
  sign '['
  let _ ← word
  (do
    keyword "in"
    g.type .afterColon
    let _ ← Reader.option (do keyword "as"; g.type .afterColon)
    sign ']')
    <|> (do
      sign ':'
      g.type .afterColon
      sign ']')
  indexedType g

/-- The words that may stand before a member of an object type. -/
def memberWords : List String := accessWords ++ ["static", "async", "get", "set"]

/-- Reads a member of an object type. -/
def typeMember (d : Dialect) (g : Grammar) : Reader Unit :=
  indexSignature g
  <|> (do
    let s ← Reader.left
    if startsWith ['('] s || startsWith ['<'] s then do
      let _ ← signature d g ⟨true, false⟩
      return ()
    else Reader.fail)
  <|> (do
    let _ ← Reader.option (keyword "abstract")
    keyword "new"
    let _ ← signature d g ⟨true, false⟩
    return ())
  <|> (do
    modifiers memberWords
    let _ ← Reader.option (sign '*')
    propertyName g
    let _ ← Reader.option (sign '?')
    let s ← Reader.left
    if startsWith ['('] s || startsWith ['<'] s then do
      let _ ← signature d g ⟨true, false⟩
      return ()
    else if startsWith [':'] s then do
      let _ ← colonType g ⟨true, false⟩
      return ()
    else return ())

/-- Reads the members of an object type after the opening brace. -/
def typeMembers (d : Dialect) (g : Grammar) : Reader Unit := do
  let _ ← Reader.option (sign ',' <|> sign ';')
  let _ ← Reader.repeatUntil (fun s => nextChar s == some '\x7d') (do
    typeMember d g
    if ← Reader.sees (sign '\x7d') then return ()
    else (sign ',' <|> semicolon d false))
  sign '\x7d'

/-! ## 3. Atoms -/

/-- Reads the type of a function after its type parameters. -/
def functionType (d : Dialect) (g : Grammar) (place : TypeSetting) : Reader Unit := do
  optionalTypeParameters d g
  let _ ← parameters d g
  arrow
  resultType g place

/-- Reads a member of a tuple type. -/
def tupleMember (g : Grammar) : Reader Unit :=
  (do
    let _ ← Reader.option (symbol ['.', '.', '.'])
    let _ ← word
    let _ ← Reader.option (sign '?')
    sign ':'
    g.type .afterColon)
  <|> (do
    let _ ← Reader.option (symbol ['.', '.', '.'])
    g.type .afterColon
    let _ ← Reader.option (sign '?')
    return ())

/-- Reads names after dots, and type arguments. -/
def qualified (g : Grammar) : Reader Unit := do
  let _ ← Reader.extend (fun () => do
    sign '.'
    let _ ← Reader.option (sign '#')
    let _ ← word
    return ()) ()
  let _ ← Reader.option (typeArguments g)
  return ()

/-- Reads a type that begins with a word. -/
def wordType (d : Dialect) (g : Grammar) (place : TypeSetting) : Reader Unit := do
  let s ← Reader.left
  let w ← word
  if w = "keyof" || w = "readonly" then g.type place
  else if w = "typeof" then do
    (do
      keyword "import"
      sign '('
      let _ ← stringLiteral
      sign ')')
      <|> (do
        let _ ← word
        return ())
    qualified g
  else if w = "infer" then do
    let _ ← word
    let _ ← Reader.option (do keyword "extends"; g.type place)
    return ()
  else if w = "unique" then keyword "symbol"
  else if w = "new" then functionType d g place
  else if w = "abstract" then do
    keyword "new"
    functionType d g place
  else if w = "import" then do
    sign '('
    let _ ← stringLiteral
    sign ')'
    qualified g
  else if w = "" then do
    Reader.goTo s
    Reader.fail
  else qualified g

/-- Reads a type without suffixes. -/
def typeAtom (d : Dialect) (g : Grammar) (place : TypeSetting) : Reader Unit := do
  let s ← Reader.left
  match trivia true s with
  | [] => Reader.fail
  | c :: r =>
    if c == '(' then
      functionType d g place <|> (do
        sign '('
        g.type .afterColon
        sign ')')
    else if c == '<' then functionType d g place
    else if c == '\x7b' then do
      Reader.goTo r
      typeMembers d g
    else if c == '[' then do
      Reader.goTo r
      let _ ← strictList ']' (tupleMember g)
      return ()
    else if c == '`' then do
      Reader.goTo r
      let _ ← templateRest (g.type .afterColon)
      return ()
    else if c == '"' || c == '\'' then do
      let _ ← stringLiteral
      return ()
    else if c.isDigit || c == '.' then number
    else if c == '-' || c == '+' then do
      Reader.goTo r
      number
    else if c == '|' || c == '&' || c == '?' then do
      Reader.goTo r
      g.type place
    else if c == '*' then Reader.goTo r
    else wordType d g place

/-! ## 4. Types -/

/-- Reads one suffix of a type. -/
def typeSuffix (d : Dialect) (g : Grammar) (place : TypeSetting) : Reader Unit := do
  let s ← Reader.left
  if place.line && mayEnd d false s then Reader.fail
  else
    match trivia false s with
    | '[' :: r => do
      Reader.goTo r
      sign ']' <|> (do
        g.type .afterColon
        sign ']')
    | '|' :: r =>
      if place.operators && r.head? == some '|' then Reader.fail
      else do
        Reader.goTo r
        g.type place
    | '&' :: r =>
      if place.operators && r.head? == some '&' then Reader.fail
      else do
        Reader.goTo r
        g.type place
    | _ => do
      keyword "extends"
      g.type .afterColon
      sign '?'
      g.type .afterColon
      sign ':'
      g.type place

/-- Reads a type. -/
def readType (d : Dialect) (g : Grammar) (place : TypeSetting) : Reader Unit := do
  typeAtom d g place
  Reader.extend (fun () => typeSuffix d g place) ()

end LocaleEditor.Script
