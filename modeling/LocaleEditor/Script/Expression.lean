/-
LocaleEditor.Script.Expression — expressions.

An operand is a primary expression with its suffixes; operands are
joined by operators. How operators group matters only where an
expression could become a translation, and then it has no operators
besides type assertions, so precedence is not kept. A type assertion
after an operator takes in everything to its left.
-/
import LocaleEditor.Script.Function

namespace LocaleEditor.Script

open LocaleEditor.Text

/-! ## 1. Sequences -/

/-- Reads expressions between commas. -/
def sequence (value : Reader Value) : Reader Value := do
  let first ← value
  Reader.extend (fun v => do
    sign ','
    let _ ← value
    return .plain v.start (← Reader.left) false) first

/-! ## 2. Objects and arrays -/

/-- Reads the rest of a method after its name. -/
def methodRest (d : Dialect) (g : Grammar) : Reader Unit := do
  if d.types then
    let _ ← Reader.option (sign '?')
  let _ ← signature d g .afterColon
  let _ ← block g
  return ()

/-- Reads what follows the name of a member: its value, or the rest of a method. -/
def memberRest (d : Dialect) (g : Grammar) : Reader (Option Expr) := do
  if startsWith [':'] (← Reader.left) then
    sign ':'
    let v ← g.value .enclosed
    return some v.core
  else
    methodRest d g
    return none

/-- The words that may stand before the name of a method. -/
def methodWords (d : Dialect) : List String :=
  ["get", "set", "static", "async"] ++ (if d.types then accessWords else [])

/-- Reads a member of an object and gives its key and value where both can be kept. -/
def objectMember (d : Dialect) (g : Grammar) : Reader (Option (String × Expr)) := do
  gapBefore
  let s ← Reader.left
  match s with
  | [] => Reader.fail
  | c :: r =>
    if startsWith ['.', '.', '.'] s then
      symbol ['.', '.', '.']
      let _ ← g.value .enclosed
      return none
    else if c == '"' || c == '\'' then
      let inner ← stringLiteral
      let v ← memberRest d g
      return v.map (String.ofList (unescape inner), ·)
    else if c == '*' then
      Reader.goTo r
      propertyName g
      methodRest d g
      return none
    else if wordLength s = 0 then
      propertyName g
      let _ ← memberRest d g
      return none
    else
      let w ← word
      let t ← Reader.left
      if startsWith [':'] t then
        let v ← memberRest d g
        return v.map (w, ·)
      else if nextChar t == some ',' || nextChar t == some '\x7d' then return none
      else if startsWith ['('] t || startsWith ['<'] t || startsWith ['?'] t then
        methodRest d g
        return none
      else
        Reader.goTo s
        modifiers (methodWords d)
        let _ ← Reader.option (sign '*')
        propertyName g
        methodRest d g
        return none

/-- Reads an object. -/
def objectLiteral (d : Dialect) (g : Grammar) : Reader Expr := do
  sign '\x7b'
  let members ← looseList '\x7d' (objectMember d g)
  return .object (members.filterMap id)

/-- The value as an element of an array. -/
def Value.element? (v : Value) : Option Atom :=
  match v.bare, v.core with
  | true, .atom a => some a
  | _, _ => none

/-- All of some results, if none is missing. -/
def allSome {α : Type} : List (Option α) → Option (List α)
  | [] => some []
  | some a :: r => (allSome r).map (a :: ·)
  | none :: _ => none

/-- Reads an element of an array or an argument. -/
def spreadable (g : Grammar) : Reader (Option Atom) := do
  if startsWith ['.', '.', '.'] (← Reader.left) then
    symbol ['.', '.', '.']
    let _ ← g.value .enclosed
    return none
  else
    let v ← g.value .enclosed
    return v.element?

/-- Reads an array. -/
def arrayLiteral (g : Grammar) : Reader Expr := do
  sign '['
  let elements ← looseList ']' (spreadable g)
  return .array (allSome elements)

/-- Reads arguments after the opening parenthesis. -/
def argumentsRest (g : Grammar) : Reader Unit := do
  let _ ← looseList ')' (spreadable g)
  return ()

/-- Reads a template and gives it as an atom. -/
def template (g : Grammar) : Reader Atom := do
  sign '`'
  let s ← Reader.left
  let substituted ← templateRest (do
    let _ ← sequence (g.value .enclosed)
    return ())
  return .template ((consumed s (← Reader.left)).dropLast) substituted

/-! ## 3. Primary expressions -/

/-- Reads an expression in parentheses; its core is that of the expression. -/
def parenthesized (d : Dialect) (g : Grammar) : Reader Value := do
  gapBefore
  let s ← Reader.left
  sign '('
  let v ← sequence (g.value .enclosed)
  if d.types && startsWith [':'] (← Reader.left) then
    let _ ← colonType g .afterColon
  sign ')'
  return ⟨s.length, v.core, v.extent, false, true⟩

/-- Reads an object or array, unless it is a pattern that is assigned to. -/
def literalOrPattern (g : Grammar) (literal : Reader Expr) : Reader Value := fun s =>
  let start := (trivia true s).length
  let asPattern : Reader Value := do
    g.pattern
    equals
    let _ ← g.value .enclosed
    return .plain start (← Reader.left) false
  match literal s with
  | .done e rest =>
    match equals rest with
    | .done _ _ => asPattern s
    | .stuck _ => .done (.whole start e rest false) rest
  | .stuck n =>
    match asPattern s with
    | .done v rest => .done v rest
    | .stuck m => .stuck (min n m)

/-- The words that are prefix operators. -/
def prefixWords : List String := ["typeof", "void", "delete", "await"]

/-- Whether a prefix operator comes next. -/
def seesPrefix (s : List Char) : Bool :=
  (nextChar s).elim false (fun c => "+-!~<".toList.contains c)
    || ("yield" :: prefixWords).contains (nextWord s)

/-- Reads an expression that begins with a word. -/
def wordExpression (d : Dialect) (g : Grammar) (setting : Setting) : Reader Value := do
  gapBefore
  let s ← Reader.left
  let w ← word
  let r ← Reader.left
  if startsWith ['=', '>'] r && isName d w then
    Reader.goTo s
    arrowFunction d g setting
  else if w = "async" then
    (do
      Reader.goTo s
      if nextWord r = "function" then functionExpression d g else arrowFunction d g setting)
    <|> return .whole s.length (.atom (.name w)) r true
  else if w = "function" then
    Reader.goTo s
    functionExpression d g
  else if w = "class" then
    Reader.goTo s
    let _ ← classDefinition d g
    return .plain s.length (← Reader.left) false
  else if w = "new" then
    (do
      if startsWith ['.'] r then
        sign '.'
        keyword "target"
      else if seesPrefix r then Reader.fail
      else
        let _ ← g.operand setting
      return .plain s.length (← Reader.left) true)
    <|> (if d.types then (do
        Reader.goTo r
        return .whole s.length (.atom (.name w)) r true)
      else Reader.fail)
  else if w = "import" then
    if startsWith ['('] r || startsWith ['.'] r then return .plain s.length r false
    else Reader.fail
  else if w = "undefined" then return .whole s.length .undefined r true
  else if ["this", "super", "null", "true", "false"].contains w then
    return .plain s.length r false
  else if isName d w then return .whole s.length (.atom (.name w)) r true
  else Reader.fail

/-- Reads an expression without prefix operators and suffixes. -/
def primary (d : Dialect) (g : Grammar) (setting : Setting) : Reader Value := fun s =>
  let t := trivia true s
  let from' (r : List Char) (e : Expr) : Value := .whole t.length e r false
  match t with
  | [] => .stuck s.length
  | c :: r =>
    if c == '(' then Reader.either (arrowFunction d g setting) (parenthesized d g) t
    else if c == '\x7b' then literalOrPattern g (objectLiteral d g) t
    else if c == '[' then literalOrPattern g (arrayLiteral g) t
    else if c == '"' || c == '\'' then
      match stringLiteral t with
      | .done inner rest => .done (from' rest (.atom (.string inner))) rest
      | .stuck n => .stuck n
    else if c == '`' then
      match template g t with
      | .done a rest => .done (from' rest (.atom a)) rest
      | .stuck n => .stuck n
    else if c == '/' then
      match regexLength? t with
      | some n => .done (from' (t.drop n) .other) (t.drop n)
      | none => .stuck s.length
    else if c == '#' then
      let rest := r.drop (wordLength r)
      if wordLength r != 0 && nextWord rest == "in" then .done (from' rest .other) rest
      else .stuck s.length
    else if c == '@' then
      (do
        decorators g
        let _ ← classDefinition d g
        return .plain t.length (← Reader.left) false : Reader Value) t
    else
      match numberLength t with
      | n + 1 => .done (from' (t.drop (n + 1)) .other) (t.drop (n + 1))
      | 0 => if wordLength t = 0 then .stuck s.length else wordExpression d g setting t

/-! ## 4. Suffixes -/

/-- Whether nothing follows that an operator could apply to. -/
def seesEnd (s : List Char) : Bool :=
  match nextChar s with
  | none => true
  | some c => ")]\x7d,;:.".toList.contains c

/-- Reads a suffix of `v`: a member, a call, a mark. -/
def suffix (d : Dialect) (g : Grammar) (setting : Setting) (v : Value) : Reader Value := do
  let s ← Reader.left
  if setting.line && mayEnd d true s then Reader.fail
  else
    match trivia false s with
    | '.' :: r => do
      Reader.goTo r
      let _ ← Reader.option (sign '#')
      let _ ← word
      return .plain v.start (← Reader.left) true
    | '?' :: '.' :: r => do
      if r.head?.elim false Char.isDigit then Reader.fail
      else
        Reader.goTo r
        match trivia false r with
        | '(' :: r' =>
          Reader.goTo r'
          argumentsRest g
        | '[' :: r' =>
          Reader.goTo r'
          let _ ← sequence (g.value .enclosed)
          sign ']'
        | '<' :: _ =>
          if d.types then typeArguments g else Reader.fail
          sign '('
          argumentsRest g
        | _ =>
          let _ ← Reader.option (sign '#')
          let _ ← word
        return .plain v.start (← Reader.left) true
    | '[' :: r => do
      Reader.goTo r
      let _ ← sequence (g.value .enclosed)
      sign ']'
      return .plain v.start (← Reader.left) true
    | '(' :: r => do
      Reader.goTo r
      argumentsRest g
      return .plain v.start (← Reader.left) false
    | '`' :: _ => do
      let _ ← template g
      return .plain v.start (← Reader.left) false
    | '+' :: '+' :: r => do
      Reader.goTo r
      return .plain v.start r false
    | '-' :: '-' :: r => do
      Reader.goTo r
      return .plain v.start r false
    | '!' :: r =>
      if d.types && r.head? != some '=' then do
        Reader.goTo r
        return { v with bare := false, target := true }
      else Reader.fail
    | '<' :: _ => do
      if d.types then typeArguments g else Reader.fail
      let r ← Reader.left
      if startsWith ['('] r || startsWith ['`'] r || seesEnd r then
        return .plain v.start r false
      else Reader.fail
    | _ => Reader.fail

/-- The operators that assign. -/
def assignments : List (List Char) :=
  [">>>=", "**=", "<<=", ">>=", "&&=", "||=", "??=", "+=", "-=", "*=", "/=", "%=", "^=", "&=",
    "|="].map String.toList

/-- Reads an operator that assigns. -/
def assignment : Reader Unit := fun s =>
  match assignments.find? fun t => startsWith t s with
  | some t => symbol t s
  | none => equals s

/-- Reads an assignment to `v`, if one follows. -/
def assigned (g : Grammar) (setting : Setting) (v : Value) : Reader Value := do
  if v.target && (← Reader.sees assignment) then
    assignment
    let _ ← g.value setting
    return .plain v.start (← Reader.left) false
  else return v

/-! ## 5. Operands -/

/-- Reads a primary expression with its suffixes. -/
def suffixed (d : Dialect) (g : Grammar) (setting : Setting) : Reader Value := do
  let v ← primary d g setting
  let v ← Reader.extend (suffix d g setting) v
  assigned g setting v

/-- Reads an expression after a prefix operator. -/
def prefixed (g : Grammar) (setting : Setting) (start : Nat) : Reader Value := do
  let _ ← g.operand setting
  return .plain start (← Reader.left) false

/-- Reads what follows the word `yield`. -/
def yielded (d : Dialect) (g : Grammar) (setting : Setting) (start : Nat) : Reader Value := do
  let s ← Reader.left
  if setting.line && mayEnd d true s then return .plain start s false
  else if startsWith ['*'] s then
    sign '*'
    let _ ← g.value setting
    return .plain start (← Reader.left) false
  else
    let _ ← Reader.option (g.value setting)
    return .plain start (← Reader.left) false

/-- Reads an expression that begins with `<`. -/
def angled (d : Dialect) (g : Grammar) (setting : Setting) (start : Nat) : Reader Value :=
  (if d.types then arrowFunction d g setting else Reader.fail)
  <|> (if d.elements then (do
      sign '<'
      g.element
      return .plain start (← Reader.left) false)
    else (do
      typeArguments g
      let v ← g.operand setting
      return ⟨start, v.core, v.extent, false, false⟩))

/-- Reads an expression without binary operators. -/
def readOperand (d : Dialect) (g : Grammar) (setting : Setting) : Reader Value := fun s =>
  let t := trivia true s
  match t with
  | '+' :: '+' :: r => prefixed g setting t.length r
  | '-' :: '-' :: r => prefixed g setting t.length r
  | '+' :: r => prefixed g setting t.length r
  | '-' :: r => prefixed g setting t.length r
  | '!' :: r => prefixed g setting t.length r
  | '~' :: r => prefixed g setting t.length r
  | '<' :: _ => angled d g setting t.length t
  | _ =>
    let w := nextWord t
    if prefixWords.contains w then
      prefixed g setting t.length (t.drop (wordLength t))
    else if w = "yield" then yielded d g setting t.length (t.drop (wordLength t))
    else
      match suffixed d g setting t with
      | .done v rest => .done v rest
      | .stuck n => .stuck (if n = t.length then s.length else n)

/-! ## 6. Operators -/

/-- The binary operators, each before those that it begins with. -/
def operators : List (List Char) :=
  [">>>", "===", "!==", "**", "<<", ">>", "<=", ">=", "==", "!=", "&&", "||", "??", "+", "-", "*",
    "/", "%", "<", ">", "&", "|", "^"].map String.toList

/-- Reads a binary operator. -/
def operator : Reader Unit := fun s =>
  if (assignments.any fun t => startsWith t s) || startsWith ['=', '>'] s then .stuck s.length
  else
    match operators.find? fun t => startsWith t s with
    | some t => symbol t s
    | none => Reader.either (keyword "instanceof") (keyword "in") s

/-- Reads an operator after `v` with what it applies to. -/
def operated (d : Dialect) (g : Grammar) (setting : Setting) (v : Value) : Reader Value := do
  let s ← Reader.left
  if setting.line && mayEnd d true s then Reader.fail
  else if d.types && (nextWord s = "as" || nextWord s = "satisfies") then
    let _ ← word
    g.type ⟨setting.line, true⟩
    return { v with bare := false, target := false }
  else
    operator
    let _ ← g.operand setting
    return .plain v.start (← Reader.left) false

/-- Reads the rest of a conditional expression after its question mark. -/
def choiceRest (g : Grammar) : Reader Unit :=
  (do
    let _ ← g.value .enclosed
    sign ':')
  <|> (do
    let _ ← g.value ⟨false, true⟩
    sign ':')

/-- Whether the question mark of a conditional expression comes next. -/
def seesChoice (s : List Char) : Bool :=
  match trivia false s with
  | '?' :: '?' :: _ => false
  | '?' :: '.' :: r => r.head?.elim false Char.isDigit
  | '?' :: _ => true
  | _ => false

/-- Reads an expression without commas. -/
def readValue (d : Dialect) (g : Grammar) (setting : Setting) : Reader Value := do
  let v ← readOperand d g setting
  let v ← Reader.extend (operated d g setting) v
  if seesChoice (← Reader.left) then
    sign '?'
    choiceRest g
    let _ ← g.value setting
    return .plain v.start (← Reader.left) false
  else return v

end LocaleEditor.Script
