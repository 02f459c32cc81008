/-
LocaleEditor.Script.Function — patterns, blocks, functions and classes.

The text of a block is everything between its braces without the white
space at both ends, so that comments at its ends belong to it.

After an arrow, braces are a block where they can be one. Only if that
block would begin with a label, as in `{ a: 'x' }`, are they rather an
object.
-/
import LocaleEditor.Script.Element

namespace LocaleEditor.Script

open LocaleEditor.Text

/-! ## 1. Patterns -/

/-- Reads a default value, if there is one. -/
def optionalInitializer (g : Grammar) : Reader (Option Value) := do
  if ← Reader.sees equals then
    equals
    return some (← g.value .enclosed)
  else return none

/-- Reads a pattern with a default value. -/
def patternElement (g : Grammar) : Reader Unit := do
  g.pattern
  let _ ← optionalInitializer g
  return ()

/-- Reads a member of a pattern for objects. -/
def patternMember (g : Grammar) : Reader Unit :=
  (do
    symbol ['.', '.', '.']
    g.pattern)
  <|> (do
    propertyName g
    sign ':'
    patternElement g)
  <|> (do
    let _ ← word
    let _ ← optionalInitializer g
    return ())

/-- Reads a pattern. -/
def readPattern (d : Dialect) (g : Grammar) : Reader Unit := do
  let s ← Reader.left
  match trivia true s with
  | [] => Reader.fail
  | c :: r =>
    if c == '\x7b' then do
      Reader.goTo r
      let _ ← looseList '\x7d' (patternMember g)
      return ()
    else if c == '[' then do
      Reader.goTo r
      let _ ← looseList ']' (patternElement g)
      return ()
    else if startsWith ['.', '.', '.'] s then do
      symbol ['.', '.', '.']
      g.pattern
    else do
      let w ← word
      let t ← Reader.left
      if startsWith ['.'] t || startsWith ['['] t || !isName d w then
        if w = "undefined" then return ()
        else do
          Reader.goTo s
          let v ← g.operand .enclosed
          if v.target then return () else Reader.fail
      else return ()

/-! ## 2. Blocks -/

/-- Where the text of a block stands, given what is left after its opening brace and at its closing
one. -/
def blockExtent (inner stop : List Char) : Extent :=
  let trimmed := inner.dropWhile isSpace
  if trimmed.length ≤ stop.length then ⟨stop.length, stop.length⟩
  else
    let tail := ((consumed trimmed stop).reverse.takeWhile isSpace).length
    ⟨trimmed.length, stop.length + tail⟩

/-- Whether a statement begins with a label. -/
def Statement.isLabelled : Statement → Bool
  | .labelled => true
  | _ => false

/-- Reads a block; the answer tells where its text stands and whether it begins with a label. -/
def block (g : Grammar) : Reader (Extent × Bool) := do
  sign '\x7b'
  let inner ← Reader.left
  let statements ← Reader.repeatUntil (fun s => (trivia true s).head? == some '\x7d') g.statement
  gapBefore
  let stop ← Reader.left
  Reader.goTo (stop.drop 1)
  return (blockExtent inner stop, statements.head?.elim false Statement.isLabelled)

/-! ## 3. Functions -/

/-- What a function that returns this value returns as a translation. -/
def Value.returned? (v : Value) : Option (Atom ⊕ List Atom) :=
  match v.core with
  | .atom a => some (.inl a)
  | .array (some es) => some (.inr es)
  | _ => none

/-- Reads the expression that a function returns. -/
def returnedBody (g : Grammar) (setting : Setting) : Reader FunctionBody := do
  gapBefore
  let s ← Reader.left
  let v ← g.value setting
  return .returned v.returned? (consumed s (← Reader.left))

/-- Reads what follows the arrow of a function. -/
def arrowBody (g : Grammar) (setting : Setting) : Reader FunctionBody := fun s =>
  match block g s with
  | .done (extent, false) rest => .done (.block extent) rest
  | .done (extent, true) rest =>
    match returnedBody g setting s with
    | .done b rest' => .done b rest'
    | .stuck _ => .done (.block extent) rest
  | .stuck n =>
    match returnedBody g setting s with
    | .done b rest => .done b rest
    | .stuck m => .stuck (min n m)

/-- Reads the parameters of an arrow function up to the arrow. -/
def arrowHead (d : Dialect) (g : Grammar) (setting : Setting) (async : Bool) : Reader Signature :=
  (do
    let s ← Reader.left
    if startsWith ['('] s || startsWith ['<'] s then do
      optionalTypeParameters d g
      let ps ← parameters d g
      if d.types && !setting.choice && startsWith [':'] (← Reader.left) then
        colonResult g .afterColon
      arrow
      return ⟨async, ps⟩
    else do
      let w ← word
      arrow
      if isName d w then return ⟨async, [⟨.name w, none, false⟩]⟩ else Reader.fail)

/-- Reads an arrow function. -/
def arrowFunction (d : Dialect) (g : Grammar) (setting : Setting) : Reader Value := do
  gapBefore
  let s ← Reader.left
  let head ← (do keyword "async"; arrowHead d g setting true) <|> arrowHead d g setting false
  let body ← arrowBody g setting
  return .whole s.length (.function head body) (← Reader.left) false

/-- Reads a function written with the word `function`; a generator is no translation. -/
def functionExpression (d : Dialect) (g : Grammar) : Reader Value := do
  gapBefore
  let s ← Reader.left
  let async ← Reader.option (keyword "async")
  keyword "function"
  let star ← Reader.option (sign '*')
  let t ← Reader.left
  if !(startsWith ['('] t || startsWith ['<'] t) then
    let _ ← word
  let ps ← signature d g .afterColon
  let (extent, _) ← block g
  let rest ← Reader.left
  match star with
  | some _ => return .plain s.length rest false
  | none =>
    return .whole s.length (.function ⟨async.isSome, ps⟩ (.block extent)) rest false

/-! ## 4. Classes -/

/-- The words that may stand before a member of a class. -/
def classWords : List String :=
  accessWords ++ ["static", "async", "get", "set", "abstract", "declare", "accessor"]

/-- Reads a member of a class. -/
def classMember (d : Dialect) (g : Grammar) : Reader Unit :=
  sign ';'
  <|> (do
    keyword "static"
    let _ ← block g
    return ())
  <|> (if d.types then
      (do
        modifiers ["static"]
        indexSignature g
        (sign ',' <|> semicolon d true))
    else Reader.fail)
  <|> (do
    decorators g
    modifiers (if d.types then classWords else ["static", "async", "get", "set"])
    let _ ← Reader.option (sign '*')
    propertyName g
    if d.types then
      let _ ← Reader.option (sign '?' <|> symbolUnless ['!'] ['='])
    let s ← Reader.left
    if startsWith ['('] s || startsWith ['<'] s then do
      let _ ← signature d g .afterColon
      if startsWith ['\x7b'] (← Reader.left) then do
        let _ ← block g
        return ()
      else if d.types then (sign ',' <|> semicolon d false)
      else Reader.fail
    else do
      if d.types && startsWith [':'] s then
        let _ ← colonType g ⟨true, false⟩
      if ← Reader.sees equals then
        equals
        let _ ← g.value .statement
      if d.types then (sign ',' <|> semicolon d true) else semicolon d true)

/-- Reads a class that is extended, with its type arguments. -/
def superclass (d : Dialect) (g : Grammar) : Reader Unit :=
  (do
    let _ ← word
    Reader.extend (fun () => do
      sign '.'
      let _ ← word
      return ()) ()
    if d.types then
      let _ ← Reader.option (typeArguments g)
    let s ← Reader.left
    if nextChar s == some '\x7b' || nextChar s == some ',' || nextWord s == "implements" then
      return ()
    else Reader.fail)
  <|> (do
    let _ ← g.operand .enclosed
    return ())

/-- Reads what a class extends and implements. -/
def heritage (d : Dialect) (g : Grammar) : Reader Unit := do
  if nextWord (← Reader.left) = "extends" then do
    keyword "extends"
    if d.types then do
      let _ ← series (superclass d g)
    else superclass d g
  if d.types && nextWord (← Reader.left) = "implements" then do
    keyword "implements"
    let _ ← series (g.type .afterColon)

/-- Reads a class from the word `class`, and tells whether it has a name. -/
def classDefinition (d : Dialect) (g : Grammar) : Reader Bool := do
  keyword "class"
  let next := nextWord (← Reader.left)
  let named := next != "" && next != "extends" && !(d.types && next == "implements")
  if named then
    let _ ← word
  optionalTypeParameters d g
  heritage d g
  sign '\x7b'
  let _ ← Reader.repeatUntil (fun s => (trivia true s).head? == some '\x7d') (classMember d g)
  gapBefore
  sign '\x7d'
  return named

end LocaleEditor.Script
