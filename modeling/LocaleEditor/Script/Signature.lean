/-
LocaleEditor.Script.Signature — the parameters and result of a function.

A parameter is read with the text of its type, and with whether it has a
default value. Of one that takes its argument apart, or collects the
remaining arguments, only this is kept.
-/
import LocaleEditor.Script.Grammar

namespace LocaleEditor.Script

/-- The words that begin an expression of their own, so that they are no names there. -/
def expressionWords : List String :=
  ["function", "class", "this", "super", "null", "true", "false", "undefined", "import", "typeof",
    "void", "delete", "await", "yield"]

/-- Whether a word can be a name in an expression. -/
def isName (d : Dialect) (w : String) : Bool :=
  !expressionWords.contains w && (d.types || w != "new")

/-- The words that may stand before the name of a parameter or member. -/
def accessWords : List String := ["public", "private", "protected", "override", "readonly"]

/-! ## 1. Types where they are used -/

/-- Reads a type after a colon and gives its text. -/
def colonType (g : Grammar) (place : TypeSetting) : Reader (List Char) := do
  sign ':'
  gap
  let s ← Reader.left
  g.type place
  return consumed s (← Reader.left)

/-- Reads one type parameter. -/
def typeParameter (g : Grammar) : Reader Unit := do
  let _ ← Reader.option (do keyword "const"; if (← Reader.sees word) then pure () else Reader.fail)
  let _ ← word
  let _ ← Reader.option (do
    (keyword "extends" <|> sign ':')
    g.type .afterColon)
  let _ ← Reader.option (do equals; g.type .afterColon)
  return ()

/-- Reads type parameters. -/
def typeParameters (g : Grammar) : Reader Unit := do
  sign '<'
  let ps ← strictList '>' (typeParameter g)
  if ps.isEmpty then Reader.fail else return ()

/-- Reads type arguments. -/
def typeArguments (g : Grammar) : Reader Unit := do
  sign '<'
  let ts ← strictList '>' (g.type .afterColon)
  if ts.isEmpty then Reader.fail else return ()

/-- Reads what the result of a function is, which may be a statement about an argument. -/
def resultType (g : Grammar) (place : TypeSetting) : Reader Unit :=
  (do
    keyword "asserts"
    let _ ← word
    let _ ← Reader.option (do keyword "is"; g.type place)
    return ())
  <|> (do
    let _ ← word
    keyword "is"
    g.type place)
  <|> g.type place

/-- Reads the result type of a function after its colon. -/
def colonResult (g : Grammar) (place : TypeSetting) : Reader Unit := do
  sign ':'
  resultType g place

/-! ## 2. Decorators -/

/-- Reads a decorator. -/
def decorator (g : Grammar) : Reader Unit := do
  gapBefore
  let s ← Reader.left
  match s with
  | '@' :: r =>
    match trivia false r with
    | '(' :: r' => do
      Reader.goTo r'
      let _ ← g.value .enclosed
      sign ')'
    | t =>
      if wordLength t = 0 then Reader.fail
      else do
        Reader.goTo r
        let _ ← word
        let _ ← Reader.extend (fun _ => do sign '.'; word) ""
        let _ ← Reader.option (do
          sign '('
          looseList ')' (g.value .enclosed))
        return ()
  | _ => Reader.fail

/-- Reads any number of decorators. -/
def decorators (g : Grammar) : Reader Unit := Reader.extend (fun () => decorator g) ()

/-! ## 3. Parameters -/

/-- Whether something that takes a value apart begins here. -/
def seesPattern (s : List Char) : Bool :=
  nextChar s == some '\x7b' || nextChar s == some '['

/-- Reads words such as `public` before a parameter. -/
def parameterModifiers : Reader Unit :=
  Reader.extend (fun () => do
    let w ← word
    let s ← Reader.left
    if accessWords.contains w && (seesPattern s || nextWord s != "") then return ()
    else Reader.fail)
    ()

/-- Reads what a parameter binds. -/
def parameterBinder (d : Dialect) (g : Grammar) : Reader Binder := do
  let s ← Reader.left
  if seesPattern s then
    g.pattern
    return .pattern
  else if startsWith ['.', '.', '.'] s then
    symbol ['.', '.', '.']
    g.pattern
    return .rest
  else
    let w ← word
    let r ← Reader.left
    if startsWith ['.'] r || startsWith ['['] r then
      Reader.goTo s
      let v ← g.operand .enclosed
      if v.target then return .other else Reader.fail
    else if w = "undefined" || (d.types && w = "this") then return .other
    else if isName d w then return .name w
    else Reader.fail

/-- What is bound by a name that is one pattern with its default value. -/
def Binder.withDefault : Binder → Binder
  | .name w => .assigned w
  | b => b

/-- Reads a parameter. -/
def parameter (d : Dialect) (g : Grammar) : Reader Parameter := do
  if d.types then
    decorators g
    parameterModifiers
  let binder ← parameterBinder d g
  let mut type : Option (List Char) := none
  if d.types then
    let _ ← Reader.option (sign '?')
    if startsWith [':'] (← Reader.left) then
      type := some (← colonType g .afterColon)
  let mut default := false
  if ← Reader.sees equals then
    equals
    let _ ← g.value .enclosed
    default := true
  return ⟨if default && !d.types then binder.withDefault else binder, type.map String.ofList,
    default⟩

/-- Reads parameters in parentheses. -/
def parameters (d : Dialect) (g : Grammar) : Reader (List Parameter) := do
  sign '('
  strictList ')' (parameter d g)

/-- Reads type parameters, if there are any. -/
def optionalTypeParameters (d : Dialect) (g : Grammar) : Reader Unit := do
  if d.types && startsWith ['<'] (← Reader.left) then typeParameters g else return ()

/-- Reads the parameters of a function with what belongs to them. -/
def signature (d : Dialect) (g : Grammar) (place : TypeSetting) : Reader (List Parameter) := do
  optionalTypeParameters d g
  let ps ← parameters d g
  if d.types && startsWith [':'] (← Reader.left) then colonResult g place
  return ps

end LocaleEditor.Script
