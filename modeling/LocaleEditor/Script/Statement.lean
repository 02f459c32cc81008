/-
LocaleEditor.Script.Statement — statements, declarations, imports and exports.

Of all statements only exports are kept: a value exported by default,
constants and variables with a value, and functions. Every other
statement is read to find where it ends. A word such as `type` or `let`
begins a statement of its own only if one can be read after it, and is
an ordinary name otherwise.
-/
import LocaleEditor.Script.Expression

namespace LocaleEditor.Script

/-- A declaration: the names that it would export. -/
abbrev Declared := Option (ExportKind × List Binding)

/-- Reads expressions between commas in a statement. -/
def statementExpressions (d : Dialect) (g : Grammar) (setting : Setting) : Reader Value :=
  sequence (readValue d g setting)

/-- Reads an expression in parentheses after a word such as `if`. -/
def condition (d : Dialect) (g : Grammar) : Reader Unit := do
  let _ ← parenthesized d g
  return ()

/-! ## 1. Variables -/

/-- Reads what a variable is called, or the pattern of several. -/
def bindingName (g : Grammar) : Reader (Option String) := do
  if seesPattern (← Reader.left) then
    g.pattern
    return none
  else
    return some (← word)

/-- Reads one variable with its type and value. -/
def declarator (d : Dialect) (g : Grammar) : Reader (Option Binding) := do
  let name ← bindingName g
  if d.types then
    let _ ← Reader.option (symbolUnless ['!'] ['='])
    if startsWith [':'] (← Reader.left) then
      let _ ← colonType g ⟨true, false⟩
  if ← Reader.sees equals then
    equals
    let v ← g.value .statement
    return name.map fun n => ⟨n, v.extent, v.core⟩
  else return none

/-- Reads variables up to the end of the statement. -/
def declarators (d : Dialect) (g : Grammar) : Reader Declared := do
  let bs ← series (declarator d g)
  semicolon d true
  return some (.initializer, bs.filterMap id)

/-! ## 2. Other declarations -/

/-- Reads the declaration of a function. -/
def functionDeclaration (d : Dialect) (g : Grammar) : Reader Declared := do
  gapBefore
  let s ← Reader.left
  let async ← Reader.option (keyword "async")
  keyword "function"
  let star ← Reader.option (sign '*')
  let name ← word
  let ps ← signature d g ⟨true, false⟩
  if startsWith ['\x7b'] (← Reader.left) then
    let (extent, _) ← block g
    let r ← Reader.left
    let rest := (end? d false r).getD r
    Reader.goTo rest
    match star with
    | some _ => return none
    | none =>
      let whole : Extent := ⟨s.length, rest.length⟩
      let head : Signature := ⟨async.isSome, ps⟩
      return some (.function, [⟨name, whole, .function head (.block extent)⟩])
  else if d.types && star.isNone then
    semicolon d false
    return none
  else Reader.fail

/-- Reads the declaration of a class. -/
def classDeclaration (d : Dialect) (g : Grammar) : Reader Declared := do
  decorators g
  if d.types then
    let _ ← Reader.option (keyword "abstract")
  if ← classDefinition d g then return none else Reader.fail

/-- Reads the declaration of a type. -/
def typeAlias (g : Grammar) (d : Dialect) : Reader Declared := do
  keyword "type"
  let _ ← word
  optionalTypeParameters d g
  equals
  g.type ⟨true, false⟩
  semicolon d false
  return none

/-- Reads the declaration of an interface. -/
def interfaceDeclaration (g : Grammar) (d : Dialect) : Reader Declared := do
  keyword "interface"
  let _ ← word
  optionalTypeParameters d g
  if nextWord (← Reader.left) = "extends" then
    keyword "extends"
    let _ ← series (do
      let _ ← word
      qualified g)
  sign '\x7b'
  typeMembers d g
  return none

/-- Reads the declaration of an enumeration. -/
def enumDeclaration (g : Grammar) : Reader Declared := do
  let _ ← Reader.option (keyword "const")
  keyword "enum"
  let _ ← word
  sign '\x7b'
  let _ ← strictList '\x7d' (do
    propertyName g
    let _ ← optionalInitializer g
    return ())
  return none

/-- Reads words between dots. -/
def dottedName : Reader Unit := do
  let _ ← word
  Reader.extend (fun () => do
    sign '.'
    let _ ← word
    return ()) ()

/-- Reads the declaration of a module or namespace. -/
def moduleDeclaration (g : Grammar) : Reader Declared := do
  let w ← word
  if w = "module" || w = "namespace" then
    (do
      let _ ← stringLiteral
      return ())
      <|> dottedName
    if startsWith ['\x7b'] (← Reader.left) then
      let _ ← block g
      return none
    else if w = "module" then return none
    else Reader.fail
  else Reader.fail

/-- Reads a declaration other than an ambient one. -/
def plainDeclaration (d : Dialect) (g : Grammar) : Reader Declared := do
  let s ← Reader.left
  let w := nextWord s
  if w = "var" then
    keyword "var"
    declarators d g
  else if w = "let" then
    keyword "let"
    declarators d g
  else if w = "const" then
    (do
      keyword "const"
      declarators d g)
      <|> (if d.types then enumDeclaration g else Reader.fail)
  else if w = "function" || w = "async" then functionDeclaration d g
  else if w = "class" || nextChar s == some '@' then classDeclaration d g
  else if !d.types then Reader.fail
  else if w = "abstract" then classDeclaration d g
  else if w = "type" then typeAlias g d
  else if w = "interface" then interfaceDeclaration g d
  else if w = "enum" then enumDeclaration g
  else if w = "module" || w = "namespace" then moduleDeclaration g
  else Reader.fail

/-- Reads a declaration. -/
def declaration (d : Dialect) (g : Grammar) : Reader Declared := do
  if d.types && nextWord (← Reader.left) = "declare" then
    keyword "declare"
    (do
      keyword "global"
      let _ ← block g
      return ())
      <|> (do
        let _ ← plainDeclaration d g
        return ())
    return none
  else plainDeclaration d g

/-! ## 3. Imports -/

/-- Reads a name that another module exports. -/
def exportedName : Reader Unit :=
  (do
    let _ ← word
    return ())
  <|> (do
    let _ ← stringLiteral
    return ())

/-- Reads one name in the braces of an import or export. -/
def specifier (d : Dialect) : Reader Unit :=
  (do
    exportedName
    let _ ← Reader.option (do
      keyword "as"
      exportedName)
    let s ← Reader.left
    if nextChar s == some ',' || nextChar s == some '\x7d' then return () else Reader.fail)
  <|> (if d.types then (do
      (keyword "type" <|> keyword "typeof")
      exportedName
      let _ ← Reader.option (do
        keyword "as"
        exportedName)
      return ())
    else Reader.fail)

/-- Reads names in braces. -/
def specifiers (d : Dialect) : Reader Unit := do
  sign '\x7b'
  let _ ← strictList '\x7d' (specifier d)
  return ()

/-- Reads the module that names come from. -/
def fromClause : Reader Unit := do
  keyword "from"
  let _ ← stringLiteral
  return ()

/-- Reads all the names of a module under one name. -/
def namespaceClause : Reader Unit := do
  sign '*'
  keyword "as"
  exportedName

/-- Reads what is imported. -/
def importClause (d : Dialect) : Reader Unit :=
  namespaceClause <|> specifiers d
  <|> (do
    let _ ← word
    let _ ← Reader.option (do
      sign ','
      namespaceClause <|> specifiers d)
    return ())

/-- Reads attributes of an import. -/
def importAttributes (d : Dialect) (g : Grammar) : Reader Unit := do
  let s ← Reader.left
  if !mayEnd d true s && nextWord s = "with" then
    keyword "with"
    let _ ← objectLiteral d g
  return ()

/-- Reads an import. -/
def importStatement (d : Dialect) (g : Grammar) : Reader Unit := do
  keyword "import"
  let clause : Reader Unit := do
    importClause d
    fromClause
  (do
    let _ ← stringLiteral
    return ())
    <|> (if d.types then (do
        (keyword "type" <|> keyword "typeof")
        clause)
      else Reader.fail)
    <|> clause
    <|> (if d.types then (do
        let _ ← word
        equals
        (do
          keyword "require"
          sign '('
          let _ ← stringLiteral
          sign ')')
          <|> dottedName)
      else Reader.fail)
  importAttributes d g
  semicolon d true

/-! ## 4. Exports -/

/-- Reads an export that names no value of its own. -/
def exportList (d : Dialect) : Reader Unit := do
  keyword "export"
  if d.types && nextWord (← Reader.left) = "type" then
    keyword "type"
    specifiers d
    let _ ← Reader.option fromClause
    semicolon d true
  else
    (do
      sign '*'
      fromClause)
      <|> (do
        namespaceClause
        fromClause)
      <|> (do
        specifiers d
        let _ ← Reader.option fromClause
        return ())
    semicolon d true

/-- Reads the exports that only a language with types has. -/
def typedExport (d : Dialect) (g : Grammar) : Reader Unit := do
  keyword "export"
  (do
    keyword "import"
    let _ ← word
    equals
    dottedName
    semicolon d true)
    <|> (do
      equals
      let _ ← g.value .statement
      semicolon d true)
    <|> (do
      keyword "as"
      keyword "namespace"
      let _ ← word
      semicolon d true)

/-- Reads an export. -/
def exportStatement (d : Dialect) (g : Grammar) : Reader Statement :=
  (do
    decorators g
    keyword "export"
    if nextWord (← Reader.left) = "default" then
      keyword "default"
      (do
        let _ ← declaration d g
        return .other)
        <|> (do
          let v ← g.value .statement
          semicolon d true
          return .exportDefault v)
    else
      match ← declaration d g with
      | some (kind, bindings) => return .exportNamed kind bindings
      | none => return .other)
  <|> (do
    exportList d
    return .other)
  <|> (if d.types then (do
      typedExport d g
      return .other)
    else Reader.fail)

/-! ## 5. Statements that contain statements -/

/-- Whether a declaration begins here for certain: a bracket after `let` opens a pattern and does
not index something called `let`. -/
def seesLetPattern (s : List Char) : Bool :=
  let t := trivia true s
  nextWord t = "let" && nextChar (t.drop (wordLength t)) == some '['

/-- Reads the header of a loop over the members of something. -/
def forInHeader (g : Grammar) : Reader Unit := do
  sign '('
  (do
    (keyword "var" <|> keyword "let" <|> keyword "const")
    let _ ← bindingName g
    let _ ← optionalInitializer g
    return ())
    <|> (do
      if seesLetPattern (← Reader.left) then Reader.fail
      else
        let _ ← g.operand .enclosed
        return ())
  (keyword "in" <|> keyword "of")
  let _ ← sequence (g.value .enclosed)
  sign ')'

/-- Reads the header of a loop with three parts. -/
def forHeader (d : Dialect) (g : Grammar) : Reader Unit := do
  sign '('
  let w := nextWord (← Reader.left)
  let part : Reader Unit :=
    sign ';' <|> (do
      let _ ← sequence (g.value .enclosed)
      sign ';')
  (if w = "var" || w = "let" || w = "const" then (do
      let _ ← plainDeclaration d g
      return ())
    else Reader.fail)
    <|> (do if seesLetPattern (← Reader.left) then Reader.fail else part)
  part
  if ← Reader.sees (sign ')') then sign ')'
  else
    let _ ← sequence (g.value .enclosed)
    sign ')'

/-- Whether a new branch or the end of a choice between values comes next. -/
def seesBranch (s : List Char) : Bool :=
  (trivia true s).head? == some '\x7d' || nextWord s = "case" || nextWord s = "default"

/-- Reads the branches of a choice between values. -/
def switchBody (g : Grammar) : Reader Unit := do
  sign '\x7b'
  let _ ← Reader.repeatUntil (fun s => (trivia true s).head? == some '\x7d') (do
    (do
      keyword "case"
      let _ ← sequence (g.value .enclosed)
      return ())
      <|> keyword "default"
    sign ':'
    let _ ← Reader.repeatUntil seesBranch g.statement
    return ())
  gapBefore
  sign '\x7d'

/-- Reads a statement that tries, catches and cleans up. -/
def tryStatement (d : Dialect) (g : Grammar) : Reader Unit := do
  let _ ← block g
  if nextWord (← Reader.left) = "catch" then
    keyword "catch"
    let _ ← Reader.option (do
      sign '('
      let _ ← bindingName g
      if d.types && startsWith [':'] (← Reader.left) then
        let _ ← colonType g .afterColon
      sign ')')
    let _ ← block g
  if nextWord (← Reader.left) = "finally" then
    keyword "finally"
    let _ ← block g

/-- Reads a jump with its label. -/
def jump (d : Dialect) : Reader Unit := do
  if mayEnd d false (← Reader.left) then return ()
  else
    let _ ← Reader.option word
    semicolon d false

/-- Reads the rest of a statement that begins with the word `w`; there is none for other words. -/
def wordStatement (d : Dialect) (g : Grammar) (w : String) : Option (Reader Unit) :=
  let body : Reader Unit := do
    let _ ← g.statement
    return ()
  if w = "if" then some do
    condition d g
    body
    if nextWord (← Reader.left) = "else" then
      keyword "else"
      body
  else if w = "switch" then some do
    condition d g
    switchBody g
  else if w = "for" then some do
    let _ ← Reader.option (keyword "await")
    (forInHeader g <|> forHeader d g)
    body
  else if w = "while" || w = "with" then some do
    condition d g
    body
  else if w = "do" then some do
    body
    keyword "while"
    condition d g
    let _ ← Reader.option (semicolon d true)
    return ()
  else if w = "try" then some (tryStatement d g)
  else if w = "break" || w = "continue" then some (jump d)
  else if w = "debugger" then some (semicolon d false)
  else if w = "return" then some do
    if mayEnd d false (← Reader.left) then return ()
    else if ← Reader.sees (sign ';') then sign ';'
    else
      let _ ← sequence (g.value .statement)
      semicolon d true
  else if w = "throw" then some do
    let _ ← sequence (g.value .statement)
    semicolon d true
  else none

/-! ## 6. Statements -/

/-- Reads an expression as a statement. -/
def expressionStatement (d : Dialect) (g : Grammar) : Reader Statement := do
  let _ ← statementExpressions d g .statement
  semicolon d true
  return .other

/-- The words that begin a declaration. -/
def declarationWords (d : Dialect) : List String :=
  ["var", "let", "const", "function", "async", "class"]
    ++ (if d.types then
      ["abstract", "type", "interface", "enum", "module", "namespace", "declare"] else [])

/-- The words that a statement can only begin with as what they stand for. -/
def strictWords (d : Dialect) : List String :=
  ["var", "const"] ++ (if d.types then ["abstract", "interface", "enum"] else [])

/-- The words that begin a declaration and may be names as well. -/
def nameWords : List String := ["let", "async", "type", "module", "namespace", "declare"]

/-- Whether the first word is a statement of its own. -/
def standsAlone (d : Dialect) (s : List Char) : Bool :=
  let t := trivia true s
  mayEnd d true (t.drop (wordLength t))

/-- Reads an expression that begins with the name `export`; a star after it would be that of an
export, and so would `as`. -/
def exportExpression (d : Dialect) (g : Grammar) : Reader Statement := do
  let t := trivia true (← Reader.left)
  let rest := t.drop (wordLength t)
  if nextChar rest == some '*' || (d.types && nextWord rest = "as") then Reader.fail
  else expressionStatement d g

/-- Reads a statement that begins with the word `w`. -/
def statementFrom (d : Dialect) (g : Grammar) (w : String) : Reader Statement :=
  if w = "export" then do
    if standsAlone d (← Reader.left) then expressionStatement d g
    else exportStatement d g <|> exportExpression d g
  else if w = "import" then
    (do
      importStatement d g
      return .other)
    <|> expressionStatement d g
  else
    match wordStatement d g w with
    | some rest => do
      keyword w
      rest
      return .other
    | none =>
      (if (declarationWords d).contains w then (do
          if nameWords.contains w && standsAlone d (← Reader.left) then Reader.fail
          else
            let _ ← declaration d g
            return .other)
        else Reader.fail)
      <|> (do
        if (strictWords d).contains w || seesLetPattern (← Reader.left) then Reader.fail
        else
          (do
            let _ ← word
            sign ':'
            let _ ← g.statement
            return .labelled)
          <|> expressionStatement d g)

/-- Reads a statement. -/
def readStatement (d : Dialect) (g : Grammar) : Reader Statement := fun s =>
  let t := trivia true s
  match t with
  | ';' :: r => .done .other r
  | '\x7b' :: _ =>
    ((do
        let _ ← block g
        return .other)
      <|> expressionStatement d g : Reader Statement) t
  | '@' :: _ =>
    (exportStatement d g
      <|> (do
        let _ ← classDeclaration d g
        return .other)
      <|> expressionStatement d g : Reader Statement) t
  | _ =>
    if wordLength t = 0 then expressionStatement d g t
    else statementFrom d g (nextWord t) t

end LocaleEditor.Script
