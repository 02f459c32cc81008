/-
LocaleEditor.Glob.Token — the parts of a pattern for file names.

Besides letters a pattern has `?` for one byte, `*` for any bytes, `**`
for any folders, classes in brackets, alternatives in braces with commas
between them, and `\` before a letter that is meant as such. Two stars
that do not stand between slashes are two single ones.

Reading keeps a list of tokens and the groups that are open around it.
-/
namespace LocaleEditor.Glob

/-! ## 1. Tokens and faults -/

/-- A part of a pattern. -/
inductive Token where
  | letter (c : Char)
  /-- One byte. -/
  | one
  /-- Any bytes. -/
  | any
  /-- Any folders in front. -/
  | foldersBefore
  /-- Anything inside a folder. -/
  | inside
  /-- Any folders between two others. -/
  | foldersBetween
  /-- A byte of a class, or one that is not in it. -/
  | oneOf (negated : Bool) (ranges : List (Char × Char))
  /-- One of several patterns; the empty pattern where none is given. -/
  | alternatives (branches : List (List Token))
  deriving Repr

/-- Why a pattern cannot be read. -/
inductive PatternFault where
  | unclosedClass
  | invalidRange (first last : Char)
  | unopenedGroup
  | unclosedGroup
  | danglingEscape
  deriving DecidableEq, Repr

def PatternFault.message : PatternFault → String
  | .unclosedClass => "unclosed character class; missing ']'"
  | .invalidRange first last =>
    "invalid range; '" ++ first.toString ++ "' > '" ++ last.toString ++ "'"
  | .unopenedGroup =>
    "unopened alternate group; missing '\x7b' (maybe escape '\x7d' with '[\x7d]'?)"
  | .unclosedGroup =>
    "unclosed alternate group; missing '\x7d' (maybe escape '\x7b' with '[\x7b]'?)"
  | .danglingEscape => "dangling '\\'"

/-- A pattern that cannot be read, and why. -/
structure PatternError where
  pattern : String
  fault : PatternFault
  deriving DecidableEq, Repr

def PatternError.message (e : PatternError) : String :=
  "error parsing glob '" ++ e.pattern ++ "': " ++ e.fault.message

/-! ## 2. Classes -/

/-- The last range with its end moved to `c`. -/
def extendLast (c : Char) : List (Char × Char) → Except PatternFault (List (Char × Char))
  | [] => .ok []
  | [(first, _)] => if c < first then .error (.invalidRange first c) else .ok [(first, c)]
  | r :: rs => (extendLast c rs).map (r :: ·)

/-- The ranges up to the closing bracket, and the text after it. `dash` tells that a dash waits
for the end of a range. A bracket or dash in the first place is a letter. -/
def classFrom (first dash : Bool) (ranges : List (Char × Char)) :
    List Char → Except PatternFault (List (Char × Char) × List Char)
  | [] => .error .unclosedClass
  | c :: r =>
    if c = ']' ∧ !first then .ok (if dash then ranges ++ [('-', '-')] else ranges, r)
    else if c = '-' ∧ !first ∧ !dash then classFrom false true ranges r
    else if dash then
      match extendLast c ranges with
      | .error fault => .error fault
      | .ok ranges' => classFrom false false ranges' r
    else classFrom false false (ranges ++ [(c, c)]) r

/-- The class after an opening bracket, and the text after it. -/
def readClass : List Char → Except PatternFault (Token × List Char)
  | c :: r =>
    if c = '!' ∨ c = '^' then
      (classFrom true false [] r).map fun (ranges, rest) => (.oneOf true ranges, rest)
    else (classFrom true false [] (c :: r)).map fun (ranges, rest) => (.oneOf false ranges, rest)
  | [] => .error .unclosedClass

/-! ## 3. Reading -/

/-- An open group: the tokens before it and its finished branches, the last one first. -/
structure Group where
  before : List Token
  branches : List (List Token)

/-- What was read of a pattern: the tokens of the branch at hand, the last one first, the open
groups, the innermost first, and the character before. -/
structure Progress where
  tokens : List Token
  groups : List Group
  previous : Option Char

/-- Whether no branch is left of a group. -/
def Token.isVoid : Token → Bool
  | .alternatives [] => true
  | _ => false

namespace Progress

def push (p : Progress) (t : Token) : Progress := { p with tokens := t :: p.tokens }

/-- Ends the innermost group. Branches with nothing in them do not count. -/
def endGroup (p : Progress) : Except PatternFault Progress :=
  match p.groups with
  | [] => .error .unopenedGroup
  | g :: gs =>
    let branches := (p.tokens.reverse :: g.branches).reverse
    let kept := branches.filter fun b => !b.all Token.isVoid
    .ok { p with tokens := .alternatives kept :: g.before, groups := gs }

/-- Ends a branch and begins the next one; outside a group a comma is a letter. -/
def endBranch (p : Progress) : Progress :=
  match p.groups with
  | [] => p.push (.letter ',')
  | g :: gs => { p with tokens := [], groups := ⟨g.before, p.tokens.reverse :: g.branches⟩ :: gs }

/-- Replaces the slash before two stars by what the stars mean there. -/
def replaceLast (p : Progress) (t : Token) : Progress :=
  match p.tokens with
  | .foldersBefore :: _ => p
  | .inside :: _ => p
  | _ :: ts => { p with tokens := t :: ts }
  | [] => p.push t

/-- Reads two stars with `rest` after them. -/
def twoStars (p : Progress) (rest : List Char) : Progress × List Char :=
  let plain := ((p.push .any).push .any, rest)
  let inGroup := !p.groups.isEmpty
  if p.tokens.isEmpty then
    match rest with
    | [] => (p.push .foldersBefore, [])
    | '/' :: r => (p.push .foldersBefore, r)
    | _ => plain
  else
    let begins := p.previous = some '/'
      || inGroup && (p.previous = some ',' || p.previous = some '{')
    if !begins then plain
    else
      match rest with
      | [] => (p.replaceLast .inside, [])
      | '/' :: r => (p.replaceLast .foldersBetween, r)
      | c :: _ =>
        if inGroup && (c = ',' || c = '}') then (p.replaceLast .inside, rest) else plain

/-- Reads the character `c` with `r` after it. `lenient` takes a bracket that is never closed for
a letter. -/
def step (lenient : Bool) (p : Progress) (c : Char) (r : List Char) :
    Except PatternFault (Progress × List Char) :=
  match c with
  | '?' => .ok (p.push .one, r)
  | '*' =>
    match r with
    | '*' :: rest => .ok (p.twoStars rest)
    | _ => .ok (p.push .any, r)
  | '[' =>
    match readClass r with
    | .ok (t, rest) => .ok (p.push t, rest)
    | .error .unclosedClass =>
      if lenient then .ok (p.push (.letter '['), r) else .error .unclosedClass
    | .error fault => .error fault
  | '{' => .ok ({ p with tokens := [], groups := ⟨p.tokens, []⟩ :: p.groups }, r)
  | '}' => p.endGroup.map (·, r)
  | ',' => .ok (p.endBranch, r)
  | '\\' =>
    match r with
    | [] => .error .danglingEscape
    | e :: rest => .ok (p.push (.letter e), rest)
  | c => .ok (p.push (.letter c), r)

/-- Reads all of a pattern, for at most as many rounds as given. -/
def readWithin (lenient : Bool) : Nat → Progress → List Char → Except PatternFault (List Token)
  | _, p, [] => if p.groups.isEmpty then .ok p.tokens.reverse else .error .unclosedGroup
  | 0, _, _ :: _ => .error .danglingEscape
  | n + 1, p, c :: r =>
    match p.step lenient c r with
    | .error fault => .error fault
    | .ok (p', rest) =>
      let read := (c :: r).take (r.length + 1 - rest.length)
      readWithin lenient n { p' with previous := read.getLast? } rest

end Progress

/-- The tokens of a pattern. -/
def parse (lenient : Bool) (pattern : String) : Except PatternError (List Token) :=
  let s := pattern.toList
  match Progress.readWithin lenient s.length ⟨[], [], none⟩ s with
  | .ok tokens => .ok tokens
  | .error fault => .error ⟨pattern, fault⟩

end LocaleEditor.Glob
