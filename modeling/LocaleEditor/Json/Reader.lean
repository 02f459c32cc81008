/-
LocaleEditor.Json.Reader — reading a JSON document from its start.

A reader takes what is left of a document. It reads a piece, or it fails
with a fault. A fault lies at a certain byte, which is told by how many
bytes are left there. A fault of content is found without a place; it
gets the place that reading has come to when the list, object or scalar
around it ends (`located`). For that, a list or object is read to its
closing bracket also after a fault inside it (`closing`).
-/
import LocaleEditor.Json.Fault
import LocaleEditor.Text.Span

namespace LocaleEditor.Json

open LocaleEditor.Text

/-- How many levels a document has: lists and objects nest at most one less deeply. -/
def depthLimit : Nat := 128

/-! ## 1. Outcomes -/

/-- A fault and how many bytes are left where it lies, once that is known. -/
structure Failure where
  fault : Fault
  left : Option Nat
  deriving DecidableEq, Repr

/-- What comes of reading a piece: the piece or a failure, and what is left. -/
inductive Outcome (α : Type) where
  | done (value : α) (rest : List Char)
  | failed (failure : Failure) (rest : List Char)
  deriving Repr

/-- Reads a piece from the front of a document. -/
def Reader (α : Type) : Type := List Char → Outcome α

namespace Reader

instance : Monad Reader where
  pure a := fun s => .done a s
  bind p f := fun s =>
    match p s with
    | .done a rest => f a rest
    | .failed failure rest => .failed failure rest

/-! ## 2. Failing -/

/-- Fails where reading stands. -/
def failHere {α : Type} (fault : Fault) : Reader α := fun s =>
  .failed ⟨fault, some (byteLength s)⟩ s

/-- Fails one byte after the place where reading stands, or at the end. -/
def failAfter {α : Type} (fault : Fault) : Reader α := fun s =>
  .failed ⟨fault, some (byteLength s - 1)⟩ s

/-- Fails without a place. -/
def refuse {α : Type} (fault : Fault) : Reader α := fun s => .failed ⟨fault, none⟩ s

/-- Refuses with the fault of `e`, or reads nothing and yields its value. -/
def ofExcept {α : Type} : Except Fault α → Reader α
  | .ok a => pure a
  | .error fault => refuse fault

/-- Gives a fault of `p` that has no place the one that reading has come to. -/
def located {α : Type} (p : Reader α) : Reader α := fun s =>
  match p s with
  | .done a rest => .done a rest
  | .failed ⟨fault, none⟩ rest => .failed ⟨fault, some (byteLength rest)⟩ rest
  | .failed failure rest => .failed failure rest

/-- Reads `p` and then `close`, which is also tried after a failure of `p`. The first failure
counts. -/
def closing {α : Type} (close : Reader Unit) (p : Reader α) : Reader α := fun s =>
  match p s with
  | .done a rest =>
    match close rest with
    | .done _ rest' => .done a rest'
    | .failed failure rest' => .failed failure rest'
  | .failed failure rest =>
    match close rest with
    | .done _ rest' => .failed failure rest'
    | .failed _ rest' => .failed failure rest'

/-! ## 3. Characters -/

/-- The white space of JSON. -/
def isSpace (c : Char) : Bool := c = ' ' || c = '\n' || c = '\t' || c = '\r'

/-- The character in front, without reading it. -/
def front : Reader (Option Char) := fun s => .done s.head? s

/-- Reads white space; the character in front after it, without reading that. -/
def next : Reader (Option Char) := fun s =>
  let rest := s.dropWhile isSpace
  .done rest.head? rest

/-- Reads one character. -/
def skipChar : Reader Unit := fun s => .done () (s.drop 1)

/-! ## 4. Lists and objects -/

/-- The end of a list, from after its last element that was read. -/
def closeList : Reader Unit := do
  match ← next with
  | none => failAfter .endInList
  | some ']' => skipChar
  | some ',' =>
    skipChar
    match ← next with
    | some ']' => failAfter .trailingComma
    | _ => failAfter .trailingCharacters
  | some _ => failAfter .trailingCharacters

/-- The end of an object, from after its last member that was read. -/
def closeObject : Reader Unit := do
  match ← next with
  | none => failAfter .endInObject
  | some '}' => skipChar
  | some ',' => failAfter .trailingComma
  | some _ => failAfter .trailingCharacters

/-- Whether another element follows. A comma stands between elements. -/
def hasElement (first : Bool) : Reader Bool := do
  match ← next with
  | none => failAfter .endInList
  | some ']' => pure false
  | some c =>
    if first then pure true
    else if c = ',' then
      skipChar
      match ← next with
      | none => failAfter .endInValue
      | some ']' => failAfter .trailingComma
      | some _ => pure true
    else failAfter .expectedCommaOrBracket

/-- Whether another key follows. A comma stands between members. -/
def hasKey (first : Bool) : Reader Bool := do
  match ← next with
  | none => failAfter .endInObject
  | some '}' => pure false
  | some c =>
    if first then
      if c = '"' then pure true else failAfter .keyNotString
    else if c = ',' then
      skipChar
      match ← next with
      | none => failAfter .endInValue
      | some '"' => pure true
      | some '}' => failAfter .trailingComma
      | some _ => failAfter .keyNotString
    else failAfter .expectedCommaOrBrace

/-- The colon between a key and its value. -/
def colon : Reader Unit := do
  match ← next with
  | none => failAfter .endInObject
  | some ':' => skipChar
  | some _ => failAfter .expectedColon

/-- The elements read by `p` up to the closing bracket, for at most as many rounds as given. -/
def elementsWithin {α : Type} (p : Reader α) : Nat → Bool → Reader (List α)
  | 0, _ => failHere .endInList
  | n + 1, first => do
    if ← hasElement first then
      let a ← p
      let rest ← elementsWithin p n false
      pure (a :: rest)
    else pure []

/-- The elements read by `p` up to the closing bracket. `first` tells that none was read before. -/
def elements {α : Type} (first : Bool) (p : Reader α) : Reader (List α) := fun s =>
  elementsWithin p (s.length + 1) first s

/-- Reads the opening bracket and then `p`. At the last level nothing may be opened. -/
def opening {α : Type} (levels : Nat) (p : Reader α) : Reader α :=
  if levels ≤ 1 then failAfter .tooDeep
  else do
    skipChar
    p

end Reader

end LocaleEditor.Json
