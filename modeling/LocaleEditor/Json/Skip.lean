/-
LocaleEditor.Json.Skip — values that are read over.

The value of a field that nobody asked for is checked for its form only.
It may nest to any depth, its numbers may be of any size, and its
strings may hold lone surrogates.
-/
import LocaleEditor.Json.Scalar

namespace LocaleEditor.Json

open LocaleEditor.Text

/-! ## 1. Scalars -/

/-- How many characters of the text after a backslash belong to the escape. -/
def escapeLength : List Char → Except Failure Nat
  | [] => .error ⟨.endInString, some 0⟩
  | 'u' :: r =>
    match fourDigits r with
    | .error failure => .error failure
    | .ok _ => .ok 5
  | c :: r =>
    if (letterEscape? c).isSome then .ok 1
    else .error ⟨.invalidEscape, some (byteLength (c :: r) - 1)⟩

/-- Reads over the text up to the closing quote. The first `skip` characters belong to an
escape. -/
def skipStringFrom (skip : Nat) : Reader Unit
  | [] => .failed ⟨.endInString, some 0⟩ []
  | c :: r =>
    match skip with
    | k + 1 => skipStringFrom k r
    | 0 =>
      if c = '"' then .done () r
      else if c = '\\' then
        match escapeLength r with
        | .error failure => .failed failure r
        | .ok n => skipStringFrom n r
      else if c.toNat < 0x20 then .failed ⟨.controlCharacter, some (byteLength (c :: r))⟩ r
      else skipStringFrom 0 r

/-- Reads over the string whose opening quote is in front. -/
def skipString : Reader Unit := do
  Reader.skipChar
  skipStringFrom 0

/-- Reads over the exponent whose letter is in front. -/
def skipExponent : Reader Unit := do
  Reader.skipChar
  let sign ← Reader.front
  if sign = some '+' ∨ sign = some '-' then Reader.skipChar
  let ds ← digits
  if ds.isEmpty then Reader.failAfter .invalidNumber

/-- Reads over an exponent, if there is one. -/
def skipExponent? : Reader Unit := do
  let c ← Reader.front
  if c = some 'e' ∨ c = some 'E' then skipExponent

/-- Reads over a fraction and an exponent, if there are any. -/
def skipFraction? : Reader Unit := do
  if (← Reader.front) = some '.' then
    Reader.skipChar
    let fraction ← digits
    if fraction.isEmpty then Reader.failAfter .invalidNumber else skipExponent?
  else skipExponent?

/-- Reads over the number without its sign that is in front. -/
def skipNumber : Reader Unit := do
  match ← Reader.front with
  | none => Reader.failAfter .invalidNumber
  | some '0' =>
    Reader.skipChar
    match ← Reader.front with
    | some c => if c.isDigit then Reader.failAfter .invalidNumber else skipFraction?
    | none => pure ()
  | some c =>
    if c.isDigit then
      let _ ← digits
      skipFraction?
    else Reader.failAfter .invalidNumber

/-! ## 2. Lists and objects -/

/-- Reads over further items, with a comma before each, and the bracket `close`, for at most as
many rounds as given. -/
def skipItemsWithin (close : Char) (atEnd noComma : Fault) (item : Reader Unit) : Nat → Reader Unit
  | 0 => Reader.failHere atEnd
  | n + 1 => do
    match ← Reader.next with
    | none => Reader.failAfter atEnd
    | some c =>
      if c = close then Reader.skipChar
      else if c = ',' then
        Reader.skipChar
        item
        skipItemsWithin close atEnd noComma item n
      else Reader.failAfter noComma

/-- Reads over the items after an opening bracket and the bracket `close`. -/
def skipItems (close : Char) (atEnd noComma : Fault) (item : Reader Unit) : Reader Unit := fun s =>
  (do
    match ← Reader.next with
    | none => Reader.failAfter atEnd
    | some c =>
      if c = close then Reader.skipChar
      else
        item
        skipItemsWithin close atEnd noComma item s.length : Reader Unit) s

/-- Reads over a key and the colon after it. -/
def skipKey : Reader Unit := do
  match ← Reader.next with
  | none => Reader.failAfter .endInObject
  | some '"' =>
    skipString
    Reader.colon
  | some _ => Reader.failAfter .keyNotString

/-- Reads over a value that nests at most as deeply as given. -/
def skipWithin : Nat → Reader Unit
  | 0 => Reader.failHere .tooDeep
  | n + 1 => do
    match ← Reader.next with
    | none => Reader.failAfter .endInValue
    | some 'n' => letters "null".toList
    | some 't' => letters "true".toList
    | some 'f' => letters "false".toList
    | some '"' => skipString
    | some '-' =>
      Reader.skipChar
      skipNumber
    | some '[' =>
      Reader.skipChar
      skipItems ']' .endInList .expectedCommaOrBracket (skipWithin n)
    | some '{' =>
      Reader.skipChar
      skipItems '}' .endInObject .expectedCommaOrBrace (do
        skipKey
        skipWithin n)
    | some c => if c.isDigit then skipNumber else Reader.failAfter .expectedValue

/-- Reads over a value. -/
def skip : Reader Unit := fun s => skipWithin (s.length + 1) s

end LocaleEditor.Json
