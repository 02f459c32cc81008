/-
LocaleEditor.Json.Scalar — strings, numbers and words.

Strings follow JSON strictly. A whole number that fits into 64 bits is
exact; every other number is a decimal whose digits count as long as
they fit into 64 bits, rounded by `Double.ofDecimal?`.
-/
import LocaleEditor.Json.Reader
import LocaleEditor.Json.Value
import LocaleEditor.Text.Escape

namespace LocaleEditor.Json

open LocaleEditor.Number LocaleEditor.Text

/-! ## 1. Strings -/

/-- The character that an escape of one letter stands for. -/
def letterEscape? : Char → Option Char
  | '"' => some '"'
  | '\\' => some '\\'
  | '/' => some '/'
  | 'b' => some '\x08'
  | 'f' => some '\x0c'
  | 'n' => some '\n'
  | 'r' => some '\r'
  | 't' => some '\t'
  | _ => none

/-- The number that the four digits in front write. -/
def fourDigits (s : List Char) : Except Failure Nat :=
  if byteLength (s.take 4) < 4 then .error ⟨.endInString, some 0⟩
  else
    match hexPrefix? 4 s with
    | some n => .ok n
    | none => .error ⟨.invalidEscape, some (byteLength s - 4)⟩

/-- The low surrogate that has to follow a high one. -/
def lowSurrogate : List Char → Except Failure Nat
  | [] => .error ⟨.endInString, some 0⟩
  | ['\\'] => .error ⟨.endInString, some 0⟩
  | '\\' :: 'u' :: r =>
    match fourDigits r with
    | .error failure => .error failure
    | .ok n =>
      if isLowSurrogate n then .ok n else .error ⟨.loneSurrogate, some (byteLength (r.drop 4))⟩
  | '\\' :: r => .error ⟨.unfinishedPair, some (byteLength r - 1)⟩
  | s => .error ⟨.unfinishedPair, some (byteLength s - 1)⟩

/-- The character that the text after a backslash stands for, and how many characters of it
belong to the escape. -/
def escape : List Char → Except Failure (Char × Nat)
  | [] => .error ⟨.endInString, some 0⟩
  | 'u' :: r =>
    match fourDigits r with
    | .error failure => .error failure
    | .ok n =>
      if isLowSurrogate n then .error ⟨.loneSurrogate, some (byteLength (r.drop 4))⟩
      else if isHighSurrogate n then
        match lowSurrogate (r.drop 4) with
        | .error failure => .error failure
        | .ok low => .ok (Char.ofNat (joinSurrogates n low), 11)
      else .ok (Char.ofNat n, 5)
  | c :: r =>
    match letterEscape? c with
    | some v => .ok (v, 1)
    | none => .error ⟨.invalidEscape, some (byteLength (c :: r) - 1)⟩

/-- The text up to the closing quote. The first `skip` characters belong to an escape. -/
def stringFrom (skip : Nat) : Reader (List Char)
  | [] => .failed ⟨.endInString, some 0⟩ []
  | c :: r =>
    match skip with
    | k + 1 => stringFrom k r
    | 0 =>
      if c = '"' then .done [] r
      else if c = '\\' then
        match escape r with
        | .error failure => .failed failure r
        | .ok (v, n) =>
          match stringFrom n r with
          | .done vs rest => .done (v :: vs) rest
          | .failed failure rest => .failed failure rest
      else if c.toNat < 0x20 then .failed ⟨.controlCharacter, some (byteLength r)⟩ r
      else
        match stringFrom 0 r with
        | .done vs rest => .done (c :: vs) rest
        | .failed failure rest => .failed failure rest

/-- The string whose opening quote is in front. -/
def quoted : Reader String := do
  Reader.skipChar
  let s ← stringFrom 0
  pure (String.ofList s)

/-! ## 2. Numbers -/

/-- The greatest whole number that is kept exact. -/
def greatestNatural : Nat := Nat.pow 2 64 - 1

/-- Adds digits to `acc` as long as the result is not too great; the result and the digits that
were not used. -/
def addDigits (acc : Nat) : List Char → Nat × List Char
  | [] => (acc, [])
  | c :: r =>
    let next := acc * 10 + (c.toNat - '0'.toNat)
    if next ≤ greatestNatural then addDigits next r else (acc, c :: r)

/-- The digits in front. -/
def digits : Reader (List Char) := fun s =>
  let ds := s.takeWhile Char.isDigit
  .done ds (s.drop ds.length)

/-- A number that is not kept exact. -/
def decimal (negative : Bool) (significand : Nat) (e : Int) : Reader Value :=
  match Double.ofDecimal? significand e with
  | some size => pure (.float negative size)
  | none => Reader.failHere .numberOutOfRange

/-- The greatest exponent that can be written. -/
def greatestExponent : Nat := Nat.pow 2 31 - 1

/-- Reads the digits of an exponent after the first one, up to one that makes it too great. -/
def exponentFrom (acc : Nat) : Reader (Option Nat)
  | [] => .done (some acc) []
  | c :: r =>
    if c.isDigit then
      let next := acc * 10 + (c.toNat - '0'.toNat)
      if next ≤ greatestExponent then exponentFrom next r else .done none r
    else .done (some acc) (c :: r)

/-- The number with the exponent whose letter is in front. -/
def withExponent (negative : Bool) (significand : Nat) (e : Int) : Reader Value := do
  Reader.skipChar
  let sign ← Reader.front
  if sign = some '+' ∨ sign = some '-' then Reader.skipChar
  match ← Reader.front with
  | none => Reader.failHere .endInValue
  | some c =>
    if !c.isDigit then Reader.failAfter .invalidNumber
    else
      match ← exponentFrom 0 with
      | some n => decimal negative significand (if sign = some '-' then e - n else e + n)
      | none =>
        if significand ≠ 0 ∧ sign ≠ some '-' then Reader.failHere .numberOutOfRange
        else
          let _ ← digits
          pure (.float negative Double.zero)

/-- The number with the fraction whose point is in front. -/
def withFraction (negative : Bool) (significand : Nat) (e : Int) : Reader Value := do
  Reader.skipChar
  let ds ← digits
  if ds.isEmpty then
    match ← Reader.front with
    | none => Reader.failAfter .endInValue
    | some _ => Reader.failAfter .invalidNumber
  else
    let (significand', unused) := addDigits significand ds
    let e' := e - (ds.length - unused.length)
    let c ← Reader.front
    if c = some 'e' ∨ c = some 'E' then withExponent negative significand' e'
    else decimal negative significand' e'

/-- What follows the whole part of a number; `e` is above 0 when that was too long. -/
def afterWhole (negative : Bool) (significand : Nat) (e : Nat) : Reader Value := do
  let c ← Reader.front
  if c = some '.' then withFraction negative significand e
  else if c = some 'e' ∨ c = some 'E' then withExponent negative significand e
  else if 0 < e then decimal negative significand e
  else if !negative then pure (.integer significand)
  else if 0 < significand ∧ significand ≤ Nat.pow 2 63 then pure (.integer (-significand))
  else decimal true significand 0

/-- The number without its sign that is in front. -/
def number (negative : Bool) : Reader Value := do
  match ← Reader.front with
  | none => Reader.failHere .endInValue
  | some '0' =>
    Reader.skipChar
    match ← Reader.front with
    | some c => if c.isDigit then Reader.failAfter .invalidNumber else afterWhole negative 0 0
    | none => afterWhole negative 0 0
  | some c =>
    if c.isDigit then
      let ds ← digits
      let (significand, unused) := addDigits 0 ds
      afterWhole negative significand unused.length
    else Reader.failAfter .invalidNumber

/-! ## 3. Words and scalars -/

/-- Reads the letters of a word. -/
def letters : List Char → Reader Unit
  | [] => pure ()
  | w :: ws => do
    match ← Reader.front with
    | none => Reader.failHere .endInValue
    | some c =>
      if c = w then
        Reader.skipChar
        letters ws
      else Reader.failAfter .expectedWord

/-- The word, string or number in front. -/
def scalar : Reader Value := do
  match ← Reader.front with
  | some 'n' =>
    letters "null".toList
    pure .null
  | some 't' =>
    letters "true".toList
    pure (.boolean true)
  | some 'f' =>
    letters "false".toList
    pure (.boolean false)
  | some '"' =>
    let s ← quoted
    pure (.string s)
  | some '-' =>
    Reader.skipChar
    number true
  | some c => if c.isDigit then number false else Reader.failAfter .expectedValue
  | none => Reader.failAfter .endInValue

end LocaleEditor.Json
