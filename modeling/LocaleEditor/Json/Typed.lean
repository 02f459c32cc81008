/-
LocaleEditor.Json.Typed — values of an expected kind.

Each reader checks the kind of the value before it goes on. The levels
count how many more lists and objects may be opened.
-/
import LocaleEditor.Json.Skip

namespace LocaleEditor.Json

/-! ## 1. Scalars -/

/-- Refuses the value in front in favour of what was expected. A scalar is read for it. -/
def mismatch {α : Type} (expected : String) : Reader α := do
  match ← Reader.front with
  | some '[' => Reader.refuse (.wrongType listName expected)
  | some '{' => Reader.refuse (.wrongType objectName expected)
  | _ =>
    let v ← scalar
    Reader.refuse (.wrongType v.describe expected)

/-- Reads a value by its first character, and gives its faults a place. -/
def byFirst {α : Type} (p : Char → Reader α) : Reader α :=
  Reader.located do
    match ← Reader.next with
    | none => Reader.failAfter .endInValue
    | some c => p c

/-- A string, which a message calls `expected`. -/
def string (expected : String) : Reader String :=
  byFirst fun c => if c = '"' then quoted else mismatch expected

/-- What a message calls a text. -/
def textName : String := "a string"

/-- Any text. -/
def text : Reader String := string textName

/-- `true` or `false`. -/
def boolean : Reader Bool :=
  byFirst fun
    | 't' => do
      letters "true".toList
      pure true
    | 'f' => do
      letters "false".toList
      pure false
    | _ => mismatch "a boolean"

/-- What a message calls a count. -/
def countName : String := "usize"

/-- A whole number from 0 on. -/
def count : Reader Nat :=
  byFirst fun c => do
    if c = '-' ∨ c.isDigit then
      match ← scalar with
      | .integer n =>
        if 0 ≤ n then pure n.toNat else Reader.refuse (.wrongValue (integerName n) countName)
      | v => Reader.refuse (.wrongType v.describe countName)
    else mismatch countName

/-! ## 2. Lists and objects -/

/-- What a message calls an expected list. -/
def sequenceName : String := "a sequence"

/-- A list with elements read by `p`. -/
def list {α : Type} (levels : Nat) (p : Reader α) : Reader (List α) :=
  byFirst fun
    | '[' => Reader.opening levels (Reader.closing Reader.closeList (Reader.elements true p))
    | _ => mismatch sequenceName

/-- Lets each member change a value, for at most as many rounds as given. `step` is given the key
and reads from the colon on. -/
def membersWithin {σ : Type} (step : σ → String → Reader σ) : Nat → Bool → σ → Reader σ
  | 0, _, _ => Reader.failHere .endInObject
  | n + 1, first, acc => do
    if ← Reader.hasKey first then
      let key ← quoted
      let acc' ← step acc key
      membersWithin step n false acc'
    else pure acc

/-- Lets each member change a value. -/
def members {σ : Type} (step : σ → String → Reader σ) (start : σ) : Reader σ := fun s =>
  membersWithin step (s.length + 1) true start s

/-- The members of an object with values read by `p`, in order. -/
def pairs {α : Type} (p : Reader α) : Reader (List (String × α)) := do
  let reversed ← members (fun acc key => do
    Reader.colon
    let v ← p
    pure ((key, v) :: acc)) []
  pure reversed.reverse

/-- An object with values read by `p`. -/
def map {α : Type} (levels : Nat) (p : Reader α) : Reader (List (String × α)) :=
  byFirst fun
    | '{' => Reader.opening levels (Reader.closing Reader.closeObject (pairs p))
    | _ => mismatch "a map"

/-- A value of any kind. -/
def value : Nat → Reader Value
  | 0 => Reader.failAfter .tooDeep
  | n + 1 =>
    byFirst fun
      | '[' => do
        let vs ← Reader.opening (n + 1)
          (Reader.closing Reader.closeList (Reader.elements true (value n)))
        pure (.array vs)
      | '{' => do
        let ms ← Reader.opening (n + 1) (Reader.closing Reader.closeObject (pairs (value n)))
        pure (.object ms)
      | _ => scalar

/-! ## 3. Documents -/

/-- A fault and its place: the line counted from 1, and how many bytes of the line stand before
it. -/
structure DocumentError where
  fault : Fault
  line : Nat
  column : Nat
  deriving DecidableEq, Repr

def DocumentError.message (e : DocumentError) : String :=
  e.fault.message ++ " at line " ++ toString e.line ++ " column " ++ toString e.column

/-- Line and column of the byte `offset` bytes further on. -/
def placeFrom (line column : Nat) : Nat → List Char → Nat × Nat
  | 0, _ => (line, column)
  | offset, [] => (line, column + offset)
  | offset, c :: r =>
    if offset < c.utf8Size then (line, column + offset)
    else if c = '\n' then placeFrom (line + 1) 0 (offset - 1) r
    else placeFrom line (column + c.utf8Size) (offset - c.utf8Size) r

/-- The value that `p` reads from a whole document. -/
def readDocument {α : Type} (p : Reader α) (document : String) : Except DocumentError α :=
  let s := document.toList
  let whole : Reader α := Reader.located do
    let a ← p
    match ← Reader.next with
    | none => pure a
    | some _ => Reader.failAfter .trailingCharacters
  match whole s with
  | .done a _ => .ok a
  | .failed failure rest =>
    let left := failure.left.getD (Text.byteLength rest)
    let (line, column) := placeFrom 1 0 (Text.byteLength s - left) s
    .error ⟨failure.fault, line, column⟩

end LocaleEditor.Json
