/-
LocaleEditor.LooseJson.Value — reading JSON as people write it.

Commas between members or elements may be missing, and one may stand
after the last. A key is a string, a number or a word.
-/
import LocaleEditor.LooseJson.Token

namespace LocaleEditor.LooseJson

/-- A JSON value. Numbers keep their text, objects the order of their members. -/
inductive Value where
  | string (value : List Char)
  | number (text : List Char)
  | boolean (value : Bool)
  | null
  | array (elements : List Value)
  | object (members : List (List Char × Value))
  deriving Repr

/-- The key that a token can be. -/
def Token.key? : Token → Option (List Char)
  | .string v => some v
  | .number t => some t
  | .word w => some w
  | _ => none

/-- What follows a member or element: the rest after a comma, if there is one. -/
def afterComma : List Token → List Token
  | .comma :: r => r
  | ts => ts

mutual

/-- The first value and the tokens after it; `levels` bounds the depth of the recursion. -/
def readValue? : Nat → List Token → Option (Value × List Token)
  | 0, _ => none
  | n + 1, ts =>
    match ts with
    | .string v :: r => some (.string v, r)
    | .number t :: r => some (.number t, r)
    | .boolean b :: r => some (.boolean b, r)
    | .null :: r => some (.null, r)
    | .openBracket :: r => (readElements? n r).map fun (es, rest) => (.array es, rest)
    | .openBrace :: r => (readMembers? n r).map fun (ms, rest) => (.object ms, rest)
    | _ => none

/-- The elements of an array up to its closing bracket. -/
def readElements? : Nat → List Token → Option (List Value × List Token)
  | 0, _ => none
  | n + 1, ts =>
    match ts with
    | .closeBracket :: r => some ([], r)
    | _ =>
      match readValue? n ts with
      | none => none
      | some (v, rest) =>
        (readElements? n (afterComma rest)).map fun (vs, rest') => (v :: vs, rest')

/-- The members of an object up to its closing brace. -/
def readMembers? : Nat → List Token → Option (List (List Char × Value) × List Token)
  | 0, _ => none
  | n + 1, ts =>
    match ts with
    | .closeBrace :: r => some ([], r)
    | t :: .colon :: r =>
      match t.key? with
      | none => none
      | some key =>
        match readValue? n r with
        | none => none
        | some (v, rest) =>
          (readMembers? n (afterComma rest)).map fun (ms, rest') => ((key, v) :: ms, rest')
    | _ => none

end

/-- The one value that a text holds. -/
def parse? (s : List Char) : Option Value :=
  match tokens? s with
  | none => none
  | some ts =>
    match readValue? (2 * ts.length + 2) ts with
    | some (v, []) => some v
    | _ => none

end LocaleEditor.LooseJson
