/-
LocaleEditor.Json.Value — JSON values.

Whole numbers are kept apart from all other numbers. Members keep their
order, and a key may repeat.
-/
import LocaleEditor.Number.Shortest
import LocaleEditor.Text.Visible

namespace LocaleEditor.Json

open LocaleEditor.Number LocaleEditor.Text

/-- A JSON value. -/
inductive Value where
  | null
  | boolean (value : Bool)
  | integer (value : Int)
  | float (negative : Bool) (size : Double)
  | string (value : String)
  | array (elements : List Value)
  | object (members : List (String × Value))
  deriving Repr, Inhabited

/-- What a message calls a list. -/
def listName : String := "sequence"

/-- What a message calls an object. -/
def objectName : String := "map"

/-- What a message calls a whole number. -/
def integerName (n : Int) : String := "integer `" ++ toString n ++ "`"

/-- What a message calls a value. -/
def Value.describe : Value → String
  | .null => "null"
  | .boolean b => "boolean `" ++ (if b then "true" else "false") ++ "`"
  | .integer n => integerName n
  | .float negative size =>
    "floating point `" ++ (if negative then "-" else "") ++ String.ofList size.text ++ "`"
  | .string s => "string " ++ showQuoted s
  | .array _ => listName
  | .object _ => objectName

end LocaleEditor.Json
