/-
LocaleEditor.LooseJson.Tree — translation trees from JSON.

Every scalar becomes a text: numbers as they are written, and `true`,
`false` and `null` by name. In an array only scalars are kept. A key
that repeats keeps its first place and its last value.
-/
import LocaleEditor.LooseJson.Value
import LocaleEditor.Tree.Basic

namespace LocaleEditor.LooseJson

/-- The text of a scalar. -/
def Value.text? : Value → Option String
  | .string v => some (String.ofList v)
  | .number t => some (String.ofList t)
  | .boolean true => some "true"
  | .boolean false => some "false"
  | .null => some "null"
  | .array _ => none
  | .object _ => none

mutual

/-- The node that a value stands for. -/
def Value.node : Value → Node
  | .string v => .literal (String.ofList v)
  | .number t => .literal (String.ofList t)
  | .boolean true => .literal "true"
  | .boolean false => .literal "false"
  | .null => .literal "null"
  | .array es => .array ((es.filterMap Value.text?).map Item.literal)
  | .object ms => .object (treeOf [] ms)

/-- The tree `t` with members inserted one after another. -/
def treeOf (t : Tree) : List (List Char × Value) → Tree
  | [] => t
  | (key, v) :: r => treeOf (t.insert (String.ofList key) v.node) r

end

/-- The tree of a JSON file, whose value has to be an object. -/
def readTree? (s : List Char) : Option Tree :=
  match parse? s with
  | some (.object ms) => some (treeOf [] ms)
  | _ => none

end LocaleEditor.LooseJson
