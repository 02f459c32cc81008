/-
LocaleEditor.Draft.Encoded — the written form of a draft.

A draft is one line of JSON. A node is an object whose first member
names its kind; a node of unknown kind has no other member.
-/
import LocaleEditor.Text.Quoted
import LocaleEditor.Tree.Basic

namespace LocaleEditor.Draft

open LocaleEditor.Text

/-! ## 1. Names -/

def literalTag : String := "string_literal"
def templateTag : String := "string_template"
def variableTag : String := "variable"
def arrayTag : String := "array"
def objectTag : String := "object"
def functionTag : String := "function"
def unknownTag : String := "unknown"
def blockTag : String := "block_expression"

def valueKey : String := "value"
def nameKey : String := "name"
def itemsKey : String := "items"
def entriesKey : String := "entries"
def keyKey : String := "key"
def nodeKey : String := "node"
def paramsKey : String := "params"
def bodyKey : String := "body"
def typeKey : String := "type_annotation"
def textKey : String := "raw_text"

/-! ## 2. Members -/

/-- Parts with commas between them. -/
def commas : List (List Char) → List Char
  | [] => []
  | [p] => p
  | p :: ps => p ++ ',' :: commas ps

/-- A member of an object. -/
def member (key : String) (value : List Char) : List Char := quote key.toList ++ ':' :: value

/-- An object with these members. -/
def object (ms : List (List Char)) : List Char := '{' :: commas ms ++ ['}']

/-- A list with these elements. -/
def array (vs : List (List Char)) : List Char := '[' :: commas vs ++ [']']

/-- An object that begins with its tag. -/
def tagged (tag : String) (ms : List (List Char)) : List Char :=
  object (member "type" (quote tag.toList) :: ms)

/-- A tagged object with one text. -/
def taggedText (tag key text : String) : List Char :=
  tagged tag [member key (quote text.toList)]

/-! ## 3. Nodes -/

def encodeItem : Item → List Char
  | .literal v => taggedText literalTag valueKey v
  | .template v => taggedText templateTag valueKey v
  | .variable n => taggedText variableTag nameKey n

/-- A tagged object with items. -/
def encodeItems (items : List Item) : List Char :=
  tagged arrayTag [member itemsKey (array (items.map encodeItem))]

def encodeBody : Body → List Char
  | .literal v => taggedText literalTag valueKey v
  | .template v => taggedText templateTag valueKey v
  | .variable n => taggedText variableTag nameKey n
  | .array items => encodeItems items
  | .block t => taggedText blockTag textKey t

def encodeParam (p : Param) : List Char :=
  object [member nameKey (quote p.name.toList), member typeKey (quote p.type.toList)]

mutual

def encodeNode : Node → List Char
  | .literal v => taggedText literalTag valueKey v
  | .template v => taggedText templateTag valueKey v
  | .variable n => taggedText variableTag nameKey n
  | .array items => encodeItems items
  | .object entries => tagged objectTag [member entriesKey (array (encodeEntries entries))]
  | .function params body =>
    tagged functionTag [member paramsKey (array (params.map encodeParam)),
      member bodyKey (encodeBody body)]
  | .unknown => tagged unknownTag []

/-- The written form of each entry. -/
def encodeEntries : List (String × Node) → List (List Char)
  | [] => []
  | (k, n) :: r =>
    object [member keyKey (quote k.toList), member nodeKey (encodeNode n)] :: encodeEntries r

end

/-- The written form of a draft. -/
def encode (t : Tree) : String :=
  String.ofList (object [member entriesKey (array (encodeEntries t))])

end LocaleEditor.Draft
