/-
LocaleEditor.Tree.Basic — translation trees.

A locale file is a tree: an ordered list of entries, each a key with a
node, where a node may hold further entries. Entries keep the order in
which they were declared. `Tree.insert` keeps keys unique, but a tree
from outside may repeat a key; look-ups then answer with the first.
-/
namespace LocaleEditor

/-! ## 1. Nodes -/

/-- A parameter of a function, with the text of its type. -/
structure Param where
  name : String
  type : String
  deriving DecidableEq, Repr

/-- What an array may hold: a text, a template with its `${…}` markers, or a name. -/
inductive Item where
  | literal (value : String)
  | template (value : String)
  | variable (name : String)
  deriving DecidableEq, Repr

/-- What a function returns, or the statements of its body as they are written. -/
inductive Body where
  | literal (value : String)
  | template (value : String)
  | variable (name : String)
  | array (items : List Item)
  | block (text : String)
  deriving DecidableEq, Repr

/-- One translation. `unknown` stands for a kind that is not supported. -/
inductive Node where
  | literal (value : String)
  | template (value : String)
  | variable (name : String)
  | array (items : List Item)
  | object (entries : List (String × Node))
  | function (params : List Param) (body : Body)
  | unknown
  deriving BEq, Repr, Inhabited

/-- The entries of an object or of a whole file. -/
abbrev Tree := List (String × Node)

/-- The type of a parameter that has none written. -/
def Param.untyped : String := "unknown"

/-- Stands for a parameter that is not a plain name. -/
def Param.placeholder : Param := ⟨"[unknown]", "string"⟩

/-- Whether a type is known for the parameter. -/
def Param.isAnnotated (p : Param) : Bool := p.type != Param.untyped

/-- The item as a node of its own. -/
def Item.toNode : Item → Node
  | .literal v => .literal v
  | .template v => .template v
  | .variable n => .variable n

/-- What is written for an item where only texts are possible. -/
def Item.text : Item → String
  | .literal v => v
  | .template v => v
  | .variable n => n

/-- One word for the kind of a node. -/
def Node.kindName : Node → String
  | .literal _ => "string"
  | .template _ => "template"
  | .variable _ => "variable"
  | .array _ => "array"
  | .object _ => "object"
  | .function _ _ => "function"
  | .unknown => "unknown"

/-- The entries of an object. -/
def Node.entries? : Node → Option Tree
  | .object es => some es
  | _ => none

/-! ## 2. Entries -/

namespace Tree

def keys (t : Tree) : List String := t.map (·.1)

/-- The node of the first entry with this key. -/
def get? : Tree → String → Option Node
  | [], _ => none
  | (k, n) :: r, key => if k = key then some n else get? r key

/-- Where the first entry with this key stands. -/
def position? (t : Tree) (key : String) : Option Nat := t.findIdx? (·.1 = key)

def contains (t : Tree) (key : String) : Bool := (t.get? key).isSome

/-- Replaces the node of the first entry with this key, or adds an entry at the end. -/
def insert : Tree → String → Node → Tree
  | [], key, node => [(key, node)]
  | (k, n) :: r, key, node => if k = key then (k, node) :: r else (k, n) :: insert r key node

/-- The tree without the first entry that has this key. -/
def remove : Tree → String → Tree
  | [], _ => []
  | (k, n) :: r, key => if k = key then r else (k, n) :: remove r key

/-- Inserts entries one after another: a repeated key keeps its first place and its last node. -/
def ofEntries (es : List (String × Node)) : Tree :=
  es.foldl (fun t (k, n) => t.insert k n) []

end Tree

end LocaleEditor
