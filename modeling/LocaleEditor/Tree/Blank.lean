/-
LocaleEditor.Tree.Blank — what still has to be translated.

A node is blank when it holds nothing that a translator typed. Names
are copied between locales as they are, so they do not count inside an
array. What a function returns has to be more than white space, while
any other text only has to be there. `emptied` clears a node and keeps
its shape.
-/
import LocaleEditor.Text.Blank
import LocaleEditor.Tree.Basic

namespace LocaleEditor

open LocaleEditor.Text

/-! ## 1. Blank nodes -/

/-- Whether an item holds no content; `returned` asks for more than white space. -/
def Item.isBlank (returned : Bool) : Item → Bool
  | .literal v => if returned then isBlankString v else v.isEmpty
  | .template v => if returned then isBlankString v else v.isEmpty
  | .variable n => n.isEmpty

/-- Whether an item is copied between locales as it is. -/
def Item.isVariable : Item → Bool
  | .variable _ => true
  | _ => false

/-- An array is blank when each of its texts is. -/
def itemsBlank (items : List Item) : Bool :=
  (items.filter fun i => !i.isVariable).all (Item.isBlank false)

def Body.isBlank : Body → Bool
  | .literal v => isBlankString v
  | .template v => isBlankString v
  | .variable n => n.isEmpty
  | .array items => itemsBlank items
  | .block text => isBlankString text

mutual

/-- Whether a node holds nothing that a translator typed. -/
def Node.isBlank : Node → Bool
  | .literal v => v.isEmpty
  | .template v => v.isEmpty
  | .variable n => n.isEmpty
  | .array items => itemsBlank items
  | .object entries => Tree.isBlank entries
  | .function _ body => body.isBlank
  | .unknown => true

/-- Entries are blank when each of them is. -/
def Tree.isBlank : List (String × Node) → Bool
  | [] => true
  | (_, n) :: r => n.isBlank && Tree.isBlank r

end

/-! ## 2. Emptied nodes -/

def Item.emptied : Item → Item
  | .literal _ => .literal ""
  | .template _ => .template ""
  | .variable n => .variable n

def Body.emptied : Body → Body
  | .literal _ => .literal ""
  | .template _ => .template ""
  | .variable n => .variable n
  | .array items => .array (items.map Item.emptied)
  | .block _ => .block ""

/-- The node with all its texts cleared; an object loses its entries. -/
def Node.emptied : Node → Node
  | .literal _ => .literal ""
  | .template _ => .template ""
  | .variable n => .variable n
  | .array items => .array (items.map Item.emptied)
  | .object _ => .object []
  | .function params body => .function params body.emptied
  | .unknown => .unknown

end LocaleEditor
