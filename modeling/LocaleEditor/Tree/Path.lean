/-
LocaleEditor.Tree.Path — following a path of keys, and keys that do not repeat.

`Node.at?` follows a path from a node and `Tree.at?` from a whole tree.
`Tree.Unique` says that no key repeats at any level.
-/
import LocaleEditor.Tree.Basic

namespace LocaleEditor

/-- The node reached by following `path` by keys. -/
def Node.at? : Node → List String → Option Node
  | n, [] => some n
  | n, k :: rest =>
    match n.entries?.bind (Tree.get? · k) with
    | some child => Node.at? child rest
    | none => none

/-- The node reached from the root of the tree. -/
def Tree.at? (t : Tree) (path : List String) : Option Node := Node.at? (.object t) path

mutual

/-- No key repeats in the node, at any level. -/
def Node.Unique : Node → Prop
  | .object entries => (entries.map (·.1)).Nodup ∧ Tree.UniqueBelow entries
  | _ => True

/-- No key repeats inside any of the entries. -/
def Tree.UniqueBelow : List (String × Node) → Prop
  | [] => True
  | (_, n) :: r => n.Unique ∧ Tree.UniqueBelow r

end

/-- No key repeats, at any level. -/
def Tree.Unique (t : Tree) : Prop := t.keys.Nodup ∧ Tree.UniqueBelow t

end LocaleEditor
