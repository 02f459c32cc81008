/-
LocaleEditor.Tree.Merge — a draft laid over a fresh tree.

Entries of the fresh tree keep their place and those that only the
draft has come after them. Two objects under one key are merged in
their turn; otherwise the draft's node wins.
-/
import LocaleEditor.Tree.Basic

namespace LocaleEditor

mutual

/-- What the draft's node becomes over what the fresh tree has under the same key. -/
def Node.mergeOver (fresh : Option Node) : Node → Node
  | .object draft =>
    match fresh with
    | some (.object es) => .object (Tree.mergeInto es es draft)
    | _ => .object draft
  | n => n

/-- Inserts the draft's entries one by one into `merged`; `fresh` is the tree before the first. -/
def Tree.mergeInto (fresh merged : Tree) : List (String × Node) → Tree
  | [] => merged
  | (k, n) :: r => Tree.mergeInto fresh (merged.insert k (n.mergeOver (fresh.get? k))) r

end

/-- The draft laid over the fresh tree. -/
def Tree.merge (fresh draft : Tree) : Tree := Tree.mergeInto fresh fresh draft

end LocaleEditor
