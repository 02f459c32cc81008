/-
LocaleEditor.Tree.Edit — setting one node of a tree.

`Tree.setAt` follows a path and sets or deletes the node at its end.
Setting nothing, or a blank node over an existing one, deletes. An
object that loses its last entry goes with it, up to the root. Missing
objects on the way are made, and a node on the way that is no object
stops the edit.
-/
import LocaleEditor.Tree.Blank

namespace LocaleEditor

/-- What an edit does to the entries of one object. -/
inductive Edited where
  /-- The entries stay as they are. -/
  | unchanged
  /-- These are the entries now. -/
  | updated (entries : Tree)
  /-- No entry is left, and the object has to go. -/
  | emptied

namespace Tree

/-- Removes an entry. -/
def removeEntry (t : Tree) (key : String) : Edited :=
  let rest := t.remove key
  if rest.isEmpty then .emptied
  else if rest.length = t.length then .unchanged
  else .updated rest

/-- Sets or deletes the entry of `key`. -/
def setEntry (t : Tree) (key : String) : Option Node → Edited
  | some n =>
    if t.contains key && n.isBlank then t.removeEntry key else .updated (t.insert key n)
  | none => t.removeEntry key

/-- Applies the edit below `key`, along the rest of the path. -/
def setBelow (t : Tree) (key : String) : List String → Option Node → Edited
  | [], node => t.setEntry key node
  | next :: rest, node =>
    let child : Option Tree :=
      match t.get? key with
      | some (.object es) => some es
      | some _ => none
      | none => some []
    match child with
    | none => .unchanged
    | some es =>
      match setBelow es next rest node with
      | .unchanged => .unchanged
      | .updated es' => .updated (t.insert key (.object es'))
      | .emptied => t.removeEntry key

section

variable {t es : Tree} {key next : String} {rest : List String} {o : Option Node} {n : Node}

theorem setEntry_of_not_blank (t : Tree) (key : String) (h : n.isBlank = false) :
    t.setEntry key (some n) = .updated (t.insert key n) := by
  simp [setEntry, h]

/-- Under a key where entries can be set there is an object, or nothing yet. -/
theorem setBelow_of_child (h : t.get? key = some (.object es) ∨ t.get? key = none ∧ es = []) :
    t.setBelow key (next :: rest) o = match es.setBelow next rest o with
      | .unchanged => .unchanged
      | .updated es' => .updated (t.insert key (.object es'))
      | .emptied => t.removeEntry key := by
  rw [Tree.setBelow]
  rcases h with h | ⟨h, rfl⟩
  · cases hset : es.setBelow next rest o <;> simp [h, hset]
  · cases hset : Tree.setBelow [] next rest o <;> simp [h, hset]

/-- Under a key with a node that is no object nothing can be set. -/
theorem setBelow_of_blocked (h : t.get? key = some n) (hn : n.entries? = none) :
    t.setBelow key (next :: rest) o = .unchanged := by
  cases n <;> simp_all [setBelow, Node.entries?]

end

/-- The tree with the node at `path` set. At the empty path only an object can take the tree's
place. -/
def setAt (t : Tree) (path : List String) (node : Option Node) : Tree :=
  match path with
  | [] =>
    match node with
    | some (.object es) => es
    | _ => t
  | key :: rest =>
    match t.setBelow key rest node with
    | .unchanged => t
    | .updated es => es
    | .emptied => []

end Tree

end LocaleEditor
