/-
LocaleEditor.Tree.Align — two trees side by side.

The reference tree and the edited tree are read together as a flat list
of events: an entry wherever at least one side has something other than
an object, between the start and the end of each object that both have.
Keys come in the order of the reference and then those that only the
edited tree has. A side that lacks a key is shown as the emptied copy of
the other side.

With `hide`, entries whose edited node is not blank are left out, and so
is an object that no event is left of.
-/
import LocaleEditor.Tree.Blank

namespace LocaleEditor

/-! ## 1. Events -/

/-- Where an event stands. -/
structure Place where
  key : String
  /-- How many objects are open around it. -/
  depth : Nat
  /-- The keys from the root to `key`. -/
  path : List String
  /-- Whether `key` is the last of its level. -/
  last : Bool
  deriving DecidableEq, Repr

/-- One step of the joint reading. -/
inductive Event where
  | start (place : Place)
  | entry (place : Place) (reference edited : Node)
  | stop (place : Place)
  deriving BEq, Repr

/-- The path as one text. -/
def Place.dotted (p : Place) : String := String.intercalate "." p.path

/-! ## 2. The keys of a level -/

/-- The reference's keys, then those that only the edited tree has. -/
def mergedKeys (reference edited : Tree) : List String :=
  reference.keys ++ edited.keys.filter fun k => !reference.contains k

/-- The two sides of a key, each standing in for the other where that is missing. -/
def sides? (reference edited : Tree) (key : String) : Option (Node × Node) :=
  match reference.get? key, edited.get? key with
  | some r, some e => some (r, e)
  | some r, none => some (r, r.emptied)
  | none, some e => some (e.emptied, e)
  | none, none => none

/-! ## 3. The events -/

/-- How deeply objects are nested in a node. -/
def Node.depth : Node → Nat
  | .object entries => entriesDepth entries + 1
  | _ => 0
where
  /-- The greatest depth among entries. -/
  entriesDepth : List (String × Node) → Nat
    | [] => 0
    | (_, n) :: r => max n.depth (entriesDepth r)

/-- The events of one level; `levels` bounds how deeply objects are followed. -/
def alignLevel (hide : Bool) : Nat → List String → Tree → Tree → List Event
  | 0, _, _, _ => []
  | levels + 1, parent, reference, edited =>
    let keys := mergedKeys reference edited
    keys.zipIdx.flatMap fun (key, i) =>
      let place : Place := ⟨key, parent.length, parent ++ [key], i + 1 = keys.length⟩
      match sides? reference edited key with
      | none => []
      | some (.object r, .object e) =>
        match alignLevel hide levels place.path r e with
        | [] => []
        | children => .start place :: children ++ [.stop place]
      | some (r, e) => if hide && !e.isBlank then [] else [.entry place r e]

/-- The events of two trees. -/
def align (reference edited : Tree) (hide : Bool) : List Event :=
  alignLevel hide (max (Node.depth (.object reference)) (Node.depth (.object edited))) []
    reference edited

end LocaleEditor
