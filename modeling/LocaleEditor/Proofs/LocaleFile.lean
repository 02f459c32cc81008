/-
LocaleEditor.Proofs.LocaleFile — what every tree that was read has in common.

Readers insert entries one after another, so no key repeats at any level of
the tree they give, whatever the file holds (`Language.readTree_unique`).
-/
import LocaleEditor.LocaleFile
import LocaleEditor.Proofs.Json.View

namespace LocaleEditor

open LocaleEditor.Tree

theorem Tree.Unique.insert {t : Tree} {key : String} {n : Node} (ht : t.Unique) (hn : n.Unique) :
    (t.insert key n).Unique := by
  refine ⟨nodup_keys_insert ht.1, uniqueBelow_iff.mpr fun p hp => ?_⟩
  rcases mem_insert hp with hp | rfl
  · exact uniqueBelow_iff.mp ht.2 p hp
  · exact hn

theorem Node.IsText.unique {n : Node} (h : n.IsText) : n.Unique := by
  induction h with
  | literal v => trivial
  | array vs => trivial
  | object t hkeys _ ih => exact unique_object.mpr ⟨hkeys, uniqueBelow_iff.mpr ih⟩

/-- What a JSON file stands for. -/
theorem LooseJson.readTree?_unique {s : List Char} {t : Tree} (h : readTree? s = some t) :
    t.Unique := by
  unfold readTree? at h
  split at h
  · rename_i ms _
    have hms : (Node.object (treeOf [] ms)).IsText :=
      treeOf_isText ms [] (.object [] List.nodup_nil (by simp))
    exact Option.some.inj h ▸ unique_object.mp hms.unique
  · exact nomatch h

namespace Script

theorem Atom.unique_toNode (a : Atom) : a.item.toNode.Unique := by
  cases a with
  | template inner substituted => cases substituted <;> trivial
  | _ => trivial

mutual

theorem Expr.unique_of_node? (source : List Char) :
    ∀ (e : Expr) (n : Node), e.node? source = some n → n.Unique
  | .atom a, n, h => Option.some.inj h ▸ a.unique_toNode
  | .array (some es), n, h => Option.some.inj h ▸ trivial
  | .undefined, n, h => Option.some.inj h ▸ trivial
  | .object members, n, h => by
    rw [Expr.node?] at h
    exact Option.some.inj h ▸ unique_object.mpr (treeOf_unique source members [] unique_nil)
  | .function ps body, n, h => Option.some.inj h ▸ trivial

/-- What the members of an object stand for. -/
theorem treeOf_unique (source : List Char) :
    ∀ (members : List (String × Expr)) (t : Tree), t.Unique → (treeOf source t members).Unique
  | [], t, ht => ht
  | (key, e) :: r, t, ht => by
    rw [treeOf]
    cases he : e.node? source with
    | none => exact treeOf_unique source r t ht
    | some n => exact treeOf_unique source r _ (ht.insert (Expr.unique_of_node? source e n he))

end

/-- What a script exports. -/
theorem readExports_unique {d : Dialect} {source : List Char} {exports : Exports}
    (h : readExports d source = .ok exports) : exports.tree.Unique := by
  unfold readExports at h
  split at h
  · cases h
  · unfold exportsOf at h
    split at h
    · obtain rfl := Except.ok.inj h
      rename_i v _
      cases hn : v.core.node? source with
      | none => exact unique_nil
      | some n =>
        cases hes : n.entries? with
        | none => simpa [hes] using unique_nil
        | some es =>
          obtain rfl := Node.eq_object_of_entries? hes
          exact unique_object.mp (v.core.unique_of_node? source _ hn)
    · dsimp only at h
      split at h
      · cases h
      · obtain rfl := Except.ok.inj h
        exact treeOf_unique source _ [] unique_nil

end Script

/-- In a tree that was read from a text no key repeats. -/
theorem Language.readTree_unique (language : Language) (text : String) :
    (language.readTree text).Unique := by
  unfold Language.readTree
  split
  · cases h : LooseJson.readTree? text.toList with
    | none => exact unique_nil
    | some t => exact LooseJson.readTree?_unique h
  · split
    · rename_i h
      exact Script.readExports_unique h
    · exact unique_nil

end LocaleEditor
