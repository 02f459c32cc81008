/-
LocaleEditor.Proofs.Tree.Unique — what keeps keys from repeating.

Entries are a plain list, so nothing but the operations themselves keeps a
key from being there twice.

* `Unique.setAt` — setting or deleting a node at any path keeps all keys
  unique, also through the objects that are made or pruned on the way.
* `Unique.merge` — so does laying a draft over a tree.
-/
import LocaleEditor.Tree.Edit
import LocaleEditor.Proofs.LocaleFile
import LocaleEditor.Proofs.Tree.Overlay

namespace LocaleEditor

/-- What holds of the entries if an edit left any. -/
def Edited.All (P : Tree → Prop) : Edited → Prop
  | .updated es => P es
  | .unchanged => True
  | .emptied => True

namespace Tree

variable {t fresh draft : Tree} {key : String} {node : Option Node}

/-! ## 1. Removing -/

theorem remove_sublist (t : Tree) (key : String) : (t.remove key).Sublist t := by
  induction t with
  | nil => exact List.Sublist.refl _
  | cons p r ih =>
    obtain ⟨k, m⟩ := p
    rw [remove]
    split
    · exact List.sublist_cons_self _ _
    · exact ih.cons_cons _

theorem Unique.remove (h : t.Unique) (key : String) : (t.remove key).Unique :=
  ⟨h.1.sublist ((remove_sublist t key).map _),
    uniqueBelow_iff.mpr fun p hp => uniqueBelow_iff.mp h.2 p ((remove_sublist t key).subset hp)⟩

/-! ## 2. Setting at a path -/

theorem Unique.removeEntry (h : t.Unique) (key : String) : (t.removeEntry key).All Unique := by
  unfold Tree.removeEntry
  dsimp only
  split
  · trivial
  · split
    · trivial
    · exact h.remove key

theorem Unique.setEntry (h : t.Unique) (hnode : ∀ n ∈ node, n.Unique) :
    (t.setEntry key node).All Unique := by
  cases node with
  | none => exact h.removeEntry key
  | some n =>
    unfold Tree.setEntry
    dsimp only
    split
    · exact h.removeEntry key
    · exact h.insert (hnode n rfl)

/-- Below an object that is there or that is made, and in the tree that holds it. -/
theorem Unique.setBelow (h : t.Unique) (key : String) (rest : List String)
    (hnode : ∀ n ∈ node, n.Unique) : (t.setBelow key rest node).All Unique := by
  induction rest generalizing t key with
  | nil => exact h.setEntry hnode
  | cons next rest ih =>
    obtain ⟨es, hget⟩ | ⟨m, hget, hm⟩ := below_or_blocked t key
    · have hbelow := ih (h.of_below hget) next
      rw [setBelow_of_child hget]
      cases hset : es.setBelow next rest node with
      | unchanged => trivial
      | updated es' =>
        rw [hset] at hbelow
        exact h.insert (unique_object.mpr hbelow)
      | emptied => exact h.removeEntry key
    · rw [setBelow_of_blocked hget hm]
      trivial

theorem Unique.setAt (h : t.Unique) (path : List String) (hnode : ∀ n ∈ node, n.Unique) :
    (t.setAt path node).Unique := by
  unfold Tree.setAt
  cases path with
  | nil =>
    dsimp only
    split
    · exact unique_object.mp (hnode _ rfl)
    · exact h
  | cons key rest =>
    have hset := h.setBelow key rest hnode
    dsimp only
    cases hedited : t.setBelow key rest node with
    | unchanged => exact h
    | updated es =>
      rw [hedited] at hset
      exact hset
    | emptied => exact unique_nil

/-! ## 3. Merging -/

theorem Unique.merge (hfresh : fresh.Unique) (hdraft : draft.Unique) :
    (fresh.merge draft).Unique := by
  have node : ∀ n : Node, n.Unique → ∀ o : Option Node, (∀ m ∈ o, m.Unique) →
      (n.mergeOver o).Unique := by
    intro n
    induction n using Node.induction with
    | leaf n hn =>
      intro hu o _
      rwa [mergeOver_of_entries? (.inr hn)]
    | object es ih =>
      intro hu o ho
      have hes : Tree.Unique es := unique_object.mp hu
      cases hos : o.bind Node.entries? with
      | none => rwa [mergeOver_of_entries? (.inl hos)]
      | some fs =>
        obtain rfl := eq_object_of_bind_entries? hos
        have hfs : Tree.Unique fs := unique_object.mp (ho _ rfl)
        rw [mergeOver_objects, unique_object]
        exact mergeInto_induction hfs fun u p hu hp =>
          hu.insert (ih p hp (uniqueBelow_iff.mp hes.2 p hp) _ fun m hget => hfs.of_get? hget)
  exact unique_object.mp (node (.object draft) (unique_object.mpr hdraft)
    (some (.object fresh)) fun m hm => Option.some.inj hm ▸ unique_object.mpr hfresh)

end Tree

end LocaleEditor
