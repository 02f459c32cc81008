/-
LocaleEditor.Proofs.Tree.Merged — what is at each path once a draft is laid
over a fresh tree.

A merge goes down a path as long as both trees have an object there. So what
the merged tree has at a path follows from what the two have at that path and
from whether the draft stops the way to it.

* `at?_merge_of_some` — where the draft has a node, that node, laid over what
  the fresh tree has there.
* `at?_merge_of_none` — where it has none and does not stop the way, what the
  fresh tree has.
* `at?_merge_isSome` — nowhere is there a node that neither of them has.
* `merge_loses_nothing` — these together, with the order of the keys, and that
  a second merge changes nothing.
-/
import LocaleEditor.Proofs.Tree.Overlay
import LocaleEditor.Proofs.Tree.Ways

namespace LocaleEditor

open LocaleEditor.Tree

variable {fresh draft : Tree} {key : String} {path rest : List String} {n m : Node}
  {o : Option Node}

/-! ## 1. One key of a path -/

/-- Nothing is below what has no entries or is not there. -/
theorem bind_at?_of_entries? (h : o.bind Node.entries? = none) (key : String)
    (rest : List String) : o.bind (·.at? (key :: rest)) = none := by
  cases o with
  | none => rfl
  | some m => exact Node.at?_cons_of_entries? h key rest

theorem at?_merge_cons (hdraft : draft.keys.Nodup) (fresh : Tree) (key : String)
    (rest : List String) :
    (fresh.merge draft).at? (key :: rest) = match draft.get? key with
      | some n => (n.mergeOver (fresh.get? key)).at? rest
      | none => (fresh.get? key).bind (·.at? rest) := by
  rw [at?_cons, get?_merge hdraft]
  cases draft.get? key <;> rfl

/-! ## 2. Where the draft has a node -/

theorem Node.at?_mergeOver (hn : n.Unique) (h : n.at? path = some m) (o : Option Node) :
    (n.mergeOver o).at? path = some (m.mergeOver (o.bind (·.at? path))) := by
  induction path generalizing n o with
  | nil =>
    obtain rfl := Option.some.inj h
    cases o <;> rfl
  | cons key rest ih =>
    cases hes : n.entries? with
    | none => simp [Node.at?_cons_of_entries? hes] at h
    | some es =>
      obtain rfl := Node.eq_object_of_entries? hes
      cases hos : o.bind Node.entries? with
      | none =>
        rw [mergeOver_of_entries? (.inl hos), h, bind_at?_of_entries? hos,
          mergeOver_of_entries? (.inl rfl)]
      | some fs =>
        obtain rfl := eq_object_of_bind_entries? hos
        have hdraft : Tree.Unique es := unique_object.mp hn
        obtain ⟨child, hget, hchild⟩ := at?_cons_eq_some_iff.mp h
        have hmerge := at?_merge_cons hdraft.1 fs key rest
        rw [hget] at hmerge
        rw [mergeOver_objects, Option.bind_some]
        calc Node.at? (.object (Tree.merge fs es)) (key :: rest)
            = (child.mergeOver (Tree.get? fs key)).at? rest := hmerge
          _ = some (m.mergeOver ((Tree.get? fs key).bind (·.at? rest))) :=
              ih (hdraft.of_get? hget) hchild _
          _ = some (m.mergeOver (Node.at? (.object fs) (key :: rest))) := by
              rw [← at?_cons]
              rfl

/-- Where the draft has a node the merged tree has that node, laid over the fresh one there. -/
theorem at?_merge_of_some (hdraft : draft.Unique) (fresh : Tree) (h : draft.at? path = some n) :
    (fresh.merge draft).at? path = some (n.mergeOver (fresh.at? path)) :=
  Node.at?_mergeOver (unique_object.mpr hdraft) h (some (.object fresh))

/-! ## 3. Where the draft has none -/

/-- Where the draft has nothing, and no node of it stops the way, the fresh tree is seen. -/
theorem at?_merge_of_none (hdraft : draft.Unique) (hopen : draft.Open path)
    (h : draft.at? path = none) : (fresh.merge draft).at? path = fresh.at? path := by
  induction path generalizing fresh draft with
  | nil => cases h
  | cons key rest ih =>
    rw [at?_merge_cons hdraft.1, at?_cons]
    cases rest with
    | nil =>
      rw [at?_singleton] at h
      rw [h]
    | cons next rest =>
      obtain ⟨es, hget | ⟨hget, -⟩, hbelow⟩ := hopen.below
      · have hnone : es.at? (next :: rest) = none := (at?_below (.inl hget)).symm.trans h
        rw [hget]
        cases hos : (fresh.get? key).bind Node.entries? with
        | none =>
          rw [bind_at?_of_entries? hos]
          show ((Node.object es).mergeOver (fresh.get? key)).at? (next :: rest) = none
          rw [mergeOver_of_entries? (.inl hos)]
          exact hnone
        | some fs =>
          rw [eq_object_of_bind_entries? hos]
          exact ih (hdraft.of_get?_object hget) hbelow hnone
      · rw [hget]

/-! ## 4. Nothing else -/

/-- Whatever is below a node that was laid over another is below one of the two. -/
theorem Node.isSome_of_mergeOver (hn : n.Unique)
    (h : ((n.mergeOver o).at? path).isSome = true) :
    (n.at? path).isSome = true ∨ (o.bind (·.at? path)).isSome = true := by
  induction path generalizing n o with
  | nil => exact .inl rfl
  | cons key rest ih =>
    cases hos : o.bind Node.entries? with
    | none =>
      rw [mergeOver_of_entries? (.inl hos)] at h
      exact .inl h
    | some fs =>
      cases hes : n.entries? with
      | none =>
        rw [mergeOver_of_entries? (.inr hes)] at h
        exact .inl h
      | some es =>
        obtain rfl := eq_object_of_bind_entries? hos
        obtain rfl := Node.eq_object_of_entries? hes
        have hdraft : Tree.Unique es := unique_object.mp hn
        have hmerge : ((Tree.merge fs es).at? (key :: rest)).isSome = true := h
        rw [at?_merge_cons hdraft.1] at hmerge
        show (Tree.at? es (key :: rest)).isSome = true ∨ (Tree.at? fs (key :: rest)).isSome = true
        rw [at?_cons, at?_cons]
        cases hget : Tree.get? es key with
        | none =>
          rw [hget] at hmerge
          exact .inr hmerge
        | some child =>
          rw [hget] at hmerge
          exact ih (hdraft.of_get? hget) hmerge

/-- Every path of the merged tree is one of the fresh tree or of the draft. -/
theorem at?_merge_isSome (hdraft : draft.Unique)
    (h : ((fresh.merge draft).at? path).isSome = true) :
    (fresh.at? path).isSome = true ∨ (draft.at? path).isSome = true :=
  (Node.isSome_of_mergeOver (o := some (.object fresh)) (unique_object.mpr hdraft) h).symm

/-! ## 5. The whole merge -/

/-- Laying a draft over a fresh tree loses nothing, and settles. Every node of the draft that is no
object is found where it was; where the draft has nothing and does not stop the way, the fresh tree
is seen; and no other path is there. Where both have an object its keys are the fresh ones in their
order and then the draft's others in theirs. A draft without entries changes nothing, and neither
does laying what came out over the fresh tree again. -/
theorem merge_loses_nothing (fresh draft : Tree) (hfresh : fresh.Unique) (hdraft : draft.Unique) :
    (∀ path n, draft.at? path = some n → n.entries? = none →
      (fresh.merge draft).at? path = some n) ∧
    (∀ path, draft.at? path = none → draft.Open path →
      (fresh.merge draft).at? path = fresh.at? path) ∧
    (∀ path, ((fresh.merge draft).at? path).isSome = true →
      (fresh.at? path).isSome = true ∨ (draft.at? path).isSome = true) ∧
    (∀ (path : List String) (fs ds : Tree), fresh.at? path = some (.object fs) →
      draft.at? path = some (.object ds) →
        ∃ ms : Tree, (fresh.merge draft).at? path = some (.object ms) ∧
          ms.keys = fs.keys ++ ds.keys.filter fun k => !fs.contains k) ∧
    fresh.merge [] = fresh ∧
    fresh.merge (fresh.merge draft) = fresh.merge draft := by
  refine ⟨fun path n h hn => ?_, fun path h hopen => at?_merge_of_none hdraft hopen h,
    fun path => at?_merge_isSome hdraft, fun path fs ds hfs hds => ?_, rfl, ?_⟩
  · rw [at?_merge_of_some hdraft fresh h, mergeOver_of_entries? (.inr hn)]
  · refine ⟨fs.merge ds, ?_, keys_merge (hdraft.of_at?_object hds).1 fs⟩
    rw [at?_merge_of_some hdraft fresh hds, hfs, mergeOver_objects]
  · exact (merge_eq_self_iff hfresh).mpr (covers_merge hfresh draft)

/-- A title, and a menu with two entries. -/
def freshMenu : Tree :=
  [("title", .literal "Titre"),
    ("menu", .object [("start", .literal "Démarrer"), ("quit", .literal "Quitter")])]

/-- A draft with another text for one entry of the menu. -/
def quitDraft : Tree := [("menu", .object [("quit", .literal "Sortir")])]

/-- The draft's text is in the menu, and the menu's other entry is still there. -/
theorem merge_loses_nothing_menu :
    freshMenu.Unique ∧ quitDraft.Unique ∧
      quitDraft.at? ["menu", "quit"] = some (.literal "Sortir") ∧
      (Node.literal "Sortir").entries? = none ∧
      quitDraft.at? ["menu", "start"] = none ∧ quitDraft.Open ["menu", "start"] ∧
      (freshMenu.merge quitDraft).at? ["menu", "quit"] = some (.literal "Sortir") ∧
      (freshMenu.merge quitDraft).at? ["menu", "start"] = freshMenu.at? ["menu", "start"] ∧
      freshMenu.merge (freshMenu.merge quitDraft) = freshMenu.merge quitDraft := by
  have hfresh : freshMenu.Unique := by
    simp [Tree.Unique, Tree.keys, Tree.UniqueBelow, Node.Unique, freshMenu]
  have hdraft : quitDraft.Unique := by
    simp [Tree.Unique, Tree.keys, Tree.UniqueBelow, Node.Unique, quitDraft]
  have hopen : quitDraft.Open ["menu", "start"] :=
    open_of_below (.inl rfl) (open_singleton [("quit", .literal "Sortir")] "start")
  obtain ⟨hdrafted, hkept, -, -, -, hsettled⟩ :=
    merge_loses_nothing freshMenu quitDraft hfresh hdraft
  exact ⟨hfresh, hdraft, rfl, rfl, rfl, hopen, hdrafted _ _ rfl rfl, hkept _ rfl hopen, hsettled⟩

end LocaleEditor
