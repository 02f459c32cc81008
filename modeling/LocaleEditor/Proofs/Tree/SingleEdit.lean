/-
LocaleEditor.Proofs.Tree.SingleEdit — a draft that holds one edit.

Setting a node in a tree without entries makes a chain of objects with one key
each. Laid over another tree, the chain does what setting the node there does:
both go down the same path, through the objects that stand on it and then
through new ones (`merge_setAt_empty`). It matters that the node is not blank,
since setting a blank one may delete and a merge never does.

* `merge_singleton` — a draft with one key changes the node of that key only.
* `setAt_below_of_fill` — a node that is not blank leaves an object under every
  key on its way.
-/
import LocaleEditor.Proofs.Tree.Effect
import LocaleEditor.Proofs.Tree.Overlay

namespace LocaleEditor

namespace Tree

variable {t es : Tree} {key next : String} {rest : List String} {n : Node}

/-! ## 1. Drafts with one key -/

theorem merge_singleton (fresh : Tree) (key : String) (n : Node) :
    fresh.merge [(key, n)] = fresh.insert key (n.mergeOver (fresh.get? key)) := rfl

/-! ## 2. Nodes that are not blank -/

theorem setAt_key_of_fill (h : n.isBlank = false) (t : Tree) (key : String) :
    t.setAt [key] (some n) = t.insert key n := by
  have hkept : kept (some n) (t.get? key) = some n :=
    kept_eq_some_iff.mpr ⟨rfl, fun hblank => by simp [h] at hblank⟩
  rw [setAt_key, hkept]

/-- The first key on the way is given a node. -/
theorem exists_setAt_eq_insert (h : n.isBlank = false) (hopen : t.Open (key :: rest)) :
    ∃ m, t.setAt (key :: rest) (some n) = t.insert key m := by
  induction rest generalizing t key with
  | nil => exact ⟨n, setAt_key_of_fill h t key⟩
  | cons next rest ih =>
    obtain ⟨es, hes, hbelow⟩ := hopen.below
    obtain ⟨m, hm⟩ := ih hbelow
    refine ⟨.object (es.insert next m), ?_⟩
    rw [setAt_below hes, hm, putBelow_of_ne_nil (insert_ne_nil es next m)]

/-- It is given the object below it with the node set there, since that is never left empty. -/
theorem setAt_below_of_fill (h : n.isBlank = false)
    (hes : t.get? key = some (.object es) ∨ t.get? key = none ∧ es = [])
    (hbelow : es.Open (next :: rest)) :
    t.setAt (key :: next :: rest) (some n)
      = t.insert key (.object (es.setAt (next :: rest) (some n))) := by
  obtain ⟨m, hm⟩ := exists_setAt_eq_insert h hbelow
  rw [setAt_below hes, putBelow_of_ne_nil]
  rw [hm]
  exact insert_ne_nil es next m

/-! ## 3. The two ways to make one edit -/

/-- A draft that holds one edit, laid over a tree, gives what the edit itself makes of the tree, in
the same order: whether the path is in the tree, ends at an object of it or leaves it, as long as
no node on the way is something else than an object. Keys may repeat. -/
theorem merge_setAt_empty (fresh : Tree) (path : List String) (hpath : path ≠ [])
    (hopen : fresh.Open path) (n : Node) (hblank : n.isBlank = false) (hleaf : n.entries? = none) :
    fresh.merge (Tree.setAt [] path (some n)) = fresh.setAt path (some n) := by
  induction path generalizing fresh with
  | nil => exact absurd rfl hpath
  | cons key rest ih =>
    cases rest with
    | nil =>
      rw [setAt_key_of_fill hblank, setAt_key_of_fill hblank]
      show fresh.merge [(key, n)] = fresh.insert key n
      rw [merge_singleton, mergeOver_of_entries? (.inr hleaf)]
    | cons next rest =>
      obtain ⟨es, hes, hbelow⟩ := hopen.below
      let draft := Tree.setAt [] (next :: rest) (some n)
      -- below the key the draft is merged into the object there, or it stands alone
      have hobject : (Node.object draft).mergeOver (fresh.get? key)
          = .object (es.setAt (next :: rest) (some n)) := by
        rcases hes with hget | ⟨hget, rfl⟩
        · rw [hget, mergeOver_objects, ih es (by simp) hbelow]
        · rw [hget]
          rfl
      calc fresh.merge (Tree.setAt [] (key :: next :: rest) (some n))
          = fresh.merge [(key, .object draft)] := by
            rw [setAt_below_of_fill hblank (.inr ⟨rfl, rfl⟩) (open_empty next rest)]
            rfl
        _ = fresh.insert key (.object (es.setAt (next :: rest) (some n))) := by
            rw [merge_singleton, hobject]
        _ = fresh.setAt (key :: next :: rest) (some n) :=
            (setAt_below_of_fill hblank hes hbelow).symm

/-- A menu with one entry. -/
def startMenu : Tree := [("menu", .object [("start", .literal "Démarrer")])]

/-- The draft of a text two levels below the menu makes the object between them, as the edit
does. -/
theorem merge_setAt_empty_help :
    ["menu", "help", "title"] ≠ [] ∧ startMenu.Open ["menu", "help", "title"] ∧
      (Node.literal "Aide").isBlank = false ∧ (Node.literal "Aide").entries? = none ∧
      startMenu.merge (Tree.setAt [] ["menu", "help", "title"] (some (.literal "Aide")))
        = startMenu.setAt ["menu", "help", "title"] (some (.literal "Aide")) ∧
      startMenu.setAt ["menu", "help", "title"] (some (.literal "Aide"))
        = [("menu", .object [("start", .literal "Démarrer"),
            ("help", .object [("title", .literal "Aide")])])] := by
  have hopen : startMenu.Open ["menu", "help", "title"] :=
    open_of_below (.inl rfl) (open_of_below (.inr ⟨rfl, rfl⟩) (open_singleton [] "title"))
  exact ⟨by simp, hopen, rfl, rfl,
    merge_setAt_empty startMenu _ (by simp) hopen (.literal "Aide") rfl rfl, rfl⟩

end Tree

end LocaleEditor
