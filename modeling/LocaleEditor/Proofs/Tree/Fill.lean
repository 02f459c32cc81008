/-
LocaleEditor.Proofs.Tree.Fill — an untranslated entry that gets its translation.

With translated entries hidden, `align` lists what is left to do.
`fill_untranslated`: setting a node at the path of a listed entry puts the
node there, and takes that entry, and nothing else, off the list.

The path may run through objects that the edited tree lacks. They are shown as
empty objects beside those of the reference, and setting the node makes them.
`entries_alignLevel_fill` is the induction on the levels: what an edit below
one key does to the level is decided by the slot of that key alone, because
the merged keys stay the same (`mergedKeys_insert`) and so do the sides of all
other keys (`sides?_insert_of_ne`).
-/
import LocaleEditor.Tree.Edit
import LocaleEditor.Proofs.Tree.Levels
import LocaleEditor.Proofs.Tree.Ways

namespace LocaleEditor

open LocaleEditor.Tree

/-! ## 1. The entries among the events -/

def Event.isEntry : Event → Bool
  | .entry _ _ _ => true
  | _ => false

@[simp] theorem Event.isEntry_start (place : Place) : (Event.start place).isEntry = false := rfl

@[simp] theorem Event.isEntry_entry (place : Place) (r e : Node) :
    (Event.entry place r e).isEntry = true := rfl

@[simp] theorem Event.isEntry_stop (place : Place) : (Event.stop place).isEntry = false := rfl

/-- The entries among some events. -/
def Event.entries (events : List Event) : List Event := events.filter Event.isEntry

theorem Event.entries_flatMap {α : Type} (l : List α) (f : α → List Event) :
    entries (l.flatMap f) = l.flatMap fun a => entries (f a) := by
  simp only [entries, List.filter_flatMap]

/-- An object gives the entries of its own level. -/
theorem Event.entries_slot_objects (hide : Bool) (levels : Nat) (place : Place) (r e : Tree) :
    entries (slot hide levels place (some (.object r, .object e)))
      = entries (alignLevel hide levels place.path r e) := by
  rw [slot_objects]
  cases alignLevel hide levels place.path r e with
  | nil => rfl
  | cons c cs =>
    show List.filter isEntry ([.start place] ++ (c :: cs) ++ [.stop place]) = _
    rw [List.filter_append, List.filter_append]
    simp only [entries, List.filter_cons, isEntry_start, isEntry_stop]
    simp

/-- A member of joined lists is a member of one of them, at its place in the whole. -/
theorem exists_split_of_flatMap_eq {α β : Type} {f : α → List β} {x : β} {after : List β} :
    ∀ {l : List α} {before : List β}, l.flatMap f = before ++ x :: after →
      ∃ l₁ a l₂ b c, l = l₁ ++ a :: l₂ ∧ f a = b ++ x :: c ∧
        before = l₁.flatMap f ++ b ∧ after = c ++ l₂.flatMap f
  | [], before, h => by simp at h
  | a :: r, before, h => by
    rw [List.flatMap_cons, List.append_eq_append_iff] at h
    rcases h with ⟨b, hb, hr⟩ | ⟨c, hc, hr⟩
    · obtain ⟨l₁, a', l₂, b', c, rfl, hf, rfl, rfl⟩ := exists_split_of_flatMap_eq hr
      exact ⟨a :: l₁, a', l₂, b', c, rfl, hf, by simp [hb], rfl⟩
    · cases c with
      | nil =>
        have hnil : r.flatMap f = [] ++ x :: after := hr.symm
        obtain ⟨l₁, a', l₂, b', c, rfl, hf, hb, rfl⟩ := exists_split_of_flatMap_eq hnil
        exact ⟨a :: l₁, a', l₂, b', c, rfl, hf, by simp_all, rfl⟩
      | cons y c =>
        rw [List.cons_append, List.cons.injEq] at hr
        obtain ⟨rfl, rfl⟩ := hr
        exact ⟨[], a, r, before, c, rfl, hc, by simp, rfl⟩

variable {node : Node}

/-! ## 2. One level -/

/-- When an edit of one key takes an entry out of that key's slot, it takes the entry out of the
level. -/
theorem entries_alignLevel_insert {levels : Nat} {parent : List String} {reference edited : Tree}
    {x : Event} {before after : List Event} (hr : reference.Unique) (he : edited.Unique)
    (h : Event.entries (alignLevel true (levels + 1) parent reference edited)
      = before ++ x :: after) :
    ∃ key place s b c, place.path = parent ++ [key] ∧ sides? reference edited key = some s ∧
      Event.entries (slot true levels place (some s)) = b ++ x :: c ∧
      ∀ n : Node, Event.entries (slot true levels place
          (sides? reference (edited.insert key n) key)) = b ++ c →
        Event.entries (alignLevel true (levels + 1) parent reference (edited.insert key n))
          = before ++ after := by
  rw [alignLevel_succ, Event.entries_flatMap] at h
  obtain ⟨l₁, ⟨key, i⟩, l₂, b, c, hl, hf, rfl, rfl⟩ := exists_split_of_flatMap_eq h
  dsimp only at hf
  cases hs : sides? reference edited key with
  | none => simp [hs, slot, Event.entries] at hf
  | some s =>
    rw [hs] at hf
    refine ⟨key, _, s, b, c, rfl, hs, hf, fun n hn => ?_⟩
    have hmem := mem_mergedKeys_of_sides? hs
    -- the key stands once among the merged keys, so that no other slot looks at it
    have hnodup : ((mergedKeys reference edited).zipIdx.map Prod.fst).Nodup := by
      rw [List.zipIdx_map_fst]
      exact mergedKeys_nodup hr.1 he.1
    rw [hl, List.map_append, List.map_cons] at hnodup
    have hnot : key ∉ (l₁ ++ l₂).map Prod.fst := by
      rw [List.map_append]
      exact (List.nodup_cons.mp (List.nodup_middle.mp hnodup)).1
    have hne : ∀ p ∈ l₁ ++ l₂, key ≠ p.1 :=
      fun p hp hkey => hnot (hkey ▸ List.mem_map_of_mem hp)
    have same : ∀ {l : List (String × Nat)}, (∀ p ∈ l, key ≠ p.1) →
        (l.flatMap fun p => Event.entries (slot true levels
          (.below parent (mergedKeys reference edited).length p.1 p.2)
          (sides? reference (edited.insert key n) p.1)))
        = l.flatMap fun p => Event.entries (slot true levels
          (.below parent (mergedKeys reference edited).length p.1 p.2)
          (sides? reference edited p.1)) := by
      intro l hl
      refine List.flatMap_congr fun p hp => ?_
      rw [sides?_insert_of_ne (hl p hp)]
    rw [alignLevel_succ, Event.entries_flatMap, mergedKeys_insert hmem, hl, List.flatMap_append,
      List.flatMap_cons, same fun p hp => hne p (by simp [hp]),
      same fun p hp => hne p (by simp [hp]), hn]
    simp

/-- Filling the node of a listed entry takes that entry out of a level, whatever the number of
levels. -/
theorem entries_alignLevel_fill (hblank : node.isBlank = false) (hleaf : node.entries? = none)
    {place : Place} {r e : Node} : ∀ (levels : Nat) (parent : List String)
    (reference edited : Tree) (before after : List Event), reference.Unique → edited.Unique →
    Event.entries (alignLevel true levels parent reference edited)
      = before ++ .entry place r e :: after →
    ∃ key rest filled, place.path = parent ++ key :: rest ∧
      edited.setBelow key rest (some node) = .updated filled ∧
      Tree.at? filled (key :: rest) = some node ∧
      Event.entries (alignLevel true levels parent reference filled) = before ++ after
  | 0, _, _, _, _, _, _, _, h => by simp [alignLevel, Event.entries] at h
  | levels + 1, parent, reference, edited, before, after, hr, he, h => by
    obtain ⟨key, here, ⟨rn, en⟩, b, c, hpath, hs, hslot, hrest⟩ :=
      entries_alignLevel_insert hr he h
    obtain hn | ⟨res, ees, rfl, rfl⟩ := entry_or_objects rn en
    · -- the listed entry is that of the key itself
      rw [slot_entry _ _ _ hn] at hslot
      obtain ⟨rfl, rfl, rfl⟩ : here = place ∧ b = [] ∧ c = [] := by
        split at hslot
        · simp [Event.entries] at hslot
        · change [Event.entry here rn en] = b ++ .entry place r e :: c at hslot
          rw [List.singleton_eq_append_iff] at hslot
          simp_all
      refine ⟨key, [], edited.insert key node, hpath, setEntry_of_not_blank _ _ hblank,
        (at?_singleton _ _).trans (get?_insert_self _ _ _), hrest node ?_⟩
      rw [sides?_insert_self, slot_entry _ _ _ (.inr hleaf)]
      simp [hblank, Event.entries]
    · -- both sides are objects: the listed entry is one of their level
      rw [Event.entries_slot_objects, hpath] at hslot
      obtain ⟨hrget, heget⟩ := sides?_objects hs
      obtain ⟨next, rest, filled, hplace, hset, hat, hfill⟩ :=
        entries_alignLevel_fill hblank hleaf levels (parent ++ [key]) res ees b c
          (hr.of_below hrget) (he.of_below heget) hslot
      refine ⟨key, next :: rest, edited.insert key (.object filled), by simp [hplace],
        by rw [setBelow_of_child heget, hset], by rw [at?_below (.inl (get?_insert_self _ _ _)), hat], hrest _ ?_⟩
      have hsides : sides? reference (edited.insert key (.object filled)) key
          = some (.object res, .object filled) := by
        rw [sides?_insert_self]
        rcases hrget with hg | ⟨hg, rfl⟩ <;> simp [hg, Node.emptied]
      rw [hsides, Event.entries_slot_objects, hpath, hfill]

/-! ## 3. The whole list -/

/-- Filling an untranslated entry: the node is then found at the entry's path, and the list of
untranslated entries loses that entry and nothing else. -/
theorem fill_untranslated (reference edited : Tree) (hr : reference.Unique) (he : edited.Unique)
    (place : Place) (r e node : Node) (before after : List Event)
    (hx : Event.entries (align reference edited true) = before ++ .entry place r e :: after)
    (hblank : node.isBlank = false) (hleaf : node.entries? = none) :
    (edited.setAt place.path (some node)).at? place.path = some node ∧
      Event.entries (align reference (edited.setAt place.path (some node)) true)
        = before ++ after := by
  -- as many levels as the edited tree needs before the edit or after it
  let levels := max (Node.object reference).depth (max (Node.object edited).depth
    (Node.object (edited.setAt place.path (some node))).depth)
  rw [← alignLevel_eq_align true levels reference edited (by omega) (by omega)] at hx
  obtain ⟨key, rest, filled, hplace, hset, hat, hfill⟩ :=
    entries_alignLevel_fill hblank hleaf levels [] reference edited before after hr he hx
  rw [List.nil_append] at hplace
  have hfilled : edited.setAt place.path (some node) = filled := by
    simp [hplace, setAt, hset]
  rw [← alignLevel_eq_align true levels reference _ (by omega) (by omega), hfilled,
    hplace]
  exact ⟨hat, hfill⟩

/-- A reference with a menu. -/
def menuReference : Tree :=
  [("title", .literal "Title"),
    ("menu", .object [("start", .literal "Start"), ("quit", .literal "Quit")])]

/-- The menu is missing from the edited tree, and one of its entries is filled. -/
theorem fill_untranslated_quit :
    Tree.Unique menuReference ∧ Tree.Unique [("title", .literal "Titre")] ∧
      Event.entries (align menuReference [("title", .literal "Titre")] true)
        = [.entry ⟨"start", 1, ["menu", "start"], false⟩ (.literal "Start") (.literal "")]
          ++ .entry ⟨"quit", 1, ["menu", "quit"], true⟩ (.literal "Quit") (.literal "") :: [] ∧
      (Node.literal "Quitter").isBlank = false ∧ (Node.literal "Quitter").entries? = none ∧
      Tree.at? (Tree.setAt [("title", .literal "Titre")] ["menu", "quit"]
        (some (.literal "Quitter"))) ["menu", "quit"] = some (.literal "Quitter") ∧
      Event.entries (align menuReference (Tree.setAt [("title", .literal "Titre")]
          ["menu", "quit"] (some (.literal "Quitter"))) true)
        = [.entry ⟨"start", 1, ["menu", "start"], false⟩ (.literal "Start") (.literal "")] := by
  have hr : Tree.Unique menuReference := by
    simp [Tree.Unique, Tree.keys, Tree.UniqueBelow, Node.Unique, menuReference]
  have he : Tree.Unique [("title", .literal "Titre")] := by
    simp [Tree.Unique, Tree.keys, Tree.UniqueBelow, Node.Unique]
  have hx : Event.entries (align menuReference [("title", .literal "Titre")] true)
      = [.entry ⟨"start", 1, ["menu", "start"], false⟩ (.literal "Start") (.literal "")]
        ++ .entry ⟨"quit", 1, ["menu", "quit"], true⟩ (.literal "Quit") (.literal "") :: [] := rfl
  exact ⟨hr, he, hx, rfl, rfl, fill_untranslated _ _ hr he _ _ _ _ _ _ hx rfl rfl⟩

end LocaleEditor
