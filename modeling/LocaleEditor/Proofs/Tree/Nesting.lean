/-
LocaleEditor.Proofs.Tree.Nesting — the events of two trees as nested objects.

`align` gives a flat list. A `Nesting` is what such a list stands for: entries
and objects side by side, and inside each object the same again. It is told by
its events, since starts and stops are brackets (`Nesting.events_injective`).

`align_nested` says that the events of two trees are those of a nesting in which
every place is what a reader would work out from where the event stands: the
path from the objects that are open, the depth from their number, and the mark
of the last key from the keys of the level, hidden or not.

* `levelKeys` — the order of the keys at a path, without following `align`.
* `fits_below` — the place that a key of a level is given.
* `exists_nesting` — the induction on the levels; a slot goes in front of the
  slots after it, or leaves them as they are.
-/
import LocaleEditor.Proofs.Tree.Levels
import LocaleEditor.Proofs.Tree.Ways

namespace LocaleEditor

open LocaleEditor.Tree

/-! ## 1. Nested objects -/

/-- What stands side by side at one level: entries, and objects with what is inside. -/
inductive Nesting where
  | done
  | entry (place : Place) (reference edited : Node) (after : Nesting)
  | object (place : Place) (inside after : Nesting)

namespace Nesting

/-- Everything in order, each object between a start and a stop of the same place. -/
def events : Nesting → List Event
  | done => []
  | entry place reference edited after => .entry place reference edited :: after.events
  | object place inside after => .start place :: inside.events ++ .stop place :: after.events

/-- The keys of what stands at the level itself. -/
def keys : Nesting → List String
  | done => []
  | entry place _ _ after => place.key :: after.keys
  | object place _ after => place.key :: after.keys

theorem eq_of_events_append_stop {n m : Nesting} {p q : Place} {s s' : List Event}
    (h : n.events ++ .stop p :: s = m.events ++ .stop q :: s') : n = m ∧ p = q ∧ s = s' := by
  induction n generalizing m p q s s' with
  | done =>
    cases m with
    | done => simpa [events] using h
    | _ => simp [events] at h
  | entry place reference edited after ih =>
    cases m with
    | entry place' reference' edited' after' =>
      simp only [events, List.cons_append, List.cons.injEq, Event.entry.injEq] at h
      obtain ⟨⟨rfl, rfl, rfl⟩, h⟩ := h
      obtain ⟨rfl, hrest⟩ := ih h
      exact ⟨rfl, hrest⟩
    | _ => simp [events] at h
  | object place inside after ihinside ihafter =>
    cases m with
    | object place' inside' after' =>
      simp only [events, List.cons_append, List.append_assoc, List.cons.injEq,
        Event.start.injEq] at h
      obtain ⟨rfl, h⟩ := h
      obtain ⟨rfl, -, h⟩ := ihinside h
      obtain ⟨rfl, hrest⟩ := ihafter h
      exact ⟨rfl, hrest⟩
    | _ => simp [events] at h

/-- A list of events can be read in one way only. -/
theorem events_injective {n m : Nesting} (h : n.events = m.events) : n = m := by
  let anywhere : Place := ⟨"", 0, [], true⟩
  have hstop : n.events ++ [.stop anywhere] = m.events ++ [.stop anywhere] := by rw [h]
  exact (eq_of_events_append_stop hstop).1

end Nesting

/-! ## 2. Where events stand -/

/-- The path of the innermost open object, which comes first; without one, that of the root. -/
def innermost (around : List Place) : List String := (around.head?.map Place.path).getD []

/-- A place is that of its key directly inside the objects that are open around it, where `order`
gives the keys of each level. -/
structure Place.Fits (order : List String → List String) (around : List Place) (place : Place) :
    Prop where
  path_eq : place.path = innermost around ++ [place.key]
  depth_eq : place.depth = around.length
  last_iff : place.last = true ↔ (order (innermost around)).getLast? = some place.key

/-- All places fit where they stand, and each object has an entry somewhere inside and keys that
come in the order of its level. -/
def Nesting.Fits (order : List String → List String) : List Place → Nesting → Prop
  | _, .done => True
  | around, .entry place _ _ after => place.Fits order around ∧ after.Fits order around
  | around, .object place inside after =>
    place.Fits order around ∧ (∃ p r e, Event.entry p r e ∈ inside.events) ∧
      inside.keys.Sublist (order place.path) ∧ inside.Fits order (place :: around) ∧
      after.Fits order around

variable {order : List String → List String} {around : List Place} {hide : Bool}
  {levels : Nat} {parent path : List String} {reference edited : Tree} {key : String}

theorem Nesting.Fits.exists_entry {n : Nesting} (h : n.Fits order around) (hne : n ≠ .done) :
    ∃ p r e, Event.entry p r e ∈ n.events := by
  cases n with
  | done => exact absurd rfl hne
  | entry place r e after => exact ⟨place, r, e, List.mem_cons_self⟩
  | object place inside after =>
    obtain ⟨-, ⟨p, r, e, hmem⟩, -⟩ := h
    exact ⟨p, r, e, List.mem_cons_of_mem _ (List.mem_append_left _ hmem)⟩

/-- The keys of the level at a path: those that the reference has there, then those that only the
edited tree has. -/
def levelKeys (reference edited : Tree) (path : List String) : List String :=
  reference.keysAt path ++ (edited.keysAt path).filter fun key => key ∉ reference.keysAt path

theorem levelKeys_nil (reference edited : Tree) :
    levelKeys reference edited [] = mergedKeys reference edited := by
  rw [levelKeys, mergedKeys, keysAt_nil, keysAt_nil]
  refine congrArg _ (List.filter_congr fun k _ => ?_)
  by_cases hk : k ∈ reference.keys
  · simp [hk, contains_iff.mpr hk]
  · simp [hk, contains_eq_false_iff.mpr hk]

theorem levelKeys_below {r e : Tree}
    (h : sides? reference edited key = some (.object r, .object e)) (path : List String) :
    levelKeys reference edited (key :: path) = levelKeys r e path := by
  obtain ⟨hr, he⟩ := sides?_objects h
  rw [levelKeys, keysAt_below hr, keysAt_below he, levelKeys]

theorem levelKeys_nodup (hr : reference.Unique) (he : edited.Unique) (path : List String) :
    (levelKeys reference edited path).Nodup :=
  List.Nodup.append (hr.keysAt_nodup path) ((he.keysAt_nodup path).filter _)
    fun key hkey hother => by simp [hkey] at hother

/-! ## 3. One level -/

/-- The place of a key of the level fits, since no key of the level comes twice. -/
theorem fits_below {i : Nat} (hpath : innermost around = parent)
    (hdepth : around.length = parent.length)
    (horder : order parent = mergedKeys reference edited)
    (hnodup : (mergedKeys reference edited).Nodup)
    (hkey : (key, i) ∈ (mergedKeys reference edited).zipIdx) :
    (Place.below parent (mergedKeys reference edited).length key i).Fits order around := by
  refine ⟨by rw [hpath]; rfl, hdepth.symm, ?_⟩
  rw [List.mk_mem_zipIdx_iff_getElem?] at hkey
  have hlt : i < (mergedKeys reference edited).length := (List.getElem?_eq_some_iff.mp hkey).1
  rw [hpath, horder, List.getLast?_eq_getElem?]
  show decide (i + 1 = _) = true ↔ _ = some key
  rw [decide_eq_true_eq]
  constructor
  · intro hi
    rw [← hi, Nat.add_sub_cancel, hkey]
  · intro hlast
    have hi := (List.getElem?_inj hlt hnodup).mp (hkey.trans hlast.symm)
    omega

/-- The events of a key go in front of those of the keys after it. -/
theorem exists_nesting_slot {place : Place} {s : Option (Node × Node)} (after : Nesting)
    (hplace : place.Fits order around) (hafter : after.Fits order around)
    (hinside : ∀ r e : Tree, s = some (.object r, .object e) → ∃ inside : Nesting,
      inside.events = alignLevel hide levels place.path r e ∧
        inside.keys.Sublist (order place.path) ∧ inside.Fits order (place :: around)) :
    ∃ n : Nesting, n.events = slot hide levels place s ++ after.events ∧
      n.keys.Sublist (place.key :: after.keys) ∧ n.Fits order around := by
  have hidden : ∃ n : Nesting, n.events = [] ++ after.events ∧
      n.keys.Sublist (place.key :: after.keys) ∧ n.Fits order around :=
    ⟨after, rfl, List.sublist_cons_self _ _, hafter⟩
  cases s with
  | none => exact hidden
  | some s =>
    obtain ⟨r, e⟩ := s
    obtain hn | ⟨res, ees, rfl, rfl⟩ := entry_or_objects r e
    · rw [slot_entry hide levels place hn]
      split
      · exact hidden
      · exact ⟨.entry place r e after, rfl, List.Sublist.refl _, hplace, hafter⟩
    · obtain ⟨inside, hevents, hkeys, hfits⟩ := hinside res ees rfl
      rw [slot_objects, ← hevents]
      cases inside with
      | done => exact hidden
      | _ =>
        refine ⟨.object place _ after, ?_, List.Sublist.refl _, hplace,
          hfits.exists_entry (by simp), hkeys, hfits, hafter⟩
        simp [Nesting.events, Event.enclosed]

/-- The events of a level nest, whatever objects are open around it. -/
theorem exists_nesting (hide : Bool) (order : List String → List String) :
    ∀ (levels : Nat) (parent : List String) (reference edited : Tree) (around : List Place),
    reference.Unique → edited.Unique → innermost around = parent →
    around.length = parent.length →
    (∀ path, order (parent ++ path) = levelKeys reference edited path) →
    ∃ n : Nesting, n.events = alignLevel hide levels parent reference edited ∧
      n.keys.Sublist (order parent) ∧ n.Fits order around
  | 0, _, _, _, _, _, _, _, _, _ => ⟨.done, rfl, List.nil_sublist _, trivial⟩
  | levels + 1, parent, reference, edited, around, hr, he, hpath, hdepth, horder => by
    have hlevel : order parent = mergedKeys reference edited := by
      rw [← levelKeys_nil, ← horder, List.append_nil]
    have hnodup := mergedKeys_nodup hr.1 he.1
    -- from the right, each slot goes in front of what is there
    have slots : ∀ l : List (String × Nat), l ⊆ (mergedKeys reference edited).zipIdx →
        ∃ n : Nesting, n.events = (l.flatMap fun p => slot hide levels
            (.below parent (mergedKeys reference edited).length p.1 p.2)
            (sides? reference edited p.1)) ∧
          n.keys.Sublist (l.map Prod.fst) ∧ n.Fits order around := by
      intro l hl
      induction l with
      | nil => exact ⟨.done, rfl, List.Sublist.refl _, trivial⟩
      | cons p l ih =>
        obtain ⟨after, hevents, hkeys, hafter⟩ := ih (List.cons_subset.mp hl).2
        have hplace := fits_below hpath hdepth hlevel hnodup (List.cons_subset.mp hl).1
        obtain ⟨n, hn, hnkeys, hfits⟩ := exists_nesting_slot (s := sides? reference edited p.1)
          after hplace hafter fun r e hs => by
            obtain ⟨hrget, heget⟩ := sides?_objects hs
            refine exists_nesting hide order levels _ r e _ (hr.of_below hrget)
              (he.of_below heget) rfl (by simp [Place.below, hdepth]) fun path => ?_
            rw [← levelKeys_below hs, ← horder]
            simp [Place.below]
        refine ⟨n, ?_, hnkeys.trans (hkeys.cons_cons _), hfits⟩
        rw [hn, hevents, List.flatMap_cons]
    obtain ⟨n, hevents, hkeys, hfits⟩ := slots _ (List.Subset.refl _)
    rw [List.zipIdx_map_fst] at hkeys
    exact ⟨n, by rw [hevents, alignLevel_succ], hlevel ▸ hkeys, hfits⟩

/-! ## 4. The whole list -/

/-- The events of two trees nest. They can be read in one way as entries and objects, with each
object between a start and a stop of the same place and at least one entry inside. Every path is
that of the innermost open object and the own key, and every depth the number of open objects. At
each level the keys come in the order of the level, each at most once, and an event is marked as
the last exactly when its key is the last of the level, whether others are hidden or not. -/
theorem align_nested (reference edited : Tree) (hr : reference.Unique) (he : edited.Unique)
    (hide : Bool) :
    (∃ n : Nesting, n.events = align reference edited hide ∧
      (∀ m : Nesting, m.events = align reference edited hide → m = n) ∧
      n.keys.Sublist (levelKeys reference edited []) ∧
      n.Fits (levelKeys reference edited) []) ∧
    ∀ path, (levelKeys reference edited path).Nodup := by
  refine ⟨?_, levelKeys_nodup hr he⟩
  obtain ⟨n, hevents, hkeys, hfits⟩ := exists_nesting hide (levelKeys reference edited)
    (max (Node.object reference).depth (Node.object edited).depth) [] reference edited [] hr he
    rfl rfl fun _ => rfl
  exact ⟨n, hevents, fun m hm => Nesting.events_injective (hm.trans hevents.symm), hkeys, hfits⟩

/-- A title, a menu with two entries, and a name. -/
def shopReference : Tree :=
  [("title", .literal "Shop"),
    ("menu", .object [("cart", .literal "Cart"), ("help", .literal "Help")]),
    ("site", .variable "SITE")]

/-- The help is not translated yet, and there is a text that the reference does not have. -/
def shopEdited : Tree :=
  [("note", .literal "Note"), ("menu", .object [("cart", .literal "Panier")]),
    ("title", .literal "Boutique")]

/-- Only the help is left of the events, and the menu around it is still marked as one that other
keys of its level follow. -/
theorem align_nested_shop :
    shopReference.Unique ∧ shopEdited.Unique ∧
      levelKeys shopReference shopEdited [] = ["title", "menu", "site", "note"] ∧
      align shopReference shopEdited true =
        [.start ⟨"menu", 0, ["menu"], false⟩,
          .entry ⟨"help", 1, ["menu", "help"], true⟩ (.literal "Help") (.literal ""),
          .stop ⟨"menu", 0, ["menu"], false⟩] ∧
      (∃ n : Nesting, n.events = align shopReference shopEdited true ∧
        (∀ m : Nesting, m.events = align shopReference shopEdited true → m = n) ∧
        n.keys.Sublist (levelKeys shopReference shopEdited []) ∧
        n.Fits (levelKeys shopReference shopEdited) []) ∧
      ∀ path, (levelKeys shopReference shopEdited path).Nodup := by
  have hr : shopReference.Unique := by
    simp [Tree.Unique, Tree.keys, Tree.UniqueBelow, Node.Unique, shopReference]
  have he : shopEdited.Unique := by
    simp [Tree.Unique, Tree.keys, Tree.UniqueBelow, Node.Unique, shopEdited]
  exact ⟨hr, he, rfl, rfl, align_nested shopReference shopEdited hr he true⟩

end LocaleEditor
