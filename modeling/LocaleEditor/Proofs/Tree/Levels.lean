/-
LocaleEditor.Proofs.Tree.Levels — one level of two trees side by side.

`alignLevel` reads the merged keys of a level and gives, for each, the events
of that key. `slot` names those events, so that a level is a `flatMap` of its
slots (`alignLevel_succ`) and proofs about events follow the slots.

The number of levels given to `alignLevel` only bounds its recursion:
`alignLevel_eq_of_depth_le` says that any two bounds that both trees fit in
give the same events.
-/
import LocaleEditor.Tree.Align
import LocaleEditor.Proofs.Tree.Entries

namespace LocaleEditor

open LocaleEditor.Tree

variable {reference edited : Tree} {key other : String}

/-! ## 1. Merged keys -/

theorem mem_mergedKeys : key ∈ mergedKeys reference edited ↔
    key ∈ reference.keys ∨ key ∈ edited.keys := by
  simp only [mergedKeys, List.mem_append, List.mem_filter, Bool.not_eq_true',
    Bool.eq_false_iff, ne_eq, contains_iff]
  by_cases h : key ∈ reference.keys <;> simp [h]

/-- Each key of a level is visited once. -/
theorem mergedKeys_nodup (hr : reference.keys.Nodup) (he : edited.keys.Nodup) :
    (mergedKeys reference edited).Nodup := by
  refine List.nodup_append.mpr ⟨hr, he.filter _, ?_⟩
  intro a ha b hb hab
  subst hab
  have hc : reference.contains a = true := contains_iff.mpr ha
  simp [List.mem_filter, hc] at hb

/-- Setting the node of a visited key changes no order. -/
theorem mergedKeys_insert {node : Node} (h : key ∈ mergedKeys reference edited) :
    mergedKeys reference (edited.insert key node) = mergedKeys reference edited := by
  by_cases he : key ∈ edited.keys
  · rw [mergedKeys, keys_insert_of_mem he, mergedKeys]
  · have hr : reference.contains key = true :=
      contains_iff.mpr ((mem_mergedKeys.mp h).resolve_right he)
    simp [mergedKeys, keys_insert_of_notMem he, hr]

/-! ## 2. The two sides of a key -/

theorem mem_mergedKeys_of_sides? {s : Node × Node} (h : sides? reference edited key = some s) :
    key ∈ mergedKeys reference edited := by
  rw [mem_mergedKeys]
  cases hr : reference.get? key with
  | some r => exact .inl (mem_keys_of_get? hr)
  | none =>
    cases he : edited.get? key with
    | some e => exact .inr (mem_keys_of_get? he)
    | none => simp [sides?, hr, he] at h

/-- Other keys keep both sides. -/
theorem sides?_insert_of_ne {node : Node} (h : key ≠ other) :
    sides? reference (edited.insert key node) other = sides? reference edited other := by
  simp only [sides?, get?_insert_of_ne h]

/-- The key itself is seen with its new node; the reference keeps its own, if it has one. -/
theorem sides?_insert_self (reference edited : Tree) (key : String) (node : Node) :
    sides? reference (edited.insert key node) key
      = some ((reference.get? key).getD node.emptied, node) := by
  unfold sides?
  rw [get?_insert_self]
  cases reference.get? key <;> rfl

/-- An empty stand-in for an object is the empty object. -/
theorem eq_nil_of_emptied_eq_object {n : Node} {es : Tree} (h : n.emptied = .object es) :
    es = [] := by
  cases n <;> simp_all [Node.emptied]

/-- Where both sides are objects, each is the object that its tree has, or empty in its place. -/
theorem sides?_objects {r e : Tree}
    (h : sides? reference edited key = some (.object r, .object e)) :
    (reference.get? key = some (.object r) ∨ reference.get? key = none ∧ r = []) ∧
      (edited.get? key = some (.object e) ∨ edited.get? key = none ∧ e = []) := by
  unfold sides? at h
  cases hr : reference.get? key with
  | some rn =>
    cases he : edited.get? key with
    | some en => simpa [hr, he] using h
    | none =>
      simp only [hr, he, Option.some.injEq, Prod.mk.injEq] at h
      exact ⟨.inl (by rw [h.1]), .inr ⟨rfl, eq_nil_of_emptied_eq_object h.2⟩⟩
  | none =>
    cases he : edited.get? key with
    | some en =>
      simp only [hr, he, Option.some.injEq, Prod.mk.injEq] at h
      exact ⟨.inr ⟨rfl, eq_nil_of_emptied_eq_object h.1⟩, .inl (by rw [h.2])⟩
    | none => simp [hr, he] at h

/-! ## 3. A level is made of slots -/

/-- The events of one key, given its place and its two sides. -/
def slot (hide : Bool) (levels : Nat) (place : Place) : Option (Node × Node) → List Event
  | none => []
  | some (.object r, .object e) =>
    match alignLevel hide levels place.path r e with
    | [] => []
    | children => .start place :: children ++ [.stop place]
  | some (r, e) => if hide && !e.isBlank then [] else [.entry place r e]

/-- The place of the key with number `i` among `total` keys below `parent`. -/
def Place.below (parent : List String) (total : Nat) (key : String) (i : Nat) : Place :=
  ⟨key, parent.length, parent ++ [key], i + 1 = total⟩

theorem alignLevel_succ (hide : Bool) (levels : Nat) (parent : List String)
    (reference edited : Tree) :
    alignLevel hide (levels + 1) parent reference edited =
      (mergedKeys reference edited).zipIdx.flatMap fun p =>
        slot hide levels (.below parent (mergedKeys reference edited).length p.1 p.2)
          (sides? reference edited p.1) := by
  rw [alignLevel]
  refine congrArg (List.flatMap · _) (funext fun p => ?_)
  obtain ⟨key, i⟩ := p
  dsimp only
  cases sides? reference edited key with
  | none => rfl
  | some s =>
    obtain ⟨r, e⟩ := s
    cases r <;> cases e <;> rfl

/-- Where a side is no object there is one entry, or none if it is hidden. -/
theorem slot_entry (hide : Bool) (levels : Nat) (place : Place) {r e : Node}
    (h : r.entries? = none ∨ e.entries? = none) :
    slot hide levels place (some (r, e))
      = if hide && !e.isBlank then [] else [.entry place r e] := by
  cases r <;> cases e <;> simp_all [slot, Node.entries?]

/-- The events of an object, given those of its level; there are none if nothing is in it. -/
def Event.enclosed (place : Place) : List Event → List Event
  | [] => []
  | children => .start place :: children ++ [.stop place]

theorem slot_objects (hide : Bool) (levels : Nat) (place : Place) (r e : Tree) :
    slot hide levels place (some (.object r, .object e))
      = Event.enclosed place (alignLevel hide levels place.path r e) := rfl

/-- A slot is an entry unless both sides are objects. -/
theorem entry_or_objects (r e : Node) :
    (r.entries? = none ∨ e.entries? = none) ∨ ∃ res ees, r = .object res ∧ e = .object ees := by
  cases hr : r.entries? with
  | none => exact .inl (.inl rfl)
  | some res =>
    cases he : e.entries? with
    | none => exact .inl (.inr rfl)
    | some ees =>
      exact .inr ⟨res, ees, Node.eq_object_of_entries? hr, Node.eq_object_of_entries? he⟩

/-! ## 4. How deep the recursion goes -/

theorem depth_le_entriesDepth {p : String × Node} {es : Tree} (h : p ∈ es) :
    p.2.depth ≤ Node.depth.entriesDepth es := by
  induction es with
  | nil => exact absurd h List.not_mem_nil
  | cons q r ih =>
    obtain ⟨k, n⟩ := q
    simp only [Node.depth.entriesDepth]
    rcases List.mem_cons.mp h with rfl | h
    · exact Nat.le_max_left _ _
    · exact Nat.le_trans (ih h) (Nat.le_max_right _ _)

/-- Where both sides are objects, both fit in one level less than their trees. -/
theorem depth_sides? {r e : Tree} {levels : Nat}
    (h : sides? reference edited key = some (.object r, .object e))
    (hr : (Node.object reference).depth ≤ levels + 1)
    (he : (Node.object edited).depth ≤ levels + 1) :
    (Node.object r).depth ≤ levels ∧ (Node.object e).depth ≤ levels := by
  have below : ∀ {t es : Tree}, (Node.object t).depth ≤ levels + 1 →
      t.get? key = some (.object es) → (Node.object es).depth ≤ levels := by
    intro t es ht hg
    have hle : (Node.object es).depth ≤ Node.depth.entriesDepth t :=
      depth_le_entriesDepth (mem_of_get? hg)
    simp only [Node.depth] at ht hle ⊢
    omega
  have least : ∀ {es : Tree}, (Node.object es).depth ≤ levels → (Node.object []).depth ≤ levels := by
    intro es h
    simp only [Node.depth, Node.depth.entriesDepth] at h ⊢
    omega
  -- an empty object stands in for a missing side only beside one that is there
  obtain ⟨hr' | ⟨hrn, rfl⟩, he' | ⟨hen, rfl⟩⟩ := sides?_objects h
  · exact ⟨below hr hr', below he he'⟩
  · exact ⟨below hr hr', least (below hr hr')⟩
  · exact ⟨least (below he he'), below he he'⟩
  · simp [sides?, hrn, hen] at h

/-- One more level changes nothing once both trees fit. -/
theorem alignLevel_add_one (hide : Bool) : ∀ (levels : Nat) (parent : List String)
    (reference edited : Tree), (Node.object reference).depth ≤ levels →
    (Node.object edited).depth ≤ levels →
    alignLevel hide (levels + 1) parent reference edited
      = alignLevel hide levels parent reference edited
  | 0, _, _, _, hr, _ => by simp [Node.depth] at hr
  | levels + 1, parent, reference, edited, hr, he => by
    rw [alignLevel_succ, alignLevel_succ hide levels]
    refine congrArg (List.flatMap · _) (funext fun p => ?_)
    obtain ⟨key, i⟩ := p
    dsimp only
    cases hs : sides? reference edited key with
    | none => rfl
    | some s =>
      obtain ⟨r, e⟩ := s
      obtain hn | ⟨res, ees, rfl, rfl⟩ := entry_or_objects r e
      · rw [slot_entry _ _ _ hn, slot_entry _ _ _ hn]
      · obtain ⟨hrd, hed⟩ := depth_sides? hs hr he
        simp only [slot]
        rw [alignLevel_add_one hide levels _ res ees hrd hed]

/-- All bounds that both trees fit in give the same events. -/
theorem alignLevel_eq_align (hide : Bool) (levels : Nat) (reference edited : Tree)
    (hr : (Node.object reference).depth ≤ levels) (he : (Node.object edited).depth ≤ levels) :
    alignLevel hide levels [] reference edited = align reference edited hide := by
  unfold align
  generalize hm : max (Node.object reference).depth (Node.object edited).depth = m
  obtain ⟨k, rfl⟩ := Nat.exists_eq_add_of_le (show m ≤ levels by omega)
  induction k with
  | zero => rfl
  | succ k ih =>
    rw [← Nat.add_assoc, alignLevel_add_one hide (m + k) [] reference edited (by omega) (by omega)]
    exact ih (by omega) (by omega)

end LocaleEditor
