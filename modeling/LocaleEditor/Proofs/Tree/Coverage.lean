/-
LocaleEditor.Proofs.Tree.Coverage — the entries of two trees side by side.

With nothing hidden, each entry of `align` is a row: a path and the nodes of
both sides there. `align_covers` says that the rows cover both trees, and do so
once: however their shapes differ, no node is passed over and none is asked for
twice.

* `rows_alignLevel_succ` — the rows of a level are those of its keys, one after
  another. The proofs go by induction on the levels over this equation.
* `shown_of_mem_rows` — what stands in a row.
* `rows_apart` — the paths of two rows part from each other.
* `exists_row` — on the way to every node that is no object there is a row.
* `rows_self` — the rows of a tree beside itself are its leaves.
-/
import LocaleEditor.Proofs.Tree.Levels
import LocaleEditor.Proofs.Tree.Ways

namespace LocaleEditor

open LocaleEditor.Tree

/-! ## 1. Rows, leaves and sides -/

/-- The path and the two sides of an entry. -/
def Event.row? : Event → Option (List String × Node × Node)
  | .entry place reference edited => some (place.path, reference, edited)
  | _ => none

/-- The paths and sides of the entries among some events. -/
def Event.rows (events : List Event) : List (List String × Node × Node) :=
  events.filterMap Event.row?

mutual

/-- The nodes in a node that are no objects, with their paths, in the order of declaration. -/
def Node.leaves : Node → List (List String × Node)
  | .object entries => Tree.leaves entries
  | n => [([], n)]

/-- The nodes of a tree that are no objects, with their paths, in the order of declaration. -/
def Tree.leaves : List (String × Node) → List (List String × Node)
  | [] => []
  | (key, n) :: r => n.leaves.map (fun leaf => (key :: leaf.1, leaf.2)) ++ Tree.leaves r

end

/-- What one side shows at a path: its own node, or else the other's with its texts cleared. -/
def shown (own other : Option Node) : Option Node := own.or (other.map Node.emptied)

variable {reference edited : Tree} {levels : Nat} {parent path : List String} {key : String}
  {r e n : Node}

theorem sides?_eq_some_iff : sides? reference edited key = some (r, e) ↔
    shown (reference.get? key) (edited.get? key) = some r ∧
      shown (edited.get? key) (reference.get? key) = some e := by
  unfold sides? shown
  cases reference.get? key <;> cases edited.get? key <;> simp

theorem sides?_eq_none_iff : sides? reference edited key = none ↔
    reference.get? key = none ∧ edited.get? key = none := by
  unfold sides?
  cases reference.get? key <;> cases edited.get? key <;> simp

theorem Node.leaves_of_entries? (h : n.entries? = none) : n.leaves = [([], n)] := by
  cases n with
  | object es => cases h
  | _ => rfl

theorem Tree.leaves_eq_flatMap (t : Tree) :
    Tree.leaves t = t.flatMap fun p => p.2.leaves.map fun leaf => (p.1 :: leaf.1, leaf.2) := by
  induction t with
  | nil => rfl
  | cons p r ih =>
    obtain ⟨key, n⟩ := p
    rw [Tree.leaves, ih, List.flatMap_cons]

/-! ## 2. The rows of one level -/

/-- The rows of one key, given its path and its two sides. -/
def rowsBelow (levels : Nat) (path : List String) :
    Option (Node × Node) → List (List String × Node × Node)
  | none => []
  | some (.object r, .object e) => Event.rows (alignLevel false levels path r e)
  | some (r, e) => [(path, r, e)]

theorem rowsBelow_entry (levels : Nat) (path : List String)
    (h : r.entries? = none ∨ e.entries? = none) :
    rowsBelow levels path (some (r, e)) = [(path, r, e)] := by
  cases r <;> cases e <;> simp_all [rowsBelow, Node.entries?]

/-- The start and the stop of an object give no rows. -/
theorem rows_enclosed (place : Place) (children : List Event) :
    Event.rows (Event.enclosed place children) = Event.rows children := by
  cases children with
  | nil => rfl
  | cons first others =>
    have hmarks : [Event.start place].filterMap Event.row? = [] ∧
        [Event.stop place].filterMap Event.row? = [] := ⟨rfl, rfl⟩
    show ([Event.start place] ++ (first :: others) ++ [Event.stop place]).filterMap Event.row? = _
    rw [List.filterMap_append, List.filterMap_append, hmarks.1, hmarks.2, List.nil_append,
      List.append_nil, Event.rows]

theorem rows_slot (levels : Nat) (place : Place) (s : Option (Node × Node)) :
    Event.rows (slot false levels place s) = rowsBelow levels place.path s := by
  cases s with
  | none => rfl
  | some s =>
    obtain ⟨r, e⟩ := s
    obtain hn | ⟨res, ees, rfl, rfl⟩ := entry_or_objects r e
    · rw [slot_entry false levels place hn, rowsBelow_entry levels _ hn]
      rfl
    · rw [slot_objects, rows_enclosed, rowsBelow]

theorem rows_alignLevel_succ (levels : Nat) (parent : List String) (reference edited : Tree) :
    Event.rows (alignLevel false (levels + 1) parent reference edited) =
      (mergedKeys reference edited).flatMap fun key =>
        rowsBelow levels (parent ++ [key]) (sides? reference edited key) := by
  rw [alignLevel_succ, Event.rows, List.filterMap_flatMap]
  conv_rhs => rw [← List.zipIdx_map_fst 0 (mergedKeys reference edited), List.flatMap_map]
  refine List.flatMap_congr fun p _ => ?_
  exact rows_slot levels _ _

/-! ## 3. What stands in a row -/

/-- A row stands below the parent of its level, and its sides are what the trees show there. -/
theorem shown_of_mem_rows : ∀ (levels : Nat) (parent : List String) (reference edited : Tree),
    (path, r, e) ∈ Event.rows (alignLevel false levels parent reference edited) →
      ∃ key rest, path = parent ++ key :: rest ∧
        shown (reference.at? (key :: rest)) (edited.at? (key :: rest)) = some r ∧
        shown (edited.at? (key :: rest)) (reference.at? (key :: rest)) = some e
  | 0, _, _, _, h => by simp [alignLevel, Event.rows] at h
  | levels + 1, parent, reference, edited, h => by
    rw [rows_alignLevel_succ, List.mem_flatMap] at h
    obtain ⟨key, -, h⟩ := h
    cases hs : sides? reference edited key with
    | none => simp [hs, rowsBelow] at h
    | some s =>
      obtain ⟨rn, en⟩ := s
      rw [hs] at h
      obtain hn | ⟨res, ees, rfl, rfl⟩ := entry_or_objects rn en
      · rw [rowsBelow_entry levels _ hn, List.mem_singleton, Prod.mk.injEq, Prod.mk.injEq] at h
        obtain ⟨rfl, rfl, rfl⟩ := h
        refine ⟨key, [], rfl, ?_⟩
        rw [at?_singleton, at?_singleton]
        exact sides?_eq_some_iff.mp hs
      · obtain ⟨hr, he⟩ := sides?_objects hs
        obtain ⟨next, rest, rfl, hshown⟩ := shown_of_mem_rows levels (parent ++ [key]) res ees h
        refine ⟨key, next :: rest, by simp, ?_⟩
        rwa [at?_below hr, at?_below he]

/-- The rows of a key stand at its path or below. -/
theorem prefix_of_mem_rowsBelow {s : Option (Node × Node)} {row : List String × Node × Node}
    (h : row ∈ rowsBelow levels path s) : path <+: row.1 := by
  cases s with
  | none => exact absurd h List.not_mem_nil
  | some s =>
    obtain ⟨rn, en⟩ := s
    obtain hn | ⟨res, ees, rfl, rfl⟩ := entry_or_objects rn en
    · rw [rowsBelow_entry levels path hn, List.mem_singleton] at h
      exact h ▸ List.prefix_rfl
    · obtain ⟨key, rest, hpath, -⟩ := shown_of_mem_rows levels path res ees h
      rw [hpath]
      exact List.prefix_append path _

/-! ## 4. Rows part from each other -/

/-- What is below one key does not lead through what is below another. -/
theorem not_prefix_of_ne {key other : String} (hne : key ≠ other) {p q : List String}
    (hp : parent ++ [key] <+: p) (hq : parent ++ [other] <+: q) : ¬ p <+: q := by
  intro h
  obtain ⟨rest, rfl⟩ := hq
  have hkey := hp.trans h
  rw [List.append_assoc, List.prefix_append_right_inj, List.singleton_append,
    List.cons_prefix_cons] at hkey
  exact hne hkey.1

/-- Neither of two rows stands on the way to the other. -/
theorem rows_apart : ∀ (levels : Nat) (parent : List String) (reference edited : Tree),
    reference.Unique → edited.Unique →
      (Event.rows (alignLevel false levels parent reference edited)).Pairwise
        fun x y => ¬ x.1 <+: y.1 ∧ ¬ y.1 <+: x.1
  | 0, _, _, _, _, _ => List.Pairwise.nil
  | levels + 1, parent, reference, edited, hr, he => by
    rw [rows_alignLevel_succ, List.pairwise_flatMap]
    constructor
    · intro key _
      cases hs : sides? reference edited key with
      | none => exact List.Pairwise.nil
      | some s =>
        obtain ⟨rn, en⟩ := s
        obtain hn | ⟨res, ees, rfl, rfl⟩ := entry_or_objects rn en
        · rw [rowsBelow_entry levels _ hn]
          exact List.pairwise_singleton _ _
        · obtain ⟨hrget, heget⟩ := sides?_objects hs
          exact rows_apart levels (parent ++ [key]) res ees (hr.of_below hrget) (he.of_below heget)
    · refine (mergedKeys_nodup hr.1 he.1).imp fun hne x hx y hy => ?_
      have hxbegins := prefix_of_mem_rowsBelow hx
      have hybegins := prefix_of_mem_rowsBelow hy
      exact ⟨not_prefix_of_ne hne hxbegins hybegins, not_prefix_of_ne hne.symm hybegins hxbegins⟩

/-! ## 5. A row on every way -/

/-- On the way to a node of either tree that is no object there is a row. -/
theorem exists_row (hn : n.entries? = none) : ∀ (path : List String) (levels : Nat)
    (parent : List String) (reference edited : Tree),
    (Node.object reference).depth ≤ levels → (Node.object edited).depth ≤ levels →
    (reference.at? path = some n ∨ edited.at? path = some n) →
      ∃ row ∈ Event.rows (alignLevel false levels parent reference edited),
        row.1 <+: parent ++ path
  | [], _, _, _, _, _, _, hat => by
    obtain hat | hat := hat <;> (obtain rfl := Option.some.inj hat; cases hn)
  | _ :: _, 0, _, _, _, hr, _, _ => by simp [Node.depth] at hr
  | key :: rest, levels + 1, parent, reference, edited, hr, he, hat => by
    rw [rows_alignLevel_succ]
    cases hs : sides? reference edited key with
    | none =>
      obtain ⟨hrnone, henone⟩ := sides?_eq_none_iff.mp hs
      simp [at?_cons, hrnone, henone] at hat
    | some s =>
      obtain ⟨rn, en⟩ := s
      have hkey := mem_mergedKeys_of_sides? hs
      obtain hentry | ⟨res, ees, rfl, rfl⟩ := entry_or_objects rn en
      · refine ⟨(parent ++ [key], rn, en), List.mem_flatMap.mpr ⟨key, hkey, ?_⟩, ?_⟩
        · rw [hs, rowsBelow_entry levels _ hentry]
          exact List.mem_singleton_self _
        · rw [List.prefix_append_right_inj]
          exact List.prefix_append [key] rest
      · obtain ⟨hrget, heget⟩ := sides?_objects hs
        obtain ⟨hrdepth, hedepth⟩ := depth_sides? hs hr he
        obtain ⟨row, hrow, hbegins⟩ := exists_row hn rest levels (parent ++ [key]) res ees hrdepth
          hedepth (hat.imp (at?_of_at?_below hrget) (at?_of_at?_below heget))
        refine ⟨row, List.mem_flatMap.mpr ⟨key, hkey, ?_⟩, ?_⟩
        · rwa [hs]
        · rwa [List.append_assoc] at hbegins

/-- There is no other: two rows on the way to the same path would be one on the way to the
other. -/
theorem filter_eq_singleton {rows : List (List String × Node × Node)}
    {row : List String × Node × Node}
    (hapart : rows.Pairwise fun x y => ¬ x.1 <+: y.1 ∧ ¬ y.1 <+: x.1)
    (hrow : row ∈ rows) (hbegins : row.1 <+: path) :
    rows.filter (fun x => x.1 <+: path) = [row] := by
  have hmem : row ∈ rows.filter (fun x => x.1 <+: path) := by simp [hrow, hbegins]
  have hway : ∀ x ∈ rows.filter (fun x => x.1 <+: path), x.1 <+: path := by simp
  have hpairs := hapart.sublist (List.filter_sublist (p := fun x => decide (x.1 <+: path)))
  generalize rows.filter (fun x => x.1 <+: path) = found at hmem hway hpairs
  match found, hmem, hway, hpairs with
  | [x], hmem, _, _ => rw [List.mem_singleton.mp hmem]
  | x :: y :: others, _, hway, hpairs =>
    have hxy := (List.pairwise_cons.mp hpairs).1 y List.mem_cons_self
    have hboth := List.prefix_or_prefix_of_prefix (hway x List.mem_cons_self)
      (hway y (List.mem_cons_of_mem x List.mem_cons_self))
    exact absurd hboth (not_or.mpr hxy)

/-! ## 6. A tree beside itself -/

theorem mergedKeys_self (t : Tree) : mergedKeys t t = t.keys := by
  have hnone : t.keys.filter (fun k => !t.contains k) = [] :=
    List.filter_eq_nil_iff.mpr fun k hk => by simp [contains_iff.mpr hk]
  rw [mergedKeys, hnone, List.append_nil]

/-- Beside itself a tree gives a row for each leaf, with the leaf on both sides. -/
theorem rows_self : ∀ (levels : Nat) (parent : List String) (t : Tree), t.Unique →
    (Node.object t).depth ≤ levels →
      Event.rows (alignLevel false levels parent t t)
        = (Tree.leaves t).map fun leaf => (parent ++ leaf.1, leaf.2, leaf.2)
  | 0, _, _, _, hdepth => by simp [Node.depth] at hdepth
  | levels + 1, parent, t, ht, hdepth => by
    rw [rows_alignLevel_succ, mergedKeys_self, Tree.keys, List.flatMap_map, Tree.leaves_eq_flatMap,
      List.map_flatMap]
    refine List.flatMap_congr fun p hp => ?_
    obtain ⟨key, n⟩ := p
    have hget : t.get? key = some n := get?_of_mem ht.1 hp
    have hs : sides? t t key = some (n, n) := by simp [sides?, hget]
    rw [hs, List.map_map]
    cases hn : n.entries? with
    | none =>
      rw [rowsBelow_entry levels _ (.inl hn), Node.leaves_of_entries? hn]
      simp
    | some es =>
      obtain rfl := Node.eq_object_of_entries? hn
      have hle : (Node.object es).depth ≤ Node.depth.entriesDepth t := depth_le_entriesDepth hp
      have hes : (Node.object es).depth ≤ levels := by
        simp only [Node.depth] at hdepth hle ⊢
        omega
      rw [rowsBelow, rows_self levels (parent ++ [key]) es (ht.of_get?_object hget) hes,
        Node.leaves]
      simp

/-! ## 7. The whole list -/

/-- The entries of two trees side by side cover both exactly once. No entry stands on the way to
another, nor twice at one path. On the way to every node of either tree that is no object, or at
it, there is exactly one. Each stands at a path of one of the trees, and shows on each side the
node that the tree has there or else the other's with its texts cleared. So a tree beside itself
gives its leaves, in the order of declaration, with equal sides. -/
theorem align_covers (reference edited : Tree) (hr : reference.Unique) (he : edited.Unique) :
    ((Event.rows (align reference edited false)).Pairwise
      fun x y => ¬ x.1 <+: y.1 ∧ ¬ y.1 <+: x.1) ∧
    (∀ path n, reference.at? path = some n ∨ edited.at? path = some n → n.entries? = none →
      ∃ row, (Event.rows (align reference edited false)).filter (fun x => x.1 <+: path) = [row]) ∧
    (∀ path r e, (path, r, e) ∈ Event.rows (align reference edited false) →
      ((reference.at? path).isSome = true ∨ (edited.at? path).isSome = true) ∧
      shown (reference.at? path) (edited.at? path) = some r ∧
      shown (edited.at? path) (reference.at? path) = some e) ∧
    ∀ tree : Tree, tree.Unique →
      Event.rows (align tree tree false) = (Tree.leaves tree).map fun leaf => (leaf.1, leaf.2, leaf.2) := by
  have hapart := rows_apart
    (max (Node.object reference).depth (Node.object edited).depth) [] reference edited hr he
  refine ⟨hapart, fun path n hat hn => ?_, fun path r e h => ?_, fun tree ht => ?_⟩
  · obtain ⟨row, hrow, hbegins⟩ := exists_row hn path _ [] reference edited
      (Nat.le_max_left _ (Node.object edited).depth) (Nat.le_max_right _ _) hat
    exact ⟨row, filter_eq_singleton hapart hrow hbegins⟩
  · obtain ⟨key, rest, rfl, hreference, hedited⟩ := shown_of_mem_rows _ [] reference edited h
    refine ⟨?_, hreference, hedited⟩
    rw [List.nil_append]
    unfold shown at hreference
    cases hat : reference.at? (key :: rest) with
    | some m => exact .inl rfl
    | none => cases hat' : edited.at? (key :: rest) <;> simp_all
  · rw [align, Nat.max_self, rows_self _ [] tree ht (Nat.le_refl _)]
    simp

/-- A menu with one entry. -/
def quitMenu : Tree := [("menu", .object [("quit", .literal "Quit")])]

/-- A text where the other tree has a menu. -/
def flatMenu : Tree := [("menu", .literal "Menu"), ("site", .variable "SITE")]

/-- The entry of the menu has its row, though the edited tree has a text in place of the menu. -/
theorem align_covers_flat :
    quitMenu.Unique ∧ flatMenu.Unique ∧
      (quitMenu.at? ["menu", "quit"] = some (.literal "Quit") ∨
        flatMenu.at? ["menu", "quit"] = some (.literal "Quit")) ∧
      (Node.literal "Quit").entries? = none ∧
      ∃ row, (Event.rows (align quitMenu flatMenu false)).filter
        (fun x => x.1 <+: ["menu", "quit"]) = [row] := by
  have hr : quitMenu.Unique := by
    simp [Tree.Unique, Tree.keys, Tree.UniqueBelow, Node.Unique, quitMenu]
  have he : flatMenu.Unique := by
    simp [Tree.Unique, Tree.keys, Tree.UniqueBelow, Node.Unique, flatMenu]
  exact ⟨hr, he, .inl rfl, rfl, (align_covers quitMenu flatMenu hr he).2.1 _ _ (.inl rfl) rfl⟩

end LocaleEditor
