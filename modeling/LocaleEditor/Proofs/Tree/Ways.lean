/-
LocaleEditor.Proofs.Tree.Ways — the way to a path.

A path is followed through objects. It ends at a node, or it leaves the tree:
at an object that lacks the next key, or at a node that is no object.
`Tree.Open` says that the last does not happen. Reading, setting and merging
at a path then all go on below its first key, in the object that is there or,
where there is none, in an empty one (`Open.below`, `at?_below`).

* `Node.at?_append`, `Unique.of_at?` — the parts of a path, and what is found
  at it.
* `keysAt` — the keys of the level that a path leads to.
* `Open.below`, `open_of_below` — an open way, one key at a time.
-/
import LocaleEditor.Proofs.Tree.Entries

namespace LocaleEditor

open LocaleEditor.Tree

/-! ## 1. Following a path -/

/-- Nothing is below a node without entries. -/
theorem Node.at?_cons_of_entries? {n : Node} (h : n.entries? = none) (key : String)
    (rest : List String) : n.at? (key :: rest) = none := by
  simp [Node.at?, h]

theorem Node.at?_append (n : Node) (way rest : List String) :
    n.at? (way ++ rest) = (n.at? way).bind (·.at? rest) := by
  induction way generalizing n with
  | nil => rfl
  | cons key way ih =>
    rw [List.cons_append, Node.at?, Node.at?]
    cases n.entries?.bind (Tree.get? · key) with
    | none => rfl
    | some child => exact ih child

namespace Tree

variable {t es : Tree} {key next : String} {path rest : List String} {n : Node}

theorem at?_append (t : Tree) (way rest : List String) :
    t.at? (way ++ rest) = (t.at? way).bind (·.at? rest) :=
  Node.at?_append (.object t) way rest

theorem at?_empty (key : String) (rest : List String) : Tree.at? [] (key :: rest) = none := rfl

theorem at?_singleton (t : Tree) (key : String) : t.at? [key] = t.get? key := by
  rw [at?_cons]
  cases t.get? key <;> rfl

/-- No key repeats in what is found at a path. -/
theorem Unique.of_at? (ht : t.Unique) (h : t.at? path = some n) : n.Unique := by
  have node : ∀ m : Node, m.Unique → m.at? path = some n → n.Unique := by
    clear h
    induction path with
    | nil => exact fun m hm h => Option.some.inj h ▸ hm
    | cons key rest ih =>
      intro m hm h
      cases hes : m.entries? with
      | none => simp [Node.at?_cons_of_entries? hes] at h
      | some es =>
        obtain rfl := Node.eq_object_of_entries? hes
        obtain ⟨child, hget, hchild⟩ := at?_cons_eq_some_iff.mp h
        exact ih child ((unique_object.mp hm).of_get? hget) hchild
  exact node (.object t) (unique_object.mpr ht) h

theorem Unique.of_at?_object (ht : t.Unique) (h : t.at? path = some (.object es)) :
    Tree.Unique es :=
  unique_object.mp (ht.of_at? h)

/-! ## 2. Below one key -/

/-- A path goes on below a key, in an object or where nothing is yet, unless a node that is no
object stands there. -/
theorem below_or_blocked (t : Tree) (key : String) :
    (∃ es : Tree, t.get? key = some (.object es) ∨ t.get? key = none ∧ es = []) ∨
      ∃ n, t.get? key = some n ∧ n.entries? = none := by
  cases hget : t.get? key with
  | none => exact .inl ⟨[], .inr ⟨rfl, rfl⟩⟩
  | some n =>
    cases hes : n.entries? with
    | none => exact .inr ⟨n, rfl, hes⟩
    | some es =>
      rw [Node.eq_object_of_entries? hes]
      exact .inl ⟨es, .inl rfl⟩

/-- Below a key stands an object, or nothing, which reads as an empty one. -/
theorem at?_below (h : t.get? key = some (.object es) ∨ t.get? key = none ∧ es = []) :
    t.at? (key :: next :: rest) = es.at? (next :: rest) := by
  rw [at?_cons]
  rcases h with h | ⟨h, rfl⟩
  · rw [h, Option.bind_some]
    rfl
  · rw [h, Option.bind_none, at?_empty]

theorem at?_of_at?_below (h : t.get? key = some (.object es) ∨ t.get? key = none ∧ es = [])
    (hat : t.at? (key :: path) = some n) : es.at? path = some n := by
  rw [at?_cons] at hat
  rcases h with h | ⟨h, -⟩
  · rwa [h, Option.bind_some] at hat
  · simp [h] at hat

/-- The keys of the object at a path; there are none where no object is. -/
def keysAt (t : Tree) (path : List String) : List String :=
  (((t.at? path).bind Node.entries?).map Tree.keys).getD []

theorem keysAt_nil (t : Tree) : t.keysAt [] = t.keys := rfl

theorem keysAt_below (h : t.get? key = some (.object es) ∨ t.get? key = none ∧ es = []) :
    t.keysAt (key :: path) = es.keysAt path := by
  rw [keysAt, at?_cons]
  rcases h with h | ⟨h, rfl⟩
  · rw [h]
    rfl
  · rw [h]
    cases path <;> rfl

theorem Unique.keysAt_nodup (ht : t.Unique) (path : List String) : (t.keysAt path).Nodup := by
  unfold keysAt
  cases h : (t.at? path).bind Node.entries? with
  | none => exact List.nodup_nil
  | some es => exact (ht.of_at?_object (eq_object_of_bind_entries? h)).1

theorem Unique.of_below (ht : t.Unique)
    (h : t.get? key = some (.object es) ∨ t.get? key = none ∧ es = []) : Tree.Unique es := by
  rcases h with h | ⟨-, rfl⟩
  · exact ht.of_get?_object h
  · exact unique_nil

/-! ## 3. Open ways -/

/-- Only objects stand on the way to the path, as far as the tree goes. -/
def Open (t : Tree) (path : List String) : Prop :=
  ∀ way, way <+: path → way ≠ path → ∀ n, t.at? way = some n → n.entries? ≠ none

/-- The way to a key of the tree itself is open. -/
theorem open_singleton (t : Tree) (key : String) : t.Open [key] := by
  intro way hway hne n hn
  obtain rfl | ⟨rest, rfl, hrest⟩ := List.prefix_cons_iff.mp hway
  · obtain rfl := Option.some.inj hn
    exact Option.some_ne_none t
  · exact absurd (by rw [List.prefix_nil.mp hrest]) hne

/-- In a tree without entries all ways are open. -/
theorem open_empty (key : String) (rest : List String) : Open [] (key :: rest) := by
  rintro (_ | ⟨k, way⟩) - - n hn
  · obtain rfl := Option.some.inj hn
    exact Option.some_ne_none []
  · cases (at?_empty k way).symm.trans hn

/-- On an open way there is an object below the first key, or nothing yet, and the way goes on
there. -/
theorem Open.below (h : t.Open (key :: next :: rest)) :
    ∃ es : Tree, (t.get? key = some (.object es) ∨ t.get? key = none ∧ es = []) ∧
      es.Open (next :: rest) := by
  obtain ⟨es, hes⟩ | ⟨n, hget, hn⟩ := below_or_blocked t key
  · refine ⟨es, hes, ?_⟩
    rintro (_ | ⟨k, way⟩) hway hne n hn
    · obtain rfl := Option.some.inj hn
      exact Option.some_ne_none es
    · exact h (key :: k :: way) ((List.prefix_cons_inj key).mpr hway) (by simpa using hne) n
        ((at?_below hes).trans hn)
  · exact absurd hn
      (h [key] (List.prefix_append [key] _) (by simp) n ((at?_singleton t key).trans hget))

/-- An open way below the first key is open from the root. -/
theorem open_of_below (h : t.get? key = some (.object es) ∨ t.get? key = none ∧ es = [])
    (hopen : es.Open (next :: rest)) : t.Open (key :: next :: rest) := by
  rintro (_ | ⟨k, way⟩) hway hne n hn
  · obtain rfl := Option.some.inj hn
    exact Option.some_ne_none t
  · obtain ⟨rfl, hbelow⟩ := List.cons_prefix_cons.mp hway
    cases way with
    | nil =>
      rw [at?_cons] at hn
      rcases h with h | ⟨h, -⟩
      · rw [h, Option.bind_some, Node.at?, Option.some.injEq] at hn
        rw [← hn]
        exact Option.some_ne_none es
      · simp [h] at hn
    | cons k' way =>
      exact hopen (k' :: way) hbelow (by simpa using hne) n ((at?_below h).symm.trans hn)

end Tree

end LocaleEditor
