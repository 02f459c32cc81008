/-
LocaleEditor.Proofs.Tree.Entries — looking up and inserting entries.

* `get?_insert_self`, `get?_insert_of_ne` — an insertion is seen under its own
  key and under no other.
* `keys_insert_of_mem`, `keys_insert_of_notMem` — it keeps the keys that are
  there, and a new key comes last.
* `Unique.of_get?` — keys that do not repeat in a tree do not repeat below
  any of its keys.
* `at?_cons` — a path is followed one key at a time.
* `Node.induction` — induction over nodes, with one case for objects and one
  for all that hold no entries.
-/
import LocaleEditor.Tree.Path
import Mathlib.Data.List.Nodup

namespace LocaleEditor

/-- A node with entries is an object. -/
theorem Node.eq_object_of_entries? {n : Node} {es : Tree} (h : n.entries? = some es) :
    n = .object es := by
  cases n with
  | object entries =>
    simp only [Node.entries?, Option.some.injEq] at h
    rw [h]
  | _ => simp [Node.entries?] at h

/-- What has entries is there, and is an object. -/
theorem eq_object_of_bind_entries? {o : Option Node} {es : Tree}
    (h : o.bind Node.entries? = some es) : o = some (.object es) := by
  obtain ⟨n, rfl, hn⟩ := Option.bind_eq_some_iff.mp h
  rw [Node.eq_object_of_entries? hn]

mutual

/-- What holds of every node without entries, and of an object when it holds of all nodes in it,
holds of every node. -/
theorem Node.induction {motive : Node → Prop}
    (leaf : ∀ n : Node, n.entries? = none → motive n)
    (object : ∀ es : Tree, (∀ p ∈ es, motive p.2) → motive (.object es)) :
    ∀ n : Node, motive n
  | .literal v => leaf (.literal v) rfl
  | .template v => leaf (.template v) rfl
  | .variable v => leaf (.variable v) rfl
  | .array items => leaf (.array items) rfl
  | .object es => object es (Node.inductionBelow leaf object es)
  | .function ps b => leaf (.function ps b) rfl
  | .unknown => leaf .unknown rfl

theorem Node.inductionBelow {motive : Node → Prop}
    (leaf : ∀ n : Node, n.entries? = none → motive n)
    (object : ∀ es : Tree, (∀ p ∈ es, motive p.2) → motive (.object es)) :
    ∀ es : List (String × Node), ∀ p ∈ es, motive p.2
  | [], _, hp => absurd hp List.not_mem_nil
  | (k, n) :: r, p, hp => by
    rcases List.mem_cons.mp hp with rfl | hp
    · exact Node.induction leaf object n
    · exact Node.inductionBelow leaf object r p hp

end

namespace Tree

variable {t : Tree} {key other : String} {n node : Node}

/-! ## 1. Looking up -/

theorem get?_cons (k : String) (n : Node) (r : Tree) (key : String) :
    Tree.get? ((k, n) :: r) key = if k = key then some n else Tree.get? r key := rfl

theorem keys_cons (k : String) (n : Node) (r : Tree) :
    Tree.keys ((k, n) :: r) = k :: Tree.keys r := rfl

/-- What is found under a key is one of the entries. -/
theorem mem_of_get? (h : t.get? key = some n) : (key, n) ∈ t := by
  induction t with
  | nil => simp [get?] at h
  | cons p r ih =>
    obtain ⟨k, m⟩ := p
    rw [get?_cons] at h
    split at h
    · rename_i hk
      simp only [Option.some.injEq] at h
      simp [hk, h]
    · exact List.mem_cons_of_mem _ (ih h)

theorem get?_eq_none_iff : t.get? key = none ↔ key ∉ t.keys := by
  induction t with
  | nil => simp [get?, keys]
  | cons p r ih =>
    obtain ⟨k, m⟩ := p
    rw [get?_cons, keys_cons, List.mem_cons]
    by_cases hk : k = key
    · simp [hk]
    · rw [if_neg hk, ih]
      simp [Ne.symm hk]

theorem mem_keys_of_get? (h : t.get? key = some n) : key ∈ t.keys := by
  by_contra hk
  rw [get?_eq_none_iff.mpr hk] at h
  simp at h

theorem exists_get?_of_mem_keys (h : key ∈ t.keys) : ∃ n, t.get? key = some n := by
  cases hg : t.get? key with
  | none => exact absurd h (get?_eq_none_iff.mp hg)
  | some n => exact ⟨n, rfl⟩

theorem contains_iff : t.contains key = true ↔ key ∈ t.keys := by
  unfold contains
  cases hg : t.get? key with
  | none => simpa using get?_eq_none_iff.mp hg
  | some n => simpa using mem_keys_of_get? hg

theorem contains_eq_false_iff : t.contains key = false ↔ key ∉ t.keys := by
  rw [Bool.eq_false_iff, ne_eq, contains_iff]

/-! ## 2. Inserting -/

theorem insert_cons (k : String) (n : Node) (r : Tree) (key : String) (node : Node) :
    Tree.insert ((k, n) :: r) key node
      = if k = key then (k, node) :: r else (k, n) :: Tree.insert r key node := rfl

theorem get?_insert_self (t : Tree) (key : String) (node : Node) :
    (t.insert key node).get? key = some node := by
  induction t with
  | nil => simp [insert, get?]
  | cons p r ih =>
    obtain ⟨k, m⟩ := p
    rw [insert_cons]
    split
    · rename_i hk
      simp [get?_cons, hk]
    · rename_i hk
      rw [get?_cons, if_neg hk, ih]

theorem insert_ne_nil (t : Tree) (key : String) (node : Node) : t.insert key node ≠ [] := by
  intro hnil
  have hget := get?_insert_self t key node
  rw [hnil] at hget
  cases hget

theorem get?_insert_of_ne (h : key ≠ other) :
    (t.insert key node).get? other = t.get? other := by
  induction t with
  | nil => simp [insert, get?, h]
  | cons p r ih =>
    obtain ⟨k, m⟩ := p
    rw [insert_cons]
    split
    · rename_i hk
      have hne : k ≠ other := fun ho => h (hk.symm.trans ho)
      rw [get?_cons, get?_cons, if_neg hne, if_neg hne]
    · rw [get?_cons, get?_cons, ih]

theorem keys_insert_of_mem (h : key ∈ t.keys) : (t.insert key node).keys = t.keys := by
  induction t with
  | nil => simp [keys] at h
  | cons p r ih =>
    obtain ⟨k, m⟩ := p
    rw [insert_cons]
    split
    · rfl
    · rename_i hk
      have hr : key ∈ Tree.keys r := by
        rw [keys_cons, List.mem_cons] at h
        exact h.resolve_left (fun e => hk e.symm)
      rw [keys_cons, keys_cons, ih hr]

/-- A new entry comes last. -/
theorem insert_of_notMem_keys (h : key ∉ t.keys) : t.insert key node = t ++ [(key, node)] := by
  induction t with
  | nil => rfl
  | cons p r ih =>
    obtain ⟨k, m⟩ := p
    rw [keys_cons, List.mem_cons, not_or] at h
    rw [insert_cons, if_neg (fun e => h.1 e.symm), ih h.2, List.cons_append]

theorem keys_insert_of_notMem (h : key ∉ t.keys) :
    (t.insert key node).keys = t.keys ++ [key] := by
  rw [insert_of_notMem_keys h]
  simp [keys]

/-- Inserting what is there changes nothing. -/
theorem insert_of_get? (h : t.get? key = some node) : t.insert key node = t := by
  induction t with
  | nil => simp [get?] at h
  | cons p r ih =>
    obtain ⟨k, m⟩ := p
    rw [get?_cons] at h
    rw [insert_cons]
    split at h
    · rename_i hk
      rw [if_pos hk, Option.some.inj h]
    · rename_i hk
      rw [if_neg hk, ih h]

theorem mem_insert {p : String × Node} (h : p ∈ t.insert key node) :
    p ∈ t ∨ p = (key, node) := by
  induction t with
  | nil => exact .inr (by simpa [insert] using h)
  | cons q r ih =>
    obtain ⟨k, m⟩ := q
    rw [insert_cons] at h
    split at h
    · rename_i hk
      subst hk
      rcases List.mem_cons.mp h with rfl | h
      · exact .inr rfl
      · exact .inl (List.mem_cons_of_mem _ h)
    · rcases List.mem_cons.mp h with rfl | h
      · exact .inl List.mem_cons_self
      · exact (ih h).imp (List.mem_cons_of_mem _) id

theorem nodup_keys_insert (h : t.keys.Nodup) : (t.insert key node).keys.Nodup := by
  by_cases hk : key ∈ t.keys
  · rwa [keys_insert_of_mem hk]
  · rw [keys_insert_of_notMem hk]
    exact List.Nodup.append h (by simp) (by simpa using hk)

/-! ## 3. Keys that do not repeat -/

/-- Where no key repeats, every entry is found under its key. -/
theorem get?_of_mem (ht : t.keys.Nodup) (h : (key, n) ∈ t) : t.get? key = some n := by
  induction t with
  | nil => exact absurd h List.not_mem_nil
  | cons p r ih =>
    obtain ⟨k, m⟩ := p
    rw [keys_cons, List.nodup_cons] at ht
    rw [get?_cons]
    rcases List.mem_cons.mp h with heq | h
    · simp_all
    · have hne : k ≠ key := fun hk => ht.1 (hk ▸ List.mem_map_of_mem h)
      rw [if_neg hne, ih ht.2 h]

theorem uniqueBelow_iff {es : List (String × Node)} :
    UniqueBelow es ↔ ∀ p ∈ es, p.2.Unique := by
  induction es with
  | nil => simp [UniqueBelow]
  | cons p r ih =>
    obtain ⟨k, m⟩ := p
    simp [UniqueBelow, ih]

theorem unique_object {es : Tree} : (Node.object es).Unique ↔ Tree.Unique es := by
  simp [Node.Unique, Tree.Unique, keys]

theorem unique_nil : Tree.Unique [] := by
  simp [Tree.Unique, UniqueBelow, keys]

theorem Unique.of_get? (ht : t.Unique) (h : t.get? key = some n) : n.Unique :=
  uniqueBelow_iff.mp ht.2 (key, n) (mem_of_get? h)

theorem Unique.of_get?_object {es : Tree} (ht : t.Unique)
    (h : t.get? key = some (.object es)) : Tree.Unique es :=
  unique_object.mp (ht.of_get? h)

/-! ## 4. Following paths -/

@[simp] theorem at?_nil (t : Tree) : t.at? [] = some (.object t) := rfl

theorem at?_cons (t : Tree) (key : String) (path : List String) :
    t.at? (key :: path) = (t.get? key).bind (·.at? path) := by
  rw [Tree.at?, Node.at?, Node.entries?, Option.bind_some]
  cases t.get? key <;> rfl

theorem at?_cons_eq_some_iff {path : List String} {m : Node} :
    t.at? (key :: path) = some m ↔ ∃ n, t.get? key = some n ∧ n.at? path = some m := by
  rw [at?_cons, Option.bind_eq_some_iff]

end Tree

end LocaleEditor
