/-
LocaleEditor.Proofs.Tree.Effect — all that setting a node at a path does.

`Tree.setAt` says what becomes of one object by one of three outcomes, and the
object around it acts on that. On an open way the outcomes come down to one
rule for each key: the entries below it are set in their turn, and the key is
given what is left of them, or goes if nothing is left (`putBelow`,
`setAt_below`). The laws of `setAt` are inductions on the path over that rule.

* `setAt_of_not_open` — a node on the way that is no object stops the edit.
* `at?_setAt_of_apart` — no other path is touched.
* `at?_setAt_self` — what is at the path then.
* `at?_setAt_ne_empty`, `exists_at?_setAt` — which objects on the way stay.
* `keepsOrder_setAt` — the order of the keys of a level.
* `setAt_effect` — all of it for every path and node.
-/
import LocaleEditor.Proofs.Tree.Unique
import LocaleEditor.Proofs.Tree.Ways

namespace LocaleEditor

open LocaleEditor.Tree

/-- The entries after the edit. -/
def Edited.over (t : Tree) : Edited → Tree
  | .unchanged => t
  | .updated es => es
  | .emptied => []

/-- Keys that stay come in the order they had, and at most one that is new comes after them. -/
def KeepsOrder (before after : List String) : Prop :=
  ∃ stay, stay.Sublist before ∧ (after = stay ∨ ∃ key, key ∉ before ∧ after = stay ++ [key])

theorem KeepsOrder.refl (keys : List String) : KeepsOrder keys keys :=
  ⟨keys, List.Sublist.refl _, .inl rfl⟩

namespace Tree

variable {t es : Tree} {key next other : String} {path rest : List String} {node : Option Node}
  {n : Node}

/-! ## 1. Removing -/

theorem remove_cons (k : String) (n : Node) (r : Tree) (key : String) :
    Tree.remove ((k, n) :: r) key = if k = key then r else (k, n) :: Tree.remove r key := rfl

theorem keys_remove (t : Tree) (key : String) : (t.remove key).keys = t.keys.erase key := by
  induction t with
  | nil => rfl
  | cons p r ih =>
    obtain ⟨k, m⟩ := p
    rw [remove_cons, keys_cons, List.erase_cons]
    by_cases hk : k = key
    · simp [hk]
    · simp [hk, keys_cons, ih]

theorem get?_remove_self (ht : t.keys.Nodup) : (t.remove key).get? key = none := by
  rw [get?_eq_none_iff, keys_remove]
  exact ht.not_mem_erase

theorem get?_remove_of_ne (h : key ≠ other) : (t.remove key).get? other = t.get? other := by
  induction t with
  | nil => rfl
  | cons p r ih =>
    obtain ⟨k, m⟩ := p
    rw [remove_cons]
    split
    · rename_i hk
      have hne : k ≠ other := fun ho => h (hk.symm.trans ho)
      rw [get?_cons, if_neg hne]
    · rw [get?_cons, get?_cons, ih]

theorem keepsOrder_remove (t : Tree) (key : String) : KeepsOrder t.keys (t.remove key).keys :=
  ⟨(t.remove key).keys, (remove_sublist t key).map _, .inl rfl⟩

theorem keepsOrder_insert (t : Tree) (key : String) (n : Node) :
    KeepsOrder t.keys (t.insert key n).keys := by
  by_cases hk : key ∈ t.keys
  · rw [keys_insert_of_mem hk]
    exact .refl t.keys
  · exact ⟨t.keys, List.Sublist.refl _, .inr ⟨key, hk, keys_insert_of_notMem hk⟩⟩

/-! ## 2. The rule for one key -/

theorem setAt_cons (t : Tree) (key : String) (rest : List String) (node : Option Node) :
    t.setAt (key :: rest) node = (t.setBelow key rest node).over t := by
  rw [setAt]
  cases t.setBelow key rest node <;> rfl

theorem over_removeEntry (t : Tree) (key : String) :
    (t.removeEntry key).over t = t.remove key := by
  unfold removeEntry
  dsimp only
  split
  · rename_i hempty
    exact (List.isEmpty_iff.mp hempty).symm
  · split
    · rename_i hlength
      exact ((remove_sublist t key).eq_of_length hlength).symm
    · rfl

/-- What a path holds after an edit, given what it held: nothing if there is no node to set, or only
a blank one where something was. -/
def kept (node old : Option Node) : Option Node :=
  node.filter fun n => !(n.isBlank && old.isSome)

theorem kept_eq_some_iff {old : Option Node} :
    kept node old = some n ↔ node = some n ∧ ¬ (n.isBlank = true ∧ old.isSome = true) := by
  rw [kept, Option.filter_eq_some_iff, ← Bool.and_eq_true, Bool.not_eq_true, Bool.not_eq_true']

theorem kept_eq_none_iff {old : Option Node} :
    kept node old = none ↔ ∀ n, node = some n → n.isBlank = true ∧ old.isSome = true := by
  simp only [kept, Option.filter_eq_none_iff, Bool.not_eq_true, Bool.not_eq_false', Bool.and_eq_true]

/-- Setting a key puts the node in, or takes the key out. -/
theorem setAt_key (t : Tree) (key : String) (node : Option Node) :
    t.setAt [key] node = match kept node (t.get? key) with
      | some n => t.insert key n
      | none => t.remove key := by
  rw [setAt_cons, setBelow]
  cases hkept : kept node (t.get? key) with
  | some n =>
    obtain ⟨rfl, hn⟩ := kept_eq_some_iff.mp hkept
    rw [setEntry, if_neg]
    · rfl
    · rwa [Bool.and_eq_true, and_comm]
  | none =>
    rw [kept_eq_none_iff] at hkept
    cases node with
    | none => exact over_removeEntry t key
    | some n =>
      obtain ⟨hblank, hsome⟩ := hkept n rfl
      rw [setEntry, contains, hsome, hblank]
      exact over_removeEntry t key

/-- The entries below the key are these now; without any the key goes. -/
def putBelow (t : Tree) (key : String) : Tree → Tree
  | [] => t.remove key
  | e :: es => t.insert key (.object (e :: es))

theorem putBelow_of_ne_nil (h : es ≠ []) : t.putBelow key es = t.insert key (.object es) := by
  cases es with
  | nil => exact absurd rfl h
  | cons e es => rfl

theorem get?_putBelow (ht : t.keys.Nodup) :
    (t.putBelow key es).get? key = some (.object es) ∨
      (t.putBelow key es).get? key = none ∧ es = [] := by
  cases es with
  | nil => exact .inr ⟨get?_remove_self ht, rfl⟩
  | cons e es => exact .inl (get?_insert_self _ _ _)

/-- An edit never leaves an object without entries in place. -/
theorem ne_nil_of_setBelow (h : t.setBelow key rest node = .updated es) : es ≠ [] := by
  have hremove : ∀ es : Tree, t.removeEntry key = .updated es → es ≠ [] := by
    intro es h
    unfold removeEntry at h
    dsimp only at h
    split at h
    · cases h
    · rename_i hempty
      split at h
      · cases h
      · exact Edited.updated.inj h ▸ fun hnil => hempty (List.isEmpty_iff.mpr hnil)
  cases rest with
  | nil =>
    cases node with
    | none => exact hremove es h
    | some n =>
      rw [setBelow, setEntry] at h
      split at h
      · exact hremove es h
      · exact Edited.updated.inj h ▸ insert_ne_nil t key n
  | cons next rest =>
    rw [setBelow] at h
    split at h
    · cases h
    · split at h
      · cases h
      · exact Edited.updated.inj h ▸ insert_ne_nil t key _
      · exact hremove es h

/-- In an empty object there is always something to do: it gets an entry, or has to go itself. -/
theorem setBelow_nil_ne_unchanged (key : String) (rest : List String) (node : Option Node) :
    setBelow [] key rest node ≠ .unchanged := by
  induction rest generalizing key with
  | nil => cases node <;> exact nofun
  | cons next rest ih =>
    rw [setBelow_of_child (.inr ⟨rfl, rfl⟩)]
    cases hset : setBelow [] next rest node with
    | unchanged => exact absurd hset (ih next)
    | updated es => exact nofun
    | emptied => exact nofun

/-- Setting through a key: the entries below it are set, and the key is given what is left of
them. -/
theorem setAt_below (h : t.get? key = some (.object es) ∨ t.get? key = none ∧ es = []) :
    t.setAt (key :: next :: rest) node = t.putBelow key (es.setAt (next :: rest) node) := by
  rw [setAt_cons, setAt_cons, setBelow_of_child h]
  cases hset : es.setBelow next rest node with
  | unchanged =>
    -- only an object that is there and has entries can stay as it is
    have hne : es ≠ [] := fun hnil => setBelow_nil_ne_unchanged next rest node (hnil ▸ hset)
    have hget : t.get? key = some (.object es) := h.resolve_right fun h => hne h.2
    show t = t.putBelow key es
    rw [putBelow_of_ne_nil hne, insert_of_get? hget]
  | updated es' => exact (putBelow_of_ne_nil (ne_nil_of_setBelow hset)).symm
  | emptied => exact over_removeEntry t key

/-- Whatever is set below a key, the key itself is taken out or given a node. -/
theorem setAt_cons_cases (node : Option Node) (hopen : t.Open (key :: rest)) :
    t.setAt (key :: rest) node = t.remove key ∨
      ∃ n, t.setAt (key :: rest) node = t.insert key n := by
  cases rest with
  | nil =>
    rw [setAt_key]
    cases kept node (t.get? key) with
    | none => exact .inl rfl
    | some n => exact .inr ⟨n, rfl⟩
  | cons next rest =>
    obtain ⟨es, hes, -⟩ := hopen.below
    rw [setAt_below hes]
    cases es.setAt (next :: rest) node with
    | nil => exact .inl rfl
    | cons e es => exact .inr ⟨_, rfl⟩

theorem get?_setAt_of_ne (hopen : t.Open (key :: rest)) (h : key ≠ other) :
    (t.setAt (key :: rest) node).get? other = t.get? other := by
  obtain heq | ⟨n, heq⟩ := setAt_cons_cases node hopen
  · rw [heq, get?_remove_of_ne h]
  · rw [heq, get?_insert_of_ne h]

/-! ## 3. A way that is not open -/

theorem setBelow_of_not_open (h : ¬ t.Open (key :: rest)) :
    t.setBelow key rest node = .unchanged := by
  induction rest generalizing t key with
  | nil => exact absurd (open_singleton t key) h
  | cons next rest ih =>
    obtain ⟨es, hes⟩ | ⟨m, hget, hm⟩ := below_or_blocked t key
    · have hbelow : ¬ es.Open (next :: rest) := fun hopen => h (open_of_below hes hopen)
      rw [setBelow_of_child hes, ih hbelow]
    · exact setBelow_of_blocked hget hm

/-- A node on the way that is no object stops the edit. -/
theorem setAt_of_not_open (h : ¬ t.Open path) : t.setAt path node = t := by
  cases path with
  | nil =>
    refine absurd ?_ h
    intro way hway hne
    exact absurd (List.prefix_nil.mp hway) hne
  | cons key rest => rw [setAt_cons, setBelow_of_not_open h, Edited.over]

/-! ## 4. What is at each path -/

/-- Paths that part from the one that is set lead where they led. -/
theorem at?_setAt_of_apart (ht : t.Unique) (hopen : t.Open path) {way : List String}
    (hway : ¬ way <+: path) (hpath : ¬ path <+: way) :
    (t.setAt path node).at? way = t.at? way := by
  induction path generalizing t way with
  | nil => exact absurd List.nil_prefix hpath
  | cons key rest ih =>
    cases way with
    | nil => exact absurd List.nil_prefix hway
    | cons k way =>
      by_cases hk : key = k
      · -- the paths part below the key, which both go through
        subst hk
        rw [List.prefix_cons_inj] at hway hpath
        cases rest with
        | nil => exact absurd List.nil_prefix hpath
        | cons next rest =>
          cases way with
          | nil => exact absurd List.nil_prefix hway
          | cons k way =>
            obtain ⟨es, hes, hbelow⟩ := hopen.below
            rw [setAt_below hes, at?_below (get?_putBelow ht.1), at?_below hes]
            exact ih (ht.of_below hes) hbelow hway hpath
      · rw [at?_cons, get?_setAt_of_ne hopen hk, at?_cons]

/-- At the path itself is the node, or nothing where that deletes. -/
theorem at?_setAt_self (ht : t.Unique) (hpath : path ≠ []) (hopen : t.Open path) :
    (t.setAt path node).at? path = kept node (t.at? path) := by
  induction path generalizing t with
  | nil => exact absurd rfl hpath
  | cons key rest ih =>
    cases rest with
    | nil =>
      rw [at?_singleton, at?_singleton, setAt_key]
      cases kept node (t.get? key) with
      | some n => exact get?_insert_self t key n
      | none => exact get?_remove_self ht.1
    | cons next rest =>
      obtain ⟨es, hes, hbelow⟩ := hopen.below
      rw [setAt_below hes, at?_below (get?_putBelow ht.1), at?_below hes]
      exact ih (ht.of_below hes) (by simp) hbelow

/-- Where nothing is left at the path, no object on the way is left without entries, the root
excepted. -/
theorem at?_setAt_ne_empty (ht : t.Unique) (hopen : t.Open path)
    (h : kept node (t.at? path) = none) {way : List String} (hway : way <+: path)
    (hne : way ≠ []) : (t.setAt path node).at? way ≠ some (.object []) := by
  induction path generalizing t way with
  | nil => exact absurd (List.prefix_nil.mp hway) hne
  | cons key rest ih =>
    obtain rfl | ⟨way, rfl, hrest⟩ := List.prefix_cons_iff.mp hway
    · exact absurd rfl hne
    · cases rest with
      | nil =>
        rw [List.prefix_nil.mp hrest, at?_setAt_self ht (by simp) hopen, h]
        exact nofun
      | cons next rest =>
        obtain ⟨es, hes, hbelow⟩ := hopen.below
        rw [setAt_below hes]
        cases way with
        | nil =>
          rw [at?_singleton]
          cases es.setAt (next :: rest) node with
          | nil =>
            rw [putBelow, get?_remove_self ht.1]
            exact nofun
          | cons e es' =>
            rw [putBelow, get?_insert_self]
            exact nofun
        | cons k way =>
          obtain ⟨rfl, -⟩ := List.cons_prefix_cons.mp hrest
          rw [at?_below hes] at h
          rw [at?_below (get?_putBelow ht.1)]
          exact ih (ht.of_below hes) hbelow h hrest (by simp)

/-- An object on the way stays if it holds an entry beside the one that the way goes on to, and
all such entries stay in it. -/
theorem exists_at?_setAt (ht : t.Unique) {way : List String} (hopen : t.Open (way ++ key :: rest))
    (hway : t.at? way = some (.object es)) (hother : other ∈ es.keys) (hne : other ≠ key) :
    ∃ es' : Tree, (t.setAt (way ++ key :: rest) node).at? way = some (.object es') ∧
      ∀ k, k ≠ key → es'.get? k = es.get? k := by
  have hsame : ∀ k, k ≠ key →
      (t.setAt (way ++ key :: rest) node).at? (way ++ [k]) = es.get? k := by
    intro k hk
    rw [at?_setAt_of_apart ht hopen, at?_append, hway]
    · exact at?_singleton es k
    · rw [List.prefix_append_right_inj, List.cons_prefix_cons]
      exact fun h => hk h.1
    · rw [List.prefix_append_right_inj, List.cons_prefix_cons]
      exact fun h => hk h.1.symm
  obtain ⟨m, hm⟩ := exists_get?_of_mem_keys hother
  have hfound := (hsame other hne).trans hm
  rw [at?_append, Option.bind_eq_some_iff] at hfound
  obtain ⟨found, hat, hchild⟩ := hfound
  cases hes' : found.entries? with
  | none => simp [Node.at?_cons_of_entries? hes'] at hchild
  | some es' =>
    obtain rfl := Node.eq_object_of_entries? hes'
    refine ⟨es', hat, fun k hk => ?_⟩
    rw [← hsame k hk, at?_append, hat]
    exact (at?_singleton es' k).symm

/-! ## 5. The order of keys -/

/-- At every level, those of the set node itself excepted, the keys that stay keep their order and a
new one comes last. -/
theorem keepsOrder_setAt (ht : t.Unique) (hopen : t.Open path) {level : List String}
    (hlevel : ¬ path <+: level) :
    KeepsOrder (t.keysAt level) ((t.setAt path node).keysAt level) := by
  induction path generalizing t level with
  | nil => exact absurd List.nil_prefix hlevel
  | cons key rest ih =>
    cases level with
    | nil =>
      rw [keysAt_nil, keysAt_nil]
      obtain heq | ⟨n, heq⟩ := setAt_cons_cases node hopen
      · rw [heq]
        exact keepsOrder_remove t key
      · rw [heq]
        exact keepsOrder_insert t key n
    | cons k level =>
      by_cases hk : key = k
      · subst hk
        rw [List.prefix_cons_inj] at hlevel
        cases rest with
        | nil => exact absurd List.nil_prefix hlevel
        | cons next rest =>
          -- a level that is made has no keys before, and one that is pruned none after
          obtain ⟨es, hes, hbelow⟩ := hopen.below
          rw [setAt_below hes, keysAt_below hes, keysAt_below (get?_putBelow ht.1)]
          exact ih (ht.of_below hes) hbelow hlevel
      · rw [keysAt, keysAt, at?_cons, at?_cons, get?_setAt_of_ne hopen hk]
        exact .refl _

/-! ## 6. The whole effect -/

/-- All that setting a node at a path does. It does nothing if a node on the way is no object.
Otherwise no path that parts from this one leads anywhere else than before. A node is found at the
path afterwards, unless there is none or it is blank and would replace another: then nothing is
found there, no object on the way is left without entries except the root, and those that hold
another entry stay. At every level, those of the set node itself excepted, keys that stay keep
their order and a new one comes last; no key comes twice. -/
theorem setAt_effect (t : Tree) (ht : t.Unique) (path : List String) (hpath : path ≠ [])
    (node : Option Node) (hnode : ∀ n ∈ node, n.Unique) :
    (¬ t.Open path → t.setAt path node = t) ∧
    (t.Open path →
      (∀ way, ¬ way <+: path → ¬ path <+: way → (t.setAt path node).at? way = t.at? way) ∧
      (∀ n, node = some n → ¬ (n.isBlank = true ∧ (t.at? path).isSome = true) →
        (t.setAt path node).at? path = some n) ∧
      ((∀ n, node = some n → n.isBlank = true ∧ (t.at? path).isSome = true) →
        (t.setAt path node).at? path = none ∧
        (∀ way, way <+: path → way ≠ [] → (t.setAt path node).at? way ≠ some (.object [])) ∧
        ∀ (way rest : List String) (key other : String) (es : Tree), path = way ++ key :: rest →
          t.at? way = some (.object es) → other ∈ es.keys → other ≠ key →
            ∃ es' : Tree, (t.setAt path node).at? way = some (.object es') ∧
              ∀ k, k ≠ key → es'.get? k = es.get? k)) ∧
    (∀ level, ¬ path <+: level →
      KeepsOrder (t.keysAt level) ((t.setAt path node).keysAt level)) ∧
    (t.setAt path node).Unique := by
  refine ⟨setAt_of_not_open, fun hopen => ⟨?_, ?_, fun h => ?_⟩, ?_, ht.setAt path hnode⟩
  · exact fun way hway hapart => at?_setAt_of_apart ht hopen hway hapart
  · intro n hn h
    rw [at?_setAt_self ht hpath hopen]
    exact kept_eq_some_iff.mpr ⟨hn, h⟩
  · have hnone := kept_eq_none_iff.mpr h
    refine ⟨(at?_setAt_self ht hpath hopen).trans hnone, ?_, ?_⟩
    · exact fun way hway hne => at?_setAt_ne_empty ht hopen hnone hway hne
    · rintro way rest key other es rfl hway hother hne
      exact exists_at?_setAt ht hopen hway hother hne
  · intro level hlevel
    by_cases hopen : t.Open path
    · exact keepsOrder_setAt ht hopen hlevel
    · rw [setAt_of_not_open hopen]
      exact .refl _

/-- A menu with one entry, and a title beside it. -/
def frenchMenu : Tree :=
  [("title", .literal "Titre"), ("menu", .object [("quit", .literal "Quitter")])]

/-- A blank text over the only entry of the menu deletes it, and the menu with it. -/
theorem setAt_effect_pruned :
    frenchMenu.Unique ∧ ["menu", "quit"] ≠ [] ∧ (∀ n ∈ some (Node.literal ""), n.Unique) ∧
      frenchMenu.Open ["menu", "quit"] ∧
      (∀ n, some (Node.literal "") = some n →
        n.isBlank = true ∧ (frenchMenu.at? ["menu", "quit"]).isSome = true) ∧
      (frenchMenu.setAt ["menu", "quit"] (some (.literal ""))).at? ["menu", "quit"] = none ∧
      (frenchMenu.setAt ["menu", "quit"] (some (.literal ""))).at? ["menu"] ≠ some (.object []) ∧
      (frenchMenu.setAt ["menu", "quit"] (some (.literal ""))).at? ["title"]
        = some (.literal "Titre") := by
  have ht : frenchMenu.Unique := by
    simp [Tree.Unique, Tree.keys, Tree.UniqueBelow, Node.Unique, frenchMenu]
  have hnode : ∀ n ∈ some (Node.literal ""), n.Unique := fun n hn => Option.some.inj hn ▸ trivial
  have hopen : frenchMenu.Open ["menu", "quit"] :=
    open_of_below (.inl rfl) (open_singleton [("quit", .literal "Quitter")] "quit")
  have hblank : ∀ n, some (Node.literal "") = some n →
      n.isBlank = true ∧ (frenchMenu.at? ["menu", "quit"]).isSome = true :=
    fun n hn => Option.some.inj hn ▸ ⟨rfl, rfl⟩
  obtain ⟨-, heffect, -⟩ :=
    setAt_effect frenchMenu ht ["menu", "quit"] (by simp) (some (.literal "")) hnode
  obtain ⟨happart, -, hdeleted⟩ := heffect hopen
  obtain ⟨hgone, hpruned, -⟩ := hdeleted hblank
  exact ⟨ht, by simp, hnode, hopen, hblank, hgone, hpruned ["menu"] (by decide) (by simp),
    happart ["title"] (by decide) (by decide)⟩

end Tree

end LocaleEditor
