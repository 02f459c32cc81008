/-
LocaleEditor.Proofs.Tree.Overlay — a draft laid over a fresh tree.

A merge only ever adds: the keys of the fresh tree stay first and in their
order, whatever the draft holds. So a draft comes back unchanged from a merge
exactly when it has those keys as well, wherever both trees hold an object
(`merge_eq_self_iff`). `Tree.Covers` says so without the merge.

* `keys_merge`, `get?_merge` — one level of a merge.
* `covers_merge` — what was merged once covers the fresh tree.
* `Covers.setAt` — so does a tree in which an entry was filled.
-/
import LocaleEditor.Tree.Edit
import LocaleEditor.Tree.Merge
import LocaleEditor.Proofs.Tree.Ways

namespace LocaleEditor

open LocaleEditor.Tree

/-! ## 1. Trees that keep the keys of another -/

mutual

/-- Where the node and the fresh one are both objects, its keys do not repeat and begin with those
of the fresh one; the same holds below each of its keys. -/
def Node.Covers (fresh : Option Node) : Node → Prop
  | .object es =>
    match fresh with
    | some (.object fs) => (Tree.keys es).Nodup ∧ Tree.keys fs <+: Tree.keys es ∧
        Tree.CoversBelow fs es
    | _ => True
  | _ => True

/-- Each of the entries covers what the fresh tree has under its key. -/
def Tree.CoversBelow (fresh : Tree) : List (String × Node) → Prop
  | [] => True
  | (k, n) :: r => n.Covers (fresh.get? k) ∧ Tree.CoversBelow fresh r

end

/-- Wherever both trees hold an object, the keys there do not repeat and begin with those of the
fresh tree, in its order. -/
def Tree.Covers (t fresh : Tree) : Prop :=
  t.keys.Nodup ∧ fresh.keys <+: t.keys ∧ Tree.CoversBelow fresh t

theorem Node.covers_object {fs es : Tree} :
    (Node.object es).Covers (some (.object fs)) ↔ es.Covers fs := Iff.rfl

/-- Where the fresh tree has no object, every object will do. -/
theorem Node.covers_of_entries? {fresh : Option Node} {n : Node}
    (h : fresh.bind Node.entries? = none) : n.Covers fresh := by
  cases n with
  | object es =>
    cases fresh with
    | none => trivial
    | some m =>
      cases m with
      | object fs => cases h
      | _ => trivial
  | _ => trivial

/-- A node without entries covers everything. -/
theorem Node.covers_leaf {fresh : Option Node} {n : Node} (h : n.entries? = none) :
    n.Covers fresh := by
  cases n with
  | object es => cases h
  | _ => trivial

namespace Tree

variable {t fresh draft : Tree} {key : String} {n : Node}

theorem coversBelow_iff {es : List (String × Node)} :
    CoversBelow fresh es ↔ ∀ p ∈ es, p.2.Covers (fresh.get? p.1) := by
  induction es with
  | nil => simp [CoversBelow]
  | cons p r ih =>
    obtain ⟨k, m⟩ := p
    simp [CoversBelow, ih]

/-- A tree in which no key repeats covers itself. -/
theorem covers_self (h : t.Unique) : t.Covers t := by
  have node : ∀ n : Node, n.Unique → n.Covers (some n) := by
    intro n
    induction n using Node.induction with
    | leaf n hn => exact fun _ => Node.covers_leaf hn
    | object es ih =>
      intro hu
      have hes : Tree.Unique es := unique_object.mp hu
      refine ⟨hes.1, List.prefix_rfl, coversBelow_iff.mpr fun p hp => ?_⟩
      obtain ⟨k, m⟩ := p
      rw [get?_of_mem hes.1 hp]
      exact ih (k, m) hp (uniqueBelow_iff.mp hes.2 (k, m) hp)
  exact node (.object t) (unique_object.mpr h)

/-- Setting the node of a key keeps a tree covering, if the node covers what was fresh there. -/
theorem Covers.insert (h : t.Covers fresh) (hn : n.Covers (fresh.get? key)) :
    (t.insert key n).Covers fresh := by
  obtain ⟨hnodup, hprefix, hbelow⟩ := h
  refine ⟨nodup_keys_insert hnodup, ?_, coversBelow_iff.mpr fun p hp => ?_⟩
  · by_cases hk : key ∈ t.keys
    · rwa [keys_insert_of_mem hk]
    · rw [keys_insert_of_notMem hk]
      exact hprefix.trans (List.prefix_append _ _)
  · rcases mem_insert hp with hp | rfl
    · exact coversBelow_iff.mp hbelow p hp
    · exact hn

/-- Below an object the covering goes on. -/
theorem Covers.of_get? (h : t.Covers fresh) (hget : t.get? key = some n) :
    n.Covers (fresh.get? key) :=
  coversBelow_iff.mp h.2.2 (key, n) (mem_of_get? hget)

/-- A key that is missing is missing from the fresh tree as well. -/
theorem Covers.get?_eq_none (h : t.Covers fresh) (hget : t.get? key = none) :
    fresh.get? key = none :=
  get?_eq_none_iff.mpr fun hk => get?_eq_none_iff.mp hget (h.2.1.subset hk)

/-- Trees with the same keys in the same order and the same nodes under them are equal. -/
theorem eq_of_keys_eq {s : Tree} (hnodup : t.keys.Nodup) (hkeys : t.keys = s.keys)
    (hget : ∀ k, t.get? k = s.get? k) : t = s := by
  induction t generalizing s with
  | nil =>
    cases s with
    | nil => rfl
    | cons q s => simp [keys] at hkeys
  | cons p t ih =>
    obtain ⟨k, m⟩ := p
    cases s with
    | nil => simp [keys] at hkeys
    | cons q s =>
      obtain ⟨k', m'⟩ := q
      rw [keys_cons, keys_cons, List.cons.injEq] at hkeys
      obtain ⟨rfl, hkeys⟩ := hkeys
      rw [keys_cons, List.nodup_cons] at hnodup
      have hm : m = m' := by simpa [get?_cons] using hget k
      have htail : ∀ a, Tree.get? t a = Tree.get? s a := by
        intro a
        by_cases ha : k = a
        · subst ha
          rw [get?_eq_none_iff.mpr hnodup.1, get?_eq_none_iff.mpr (hkeys ▸ hnodup.1)]
        · simpa [get?_cons, ha] using hget a
      rw [hm, ih hnodup.2 hkeys htail]

/-! ## 2. One level of a merge -/

theorem mergeInto_cons (fresh merged : Tree) (k : String) (m : Node) (r : Tree) :
    mergeInto fresh merged ((k, m) :: r)
      = mergeInto fresh (merged.insert k (m.mergeOver (fresh.get? k))) r := rfl

/-- What every insertion of a draft's node keeps is true of the merged tree. -/
theorem mergeInto_induction {P : Tree → Prop} {merged : Tree} (h : P merged)
    (step : ∀ (u : Tree) (p : String × Node), P u → p ∈ draft →
      P (u.insert p.1 (p.2.mergeOver (fresh.get? p.1)))) : P (mergeInto fresh merged draft) := by
  induction draft generalizing merged with
  | nil => exact h
  | cons p r ih =>
    obtain ⟨k, m⟩ := p
    rw [mergeInto_cons]
    exact ih (step merged (k, m) h List.mem_cons_self)
      fun u q hu hq => step u q hu (List.mem_cons_of_mem _ hq)

theorem get?_mergeInto (hdraft : draft.keys.Nodup) (merged : Tree) (key : String) :
    (mergeInto fresh merged draft).get? key = match draft.get? key with
      | some n => some (n.mergeOver (fresh.get? key))
      | none => merged.get? key := by
  induction draft generalizing merged with
  | nil => rfl
  | cons p r ih =>
    obtain ⟨k, m⟩ := p
    rw [keys_cons, List.nodup_cons] at hdraft
    rw [mergeInto_cons, ih hdraft.2, get?_cons]
    by_cases hk : k = key
    · subst hk
      rw [if_pos rfl, get?_eq_none_iff.mpr hdraft.1]
      exact get?_insert_self _ _ _
    · rw [if_neg hk]
      cases Tree.get? r key with
      | some n => rfl
      | none => exact get?_insert_of_ne hk

theorem keys_mergeInto (hdraft : draft.keys.Nodup) (merged : Tree) :
    (mergeInto fresh merged draft).keys
      = merged.keys ++ draft.keys.filter fun k => !merged.contains k := by
  induction draft generalizing merged with
  | nil => simp [mergeInto, keys]
  | cons p r ih =>
    obtain ⟨k, m⟩ := p
    rw [keys_cons, List.nodup_cons] at hdraft
    rw [mergeInto_cons, ih hdraft.2, keys_cons, List.filter_cons]
    -- the key that was inserted does not come again
    have hrest : ∀ n : Node, (Tree.keys r).filter (fun a => !(merged.insert k n).contains a)
        = (Tree.keys r).filter fun a => !merged.contains a := by
      intro n
      refine List.filter_congr fun a ha => ?_
      have hne : k ≠ a := fun h => hdraft.1 (h ▸ ha)
      rw [contains, get?_insert_of_ne hne, contains]
    rw [hrest]
    by_cases hk : k ∈ merged.keys
    · rw [keys_insert_of_mem hk, contains_iff.mpr hk]
      rfl
    · rw [keys_insert_of_notMem hk, contains_eq_false_iff.mpr hk]
      simp

/-- Under a key of the draft there is the draft's node, laid over the fresh one. -/
theorem get?_merge (hdraft : draft.keys.Nodup) (fresh : Tree) (key : String) :
    (fresh.merge draft).get? key = match draft.get? key with
      | some n => some (n.mergeOver (fresh.get? key))
      | none => fresh.get? key := get?_mergeInto hdraft fresh key

/-- The keys of the fresh tree, then those that only the draft has. -/
theorem keys_merge (hdraft : draft.keys.Nodup) (fresh : Tree) :
    (fresh.merge draft).keys = fresh.keys ++ draft.keys.filter fun k => !fresh.contains k :=
  keys_mergeInto hdraft fresh

/-- A draft that begins with the fresh keys has all of them. -/
theorem keys_merge_of_begins (hdraft : draft.keys.Nodup) (h : fresh.keys <+: draft.keys) :
    (fresh.merge draft).keys = draft.keys := by
  obtain ⟨others, hothers⟩ := h
  have hdisjoint : ∀ k ∈ others, k ∉ fresh.keys := by
    rw [← hothers] at hdraft
    exact fun k hk hk' => (List.nodup_append.mp hdraft).2.2 k hk' k hk rfl
  have hold : fresh.keys.filter (fun k => !fresh.contains k) = [] :=
    List.filter_eq_nil_iff.mpr fun k hk => by simp [contains_iff.mpr hk]
  have hnew : others.filter (fun k => !fresh.contains k) = others :=
    List.filter_eq_self.mpr fun k hk => by
      rw [contains_eq_false_iff.mpr (hdisjoint k hk), Bool.not_false]
  rw [keys_merge hdraft, ← hothers, List.filter_append, hold, hnew, List.nil_append]

/-- A draft that begins with the fresh keys comes back if each of its nodes does. -/
theorem merge_eq_self (hdraft : draft.keys.Nodup) (h : fresh.keys <+: draft.keys)
    (hnodes : ∀ p ∈ draft, p.2.mergeOver (fresh.get? p.1) = p.2) : fresh.merge draft = draft := by
  refine (eq_of_keys_eq hdraft (keys_merge_of_begins hdraft h).symm fun k => ?_).symm
  rw [get?_merge hdraft]
  cases hget : draft.get? k with
  | some m => exact congrArg some (hnodes (k, m) (mem_of_get? hget)).symm
  | none =>
    exact (get?_eq_none_iff.mpr fun hk => get?_eq_none_iff.mp hget (h.subset hk)).symm

theorem mergeOver_objects (fs es : Tree) :
    (Node.object es).mergeOver (some (.object fs)) = .object (fs.merge es) := rfl

/-- Unless both are objects, the draft's node wins. -/
theorem mergeOver_of_entries? {o : Option Node}
    (h : o.bind Node.entries? = none ∨ n.entries? = none) : n.mergeOver o = n := by
  cases n with
  | object es =>
    obtain h | h := h
    · cases o with
      | none => rfl
      | some m =>
        cases m with
        | object fs => cases h
        | _ => rfl
    · cases h
  | _ => rfl

/-! ## 3. Merging and covering -/

/-- What was merged keeps the keys of the fresh tree, whatever was laid over it. -/
theorem covers_merge (hfresh : fresh.Unique) (draft : Tree) : (fresh.merge draft).Covers fresh := by
  have node : ∀ n : Node, ∀ o : Option Node, (∀ m ∈ o, m.Unique) →
      (n.mergeOver o).Covers o := by
    intro n
    induction n using Node.induction with
    | leaf n hn =>
      intro o _
      rw [mergeOver_of_entries? (.inr hn)]
      exact Node.covers_leaf hn
    | object es ih =>
      intro o ho
      cases hes : o.bind Node.entries? with
      | none => exact Node.covers_of_entries? hes
      | some fs =>
        obtain rfl := eq_object_of_bind_entries? hes
        have hfs : Tree.Unique fs := unique_object.mp (ho _ rfl)
        rw [mergeOver_objects, Node.covers_object]
        exact mergeInto_induction (P := fun u => u.Covers fs) (covers_self hfs) fun u p hu hp =>
          hu.insert (ih p hp (Tree.get? fs p.1) fun m hget => hfs.of_get? hget)
  exact node (.object draft) (some (.object fresh)) fun m hm =>
    Option.some.inj hm ▸ unique_object.mpr hfresh

/-- A draft comes back unchanged from a merge exactly when it covers the fresh tree. -/
theorem merge_eq_self_iff (hfresh : fresh.Unique) :
    fresh.merge draft = draft ↔ draft.Covers fresh := by
  have node : ∀ n : Node, ∀ o : Option Node, (∀ m ∈ o, m.Unique) →
      (n.mergeOver o = n ↔ n.Covers o) := by
    intro n
    induction n using Node.induction with
    | leaf n hn =>
      intro o _
      exact iff_of_true (mergeOver_of_entries? (.inr hn)) (Node.covers_leaf hn)
    | object es ih =>
      intro o ho
      cases hes : o.bind Node.entries? with
      | none => exact iff_of_true (mergeOver_of_entries? (.inl hes)) (Node.covers_of_entries? hes)
      | some fs =>
        obtain rfl := eq_object_of_bind_entries? hes
        have hfs : Tree.Unique fs := unique_object.mp (ho _ rfl)
        have hbelow : ∀ p ∈ es, (p.2.mergeOver (fs.get? p.1) = p.2 ↔
            p.2.Covers (fs.get? p.1)) := fun p hp => ih p hp _ fun m hget => hfs.of_get? hget
        rw [mergeOver_objects, Node.covers_object, Node.object.injEq]
        constructor
        · intro heq
          have hcovers := covers_merge hfs es
          rw [heq] at hcovers
          exact hcovers
        · rintro ⟨hnodup, hprefix, hes⟩
          exact merge_eq_self hnodup hprefix fun p hp =>
            (hbelow p hp).mpr (coversBelow_iff.mp hes p hp)
  have hroot := node (.object draft) (some (.object fresh)) fun m hm =>
    Option.some.inj hm ▸ unique_object.mpr hfresh
  rwa [mergeOver_objects, Node.covers_object, Node.object.injEq] at hroot

/-! ## 4. Filling entries -/

/-- Setting a node that is neither blank nor an object deletes nothing: either a node on the way is
no object, and nothing changes, or the tree covers all that it covered before. -/
theorem setBelow_fill (hblank : n.isBlank = false) (hleaf : n.entries? = none)
    (rest : List String) (t : Tree) (key : String) :
    t.setBelow key rest (some n) = .unchanged ∨
      ∃ es, t.setBelow key rest (some n) = .updated es ∧
        ∀ fresh : Tree, t.Covers fresh → es.Covers fresh := by
  induction rest generalizing t key with
  | nil =>
    refine .inr ⟨t.insert key n, ?_, fun fresh ht => ht.insert (Node.covers_leaf hleaf)⟩
    exact setEntry_of_not_blank t key hblank
  | cons next rest ih =>
    obtain ⟨es, hget⟩ | ⟨m, hget, hm⟩ := below_or_blocked t key
    · rw [setBelow_of_child hget]
      obtain hsame | ⟨es', hset, hes'⟩ := ih es next
      · exact .inl (by rw [hsame])
      · refine .inr ⟨_, by rw [hset], fun fresh ht => ht.insert ?_⟩
        cases hfresh : (fresh.get? key).bind Node.entries? with
        | none => exact Node.covers_of_entries? hfresh
        | some fs =>
          have hfs := eq_object_of_bind_entries? hfresh
          rcases hget with hget | ⟨hget, -⟩
          · have hes := ht.of_get? hget
            rw [hfs] at hes ⊢
            exact hes' fs hes
          · rw [ht.get?_eq_none hget] at hfs
            cases hfs
    · exact .inl (setBelow_of_blocked hget hm)

/-- A tree in which an entry is filled covers what it covered before. -/
theorem Covers.setAt (h : t.Covers fresh) (hblank : n.isBlank = false)
    (hleaf : n.entries? = none) {path : List String} (hpath : path ≠ []) :
    (t.setAt path (some n)).Covers fresh := by
  cases path with
  | nil => exact absurd rfl hpath
  | cons key rest =>
    rw [Tree.setAt]
    obtain hsame | ⟨es, hset, hes⟩ := setBelow_fill hblank hleaf rest t key
    · rwa [hsame]
    · rw [hset]
      exact hes fresh h

end Tree

end LocaleEditor
