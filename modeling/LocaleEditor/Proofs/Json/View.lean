/-
LocaleEditor.Proofs.Json.View — what a JSON file shows of a tree.

`Tree.textView` is the tree that a reader of the JSON file sees: texts only,
functions and nodes of unknown kind left out, and keys in the order of the
reference. It is stated without the printer; `Proofs.Json.RoundTrip` proves
that it is what the printed file reads as.

* `pick_get?` — a level of the view, by its keys.
* `textView?_of_isText` — a tree of texts is its own view against itself.
-/
import LocaleEditor.LooseJson.Tree
import LocaleEditor.Proofs.Tree.Entries
import Mathlib.Data.List.Induction

namespace LocaleEditor

open LocaleEditor.Tree

/-! ## 1. The view -/

/-- The keys of the reference that the tree has, then the tree's other keys, each once; without a
reference the tree's own keys. -/
def Tree.viewKeys (t : Tree) (reference : Option Tree) : List String :=
  match reference with
  | none => t.keys.eraseDups
  | some r => (r.keys.filter t.contains ++ t.keys.filter fun k => !r.contains k).eraseDups

/-- What the reference has under a key, if that is an object. -/
def objectBelow (reference : Option Tree) (key : String) : Option Tree :=
  (reference.bind (Tree.get? · key)).bind Node.entries?

/-- The entries of some keys, where `f` gives the node of each, if it has one. -/
def Tree.pick (keys : List String) (f : String → Option Node) : Tree :=
  keys.filterMap fun k => (f k).map (k, ·)

mutual

/-- The node that the JSON form of a node shows, if it has one. -/
def Node.textView? (reference : Option Tree) : Node → Option Node
  | .literal v => some (.literal v)
  | .template v => some (.literal v)
  | .variable n => some (.literal n)
  | .array items => some (.array (items.map fun i => .literal i.text))
  | .object es =>
    let views := Tree.textViews reference es
    some (.object (Tree.pick (Tree.viewKeys es reference) fun k =>
      (views.find? (·.1 = k)).bind (·.2)))
  | .function _ _ => none
  | .unknown => none

/-- Each key with what is shown of its node. -/
def Tree.textViews (reference : Option Tree) : List (String × Node) → List (String × Option Node)
  | [] => []
  | (k, n) :: r => (k, n.textView? (objectBelow reference k)) :: Tree.textViews reference r

end

/-- The tree that the JSON form of a tree shows. -/
def Tree.textView (t reference : Tree) : Tree :=
  ((Node.textView? (some reference) (.object t)).bind Node.entries?).getD []

/-! ## 2. Levels of the view -/

namespace Tree

/-- Looking up the first of some keyed results. -/
theorem find?_map_keyed {α : Type} (f : String × Node → α) (t : Tree) (key : String) :
    ((t.map fun p => (p.1, f p)).find? (·.1 = key)) = (t.get? key).map fun n => (key, f (key, n)) := by
  induction t with
  | nil => rfl
  | cons p r ih =>
    obtain ⟨k, n⟩ := p
    rw [get?_cons, List.map_cons, List.find?_cons]
    by_cases hk : k = key
    · simp [hk]
    · simp [hk, ih]

theorem textViews_eq_map (reference : Option Tree) (t : Tree) :
    textViews reference t = t.map fun p => (p.1, p.2.textView? (objectBelow reference p.1)) := by
  induction t with
  | nil => rfl
  | cons p r ih =>
    obtain ⟨k, n⟩ := p
    simp [textViews, ih]

/-- What is shown under a key: the view of the first node there. -/
theorem textView?_object (reference : Option Tree) (t : Tree) :
    Node.textView? reference (.object t) = some (.object (pick (t.viewKeys reference) fun k =>
      (t.get? k).bind fun n => n.textView? (objectBelow reference k))) := by
  rw [Node.textView?]
  refine congrArg (fun f => some (Node.object (pick _ f))) (funext fun k => ?_)
  rw [textViews_eq_map, find?_map_keyed]
  cases t.get? k <;> rfl

theorem textView_eq (t reference : Tree) :
    t.textView reference = pick (t.viewKeys (some reference)) fun k =>
      (t.get? k).bind fun n => n.textView? (objectBelow (some reference) k) := by
  rw [textView, textView?_object]
  rfl

theorem get?_pick (keys : List String) (f : String → Option Node) (key : String) :
    (pick keys f).get? key = if key ∈ keys then f key else none := by
  induction keys with
  | nil => rfl
  | cons k ks ih =>
    unfold pick at ih ⊢
    by_cases hk : k = key
    · subst hk
      cases hf : f k with
      | none => simp [hf, ih]
      | some n => simp [hf, get?_cons]
    · cases hf : f k with
      | none => simp [hf, ih, Ne.symm hk]
      | some n => simp [hf, get?_cons, hk, ih, Ne.symm hk]

theorem keys_pick (keys : List String) (f : String → Option Node) :
    (pick keys f).keys = keys.filter fun k => (f k).isSome := by
  induction keys with
  | nil => rfl
  | cons k ks ih =>
    unfold pick at ih ⊢
    cases hf : f k <;> simp_all [keys_cons]

theorem eraseDups_of_nodup {l : List String} (h : l.Nodup) : l.eraseDups = l := by
  induction l with
  | nil => rfl
  | cons a l ih =>
    obtain ⟨ha, hl⟩ := List.nodup_cons.mp h
    have hfilter : (l.filter fun b => !b == a) = l := by
      refine List.filter_eq_self.mpr fun b hb => ?_
      have hne : b ≠ a := fun hba => ha (hba ▸ hb)
      simpa using hne
    rw [List.eraseDups_cons, hfilter, ih hl]

/-- Inserting picked entries one after another keeps the first of each key. -/
theorem ofEntries_pick (keys : List String) (f : String → Option Node) :
    ofEntries (pick keys f) = pick keys.eraseDups f := by
  induction keys using List.reverseRecOn with
  | nil => rfl
  | append_singleton ks k ih =>
    have hsplit : ∀ l : List String, pick (l ++ [k]) f = pick l f ++ ((f k).map (k, ·)).toList := by
      intro l
      rw [pick, List.filterMap_append]
      cases hf : f k <;> simp [pick, hf]
    have hfold : ∀ (l : Tree) (o : Option Node), ofEntries (l ++ (o.map (k, ·)).toList)
        = o.elim (ofEntries l) ((ofEntries l).insert k) := by
      intro l o
      cases o <;> simp [ofEntries, List.foldl_append]
    rw [hsplit, hfold, ih, List.eraseDups_append]
    by_cases hk : k ∈ ks
    · have hgone : [k].removeAll ks = [] := by simp [List.removeAll, hk]
      rw [hgone, List.eraseDups_nil, List.append_nil]
      cases hf : f k with
      | none => rfl
      | some n => exact insert_of_get? (by rw [get?_pick]; simp [hk, hf])
    · have hstays : [k].removeAll ks = [k] := by simp [List.removeAll, hk]
      rw [hstays, eraseDups_of_nodup (List.nodup_singleton k), hsplit]
      cases hf : f k with
      | none => simp
      | some n =>
        refine insert_of_notMem_keys fun hmem => ?_
        obtain ⟨m, hm⟩ := exists_get?_of_mem_keys hmem
        simp [get?_pick, hk] at hm

end Tree

/-! ## 3. Trees of texts -/

/-- Nothing but texts, arrays of texts and objects of such, in which no key repeats. -/
inductive Node.IsText : Node → Prop
  | literal (v : String) : IsText (.literal v)
  | array (vs : List String) : IsText (.array (vs.map .literal))
  | object (t : Tree) (keys : t.keys.Nodup) (nodes : ∀ p ∈ t, IsText p.2) : IsText (.object t)

theorem Node.IsText.insert {t : Tree} {key : String} {node : Node}
    (ht : (Node.object t).IsText) (hn : node.IsText) : (Node.object (t.insert key node)).IsText := by
  cases ht with
  | object _ hkeys hnodes =>
    refine .object _ (nodup_keys_insert hkeys) fun p hp => ?_
    rcases mem_insert hp with hp | rfl
    · exact hnodes p hp
    · exact hn

mutual

/-- What is read from JSON is texts. -/
theorem LooseJson.Value.node_isText : ∀ v : Value, v.node.IsText
  | .string s => .literal _
  | .number t => .literal _
  | .boolean true => .literal _
  | .boolean false => .literal _
  | .null => .literal _
  | .array es => .array _
  | .object ms => LooseJson.treeOf_isText ms [] (.object [] List.nodup_nil (by simp))

theorem LooseJson.treeOf_isText : ∀ (ms : List (List Char × Value)) (t : Tree),
    (Node.object t).IsText → (Node.object (treeOf t ms)).IsText
  | [], _, ht => ht
  | (_, v) :: r, _, ht => LooseJson.treeOf_isText r _ (ht.insert v.node_isText)

end

/-- Where no key repeats, the keys pick the entries themselves. -/
theorem Tree.pick_keys {t : Tree} {f : String → Option Node} (h : ∀ p ∈ t, f p.1 = some p.2) :
    pick t.keys f = t := by
  induction t with
  | nil => rfl
  | cons p r ih =>
    obtain ⟨k, n⟩ := p
    have hk : f k = some n := h (k, n) (by simp)
    have hr := ih fun q hq => h q (by simp [hq])
    unfold pick at hr ⊢
    rw [keys_cons, List.filterMap_cons, hk, hr]
    rfl

theorem Tree.viewKeys_self {t : Tree} (h : t.keys.Nodup) : t.viewKeys (some t) = t.keys := by
  have hall : (t.keys.filter t.contains) = t.keys :=
    List.filter_eq_self.mpr fun k hk => contains_iff.mpr hk
  have hnone : (t.keys.filter fun k => !t.contains k) = [] :=
    List.filter_eq_nil_iff.mpr fun k hk => by simp [contains_iff.mpr hk]
  rw [viewKeys, hall, hnone, List.append_nil, eraseDups_of_nodup h]

/-- A node of texts is shown as it is, against itself. -/
theorem Node.textView?_of_isText {n : Node} (h : n.IsText) : n.textView? n.entries? = some n := by
  induction h with
  | literal v => rfl
  | array vs => simp [Node.textView?, Item.text, Function.comp_def]
  | object t hkeys _ ih =>
    rw [Node.entries?, textView?_object, viewKeys_self hkeys]
    refine congrArg (fun es => some (Node.object es)) (pick_keys ?_)
    intro p hp
    have hget : t.get? p.1 = some p.2 := get?_of_mem hkeys hp
    have hbelow : objectBelow (some t) p.1 = p.2.entries? := by
      unfold objectBelow
      rw [Option.bind_some, hget, Option.bind_some]
    rw [hget, Option.bind_some, hbelow, ih p hp]

end LocaleEditor
