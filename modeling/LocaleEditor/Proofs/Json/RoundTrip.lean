/-
LocaleEditor.Proofs.Json.RoundTrip — a JSON file reads as the view of its tree.

`json_round_trip` has three parts, for every JSON file name: what is assembled
reads as `Tree.textView`; a tree that was itself read from JSON comes back
unchanged; and where no key repeats, writing the view gives the text again.

`exists_printed` is the induction over the tree behind the first part. It pairs
the printer and the view key by key: either both leave a node out, or the
printed text reads as a value that becomes the node shown. `printNode?_textView`
is the one behind the last part.
-/
import LocaleEditor.Assemble
import LocaleEditor.LocaleFile
import LocaleEditor.Proofs.Json.View
import LocaleEditor.Proofs.LooseJson.Reading

namespace LocaleEditor

open LocaleEditor.Tree LocaleEditor.Text

/-! ## 1. Levels of the printed text -/

namespace Json

theorem printEntries_eq_map (indentWidth level : Nat) (reference : Option Tree) (t : Tree) :
    printEntries indentWidth level reference t
      = t.map fun p => (p.1, printNode? indentWidth level (objectBelow reference p.1) p.2) := by
  induction t with
  | nil => rfl
  | cons p r ih =>
    obtain ⟨k, n⟩ := p
    rw [printEntries, ih]
    rfl

/-- What is written under a key: the first node there. -/
theorem membersFor_printEntries (keys : List String) (indentWidth level : Nat)
    (reference : Option Tree) (t : Tree) :
    membersFor keys (printEntries indentWidth level reference t) = keys.filterMap fun k =>
      ((t.get? k).bind (printNode? indentWidth level (objectBelow reference k))).map
        (LooseJson.memberText k.toList) := by
  rw [printEntries_eq_map]
  unfold membersFor
  refine congrArg (List.filterMap · keys) (funext fun k => ?_)
  rw [find?_map_keyed]
  cases t.get? k with
  | none => rfl
  | some n =>
    simp only [Option.map_some, Option.bind_some]
    cases printNode? indentWidth level (objectBelow reference k) n <;> rfl

theorem viewKeys_eq (t : Tree) (reference : Option Tree) :
    t.viewKeys reference = (orderedKeys t reference).eraseDups := by
  cases reference <;> rfl

end Json

/-! ## 2. Printing and reading -/

namespace LooseJson

/-- Members are inserted one after another. -/
theorem treeOf_eq_foldl (ms : List (List Char × Value)) (t : Tree) :
    treeOf t ms = (ms.map fun m => (String.ofList m.1, m.2.node)).foldl
      (fun t (k, n) => t.insert k n) t := by
  induction ms generalizing t with
  | nil => rfl
  | cons m ms ih =>
    obtain ⟨key, v⟩ := m
    rw [treeOf, ih]
    rfl

theorem filterMap_text?_string (vs : List String) :
    (vs.map fun v => Value.string v.toList).filterMap Value.text? = vs := by
  induction vs with
  | nil => rfl
  | cons v vs ih => simp [Value.text?, ih]

/-- Either a node has neither a JSON form nor a view, or its JSON form reads as a value that
becomes the node of the view. -/
theorem exists_printed (indentWidth : Nat) (n : Node) :
    ∀ (level : Nat) (reference : Option Tree), ∃ o : Option (List Char × Value),
      Json.printNode? indentWidth level reference n = o.map (·.1) ∧
      n.textView? reference = o.map (·.2.node) ∧ ∀ p ∈ o, ReadsAs p.1 p.2 := by
  have text : ∀ v : String, ∃ o : Option (List Char × Value), some (quote v.toList) = o.map (·.1) ∧
      some (Node.literal v) = o.map (·.2.node) ∧ ∀ p ∈ o, ReadsAs p.1 p.2 := by
    intro v
    refine ⟨some (quote v.toList, .string v.toList), rfl, by simp [Value.node], fun p hp => ?_⟩
    obtain rfl := Option.mem_some.mp hp
    exact .quote _
  induction n using Node.induction with
  | leaf n hn =>
    intro level reference
    cases n with
    | literal v => exact text v
    | template v => exact text v
    | «variable» v => exact text v
    | array items =>
      have hread := ReadsAs.array indentWidth level
        (items.map fun i => (quote i.text.toList, Value.string i.text.toList))
        (List.forall_mem_map.mpr fun i _ => .quote _)
      simp only [List.map_map, Function.comp_def] at hread
      refine ⟨some (_, _), rfl, ?_, fun p hp => by obtain rfl := Option.mem_some.mp hp; exact hread⟩
      have htexts := filterMap_text?_string (items.map Item.text)
      simp only [List.map_map, Function.comp_def] at htexts
      simp [Node.textView?, Value.node, htexts, Function.comp_def]
    | function _ _ => exact ⟨none, rfl, rfl, by simp⟩
    | unknown => exact ⟨none, rfl, rfl, by simp⟩
    | object es => simp [Node.entries?] at hn
  | object t ih =>
    intro level reference
    -- the member that each key gets, if it gets one
    have hkey : ∀ k, ∃ o : Option (List Char × Value),
        (t.get? k).bind (Json.printNode? indentWidth (level + 1) (objectBelow reference k))
          = o.map (·.1) ∧
        ((t.get? k).bind fun n => n.textView? (objectBelow reference k)) = o.map (·.2.node) ∧
        ∀ p ∈ o, ReadsAs p.1 p.2 := by
      intro k
      cases hget : t.get? k with
      | none => exact ⟨none, rfl, rfl, by simp⟩
      | some n => exact ih (k, n) (mem_of_get? hget) (level + 1) (objectBelow reference k)
    choose f hprint hview hread using hkey
    let keys := Json.orderedKeys t reference
    let parts := keys.filterMap fun k => (f k).map fun p => (k.toList, p.1, p.2)
    have hparts := ReadsAs.object indentWidth level parts (by
      intro p hp
      obtain ⟨k, -, hk⟩ := List.mem_filterMap.mp hp
      obtain ⟨q, hq, rfl⟩ := Option.map_eq_some_iff.mp hk
      exact hread k q hq)
    refine ⟨some (_, _), ?_, ?_, fun p hp => by obtain rfl := Option.mem_some.mp hp; exact hparts⟩
    · rw [Json.printNode?, Json.membersFor_printEntries]
      simp only [hprint, Option.map_some]
      refine congrArg (fun ms => some (Json.bracketed indentWidth level '{' '}' ms)) ?_
      simp only [parts, List.map_filterMap, Option.map_map, Function.comp_def]
      rfl
    · rw [textView?_object, Json.viewKeys_eq, ← ofEntries_pick]
      simp only [hview, Option.map_some, Value.node, treeOf_eq_foldl]
      refine congrArg (fun es => some (Node.object (ofEntries es))) ?_
      simp [parts, keys, pick, List.map_filterMap, Option.map_map, Function.comp_def]

end LooseJson

/-! ## 3. Printing the view -/

namespace Json

/-- A node has a JSON form exactly when it has a view. -/
theorem printNode?_eq_none_iff {indentWidth level : Nat} {reference : Option Tree} {n : Node} :
    printNode? indentWidth level reference n = none ↔ n.textView? reference = none := by
  cases n <;> simp [printNode?, Node.textView?]

theorem mem_orderedKeys {t : Tree} {reference : Option Tree} {key : String} :
    key ∈ orderedKeys t reference ↔ key ∈ t.keys := by
  cases reference with
  | none => rfl
  | some r =>
    simp only [orderedKeys, List.mem_append, List.mem_filter, contains_iff, Bool.not_eq_true',
      Bool.eq_false_iff, ne_eq]
    by_cases hr : key ∈ r.keys <;> simp [hr]

theorem orderedKeys_nodup {t : Tree} {reference : Option Tree} (ht : t.keys.Nodup)
    (hr : ∀ r ∈ reference, r.keys.Nodup) : (orderedKeys t reference).Nodup := by
  cases reference with
  | none => exact ht
  | some r =>
    refine List.nodup_append.mpr ⟨(hr r rfl).filter _, ht.filter _, ?_⟩
    intro a ha b hb hab
    subst hab
    have hc : r.contains a = true := contains_iff.mpr (List.mem_of_mem_filter ha)
    simp [List.mem_filter, hc] at hb

/-- The keys that a level of the view keeps stand in the same order for the printer. -/
theorem orderedKeys_pick {t : Tree} {reference : Option Tree} (ht : t.keys.Nodup)
    (hr : ∀ r ∈ reference, r.keys.Nodup) (f : String → Option Node)
    (hf : ∀ k, (f k).isSome → k ∈ t.keys) :
    orderedKeys (pick (t.viewKeys reference) f) reference
      = (orderedKeys t reference).filter fun k => (f k).isSome := by
  have hkeys : (pick (t.viewKeys reference) f).keys
      = (orderedKeys t reference).filter fun k => (f k).isSome := by
    rw [keys_pick, viewKeys_eq, eraseDups_of_nodup (orderedKeys_nodup ht hr)]
  cases reference with
  | none => exact hkeys
  | some r =>
    have hcontains : Tree.contains (pick (t.viewKeys (some r)) f) = fun k => (f k).isSome := by
      funext k
      rw [Bool.eq_iff_iff, contains_iff, hkeys, List.mem_filter, mem_orderedKeys]
      exact ⟨And.right, fun h => ⟨hf k h, h⟩⟩
    rw [orderedKeys, hcontains, hkeys, orderedKeys, List.filter_append, List.filter_append]
    -- of the keys kept, the reference has those of the first part and none of the second
    have hfirst : (r.keys.filter t.contains).filter (fun k => (f k).isSome)
        = r.keys.filter fun k => (f k).isSome := by
      rw [List.filter_filter]
      refine List.filter_congr fun k _ => ?_
      cases hk : (f k).isSome with
      | false => rfl
      | true => rw [contains_iff.mpr (hf k hk)]; rfl
    have hnone : ((r.keys.filter t.contains).filter (fun k => (f k).isSome)).filter
        (fun k => !r.contains k) = [] := by
      refine List.filter_eq_nil_iff.mpr fun k hk => ?_
      have hr : k ∈ r.keys := List.mem_of_mem_filter (List.mem_of_mem_filter hk)
      simp [contains_iff.mpr hr]
    have hall : ((t.keys.filter fun k => !r.contains k).filter (fun k => (f k).isSome)).filter
        (fun k => !r.contains k)
        = (t.keys.filter fun k => !r.contains k).filter fun k => (f k).isSome := by
      refine List.filter_eq_self.mpr fun k hk => ?_
      exact (List.mem_filter.mp (List.mem_of_mem_filter hk)).2
    rw [hnone, List.nil_append, hall, hfirst]

/-- Where no key repeats, the view of a node has the JSON form of the node. -/
theorem printNode?_textView (indentWidth : Nat) {n : Node} : n.Unique →
    ∀ (level : Nat) (reference : Option Tree) (v : Node), (∀ r ∈ reference, r.Unique) →
      n.textView? reference = some v →
      printNode? indentWidth level reference v = printNode? indentWidth level reference n := by
  induction n using Node.induction with
  | leaf n hn =>
    intro _ level reference v _ hv
    cases n <;> simp_all [Node.textView?, Node.entries?] <;> subst hv <;>
      simp [printNode?, Item.text, Function.comp_def]
  | object t ih =>
    intro hu level reference v hr hv
    have ht : t.Unique := unique_object.mp hu
    let f : String → Option Node := fun k =>
      (t.get? k).bind fun n => n.textView? (objectBelow reference k)
    rw [textView?_object, Option.some.injEq] at hv
    subst hv
    have hf : ∀ k, (f k).isSome → k ∈ t.keys := by
      intro k hk
      cases hget : t.get? k with
      | none => simp [f, hget] at hk
      | some n => exact mem_keys_of_get? hget
    have hbelow : ∀ k, ∀ r ∈ objectBelow reference k, r.Unique := by
      intro k r hrk
      obtain ⟨n, hn, hes⟩ := Option.bind_eq_some_iff.mp hrk
      obtain ⟨r', hr', hget⟩ := Option.bind_eq_some_iff.mp hn
      rw [Node.eq_object_of_entries? hes] at hget
      exact (hr r' hr').of_get?_object hget
    -- a key that is shown is written from the view as it is from the node
    have hsame : ∀ k, ((pick (t.viewKeys reference) f).get? k).bind
          (printNode? indentWidth (level + 1) (objectBelow reference k))
        = (t.get? k).bind (printNode? indentWidth (level + 1) (objectBelow reference k)) := by
      intro k
      rw [get?_pick]
      cases hget : t.get? k with
      | none => simp [f, hget]
      | some n =>
        have hmem : k ∈ t.viewKeys reference := by
          rw [viewKeys_eq, List.mem_eraseDups, mem_orderedKeys]
          exact mem_keys_of_get? hget
        rw [if_pos hmem]
        simp only [f, hget, Option.bind_some]
        cases hv : n.textView? (objectBelow reference k) with
        | none => rw [printNode?_eq_none_iff.mpr hv]; rfl
        | some v =>
          exact ih (k, n) (mem_of_get? hget) (ht.of_get? hget) (level + 1) _ v (hbelow k) hv
    rw [printNode?, printNode?, membersFor_printEntries, membersFor_printEntries,
      orderedKeys_pick ht.1 (fun r h => (hr r h).1) f hf, List.filterMap_filter]
    refine congrArg (fun ms => some (bracketed indentWidth level '{' '}' ms)) ?_
    refine congrArg (List.filterMap · _) (funext fun k => ?_)
    rw [hsame]
    cases hk : (f k).isSome with
    | true => rfl
    | false =>
      cases hget : t.get? k with
      | none => simp
      | some n =>
        have hv : n.textView? (objectBelow reference k) = none := by
          simpa [f, hget] using hk
        simp [printNode?_eq_none_iff.mpr hv]

end Json

/-! ## 4. JSON files -/

theorem assemble_json {file : String} (hfile : Language.ofFileName? file = some .json)
    (tree reference : Tree) (existing : Option String) (options : AssembleOptions) :
    assemble file tree reference existing options
      = .ok (Json.render options.indentWidth tree reference) := by
  simp [assemble, hfile, Language.dialect?]

/-- A JSON file reads as what it shows of its tree. -/
theorem readLocaleFile_render {file : String} (hfile : Language.ofFileName? file = some .json)
    (indentWidth : Nat) (tree reference : Tree) :
    readLocaleFile file (Json.render indentWidth tree reference) = tree.textView reference := by
  obtain ⟨o, hprint, hview, hread⟩ :=
    LooseJson.exists_printed indentWidth (.object tree) 0 (some reference)
  cases o with
  | none => simp [textView?_object] at hview
  | some p =>
    obtain ⟨text, v⟩ := p
    have hparse := (hread (text, v) rfl).parse?
    rw [Option.map_some] at hprint hview
    rw [textView, hview, Json.render, hprint]
    have hobject : ∃ ms, v = .object ms := by
      rw [textView?_object, Option.some.injEq] at hview
      cases v with
      | object ms => exact ⟨ms, rfl⟩
      | boolean b => cases b <;> simp [LooseJson.Value.node] at hview
      | _ => simp [LooseJson.Value.node] at hview
    obtain ⟨ms, rfl⟩ := hobject
    simp [readLocaleFile, hfile, Language.readTree, Language.dialect?, LooseJson.readTree?, hparse,
      LooseJson.Value.node, Node.entries?]

/-- A tree read from JSON is its own view. -/
theorem textView_readLocaleFile {file : String} (hfile : Language.ofFileName? file = some .json)
    (source : String) :
    (readLocaleFile file source).textView (readLocaleFile file source)
      = readLocaleFile file source := by
  have htext : (Node.object (readLocaleFile file source)).IsText := by
    have hread : readLocaleFile file source = (LooseJson.readTree? source.toList).getD [] := by
      simp [readLocaleFile, hfile, Language.readTree, Language.dialect?]
    rw [hread, LooseJson.readTree?]
    split
    · exact LooseJson.treeOf_isText _ [] (.object [] List.nodup_nil (by simp))
    · exact .object [] List.nodup_nil (by simp)
  have hview := Node.textView?_of_isText htext
  rw [Node.entries?] at hview
  rw [textView, hview]
  rfl

/-- Where no key repeats, the view of a tree is written as the tree is. -/
theorem render_textView (indentWidth : Nat) {tree reference : Tree} (ht : tree.Unique)
    (hr : reference.Unique) :
    Json.render indentWidth (tree.textView reference) reference
      = Json.render indentWidth tree reference := by
  have hview : Node.textView? (some reference) (.object tree)
      = some (.object (tree.textView reference)) := by
    rw [textView_eq, textView?_object]
  rw [Json.render, Json.render, Json.printNode?_textView indentWidth (unique_object.mpr ht) 0
    (some reference) _ (fun r h => Option.mem_some.mp h ▸ hr) hview]

/-- A JSON file reads as the view of its tree against the reference. What was read from JSON is
written so that it reads the same, and where no key repeats the view is written as the tree is. -/
theorem json_round_trip {file : String} (hfile : Language.ofFileName? file = some .json)
    (existing : Option String) (options : AssembleOptions) :
    (∀ tree reference : Tree, ∃ text : String,
      assemble file tree reference existing options = .ok text ∧
      readLocaleFile file text = tree.textView reference) ∧
    (∀ origin source : String, Language.ofFileName? origin = some .json → ∃ text : String,
      assemble file (readLocaleFile origin source) (readLocaleFile origin source) existing options
        = .ok text ∧
      readLocaleFile file text = readLocaleFile origin source) ∧
    (∀ tree reference : Tree, tree.Unique → reference.Unique →
      assemble file (tree.textView reference) reference existing options
        = assemble file tree reference existing options) := by
  refine ⟨fun tree reference => ?_, fun origin source horigin => ?_, fun tree reference ht hr => ?_⟩
  · exact ⟨_, assemble_json hfile tree reference existing options,
      readLocaleFile_render hfile options.indentWidth tree reference⟩
  · refine ⟨_, assemble_json hfile _ _ existing options, ?_⟩
    rw [readLocaleFile_render hfile, textView_readLocaleFile horigin]
  · rw [assemble_json hfile, assemble_json hfile, render_textView options.indentWidth ht hr]

/-- A tree in another order than its reference, with a function and an object of its own. -/
def greetingTree : Tree :=
  [("bye", .template "bye, all"),
    ("menu", .object [("quit", .literal "quit"), ("count", .function [] (.literal "one"))]),
    ("hello", .literal "hello")]

/-- The reference of `greetingTree`, with another shape below one key. -/
def greetingReference : Tree :=
  [("hello", .literal "Hello"), ("menu", .literal "Menu"), ("bye", .literal "Bye")]

theorem json_round_trip_greeting :
    Language.ofFileName? "en.json" = some .json ∧
    (∃ text : String, assemble "en.json" greetingTree greetingReference none ⟨2, []⟩ = .ok text ∧
      readLocaleFile "en.json" text = [("hello", .literal "hello"),
        ("menu", .object [("quit", .literal "quit")]), ("bye", .literal "bye, all")]) ∧
    assemble "en.json" (greetingTree.textView greetingReference) greetingReference none ⟨2, []⟩
      = assemble "en.json" greetingTree greetingReference none ⟨2, []⟩ := by
  have hfile : Language.ofFileName? "en.json" = some .json := by decide
  obtain ⟨hread, -, hsame⟩ := json_round_trip hfile none ⟨2, []⟩
  refine ⟨hfile, hread greetingTree greetingReference, hsame _ _ ?_ ?_⟩
  · simp [Tree.Unique, Tree.keys, Tree.UniqueBelow, Node.Unique, greetingTree]
  · simp [Tree.Unique, Tree.keys, Tree.UniqueBelow, Node.Unique, greetingReference]

end LocaleEditor
