/-
LocaleEditor.Proofs.Tree.Absent — what the edited tree does not have at all.

With translated entries hidden, `align` lists a missing key if the emptied
copy of its node is blank. Emptying clears texts but keeps names, which are the
same in every locale: a node that is nothing but a name, by itself or returned
by a function, is left as it is and does not count as untranslated.

* `Node.isBlank_emptied` — what emptying leaves blank.
* `lists_alignLevel_iff` — the induction along a path that the edited tree
  lacks, one level a key.
* `absent_listed` — everything that is missing is listed, names excepted.
* `exists_absent_unlisted` — a missing name is not.
-/
import LocaleEditor.Proofs.Tree.Fill

namespace LocaleEditor

open LocaleEditor.Tree

/-! ## 1. Names -/

/-- Whether what a function returns is a name. -/
def Body.isName : Body → Bool
  | .variable n => !n.isEmpty
  | _ => false

/-- Whether a node is nothing but a name, or a function that returns one. -/
def Node.isName : Node → Bool
  | .variable n => !n.isEmpty
  | .function _ body => body.isName
  | _ => false

theorem itemsBlank_emptied (items : List Item) : itemsBlank (items.map Item.emptied) = true := by
  simp only [itemsBlank, List.all_filter, List.all_map, List.all_eq_true]
  intro i _
  cases i <;> rfl

theorem Body.isBlank_emptied (b : Body) : b.emptied.isBlank = !b.isName := by
  cases b with
  | literal _ => rfl
  | template _ => rfl
  | «variable» name => exact (Bool.not_not name.isEmpty).symm
  | array items => exact itemsBlank_emptied items
  | block _ => rfl

/-- Emptying leaves every node blank that is no name. -/
theorem Node.isBlank_emptied (n : Node) : n.emptied.isBlank = !n.isName := by
  cases n with
  | literal _ => rfl
  | template _ => rfl
  | «variable» name => exact (Bool.not_not name.isEmpty).symm
  | array items => exact itemsBlank_emptied items
  | object _ => rfl
  | function _ body => exact body.isBlank_emptied
  | unknown => rfl

/-! ## 2. Paths that lead nowhere -/

/-- There is nothing at the path, and only objects are on the way to it. -/
def Tree.Lacks (t : Tree) (path : List String) : Prop :=
  t.at? path = none ∧ ∀ way, way <+: path → ∀ n, t.at? way = some n → n.entries? ≠ none

variable {reference edited : Tree} {key next : String} {rest path : List String}

theorem Tree.Lacks.get?_eq_none (h : edited.Lacks [key]) : edited.get? key = none :=
  (at?_singleton edited key).symm.trans h.1

theorem Tree.Lacks.isOpen (h : edited.Lacks path) : edited.Open path :=
  fun way hway _ => h.2 way hway

theorem Tree.lacks_of_open (hnone : edited.at? path = none) (hopen : edited.Open path) :
    edited.Lacks path := by
  refine ⟨hnone, fun way hway n hn => hopen way hway ?_ n hn⟩
  rintro rfl
  exact absurd (hnone.symm.trans hn) nofun

/-- Where the first key is missing, so is everything below it. -/
theorem Tree.lacks_of_get? (h : edited.get? key = none) (rest : List String) :
    edited.Lacks (key :: rest) := by
  refine lacks_of_open (by rw [at?_cons, h]; rfl) ?_
  cases rest with
  | nil => exact open_singleton edited key
  | cons next rest => exact open_of_below (.inr ⟨h, rfl⟩) (open_empty next rest)

/-- Under the first key is an object that lacks the rest of the path, or nothing, which is as good
as an empty object. -/
theorem Tree.Lacks.below (h : edited.Lacks (key :: next :: rest)) :
    ∃ es, (edited.get? key = some (.object es) ∨ edited.get? key = none ∧ es = []) ∧
      Tree.Lacks es (next :: rest) := by
  obtain ⟨es, hes, hopen⟩ := h.isOpen.below
  exact ⟨es, hes, lacks_of_open ((at?_below hes).symm.trans h.1) hopen⟩

/-! ## 3. What is listed -/

/-- One of the events is an entry at the path. -/
def Event.Lists (events : List Event) (path : List String) : Prop :=
  ∃ place r e, .entry place r e ∈ events ∧ place.path = path

theorem Event.mem_entries (place : Place) (r e : Node) (events : List Event) :
    .entry place r e ∈ entries events ↔ .entry place r e ∈ events := by
  simp [entries]

theorem Event.lists_congr {events others : List Event} (h : entries events = entries others) :
    Lists events path ↔ Lists others path := by
  unfold Lists
  refine exists_congr fun place => exists_congr fun r => exists_congr fun e => ?_
  rw [← mem_entries, h, mem_entries]

variable {hide : Bool} {levels : Nat} {parent : List String}

theorem lists_slot_objects {place : Place} {r e : Tree} :
    Event.Lists (slot hide levels place (some (.object r, .object e))) path
      ↔ Event.Lists (alignLevel hide levels place.path r e) path :=
  Event.lists_congr (Event.entries_slot_objects hide levels place r e)

theorem lists_slot_entry {place : Place} {r e : Node} (h : r.entries? = none ∨ e.entries? = none) :
    Event.Lists (slot hide levels place (some (r, e))) path
      ↔ place.path = path ∧ (hide = true → e.isBlank = true) := by
  rw [slot_entry hide levels place h]
  cases hide <;> cases e.isBlank <;> simp [Event.Lists]

mutual

/-- The entries of a level stand below its parent. -/
theorem prefix_of_lists_alignLevel : ∀ (levels : Nat) {parent : List String}
    {reference edited : Tree}, Event.Lists (alignLevel hide levels parent reference edited) path →
      parent <+: path
  | 0, _, _, _, h => by simp [alignLevel, Event.Lists] at h
  | levels + 1, parent, reference, edited, h => by
    obtain ⟨place, r, e, hmem, hpath⟩ := h
    rw [alignLevel_succ, List.mem_flatMap] at hmem
    obtain ⟨⟨key, i⟩, -, hmem⟩ := hmem
    have hprefix := prefix_of_lists_slot levels ⟨place, r, e, hmem, hpath⟩
    exact (List.prefix_append parent [key]).trans hprefix

/-- The entries of a slot stand at its key or below. -/
theorem prefix_of_lists_slot : ∀ (levels : Nat) {place : Place} {s : Option (Node × Node)},
    Event.Lists (slot hide levels place s) path → place.path <+: path
  | _, _, none, h => by simp [slot, Event.Lists] at h
  | levels, _, some (r, e), h => by
    obtain hn | ⟨res, ees, rfl, rfl⟩ := entry_or_objects r e
    · exact ((lists_slot_entry hn).mp h).1 ▸ List.prefix_rfl
    · exact prefix_of_lists_alignLevel levels (lists_slot_objects.mp h)

end

/-- What is listed below a key is listed in the slot of that key. -/
theorem lists_alignLevel_succ :
    Event.Lists (alignLevel hide (levels + 1) parent reference edited) (parent ++ key :: rest) ↔
      ∃ i, (key, i) ∈ (mergedKeys reference edited).zipIdx ∧
        Event.Lists (slot hide levels
          (.below parent (mergedKeys reference edited).length key i)
          (sides? reference edited key)) (parent ++ key :: rest) := by
  constructor
  · rintro ⟨place, r, e, hmem, hpath⟩
    rw [alignLevel_succ, List.mem_flatMap] at hmem
    obtain ⟨⟨key', i⟩, hkey, hmem⟩ := hmem
    have hlists : Event.Lists _ (parent ++ key :: rest) := ⟨place, r, e, hmem, hpath⟩
    have hprefix : parent ++ [key'] <+: parent ++ key :: rest :=
      prefix_of_lists_slot levels hlists
    obtain rfl : key' = key := by simpa using hprefix
    exact ⟨i, hkey, hlists⟩
  · rintro ⟨i, hkey, place, r, e, hmem, hpath⟩
    rw [alignLevel_succ]
    exact ⟨place, r, e, List.mem_flatMap.mpr ⟨(key, i), hkey, hmem⟩, hpath⟩

/-! ## 4. What is missing -/

theorem sides?_of_objects {r e : Tree} (hr : reference.get? key = some (.object r))
    (he : edited.get? key = some (.object e) ∨ edited.get? key = none ∧ e = []) :
    sides? reference edited key = some (.object r, .object e) := by
  rcases he with he | ⟨he, rfl⟩ <;> simp [sides?, hr, he, Node.emptied]

theorem exists_mem_zipIdx {s : Node × Node} (h : sides? reference edited key = some s) :
    ∃ i, (key, i) ∈ (mergedKeys reference edited).zipIdx := by
  have hmem := mem_mergedKeys_of_sides? h
  rw [← List.zipIdx_map_fst 0 (mergedKeys reference edited), List.mem_map] at hmem
  obtain ⟨⟨k, i⟩, hki, rfl⟩ := hmem
  exact ⟨i, hki⟩

/-- Along a path that the edited tree lacks every level shows it as an empty object, up to the last
key, under which the emptied copy of the reference's node decides. -/
theorem lists_alignLevel_iff {n : Node} (hleaf : n.entries? = none) :
    ∀ (path : List String) (levels : Nat) (parent : List String) {reference edited : Tree},
      reference.at? path = some n → edited.Lacks path →
      (Node.object reference).depth ≤ levels →
      (Event.Lists (alignLevel true levels parent reference edited) (parent ++ path)
        ↔ n.isName = false)
  | [], _, _, _, _, hat, _, _ => by
    obtain rfl := Option.some.inj hat
    cases hleaf
  | _ :: _, 0, _, _, _, _, _, hdepth => by simp [Node.depth] at hdepth
  | [key], levels + 1, parent, reference, edited, hat, hlacks, _ => by
    obtain ⟨child, hget, hchild⟩ := at?_cons_eq_some_iff.mp hat
    obtain rfl := Option.some.inj hchild
    have hs : sides? reference edited key = some (child, child.emptied) := by
      simp [sides?, hget, hlacks.get?_eq_none]
    rw [lists_alignLevel_succ]
    simp only [hs, lists_slot_entry (.inl hleaf), Place.below, child.isBlank_emptied]
    simp [exists_mem_zipIdx hs]
  | key :: next :: rest, levels + 1, parent, reference, edited, hat, hlacks, hdepth => by
    obtain ⟨child, hget, hchild⟩ := at?_cons_eq_some_iff.mp hat
    cases hes : child.entries? with
    | none => simp [Node.at?, hes] at hchild
    | some res =>
      obtain rfl := Node.eq_object_of_entries? hes
      obtain ⟨ees, heget, hbelow⟩ := hlacks.below
      have hs := sides?_of_objects hget heget
      have hres : (Node.object res).depth ≤ levels := by
        have hle : (Node.object res).depth ≤ Node.depth.entriesDepth reference :=
          depth_le_entriesDepth (mem_of_get? hget)
        simp only [Node.depth] at hdepth hle ⊢
        omega
      have ih := lists_alignLevel_iff hleaf (next :: rest) levels (parent ++ [key]) hchild hbelow hres
      rw [lists_alignLevel_succ]
      simp only [hs, lists_slot_objects, Place.below]
      simpa [exists_mem_zipIdx hs] using ih

/-- Whatever the reference has at a path where the edited tree has nothing at all is listed as
untranslated, names and functions that return a name excepted. So where nothing is listed nothing
else is missing. -/
theorem absent_listed (reference edited : Tree) :
    (∀ path n, reference.at? path = some n → n.entries? = none → edited.Lacks path →
      (Event.Lists (align reference edited true) path ↔ n.isName = false)) ∧
    (Event.entries (align reference edited true) = [] →
      ∀ path n, reference.at? path = some n → n.entries? = none → edited.Lacks path →
        n.isName = true) := by
  have hlisted : ∀ path n, reference.at? path = some n → n.entries? = none →
      edited.Lacks path → (Event.Lists (align reference edited true) path ↔ n.isName = false) :=
    fun path n hat hleaf hlacks =>
      lists_alignLevel_iff hleaf path _ [] hat hlacks (Nat.le_max_left _ _)
  refine ⟨hlisted, fun hnothing path n hat hleaf hlacks => ?_⟩
  by_contra hname
  obtain ⟨place, r, e, hmem, -⟩ :=
    (hlisted path n hat hleaf hlacks).mpr (Bool.eq_false_iff.mpr hname)
  rw [← Event.mem_entries, hnothing] at hmem
  exact absurd hmem List.not_mem_nil

/-- The menu is missing, and so each of its entries is listed. -/
theorem absent_listed_quit :
    menuReference.at? ["menu", "quit"] = some (.literal "Quit") ∧
      (Node.literal "Quit").entries? = none ∧
      Tree.Lacks [("title", .literal "Titre")] ["menu", "quit"] ∧
      Event.Lists (align menuReference [("title", .literal "Titre")] true) ["menu", "quit"] := by
  have hlacks : Tree.Lacks [("title", .literal "Titre")] ["menu", "quit"] :=
    lacks_of_get? (by decide) ["quit"]
  exact ⟨rfl, rfl, hlacks, ((absent_listed _ _).1 _ _ rfl rfl hlacks).mpr rfl⟩

/-- A name that is missing is not listed: its stand-in is the name itself. -/
theorem exists_absent_unlisted :
    ¬ ∀ (reference edited : Tree), reference.Unique → edited.Unique →
      ∀ path n, reference.at? path = some n → n.entries? = none → edited.Lacks path →
        Event.Lists (align reference edited true) path := by
  intro h
  have hr : Tree.Unique [("site", .variable "SITE")] := by
    simp [Tree.Unique, Tree.keys, Tree.UniqueBelow, Node.Unique]
  obtain ⟨place, r, e, hmem, -⟩ :=
    h [("site", .variable "SITE")] [] hr unique_nil ["site"] _ rfl rfl (lacks_of_get? rfl [])
  have hnothing : align [("site", .variable "SITE")] [] true = [] := rfl
  rw [hnothing] at hmem
  exact absurd hmem List.not_mem_nil

end LocaleEditor
