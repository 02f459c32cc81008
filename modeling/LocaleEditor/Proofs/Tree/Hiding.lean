/-
LocaleEditor.Proofs.Tree.Hiding — hiding translated entries is filtering.

With `hide`, `align` leaves entries out while it goes through the trees, and
objects while it comes back up. The same events come from a filter over the
events of both trees in full: every entry that is not blank is taken out, and
then every object that nothing is left in (`align_hide`).

An object is a start and a stop with the same place, somewhere apart. Taking
out hollow objects from the inside means that a start meets its stop when all
that was between them is gone. `Event.dropHollow` does so in one pass from the
right; `Event.Drops` is one such step, in any order, and the pass is a run of
such steps after which none is possible (`drops_dropHollow`,
`not_drops_dropHollow`).

`foldr_onto_alignLevel` is the induction on the levels. It speaks of any
events after those of the level, because a pass comes to a level from what
stands to the right of it. No keys have to be unique.
-/
import LocaleEditor.Proofs.Tree.Levels
import Mathlib.Logic.Relation

namespace LocaleEditor

open LocaleEditor.Tree

/-! ## 1. Hollow objects -/

/-- Whether the event is an entry with something in it that a translator typed. -/
def Event.isTranslated : Event → Bool
  | .entry _ _ edited => !edited.isBlank
  | _ => false

/-- The events without those entries. -/
def Event.untranslated (events : List Event) : List Event :=
  events.filter fun event => !event.isTranslated

/-- One object without anything in it is taken out. -/
inductive Event.Drops : List Event → List Event → Prop where
  | drop (before after : List Event) (place : Place) :
      Drops (before ++ .start place :: .stop place :: after) (before ++ after)

/-- Puts an event in front of others; a start that meets its own stop goes with it. -/
def Event.onto : Event → List Event → List Event
  | .start place, .stop other :: rest =>
    if place = other then rest else .start place :: .stop other :: rest
  | event, rest => event :: rest

/-- Takes out every object without anything in it, innermost first. -/
def Event.dropHollow (events : List Event) : List Event := events.foldr Event.onto []

namespace Event

variable {event : Event} {events others rest : List Event} {place : Place}

theorem onto_start_stop (place : Place) (rest : List Event) :
    onto (.start place) (.stop place :: rest) = rest :=
  if_pos rfl

/-- An event meets the stop of its object, or it is kept. -/
theorem onto_cases (event : Event) (rest : List Event) :
    (∃ place, event = .start place ∧ rest = .stop place :: onto event rest) ∨
      onto event rest = event :: rest ∧
        ∀ place after, event = .start place → rest ≠ .stop place :: after := by
  unfold onto
  split
  · rename_i place other rest
    split
    · rename_i heq
      exact .inl ⟨place, rfl, by rw [heq]⟩
    · rename_i hne
      refine .inr ⟨rfl, ?_⟩
      rintro p after hp hrest
      obtain rfl := Event.start.inj hp
      exact hne (Event.stop.inj (List.cons.inj hrest).1).symm
  · rename_i hnot
    exact .inr ⟨rfl, fun place after hevent hrest => hnot place place after hevent hrest⟩

theorem onto_of_ne_stop (h : ∀ place after, rest ≠ .stop place :: after) :
    onto event rest = event :: rest := by
  obtain ⟨place, -, hrest⟩ | ⟨hkept, -⟩ := onto_cases event rest
  · exact absurd hrest (h place _)
  · exact hkept

theorem Drops.cons (event : Event) (h : Drops events others) :
    Drops (event :: events) (event :: others) := by
  obtain ⟨before, after, place⟩ := h
  exact .drop (event :: before) after place

/-- The object that is taken out begins with the first event, or it stands behind that. -/
theorem drops_cons (h : Drops (event :: rest) others) :
    (∃ place after, event = .start place ∧ rest = .stop place :: after) ∨
      ∃ others, Drops rest others := by
  generalize hwhole : event :: rest = whole at h
  obtain ⟨before, after, place⟩ := h
  cases before with
  | nil =>
    obtain ⟨rfl, rfl⟩ := List.cons.inj hwhole
    exact .inl ⟨place, after, rfl, rfl⟩
  | cons first before =>
    obtain ⟨rfl, rfl⟩ := List.cons.inj hwhole
    exact .inr ⟨_, .drop before after place⟩

/-- The pass takes out one hollow object after another. -/
theorem drops_dropHollow (events : List Event) :
    Relation.ReflTransGen Drops events (dropHollow events) := by
  induction events with
  | nil => exact .refl
  | cons event events ih =>
    have hfront : Relation.ReflTransGen Drops (event :: events) (event :: dropHollow events) :=
      ih.lift (event :: ·) fun _ _ h => h.cons event
    show Relation.ReflTransGen Drops (event :: events) (onto event (dropHollow events))
    obtain ⟨place, rfl, hrest⟩ | ⟨hkept, -⟩ := onto_cases event (dropHollow events)
    · refine hfront.tail ?_
      nth_rewrite 1 [hrest]
      exact .drop [] _ place
    · rwa [hkept]

/-- After the pass no object is hollow. -/
theorem not_drops_dropHollow (events others : List Event) : ¬ Drops (dropHollow events) others := by
  induction events generalizing others with
  | nil =>
    intro h
    generalize hwhole : dropHollow [] = whole at h
    obtain ⟨before, after, place⟩ := h
    simp [dropHollow] at hwhole
  | cons event events ih =>
    intro h
    change Drops (onto event (dropHollow events)) others at h
    obtain ⟨place, rfl, hrest⟩ | ⟨hkept, hapart⟩ := onto_cases event (dropHollow events)
    · have hbehind := h.cons (.stop place)
      rw [← hrest] at hbehind
      exact ih _ hbehind
    · rw [hkept] at h
      obtain ⟨place, after, hevent, hrest⟩ | ⟨others, h⟩ := drops_cons h
      · exact hapart place after hevent hrest
      · exact ih others h

theorem Drops.sublist (h : Drops events others) : others.Sublist events := by
  obtain ⟨before, after, place⟩ := h
  exact (((List.sublist_cons_self _ after).trans (List.sublist_cons_self _ _))).append_left before

theorem sublist_of_drops (h : Relation.ReflTransGen Drops events others) :
    others.Sublist events := by
  induction h with
  | refl => exact List.Sublist.refl _
  | tail _ hlast ih => exact hlast.sublist.trans ih

end Event

/-! ## 2. One level -/

variable {hide : Bool} {levels : Nat} {parent : List String} {reference edited : Tree}

/-- No slot begins with a stop. -/
theorem slot_head?_ne_stop (place other : Place) (s : Option (Node × Node)) :
    (slot hide levels place s).head? ≠ some (.stop other) := by
  intro h
  cases s with
  | none => cases h
  | some s =>
    obtain ⟨r, e⟩ := s
    obtain hn | ⟨res, ees, rfl, rfl⟩ := entry_or_objects r e
    · rw [slot_entry hide levels place hn] at h
      split at h <;> cases h
    · rw [slot_objects] at h
      cases hchildren : alignLevel hide levels place.path res ees with
      | nil => simp [hchildren, Event.enclosed] at h
      | cons first others => simp [hchildren, Event.enclosed] at h

/-- No level begins with a stop. -/
theorem alignLevel_ne_stop (place : Place) (after : List Event) :
    alignLevel hide levels parent reference edited ≠ .stop place :: after := by
  cases levels with
  | zero => exact nofun
  | succ levels =>
    intro h
    have hhead := congrArg List.head? h
    rw [alignLevel_succ, List.head?_flatMap, List.head?_cons] at hhead
    obtain ⟨p, -, hp⟩ := List.exists_of_findSome?_eq_some hhead
    exact slot_head?_ne_stop _ _ _ hp

/-- A pass over many parts follows from a pass over each. -/
theorem foldr_onto_flatMap {α : Type} {f g : α → List Event}
    (h : ∀ a rest, (Event.untranslated (f a)).foldr Event.onto rest = g a ++ rest) :
    ∀ (l : List α) (rest : List Event),
      (Event.untranslated (l.flatMap f)).foldr Event.onto rest = l.flatMap g ++ rest
  | [], _ => rfl
  | a :: l, rest => by
    have ih := foldr_onto_flatMap h l rest
    rw [Event.untranslated] at ih
    rw [Event.untranslated, List.flatMap_cons, List.filter_append, List.foldr_append, ih,
      ← Event.untranslated, h, List.flatMap_cons, List.append_assoc]

/-- The pass over an object follows from the pass over what is in it: if nothing is left there, the
start meets its stop. -/
theorem foldr_onto_enclosed {shown hidden : List Event}
    (h : ∀ rest, (Event.untranslated shown).foldr Event.onto rest = hidden ++ rest)
    (hstop : ∀ place after, hidden ≠ .stop place :: after) (place : Place) (rest : List Event) :
    (Event.untranslated (Event.enclosed place shown)).foldr Event.onto rest
      = Event.enclosed place hidden ++ rest := by
  cases shown with
  | nil =>
    have hhidden : hidden = [] := by simpa [Event.untranslated] using (h []).symm
    rw [hhidden]
    rfl
  | cons first others =>
    have hpass : (Event.untranslated ([.start place] ++ (first :: others) ++ [.stop place])).foldr
        Event.onto rest = Event.onto (.start place) (hidden ++ .stop place :: rest) := by
      rw [← h, Event.untranslated, List.filter_append, List.filter_append, List.foldr_append,
        List.foldr_append]
      rfl
    refine hpass.trans ?_
    cases hidden with
    | nil => exact Event.onto_start_stop place rest
    | cons first others =>
      rw [Event.onto_of_ne_stop]
      · simp [Event.enclosed]
      · intro other after hafter
        exact hstop other others (by rw [(List.cons.inj hafter).1])

mutual

/-- From what stands behind a level, the pass over its events in full gives the events of the level
with translated entries hidden. -/
theorem foldr_onto_alignLevel : ∀ (levels : Nat) (parent : List String) (reference edited : Tree)
    (rest : List Event),
    (Event.untranslated (alignLevel false levels parent reference edited)).foldr Event.onto rest
      = alignLevel true levels parent reference edited ++ rest
  | 0, _, _, _, _ => rfl
  | levels + 1, parent, reference, edited, rest => by
    rw [alignLevel_succ, alignLevel_succ]
    exact foldr_onto_flatMap (fun p rest => foldr_onto_slot levels _ _ rest) _ rest

theorem foldr_onto_slot : ∀ (levels : Nat) (place : Place) (s : Option (Node × Node))
    (rest : List Event),
    (Event.untranslated (slot false levels place s)).foldr Event.onto rest
      = slot true levels place s ++ rest
  | _, _, none, _ => rfl
  | levels, place, some (r, e), rest => by
    obtain hn | ⟨res, ees, rfl, rfl⟩ := entry_or_objects r e
    · rw [slot_entry _ _ _ hn, slot_entry _ _ _ hn]
      cases he : e.isBlank <;> simp [Event.untranslated, Event.isTranslated, he, Event.onto]
    · rw [slot_objects, slot_objects]
      exact foldr_onto_enclosed (foldr_onto_alignLevel levels place.path res ees)
        (fun _ _ => alignLevel_ne_stop _ _) place rest

end

/-! ## 3. The whole list -/

/-- Hiding is filtering: with translated entries hidden, the events are those of the two trees in
full without the entries that are not blank, and then without the objects that nothing is left in,
innermost first, until there is none. All that remain keep their order and are as they were. -/
theorem align_hide (reference edited : Tree) :
    align reference edited true
        = Event.dropHollow (Event.untranslated (align reference edited false)) ∧
      Relation.ReflTransGen Event.Drops
        (Event.untranslated (align reference edited false))
        (align reference edited true) ∧
      (∀ others, ¬ Event.Drops (align reference edited true) others) ∧
      (align reference edited true).Sublist (align reference edited false) := by
  have hpass : align reference edited true
      = Event.dropHollow (Event.untranslated (align reference edited false)) := by
    rw [Event.dropHollow, align, align, foldr_onto_alignLevel, List.append_nil]
  have hdrops := Event.drops_dropHollow (Event.untranslated (align reference edited false))
  have hnone := Event.not_drops_dropHollow (Event.untranslated (align reference edited false))
  rw [← hpass] at hdrops hnone
  exact ⟨hpass, hdrops, hnone, (Event.sublist_of_drops hdrops).trans List.filter_sublist⟩

end LocaleEditor
