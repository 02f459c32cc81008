/-
LocaleEditor.Proofs.Script.Shrinking — no reader of a script leaves more text than it found.

The pieces that hold no expression come first: white space, words, types,
patterns, elements, blocks and classes. What is nested in them is read by a
grammar, of which only the same is assumed (`Grammar.Shrinks`).

Both properties are classes, `Shrinks` (no more text is left) and `Advances`
(less text is left), with an instance for each way to put readers together. So a
reader that is put together from others by steps, choices and repetitions needs
no proof of its own. What is proved by hand are the readers that look at
characters, and those that go back or ahead in the text with `goTo`: there it
has to be said why the place they go to lies before the one they began at.
-/
import LocaleEditor.Proofs.Script.Reading
import LocaleEditor.Script.Statement
import Mathlib.Data.List.TakeWhile

namespace LocaleEditor.Script

open LocaleEditor.Text Reader

-- the size that instance search counts doubles with each step of a reader
set_option synthInstance.maxSize 1000000

variable {α : Type} {s : List Char} {d : Dialect}

/-! ## 1. White space and ends of statements

Everything below passes over white space first, so that the bound on `trivia` is
what the bounds on the other readers come from. -/

/-- Passing over white space and comments leaves no more text; `skip` characters of a comment may
be passed over already. -/
theorem trivia_length_le (html : Bool) (s : List Char) : (trivia html s).length ≤ s.length := by
  -- by induction on the text; a comment is passed over character by character
  have from' : ∀ (s : List Char) (skip : Nat), (triviaFrom html skip s).length ≤ s.length := by
    intro s
    induction s with
    | nil => exact fun skip => Nat.le_refl _
    | cons c r ih =>
      intro skip
      have hr : ∀ k, (triviaFrom html k r).length ≤ (c :: r).length :=
        fun k => Nat.le_succ_of_le (ih k)
      cases skip with
      | succ k => exact hr k
      | zero =>
        unfold triviaFrom
        dsimp only
        split
        · exact hr 0
        · split
          · exact Nat.le_refl _
          · exact hr _
  exact from' s 0

/-- There is no more white space in front after white space has been passed. -/
theorem trivia_trivia (html : Bool) (s : List Char) :
    trivia html (trivia html s) = trivia html s := by
  -- what is left begins with a character that is neither space nor the start of a comment
  have from' : ∀ (s : List Char) (skip : Nat),
      triviaFrom html 0 (triviaFrom html skip s) = triviaFrom html skip s := by
    intro s
    induction s with
    | nil => exact fun skip => rfl
    | cons c r ih =>
      intro skip
      cases skip with
      | succ k => exact ih k
      | zero =>
        cases hspace : isSpace c with
        | true => simp [triviaFrom, hspace, ih]
        | false =>
          cases hcomment : commentLength html (c :: r) with
          | zero => simp [triviaFrom, hspace, hcomment]
          | succ n => simp [triviaFrom, hspace, hcomment, ih]
  exact from' s 0

/-- The text after what comes next is shorter. -/
theorem length_lt_of_trivia_eq_cons {html : Bool} {c : Char} {r : List Char}
    (h : trivia html s = c :: r) : r.length < s.length := by
  have hle := trivia_length_le html s
  rw [h] at hle
  exact hle

/-- A statement that ends without a semicolon ends where it is looked at or later: after comments
on its line. -/
theorem length_le_of_end?_eq_some {operator : Bool} {rest : List Char}
    (h : end? d operator s = some rest) : rest.length ≤ s.length := by
  have within : ∀ n s, endWithin? d operator n s = some rest → rest.length ≤ s.length := by
    intro n
    induction n with
    | zero =>
      intro s h
      cases h
    | succ n ih =>
      intro s h
      rw [endWithin?] at h
      split at h
      · obtain rfl := Option.some.inj h
        exact Nat.le_refl _
      · dsimp only at h
        split at h
        · cases h
        · have hdrop := ih _ h
          rw [List.length_drop] at hdrop
          have hspace := List.length_dropWhile_le isSpace s
          omega
  exact within _ _ h

/-- With a semicolon and without one. -/
instance {operator : Bool} : Shrinks (semicolon d operator) where
  le s := by
    intro u rest h
    unfold semicolon at h
    split at h
    · next hend =>
      obtain ⟨-, rfl⟩ := Outcome.done.inj h
      exact length_le_of_end?_eq_some hend
    · split at h
      · next htrivia =>
        obtain ⟨-, rfl⟩ := Outcome.done.inj h
        exact Nat.le_of_lt (length_lt_of_trivia_eq_cons htrivia)
      · cases h

/-! ## 2. Punctuation and words

A sign or a word takes at least one character where it is read, which is what
makes whatever begins with one advance. The words of a language are told apart
only after that, so that `keyword` inherits it from `word`. -/

/-- White space alone. -/
instance : Shrinks gap := ⟨fun s _ rest h => by
  obtain ⟨-, rfl⟩ := Outcome.done.inj h
  exact trivia_length_le false s⟩

instance : Shrinks gapBefore := ⟨fun s _ rest h => by
  obtain ⟨-, rfl⟩ := Outcome.done.inj h
  exact trivia_length_le true s⟩

/-- A prefix that is not empty leaves less text. -/
theorem length_drop_lt_of_isPrefixOf {c : Char} {t : List Char} (h : (c :: t).isPrefixOf s = true) :
    (s.drop (c :: t).length).length < s.length := by
  have hle := (List.isPrefixOf_iff_prefix.mp h).length_le
  rw [List.length_drop]
  simp only [List.length_cons] at hle ⊢
  omega

/-- A symbol with at least one character; no other one is read anywhere. -/
instance {c : Char} {t : List Char} : Advances (symbol (c :: t)) where
  lt s := by
    intro u rest h
    unfold symbol at h
    dsimp only at h
    split at h
    · next hp =>
      obtain ⟨-, rfl⟩ := Outcome.done.inj h
      exact Nat.lt_of_lt_of_le (length_drop_lt_of_isPrefixOf hp) (trivia_length_le false s)
    · cases h

instance {c : Char} : Advances (sign c) := inferInstanceAs (Advances (symbol [c]))

instance : Advances arrow := inferInstanceAs (Advances (symbol _))

/-- A symbol that is found by a search in a list need not be known to have characters. -/
instance {t : List Char} : Shrinks (symbol t) where
  le s := by
    intro u rest h
    unfold symbol at h
    dsimp only at h
    split at h
    · obtain ⟨-, rfl⟩ := Outcome.done.inj h
      have hle := trivia_length_le false s
      rw [List.length_drop]
      omega
    · cases h

instance {c : Char} : Shrinks (sign c) := inferInstanceAs (Shrinks (symbol [c]))

instance : Shrinks arrow := inferInstanceAs (Shrinks (symbol _))

instance {c : Char} {t next : List Char} : Advances (symbolUnless (c :: t) next) where
  lt s := by
    intro u rest h
    unfold symbolUnless at h
    dsimp only at h
    split at h
    · next hp =>
      obtain ⟨-, rfl⟩ := Outcome.done.inj h
      have hprefix := (Bool.and_eq_true_iff.mp hp).1
      exact Nat.lt_of_lt_of_le (length_drop_lt_of_isPrefixOf hprefix) (trivia_length_le false s)
    · cases h

instance {c : Char} {t next : List Char} : Shrinks (symbolUnless (c :: t) next) :=
  Advances.shrinks inferInstance

instance : Advances equals := inferInstanceAs (Advances (symbolUnless _ _))

instance : Shrinks equals := Advances.shrinks inferInstance

/-- Where a word begins there is text. -/
theorem length_pos_of_wordLength {n : Nat} (h : wordLength s = n + 1) : 0 < s.length := by
  cases s with
  | nil => cases h
  | cons c r => exact Nat.succ_pos _

/-- A word of length 0 is none. -/
instance : Advances word where
  lt s := by
    intro w rest h
    unfold word at h
    dsimp only at h
    split at h
    · cases h
    · next hn =>
      obtain ⟨-, rfl⟩ := Outcome.done.inj h
      have hle := trivia_length_le true s
      have hpos := length_pos_of_wordLength hn
      rw [List.length_drop]
      omega

instance : Shrinks word := Advances.shrinks inferInstance

/-- A word that is another one than was asked for is not read at all. -/
instance {k : String} : Advances (keyword k) where
  lt s := by
    intro u rest h
    unfold keyword at h
    split at h
    · next hw =>
      split at h
      · obtain ⟨-, rfl⟩ := Outcome.done.inj h
        exact Advances.lt s _ _ hw
      · cases h
    · cases h

instance {k : String} : Shrinks (keyword k) := Advances.shrinks inferInstance

/-- A string is left after its closing quote. -/
instance : Advances stringLiteral where
  lt s := by
    intro inner rest h
    unfold stringLiteral at h
    split at h
    · next htrivia =>
      split at h
      · split at h
        · obtain ⟨-, rfl⟩ := Outcome.done.inj h
          have hlt := length_lt_of_trivia_eq_cons htrivia
          rw [List.length_drop]
          omega
        · cases h
      · cases h
    · cases h

instance : Shrinks stringLiteral := Advances.shrinks inferInstance

/-- A number is measured and dropped. -/
instance : Shrinks number where
  le s := by
    intro u rest h
    unfold number at h
    dsimp only at h
    split at h
    · cases h
    · obtain ⟨-, rfl⟩ := Outcome.done.inj h
      have hle := trivia_length_le true s
      rw [List.length_drop]
      omega

/-! ## 3. Lists

The repetitions are recursive in the number of rounds that are left, and so is
the proof for each: by induction on the rounds, for every text. That the rounds
suffice does not matter here, because without a round left nothing is read. -/

/-- Rounds up to where `stop` is satisfied. -/
instance {stop : List Char → Bool} {p : Reader α} [Shrinks p] : Shrinks (repeatUntil stop p) where
  le s := by
    have within : ∀ n s, (repeatWithin stop p n).Yields s
        fun _ rest => rest.length ≤ s.length := by
      intro n
      induction n with
      | zero => exact fun s => .fail
      | succ n ih =>
        -- nothing is read where `stop` holds, and otherwise one round before the others
        intro s as rest h
        unfold repeatWithin at h
        split at h
        · obtain ⟨-, rfl⟩ := Outcome.done.inj h
          exact Nat.le_refl _
        · split at h
          · cases h
          · next hp =>
            split at h
            · cases h
            · next hrest =>
              obtain ⟨-, rfl⟩ := Outcome.done.inj h
              exact Nat.le_trans (ih _ _ _ hrest) (Shrinks.le s _ _ hp)
    exact within _ s

/-- In a list with missing items a comma in front is passed over without an item. -/
instance {close : Char} {item : Reader α} [Shrinks item] : Shrinks (looseList close item) where
  le s := by
    have within : ∀ n s, (looseListWithin close item n).Yields s
        fun _ rest => rest.length ≤ s.length := by
      intro n
      induction n with
      | zero => exact fun s => .fail
      | succ n ih =>
        -- the end of the list, a comma alone, or an item with what comes after it
        intro s as rest h
        unfold looseListWithin at h
        split at h
        · cases h
        · next hs =>
          have hlt := length_lt_of_trivia_eq_cons hs
          split at h
          · obtain ⟨-, rfl⟩ := Outcome.done.inj h
            exact Nat.le_of_lt hlt
          · split at h
            · exact Nat.le_trans (ih _ _ _ h) (Nat.le_of_lt hlt)
            · split at h
              · cases h
              · next hitem =>
                have hle := Shrinks.le s _ _ hitem
                split at h
                · next hcomma =>
                  have hlt' := length_lt_of_trivia_eq_cons hcomma
                  split at h
                  · next hrest =>
                    obtain ⟨-, rfl⟩ := Outcome.done.inj h
                    have := ih _ _ _ hrest
                    omega
                  · cases h
                · next hclose =>
                  have hlt' := length_lt_of_trivia_eq_cons hclose
                  split at h
                  · obtain ⟨-, rfl⟩ := Outcome.done.inj h
                    omega
                  · cases h
                · cases h
    exact within _ s

/-- A list in which every comma follows an item. -/
instance {close : Char} {item : Reader α} [Shrinks item] : Shrinks (strictList close item) where
  le s := by
    have within : ∀ n s, (strictListWithin close item n).Yields s
        fun _ rest => rest.length ≤ s.length := by
      intro n
      induction n with
      | zero => exact fun s => .fail
      | succ n ih =>
        intro s as rest h
        -- the end of the list, or an item and then a comma or the end
        unfold strictListWithin at h
        split at h
        · obtain ⟨-, rfl⟩ := Outcome.done.inj h
          have hle := trivia_length_le false s
          rw [List.length_drop]
          omega
        · split at h
          · cases h
          · next hitem =>
            have hle := Shrinks.le s _ _ hitem
            split at h
            · next hcomma =>
              have hlt := length_lt_of_trivia_eq_cons hcomma
              split at h
              · next hrest =>
                obtain ⟨-, rfl⟩ := Outcome.done.inj h
                have := ih _ _ _ hrest
                omega
              · cases h
            · next hclose =>
              have hlt := length_lt_of_trivia_eq_cons hclose
              split at h
              · obtain ⟨-, rfl⟩ := Outcome.done.inj h
                omega
              · cases h
            · cases h
    exact within _ s

/-- A list without brackets around it. -/
instance {item : Reader α} [Shrinks item] : Shrinks (series item) := by
  unfold series
  infer_instance

/-! ## 4. Nested pieces

The readers from here on read nested pieces through the fields of a grammar. The
assumption on it is a class as well, so that instance search finds it wherever a
field of the grammar is used; it is discharged level by level, once all readers
of a level are known to shrink. -/

/-- No reader of nested pieces leaves more text than it found. -/
class Grammar.Shrinks (g : Grammar) : Prop where
  value : ∀ setting, (g.value setting).Shrinks
  operand : ∀ setting, (g.operand setting).Shrinks
  statement : g.statement.Shrinks
  type : ∀ place, (g.type place).Shrinks
  pattern : g.pattern.Shrinks
  element : g.element.Shrinks

attribute [instance] Grammar.Shrinks.value Grammar.Shrinks.operand Grammar.Shrinks.statement
  Grammar.Shrinks.type Grammar.Shrinks.pattern Grammar.Shrinks.element

variable {g : Grammar} [g.Shrinks]

/-! ## 5. Signatures

Most readers follow from their parts. A decorator and a parameter are read after
a look at what comes next, and go on from there with `goTo`. -/

instance {place : TypeSetting} : Shrinks (colonType g place) := by
  unfold colonType
  infer_instance

instance : Shrinks (typeParameter g) := by
  unfold typeParameter
  infer_instance

instance : Shrinks (typeParameters g) := by
  unfold typeParameters
  infer_instance

/-- Type arguments advance by their opening bracket; a type assertion in front of a value relies on
that. -/
instance : Advances (typeArguments g) := by
  unfold typeArguments
  infer_instance

instance : Shrinks (typeArguments g) := Advances.shrinks inferInstance

instance {place : TypeSetting} : Shrinks (resultType g place) := by
  unfold resultType
  infer_instance

instance {place : TypeSetting} : Shrinks (colonResult g place) := by
  unfold colonResult
  infer_instance

/-- A decorator goes on after its sign, whether a name or a parenthesis follows. -/
instance : Shrinks (decorator g) := by
  unfold decorator
  refine ⟨fun s => .after fun _ t ht => .left ?_⟩
  split
  · next r =>
    have hr : r.length < s.length := ht
    split
    · next htrivia =>
      have hr' := length_lt_of_trivia_eq_cons htrivia
      exact .bind (.goTo (.leaves (by omega)))
    · split
      · exact .fail
      · exact .bind (.goTo (.leaves (by omega)))
  · exact .fail

instance : Shrinks (decorators g) := by
  unfold decorators
  infer_instance

instance : Shrinks parameterModifiers := by
  unfold parameterModifiers
  infer_instance

/-- A parameter that turns out to be a member of something is read once more from its beginning. -/
instance : Shrinks (parameterBinder d g) := by
  unfold parameterBinder
  refine ⟨fun s => .left ?_⟩
  split
  · exact .leaves (Nat.le_refl _)
  · split
    · exact .leaves (Nat.le_refl _)
    · refine .after fun w r hr => .left ?_
      split
      · exact .bind (.goTo (.leaves (Nat.le_refl _)))
      · exact .leaves hr

instance : Shrinks (parameter d g) := by
  unfold parameter
  infer_instance

instance : Shrinks (parameters d g) := by
  unfold parameters
  infer_instance

instance : Shrinks (optionalTypeParameters d g) := by
  unfold optionalTypeParameters
  infer_instance

/-- What all functions and methods have: type parameters, parameters and a result type. -/
instance {place : TypeSetting} : Shrinks (signature d g place) := by
  unfold signature
  infer_instance

/-! ## 6. Types

Templates come first, since a type may be one. Their holes are read by a reader
that is given, and their characters one at a time. -/

/-- By the number of rounds: a hole, an escape or a character is passed over in each. -/
instance {hole : Reader Unit} [Shrinks hole] : Shrinks (templateRest hole) where
  le s := by
    have within : ∀ n s, (templateRestWithin hole n).Yields s
        fun _ rest => rest.length ≤ s.length := by
      intro n
      induction n with
      | zero => exact fun s => .fail
      | succ n ih =>
        -- in the order of the branches: the end of the text, the backtick, a hole, an escape
        intro s substituted rest h
        unfold templateRestWithin at h
        split at h
        · cases h
        · obtain ⟨-, rfl⟩ := Outcome.done.inj h
          exact Nat.le_succ _
        · split at h
          · cases h
          · next hhole =>
            have hle := Shrinks.le _ _ _ hhole
            split at h
            · next hclose =>
              have hlt := length_lt_of_trivia_eq_cons hclose
              split at h
              · next hrest =>
                obtain ⟨-, rfl⟩ := Outcome.done.inj h
                have := ih _ _ _ hrest
                simp only [List.length_cons]
                omega
              · cases h
            · cases h
        · split at h
          · cases h
          · have := ih _ _ _ h
            rw [List.length_drop] at this
            omega
        · cases h
        · exact Nat.le_succ_of_le (ih _ _ _ h)
    exact within _ s

/-- A name in brackets and a private name are read from after their first character. -/
instance : Shrinks (propertyName g) := by
  unfold propertyName
  refine ⟨fun s => .left ?_⟩
  split
  · exact .fail
  · next c r htrivia =>
    have hr := length_lt_of_trivia_eq_cons htrivia
    split
    · exact .leaves (Nat.le_refl _)
    · split
      · exact .leaves (Nat.le_refl _)
      · split
        · exact .bind (.goTo (.leaves (by omega)))
        · split
          · split
            · exact .fail
            · refine .goTo ?_
              rw [List.length_drop]
              omega
          · exact .leaves (Nat.le_refl _)

instance {words : List String} : Shrinks (modifiers words) := by
  unfold modifiers
  infer_instance

instance : Shrinks (indexedType g) := by
  unfold indexedType
  infer_instance

instance : Shrinks (indexSignature g) := by
  unfold indexSignature
  infer_instance

instance : Shrinks (typeMember d g) := by
  unfold typeMember
  infer_instance

instance : Shrinks (typeMembers d g) := by
  unfold typeMembers
  infer_instance

instance {place : TypeSetting} : Shrinks (functionType d g place) := by
  unfold functionType
  infer_instance

instance : Shrinks (tupleMember g) := by
  unfold tupleMember
  infer_instance

instance : Shrinks (qualified g) := by
  unfold qualified
  infer_instance

/-- What follows the first word of a type depends on the word. -/
instance {place : TypeSetting} : Shrinks (wordType d g place) := by
  unfold wordType
  refine ⟨fun s => .left (.after fun w r hr => ?_)⟩
  repeat' apply Yields.ite
  -- without a word it goes back, only to be stuck
  all_goals first | exact .leaves hr | exact .bind (.goTo .fail)

/-- A type without suffixes is told by its first character. -/
instance {place : TypeSetting} : Shrinks (typeAtom d g place) := by
  unfold typeAtom
  refine ⟨fun s => .left ?_⟩
  split
  · exact .fail
  · next c r htrivia =>
    have hr : r.length ≤ s.length := Nat.le_of_lt (length_lt_of_trivia_eq_cons htrivia)
    -- each kind of atom is read from its first character or from after it
    repeat' apply Yields.ite
    all_goals first
      | exact .leaves (Nat.le_refl _)
      | exact .bind (.goTo (.leaves hr))
      | exact .goTo hr

/-- Brackets and the signs between types are passed over before the next type is read. -/
instance {place : TypeSetting} : Shrinks (typeSuffix d g place) := by
  unfold typeSuffix
  refine ⟨fun s => .left (.ite .fail ?_)⟩
  split
  · next htrivia => exact .bind (.goTo (.leaves (Nat.le_of_lt (length_lt_of_trivia_eq_cons htrivia))))
  · next htrivia =>
    exact .ite .fail (.bind (.goTo (.leaves (Nat.le_of_lt (length_lt_of_trivia_eq_cons htrivia)))))
  · next htrivia =>
    exact .ite .fail (.bind (.goTo (.leaves (Nat.le_of_lt (length_lt_of_trivia_eq_cons htrivia)))))
  · exact .leaves (Nat.le_refl _)

/-- An atom with its suffixes. -/
instance {place : TypeSetting} : Shrinks (readType d g place) := by
  unfold readType
  infer_instance

/-! ## 7. Elements

Between tags there is no white space to pass over: text is read as it stands, up
to a character that means something. -/

/-- A word with the hyphens and words after it. -/
instance : Shrinks tagWord where
  le s := by
    intro u rest h
    unfold tagWord at h
    dsimp only at h
    split at h
    · cases h
    · next n _ =>
      obtain ⟨-, rfl⟩ := Outcome.done.inj h
      have hle := trivia_length_le false s
      have hdrop : ((trivia false s).drop (n + 1)).length ≤ s.length := by
        rw [List.length_drop]
        omega
      split
      · exact Nat.le_trans (List.length_dropWhile_le _ _) hdrop
      · exact hdrop

instance : Shrinks tagName := by
  unfold tagName
  infer_instance

instance : Shrinks (braced g) := by
  unfold braced
  infer_instance

/-- The four things an attribute may be given: text, braces, an element, or nothing that can be
read. -/
instance : Shrinks (attributeValue g) := by
  unfold attributeValue
  refine ⟨fun s => .after fun _ t ht => .left ?_⟩
  split
  · exact .fail
  · next r =>
    have hr : r.length < s.length := ht
    refine .ite ?_ (.ite (.bind (.goTo (.leaves (Nat.le_of_lt hr))))
      (.ite (.bind (.goTo (.leaves (Nat.le_of_lt hr)))) .fail))
    split
    · refine .goTo ?_
      rw [List.length_drop]
      omega
    · exact .fail

/-- An attribute in braces stands for several; any other one has a name. -/
instance : Shrinks (tagAttribute g) := by
  unfold tagAttribute
  refine ⟨fun s => .after fun _ t ht => .left ?_⟩
  split
  · exact .bind (.goTo (.leaves (Nat.le_of_succ_le ht)))
  · exact .leaves ht

instance : Shrinks (attributes g) := by
  unfold attributes
  infer_instance

/-- Text that is no character long is refused, so that a repetition of children comes to an end. -/
instance : Shrinks tagText where
  le s := by
    intro u rest h
    unfold tagText at h
    dsimp only at h
    split at h
    · next hlt =>
      obtain ⟨-, rfl⟩ := Outcome.done.inj h
      exact Nat.le_of_lt hlt
    · cases h

/-- A child is told by its first character, which is passed over for an element and for braces. -/
instance : Shrinks (child g) where
  le s := by
    intro u rest h
    unfold child at h
    split at h
    · exact Nat.le_succ_of_le (Shrinks.le _ _ _ h)
    · exact Nat.le_succ_of_le (Shrinks.le _ _ _ h)
    · split at h
      · cases h
      · obtain ⟨-, rfl⟩ := Outcome.done.inj h
        rw [List.length_drop]
        omega
    · exact Shrinks.le s _ _ h

instance : Shrinks (children g) := by
  unfold children
  infer_instance

/-- An element with its children, or one that closes itself. -/
instance : Shrinks (readElement d g) := by
  unfold readElement
  infer_instance

/-! ## 8. Patterns, blocks and classes

A block and a class begin with a sign or a word and so advance. Statements need
no more than that about the functions and classes they declare. -/

instance : Shrinks (optionalInitializer g) := by
  unfold optionalInitializer
  infer_instance

instance : Shrinks (patternElement g) := by
  unfold patternElement
  infer_instance

instance : Shrinks (patternMember g) := by
  unfold patternMember
  infer_instance

/-- A pattern that begins with a word may be a member of something; then it is read as an operand
from its beginning. -/
instance : Shrinks (readPattern d g) := by
  unfold readPattern
  refine ⟨fun s => .left ?_⟩
  split
  · exact .fail
  · next c r htrivia =>
    have hr : r.length ≤ s.length := Nat.le_of_lt (length_lt_of_trivia_eq_cons htrivia)
    refine .ite (.bind (.goTo (.leaves hr))) (.ite (.bind (.goTo (.leaves hr)))
      (.ite (.leaves (Nat.le_refl _)) ?_))
    refine .after fun w t ht => .left (.ite (.ite (.pure ht) ?_) (.pure ht))
    exact .bind (.goTo (.leaves (Nat.le_refl _)))

/-- The closing brace of a block is dropped from what is left, so there is no more left than
before. -/
instance : Advances (block g) := by
  unfold block
  refine ⟨fun s => .afterAdvance fun _ r hr => .left ?_⟩
  refine .after fun statements r' hr' => .after fun _ stop hstop => .left (.bind (.goTo (.pure ?_)))
  rw [List.length_drop]
  omega

instance : Shrinks (block g) := Advances.shrinks inferInstance

/-- A member of a class, a lone semicolon among them. -/
instance : Shrinks (classMember d g) := by
  unfold classMember
  infer_instance

instance : Shrinks (superclass d g) := by
  unfold superclass
  infer_instance

instance : Shrinks (heritage d g) := by
  unfold heritage
  infer_instance

/-- A class advances by its keyword. -/
instance : Advances (classDefinition d g) := by
  unfold classDefinition
  infer_instance

instance : Shrinks (classDefinition d g) := Advances.shrinks inferInstance

end LocaleEditor.Script
