/-
LocaleEditor.Proofs.Script.SteadyPieces — pieces without expressions are read however lines are
indented.

This module and the next go through the readers of the grammar in the order in
which they are defined. What they call for nested pieces is assumed to be steady
(`Grammar.Steady`), and at the end the assumption is discharged level by level.

For most of the readers there is nothing to do but to unfold the definition: it
is put together from others by the ways that have an instance already. By hand
are those that look at characters themselves, in one of three ways:

* They look at the first character after white space. Then both texts are cut
  there together (`SameFront`), and the branches are the same.
* They look for one sign after the other. Then each sign begins both texts or
  neither of them (`Indented.first`, `Indented.begins`), and where no sign is
  found the same branch is left.
* They count characters. Then the count is `OfLine`, or there is a lemma on how
  the piece ends.
-/
import LocaleEditor.Proofs.Script.Steady
import LocaleEditor.Proofs.Script.Progress

namespace LocaleEditor.Script

open LocaleEditor.Text Reader

-- the size that instance search counts doubles with each step of a reader
set_option synthInstance.maxSize 1000000

variable {kept : Nat} {s s' : List Char} {d : Dialect}

/-- The readers of nested pieces do not see how lines are indented. The readers of one level call
each other through these six only. -/
class Grammar.Steady (kept : outParam Nat) (g : Grammar) : Prop where
  value : ∀ setting, Script.Steady kept (g.value setting) (g.value setting)
  operand : ∀ setting, Script.Steady kept (g.operand setting) (g.operand setting)
  statement : Script.Steady kept g.statement g.statement
  type : ∀ place, Script.Steady kept (g.type place) (g.type place)
  pattern : Script.Steady kept g.pattern g.pattern
  element : Script.Steady kept g.element g.element

attribute [instance] Grammar.Steady.value Grammar.Steady.operand Grammar.Steady.statement
  Grammar.Steady.type Grammar.Steady.pattern Grammar.Steady.element

variable {g : Grammar} [g.Advances] [g.Steady kept]

/-! ## 1. Parameters

Their types and default values are nested pieces. -/

instance {place : TypeSetting} : Steady kept (colonType g place) (colonType g place) := by
  unfold colonType
  infer_instance

instance : Steady kept (typeParameter g) (typeParameter g) := by
  unfold typeParameter
  infer_instance

instance : Steady kept (typeParameters g) (typeParameters g) := by
  unfold typeParameters
  infer_instance

instance : Steady kept (typeArguments g) (typeArguments g) := by
  unfold typeArguments
  infer_instance

instance {place : TypeSetting} : Steady kept (resultType g place) (resultType g place) := by
  unfold resultType
  infer_instance

instance {place : TypeSetting} : Steady kept (colonResult g place) (colonResult g place) := by
  unfold colonResult
  infer_instance

/-- After its sign there is a parenthesis or a name, the same in both texts. -/
instance : Steady kept (decorator g) (decorator g) := by
  unfold decorator
  refine .bind fun _ _ _ => .left fun s s' hs => ?_
  rcases hs.first (c := '@') (by decide) with ⟨r, r', rfl, rfl, hr⟩ | ⟨hne, hne'⟩
  · -- an expression in parentheses or a name with what is called or looked up in it
    have hrest := (hr.trivia false).indented
    simp only
    rcases hrest.first (c := '(') (by decide) with ⟨x, x', hx, hx', hxx⟩ | ⟨hne, hne'⟩
    · simp only [hx, hx']
      infer_instance
    · split
      · next heq => exact absurd heq (hne _)
      · infer_instance
  · split
    · exact absurd rfl (hne _)
    · infer_instance

instance : Steady kept (decorators g) (decorators g) := by
  unfold decorators
  infer_instance

/-- A pattern is told by its bracket or brace. -/
instance [Indented kept s s'] : Same (seesPattern s) (seesPattern s') := by
  unfold seesPattern
  infer_instance

instance : Steady kept parameterModifiers parameterModifiers := by
  unfold parameterModifiers
  infer_instance

/-- A parameter that turns out to be a member of something is read once more from its beginning,
in both texts. -/
instance : Steady kept (parameterBinder d g) (parameterBinder d g) := by
  unfold parameterBinder
  infer_instance

instance : Steady kept (parameter d g) (parameter d g) := by
  unfold parameter
  dsimp only
  infer_instance

instance : Steady kept (parameters d g) (parameters d g) := by
  unfold parameters
  infer_instance

instance : Steady kept (optionalTypeParameters d g) (optionalTypeParameters d g) := by
  unfold optionalTypeParameters
  infer_instance

/-- What all functions and methods have: type parameters, parameters and a result type. -/
instance {place : TypeSetting} : Steady kept (signature d g place) (signature d g place) := by
  unfold signature
  infer_instance

/-! ## 2. Templates and types

A template is read in rounds, and a line break in it may have spaces after it in
one of the texts: these are characters of the template there and take rounds of
their own. So the lemma on it is about any two numbers of rounds, and about texts
that are related by `AfterBreak` only. -/

/-- A part of a template in braces, and what comes after it. -/
def holeRest (hole : Reader Unit) (n : Nat) : Reader Bool := fun s =>
  match hole s with
  | .stuck m => .stuck m
  | .done _ r =>
    match trivia false r with
    | '\x7d' :: t =>
      match templateRestWithin hole n t with
      | .done _ rest => .done true rest
      | .stuck m => .stuck m
    | _ => .stuck r.length

section Templates

variable {hole : Reader Unit} {n : Nat} {c : Char} {r : List Char}

/-! The rounds: an escape, a part in braces, or any other character. -/

theorem templateRestWithin_escape : templateRestWithin hole (n + 1) ('\\' :: r) =
    match escapeLength ('\\' :: r) with
    | 0 => .stuck ('\\' :: r).length
    | k + 1 => templateRestWithin hole n (('\\' :: r).drop (k + 1)) := rfl

theorem templateRestWithin_hole :
    templateRestWithin hole (n + 1) ('$' :: '\x7b' :: r) = holeRest hole n r := rfl

theorem templateRestWithin_char (hclose : c ≠ '`') (hescape : c ≠ '\\') (hnul : c ≠ '\x00')
    (hhole : c = '$' → ∀ t, r ≠ '\x7b' :: t) :
    templateRestWithin hole (n + 1) (c :: r) = templateRestWithin hole n r := by
  conv_lhs => unfold templateRestWithin
  split <;> simp_all

/-- A part in braces is read alike if what comes after it is. -/
theorem holeRest_alike [Shrinks hole] [Steady kept hole hole] {n' : Nat} (hs : Indented kept s s')
    (hrest : ∀ t t', t.length < s.length → t'.length < s'.length → Indented kept t t' →
      (templateRestWithin hole n t).Alike kept (templateRestWithin hole n' t')) :
    (holeRest hole n s).Alike kept (holeRest hole n' s') := by
  unfold holeRest
  rcases Steady.cases hole hole hs with
    ⟨m, m', hp, hp'⟩ | ⟨u, u', x, x', hp, hp', hu, hx⟩
  · rw [hp, hp']
    exact .stuck
  have hshrinks : x.length ≤ s.length := Shrinks.le s _ _ hp
  have hshrinks' : x'.length ≤ s'.length := Shrinks.le s' _ _ hp'
  have hle := trivia_length_le false x
  have hle' := trivia_length_le false x'
  rw [hp, hp']
  simp only
  rcases (hx.trivia false).indented.first (c := '\x7d') (by decide) with
    ⟨t, t', ht, ht', htt⟩ | ⟨hne, hne'⟩
  · rw [ht, List.length_cons] at hle
    rw [ht', List.length_cons] at hle'
    have halike := hrest t t' (by omega) (by omega) htt
    rw [ht, ht']
    simp only
    generalize templateRestWithin hole n t = o at halike ⊢
    generalize templateRestWithin hole n' t' = o' at halike ⊢
    cases halike with
    | stuck => exact .stuck
    | done _ hr => exact .done rfl hr
  · split
    · next heq => exact absurd heq (hne _)
    · exact .stuck

end Templates

/-- By the number of characters: a hole, an escape or a character is passed over in each round. -/
instance {hole : Reader Unit} [Shrinks hole] [Steady kept hole hole] :
    Steady kept (templateRest hole) (templateRest hole) := by
  have within : ∀ m s s' n n', s.length = m → s.length < n → s'.length < n' →
      AfterBreak kept s s' →
      (templateRestWithin hole n s).Alike kept (templateRestWithin hole n' s') := by
    intro m
    induction m using Nat.strongRecOn with
    | ind m ihm =>
      intro s s' n n' hm hn hn' hs
      obtain ⟨n, rfl⟩ : ∃ k, n = k + 1 := ⟨n - 1, by omega⟩
      induction hs generalizing n' with
      | @space s' _ ih =>
        obtain ⟨n', rfl⟩ : ∃ k, n' = k + 1 := ⟨n' - 1, by omega⟩
        have hdollar : ' ' ≠ '$' := by decide
        have hcons : templateRestWithin hole (n' + 1) (' ' :: s') = templateRestWithin hole n' s' :=
          templateRestWithin_char (by decide) (by decide) (by decide) fun hc => absurd hc hdollar
        rw [hcons]
        exact ih n' (by simpa using hn')
      | @here s' h =>
        obtain ⟨n', rfl⟩ : ∃ k, n' = k + 1 := ⟨n' - 1, by omega⟩
        cases s with
        | nil =>
          rw [h.eq_nil]
          exact .stuck
        | cons c r =>
          obtain ⟨r', rfl, hafter, hr⟩ := h.exists_cons
          simp only [List.length_cons] at hm hn hn'
          by_cases hclose : c = '`'
          · subst hclose
            exact .done rfl (hr (by decide))
          by_cases hescape : c = '\\'
          · subst hescape
            obtain ⟨heq, hdrop⟩ := h.escape
            rw [templateRestWithin_escape, templateRestWithin_escape, ← heq]
            cases hk : escapeLength ('\\' :: r) with
            | zero => exact .stuck
            | succ k =>
              rw [hk] at hdrop
              refine ihm _ ?_ _ _ n n' rfl ?_ ?_ hdrop
              all_goals simp only [List.drop_succ_cons, List.length_drop]; omega
          by_cases hnul : c = '\x00'
          · subst hnul
            exact .stuck
          rcases h.begins (p := ['$', '\x7b']) (by decide) with
            ⟨t, t', hs, hs', ht⟩ | ⟨hhole, hhole'⟩
          · simp only [List.cons_append, List.nil_append, List.cons.injEq] at hs hs'
            obtain ⟨rfl, rfl⟩ := hs
            obtain ⟨-, rfl⟩ := hs'
            simp only [List.length_cons] at hm hn hn'
            rw [templateRestWithin_hole, templateRestWithin_hole]
            exact holeRest_alike ht fun x x' hx hx' hxx =>
              ihm x.length (by omega) x x' n n' rfl (by omega) (by omega) (.here hxx)
          · have hother : c = '$' → ∀ t, r ≠ '\x7b' :: t := fun hc t ht =>
              hhole t (by rw [hc, ht]; rfl)
            have hother' : c = '$' → ∀ t, r' ≠ '\x7b' :: t := fun hc t ht =>
              hhole' t (by rw [hc, ht]; rfl)
            rw [templateRestWithin_char hclose hescape hnul hother,
              templateRestWithin_char hclose hescape hnul hother']
            exact ihm r.length (by omega) r r' n n' rfl (by omega) (by omega) hafter
  exact ⟨fun {s s'} hs =>
    within _ s s' _ _ rfl (Nat.lt_succ_self _) (Nat.lt_succ_self _) (.here hs)⟩

/-! Members of types, and types by what they begin with and what may follow. -/

instance [hs : Indented kept s s'] : Same (seesPropertyName s) (seesPropertyName s') := by
  have hword : nextWord s = nextWord s' := Same.eq
  have hfront := hs.trivia true
  unfold seesPropertyName
  rw [hword]
  generalize trivia true s = t at hfront ⊢
  generalize trivia true s' = t' at hfront ⊢
  cases hfront <;> exact ⟨rfl⟩

/-- By the first character, which may be a quote, a digit, a bracket or the sign of a private
name. -/
instance : Steady kept (propertyName g) (propertyName g) := by
  unfold propertyName
  refine .left fun s s' hs => ?_
  have hfront := hs.trivia true
  generalize trivia true s = t at hfront ⊢
  generalize trivia true s' = t' at hfront ⊢
  cases hfront with
  | nil => infer_instance
  | cons c _ hr =>
    simp only
    infer_instance

instance {words : List String} : Steady kept (modifiers words) (modifiers words) := by
  unfold modifiers
  infer_instance

instance : Steady kept (indexedType g) (indexedType g) := by
  unfold indexedType
  infer_instance

instance : Steady kept (indexSignature g) (indexSignature g) := by
  unfold indexSignature
  infer_instance

instance : Steady kept (typeMember d g) (typeMember d g) := by
  unfold typeMember
  infer_instance

instance : Steady kept (typeMembers d g) (typeMembers d g) := by
  unfold typeMembers
  infer_instance

instance {place : TypeSetting} :
    Steady kept (functionType d g place) (functionType d g place) := by
  unfold functionType
  infer_instance

instance : Steady kept (tupleMember g) (tupleMember g) := by
  unfold tupleMember
  infer_instance

instance : Steady kept (qualified g) (qualified g) := by
  unfold qualified
  infer_instance

/-- The words that begin a type are equal, so it goes on with the same parts. -/
instance {place : TypeSetting} : Steady kept (wordType d g place) (wordType d g place) := by
  unfold wordType
  infer_instance

/-- A type without suffixes is told by its first character. -/
instance {place : TypeSetting} : Steady kept (typeAtom d g place) (typeAtom d g place) := by
  unfold typeAtom
  refine .left fun s s' hs => ?_
  have hfront := hs.trivia true
  generalize trivia true s = t at hfront ⊢
  generalize trivia true s' = t' at hfront ⊢
  cases hfront with
  | nil => infer_instance
  | cons c _ hr =>
    simp only
    infer_instance

/-- Brackets, the signs between types, and the word `extends`; where a type may end at a line break,
it ends in both texts. -/
instance {place : TypeSetting} : Steady kept (typeSuffix d g place) (typeSuffix d g place) := by
  unfold typeSuffix
  refine .left fun s s' hs => ?_
  have hrest := (hs.trivia false).indented
  rcases hrest.first (c := '[') (by decide) with ⟨r, r', hr, hr', hrr⟩ | ⟨hbracket, hbracket'⟩
  · simp only [hr, hr']
    infer_instance
  rcases hrest.first (c := '|') (by decide) with ⟨r, r', hr, hr', hrr⟩ | ⟨hor, hor'⟩
  · simp only [hr, hr']
    infer_instance
  rcases hrest.first (c := '&') (by decide) with ⟨r, r', hr, hr', hrr⟩ | ⟨hand, hand'⟩
  · simp only [hr, hr']
    infer_instance
  refine .ite inferInstance ?_
  split
  · next heq => exact absurd heq (hbracket _)
  · next heq => exact absurd heq (hor _)
  · next heq => exact absurd heq (hand _)
  · infer_instance

/-- An atom with its suffixes. -/
instance {place : TypeSetting} : Steady kept (readType d g place) (readType d g place) := by
  unfold readType
  infer_instance

/-! ## 3. Elements

White space between tags is text of the element and no gap, so what is read
there goes on over line breaks and over the spaces after them. -/

/-- Characters that are passed over, by their number. -/
theorem dropWhile_eq_drop (p : Char → Bool) (x : List Char) :
    x.dropWhile p = x.drop (x.takeWhile p).length := by
  have h := congrArg (List.drop (x.takeWhile p).length)
    (List.takeWhile_append_dropWhile (p := p) (l := x))
  rwa [List.drop_left] at h

/-- A word, and the hyphens and words after it. -/
instance : Steady kept tagWord tagWord := ⟨fun {s s'} hs => by
  have hrest := (hs.trivia false).indented
  unfold tagWord
  dsimp only
  rw [← ofLine_wordLength.eq hrest]
  have hdrop := ofLine_wordLength.drop wordLength_le hrest (Nat.le_refl _)
  generalize wordLength (trivia false s) = n at hdrop
  cases n with
  | zero => exact .stuck
  | succ n =>
    refine .done trivial ?_
    rw [hdrop.head?_eq]
    split
    · -- the hyphens and words after them are on one line
      have hline : OfLine fun x : List Char =>
          (x.takeWhile fun c => isWordPart c || c == '-').length :=
        OfLine.length_takeWhile (by decide)
      have hafter := hline.drop (fun x => (List.takeWhile_prefix _).length_le) hdrop
        (Nat.le_refl _)
      rw [dropWhile_eq_drop, dropWhile_eq_drop, ← hline.eq hdrop]
      exact hafter
    · exact hdrop⟩

instance : Steady kept tagName tagName := by
  unfold tagName
  infer_instance

instance : Steady kept (braced g) (braced g) := by
  unfold braced
  infer_instance

/-- A quoted value may go over line breaks; braces and elements are nested pieces. -/
instance : Steady kept (attributeValue g) (attributeValue g) := by
  unfold attributeValue
  refine .bind fun _ _ _ => .left fun s s' hs => ?_
  cases s with
  | nil =>
    rw [hs.eq_nil]
    infer_instance
  | cons c r =>
    obtain ⟨r', rfl, hafter, hindented⟩ := hs.exists_cons
    simp only
    by_cases hquote : (c == '"' || c == '\'') = true
    · have hne : c ≠ '\n' ∧ c ≠ ' ' := by
        constructor <;> rintro rfl <;> exact absurd hquote (by decide)
      have hend := AfterBreak.attribute hne.1 hne.2 hafter
      rw [if_pos hquote, if_pos hquote]
      generalize attributeLength? c 0 r = o at hend ⊢
      generalize attributeLength? c 0 r' = o' at hend ⊢
      cases o with
      | none =>
        cases o' with
        | none => infer_instance
        | some n' => cases hend
      | some n =>
        cases o' with
        | none => cases hend
        | some n' =>
          cases hend with
          | some hend => infer_instance
    · rw [if_neg hquote, if_neg hquote]
      by_cases hline : c = '\n'
      · subst hline
        exact inferInstanceAs (Steady kept fail fail)
      · have hr := hindented hline
        infer_instance

/-- An attribute in braces stands for several; any other one has a name. -/
instance : Steady kept (tagAttribute g) (tagAttribute g) := by
  unfold tagAttribute
  refine .bind fun _ _ _ => .left fun s s' hs => ?_
  rcases hs.first (c := '\x7b') (by decide) with ⟨r, r', rfl, rfl, hr⟩ | ⟨hne, hne'⟩
  · simp only
    infer_instance
  · split
    · exact absurd rfl (hne _)
    · infer_instance

instance : Steady kept (attributes g) (attributes g) := by
  unfold attributes
  infer_instance

/-- Something is passed over just if the first character is. -/
theorem length_dropWhile_lt_iff (p : Char → Bool) (x : List Char) :
    (x.dropWhile p).length < x.length ↔ x.head?.elim false p = true := by
  cases x with
  | nil => simp
  | cons c r =>
    have hle := List.length_dropWhile_le p r
    cases hc : p c with
    | true => simp [hc]; omega
    | false => simp [hc]

/-- Text goes on over line breaks and the spaces after them. -/
instance : Steady kept tagText tagText := ⟨fun {s s'} hs => by
  unfold tagText
  dsimp only
  simp only [length_dropWhile_lt_iff, hs.head?_eq]
  split
  · exact .done trivial (AfterBreak.dropWhile (by decide) (by decide) (.here hs))
  · exact .stuck⟩

instance [h : Indented kept s s'] : Same (seesClosing s) (seesClosing s') :=
  ⟨(OfLine.isPrefixOf (by decide)).eq h⟩

/-- An element, braces, a reference or text, by the first character, which may be white space. -/
instance : Steady kept (child g) (child g) := ⟨fun {s s'} hs => by
  unfold child
  rcases hs.first (c := '<') (by decide) with ⟨r, r', rfl, rfl, hr⟩ | ⟨hless, hless'⟩
  · exact Steady.self g.element hr
  rcases hs.first (c := '\x7b') (by decide) with ⟨r, r', rfl, rfl, hr⟩ | ⟨hbrace, hbrace'⟩
  · exact Steady.self (braced g) hr
  rcases hs.first (c := '&') (by decide) with ⟨r, r', rfl, rfl, hr⟩ | ⟨hand, hand'⟩
  · have hdrop := ofLine_referenceLength.drop referenceLength_le hs (Nat.le_refl _)
    simp only
    rw [← ofLine_referenceLength.eq hs]
    generalize referenceLength ('&' :: r) = n at hdrop
    cases n with
    | zero => exact .stuck
    | succ n => exact .done trivial hdrop
  -- text up to the next of these signs
  · split
    · exact absurd rfl (hless _)
    · exact absurd rfl (hbrace _)
    · exact absurd rfl (hand _)
    · exact Steady.self tagText hs⟩

instance : Steady kept (children g) (children g) := by
  unfold children
  infer_instance

/-- An element with its children, or one that closes itself. -/
instance : Steady kept (readElement d g) (readElement d g) := by
  unfold readElement
  infer_instance

/-! ## 4. Patterns, functions and classes

Of a block and of the body of an arrow function the places are remembered as
numbers of characters, which differ in the two texts. So the results need not
agree, but whether a block begins with a label has to: an arrow function goes on
differently after it. -/

instance : Steady kept (optionalInitializer g) (optionalInitializer g) := by
  unfold optionalInitializer
  infer_instance

instance : Steady kept (patternElement g) (patternElement g) := by
  unfold patternElement
  infer_instance

instance : Steady kept (patternMember g) (patternMember g) := by
  unfold patternMember
  infer_instance

/-- A list in brackets or braces, what follows dots, or what begins with a word. -/
instance : Steady kept (readPattern d g) (readPattern d g) := by
  unfold readPattern
  refine .left fun s s' hs => ?_
  have hfront := hs.trivia true
  generalize trivia true s = t at hfront ⊢
  generalize trivia true s' = t' at hfront ⊢
  cases hfront with
  | nil => infer_instance
  | cons c _ hr =>
    simp only
    infer_instance

/-- Statements up to a brace. The extent is a pair of places, and the label is that of the first
statement. -/
instance : Steady kept (block g) (block g) := by
  unfold block
  -- after the statements both texts are at a brace, or at their ends
  refine .bind fun _ _ _ => .left fun inner inner' _ => .bind fun as as' has => ?_
  refine .afterGap fun stop stop' hstop => ?_
  have : Alike as as' := ⟨has⟩
  cases hstop with
  | nil =>
    have hnil : Indented kept [] [] := .refl []
    simp only [List.drop_nil]
    infer_instance
  | cons c _ hr =>
    simp only [List.drop_succ_cons, List.drop_zero]
    infer_instance

instance {setting : Setting} : Steady kept (returnedBody g setting) (returnedBody g setting) := by
  unfold returnedBody
  infer_instance

/-- A block, unless it begins with a label and what is there can be read as an expression. -/
instance {setting : Setting} : Steady kept (arrowBody g setting) (arrowBody g setting) := by
  refine ⟨fun {s s'} hs => ?_⟩
  have returned : (returnedBody g setting s).Alike kept (returnedBody g setting s') :=
    Steady.alike hs
  unfold arrowBody
  generalize returnedBody g setting s = o at returned ⊢
  generalize returnedBody g setting s' = o' at returned ⊢
  rcases Steady.cases (block g) (block g) hs with
    ⟨n, n', hp, hp'⟩ | ⟨⟨e, l⟩, ⟨e', l'⟩, r, r', hp, hp', ⟨-, hl⟩, hr⟩
  · -- no block, so an expression or nothing
    rw [hp, hp']
    cases returned with
    | done hb hr => exact .done hb hr
    | stuck => exact .stuck
  · obtain rfl : l = l' := hl
    rw [hp, hp']
    cases l with
    | false => exact .done trivial hr
    | true =>
      cases returned with
      | done hb hr => exact .done hb hr
      | stuck => exact .done trivial hr

instance {setting : Setting} {async : Bool} :
    Steady kept (arrowHead d g setting async) (arrowHead d g setting async) := by
  unfold arrowHead
  infer_instance

instance {setting : Setting} :
    Steady kept (arrowFunction d g setting) (arrowFunction d g setting) := by
  unfold arrowFunction
  infer_instance

instance : Steady kept (functionExpression d g) (functionExpression d g) := by
  unfold functionExpression
  dsimp only
  infer_instance

/-- A member of a class, a lone semicolon among them. -/
instance : Steady kept (classMember d g) (classMember d g) := by
  unfold classMember
  dsimp only
  infer_instance

instance : Steady kept (superclass d g) (superclass d g) := by
  unfold superclass
  dsimp only
  infer_instance

instance : Steady kept (heritage d g) (heritage d g) := by
  unfold heritage
  dsimp only
  infer_instance

instance : Steady kept (classDefinition d g) (classDefinition d g) := by
  unfold classDefinition
  dsimp only
  infer_instance

end LocaleEditor.Script
