/-
LocaleEditor.Proofs.Script.Values — where the values of a script stand.

`Value.Lies v high low` says that the value stands between two places of the
text, which are given by the number of characters left there, and that it takes
at least one character. Every reader of values reads one that lies between where
the reader began and where it ended (`Places`).

This is proved for the readers of one level of nesting from the same about the
level below (`Grammar.Places`), with one step lemma for each thing that may
follow a value: a suffix, an operator, an assignment.

A value has two places: that of the expression as it was read, from `start` on,
and the extent of its core, which leaves out what stands around it, such as
parentheses or a type assertion. What is written back later goes into the
extent, so it is the extent that has to lie in the text and not to be empty.
-/
import LocaleEditor.Proofs.Script.Shrinking

namespace LocaleEditor.Script

open LocaleEditor.Text Reader

set_option synthInstance.maxSize 1000000

variable {α β : Type} {s : List Char} {d : Dialect} {high low : Nat}

/-! ## 1. The place of a value -/

/-- The value stands between two places and takes at least one character. -/
structure Value.Lies (v : Value) (high low : Nat) : Prop where
  right : low ≤ v.extent.right
  nonempty : v.extent.right < v.extent.left
  left : v.extent.left ≤ high
  start_gt : low < v.start
  start_le : v.start ≤ high

namespace Value

/-- Between places further apart. -/
theorem Lies.mono {v : Value} {high' low' : Nat} (h : v.Lies high low) (hhigh : high ≤ high')
    (hlow : low' ≤ low) : v.Lies high' low' :=
  ⟨Nat.le_trans hlow h.right, h.nonempty, Nat.le_trans h.left hhigh,
    Nat.lt_of_le_of_lt hlow h.start_gt, Nat.le_trans h.start_le hhigh⟩

/-- A value of which only the place is kept. -/
theorem plain_lies {start : Nat} {rest : List Char} {target : Bool} (h : rest.length < start)
    (hhigh : start ≤ high) : (plain start rest target).Lies high rest.length :=
  ⟨Nat.le_refl _, h, hhigh, h, hhigh⟩

/-- A value that is its own core, with nothing around it. -/
theorem whole_lies {start : Nat} {core : Expr} {rest : List Char} {target : Bool}
    (h : rest.length < start) (hhigh : start ≤ high) :
    (whole start core rest target).Lies high rest.length :=
  ⟨Nat.le_refl _, h, hhigh, h, hhigh⟩

/-- What is around the core may reach further. -/
theorem Lies.around {v : Value} {start : Nat} {bare target : Bool} {rest : List Char}
    (h : v.Lies high low) (hrest : rest.length ≤ low) (hstart : high ≤ start) :
    (⟨start, v.core, v.extent, bare, target⟩ : Value).Lies start rest.length :=
  ⟨Nat.le_trans hrest h.right, h.nonempty, Nat.le_trans h.left hstart,
    Nat.lt_of_le_of_lt hrest
      (Nat.lt_of_lt_of_le h.start_gt (Nat.le_trans h.start_le hstart)),
    Nat.le_refl _⟩

end Value

/-- Each value that is read lies in what was read. -/
class Reader.Places (p : Reader Value) : Prop where
  lies : ∀ s, p.Yields s fun v rest => v.Lies s.length rest.length

namespace Reader.Places

/-- Since a value takes at least one character, there is less text after it. -/
theorem shrinks {p : Reader Value} (h : p.Places) : p.Shrinks :=
  ⟨fun s => .mono (h.lies s) fun _ _ hv => Nat.le_of_lt (Nat.lt_of_lt_of_le hv.start_gt hv.start_le)⟩

/-- Reading a value from a later place on. -/
theorem yields {p : Reader Value} [h : p.Places] (hs : s.length ≤ high) :
    p.Yields s fun v rest => v.Lies high rest.length :=
  .mono (h.lies s) fun _ _ hv => hv.mono hs (Nat.le_refl _)

instance : Places fail := ⟨fun _ => .fail⟩

/-- Only what is read last gives the value; what comes before may read anything. -/
instance {p : Reader α} {f : α → Reader Value} [Shrinks p] [∀ a, Places (f a)] :
    Places (p >>= f) :=
  ⟨fun _ => .after fun _ _ hr => yields hr⟩

end Reader.Places

/-- No reader of nested pieces leaves more text than it found, and values lie in what was read. -/
class Grammar.Places (g : Grammar) : Prop extends g.Shrinks where
  value_places : ∀ setting, (g.value setting).Places
  operand_places : ∀ setting, (g.operand setting).Places

attribute [instance] Grammar.Places.value_places Grammar.Places.operand_places

variable {g : Grammar} [g.Places]

/-! ## 2. Sequences, objects and arrays

Objects and arrays are read as expressions and not as values; their place is put
around them later, by `literalOrPattern`. So only that they advance is needed
here, and of what they consist of, that it leaves no more text. -/

instance {value : Reader Value} [Shrinks value] : Shrinks (sequence value) := by
  unfold sequence
  infer_instance

/-- After a comma the sequence stands from where its first value began to where the last one
ends; nothing of it is kept then but its place. -/
instance {value : Reader Value} [Shrinks value] [Places value] : Places (sequence value) := by
  unfold sequence
  refine ⟨fun s => .bind (.mono (Places.lies s) fun v r hv => .extend hv fun v t hv => ?_)⟩
  refine .after fun _ t' ht' => .after fun _ t'' ht'' => .left (.pure ?_)
  exact Value.plain_lies (by have := hv.start_gt; omega) hv.start_le

instance : Shrinks (methodRest d g) := by
  unfold methodRest
  infer_instance

instance : Shrinks (memberRest d g) := by
  unfold memberRest
  infer_instance

/-- A member is read from its beginning once more when its first word turns out to be a modifier of
a method. -/
instance : Shrinks (objectMember d g) := by
  unfold objectMember
  refine ⟨fun s => .after fun _ t ht => .left ?_⟩
  split
  · exact .fail
  · next c r =>
    have hr : r.length ≤ s.length := Nat.le_of_succ_le ht
    refine .ite (.leaves ht) (.ite (.leaves ht) (.ite (.bind (.goTo (.leaves hr)))
      (.ite (.leaves ht) ?_)))
    refine .after fun w t' ht' => .left ?_
    have ht' := Nat.le_trans ht' ht
    refine .ite (.leaves ht') (.ite (.leaves ht') (.ite (.leaves ht') ?_))
    exact .bind (.goTo (.leaves ht))

instance : Advances (objectLiteral d g) := by
  unfold objectLiteral
  infer_instance

instance : Shrinks (spreadable g) := by
  unfold spreadable
  infer_instance

instance : Advances (arrayLiteral g) := by
  unfold arrayLiteral
  infer_instance

instance : Shrinks (argumentsRest g) := by
  unfold argumentsRest
  infer_instance

instance : Advances (template g) := by
  unfold template
  infer_instance

instance : Shrinks (template g) := Advances.shrinks inferInstance

/-! ## 3. Functions

A function stands from its first word or parenthesis to the end of its body. It
is not empty because its parameters take a character at least, or its keyword. -/

instance {setting : Setting} : Shrinks (returnedBody g setting) := by
  unfold returnedBody
  infer_instance

/-- The body is a block, or an expression where no block can be read or where it would begin with a
label; a block that begins with one is kept where no expression can be read. -/
instance {setting : Setting} : Shrinks (arrowBody g setting) where
  le s := by
    intro body rest h
    unfold arrowBody at h
    split at h
    · next hblock =>
      obtain ⟨-, rfl⟩ := Outcome.done.inj h
      exact Shrinks.le s _ _ hblock
    · next hblock =>
      split at h
      · next hreturned =>
        obtain ⟨-, rfl⟩ := Outcome.done.inj h
        exact Shrinks.le s _ _ hreturned
      · obtain ⟨-, rfl⟩ := Outcome.done.inj h
        exact Shrinks.le s _ _ hblock
    · split at h
      · next hreturned =>
        obtain ⟨-, rfl⟩ := Outcome.done.inj h
        exact Shrinks.le s _ _ hreturned
      · cases h

instance {setting : Setting} {async : Bool} : Advances (arrowHead d g setting async) := by
  unfold arrowHead
  infer_instance

instance {setting : Setting} : Places (arrowFunction d g setting) := by
  unfold arrowFunction
  refine ⟨fun s => .after fun _ t ht => .left ?_⟩
  refine .afterAdvance fun ps t' ht' => .after fun body t'' ht'' => .left (.pure ?_)
  exact Value.whole_lies (Nat.lt_of_le_of_lt ht'' ht') ht

/-- A generator has the same place as any other function, though it is no translation. -/
instance : Places (functionExpression d g) := by
  unfold functionExpression
  refine ⟨fun s => .after fun _ t ht => .left ?_⟩
  refine .after fun _ t₁ h₁ => .afterAdvance fun _ t₂ h₂ => .after fun star t₃ h₃ => .left ?_
  refine .ite (.after fun _ t₄ h₄ => ?_) ?_
  all_goals
    refine .after fun ps t₅ h₅ => .after fun extent t₆ h₆ => .left ?_
    cases star <;> exact .pure (Value.whole_lies (by omega) ht)

/-! ## 4. Primary expressions

A primary expression is told by its first character, after white space. The
readers below take the place they begin at from the text before they have passed
the white space or after it; so some of the lemmas are about a text that has no
white space in front, and `primary` and `readOperand` bring them together. -/

/-- The core of an expression in parentheses is inside them, and its place goes around them. -/
instance : Places (parenthesized d g) := by
  unfold parenthesized
  refine ⟨fun s => .after fun _ t ht => .left (.afterAdvance fun _ t₁ h₁ => ?_)⟩
  refine .bind (.mono (Places.lies t₁) fun v t₂ hv => .left ?_)
  have hv : v.Lies t.length t₂.length := hv.mono (Nat.le_of_lt h₁) (Nat.le_refl _)
  refine .ite (.after fun _ t₃ h₃ => .after fun _ t₄ h₄ => ?_) (.after fun _ t₄ h₄ => ?_)
  all_goals exact .pure ((hv.around (by omega) (Nat.le_refl _)).mono ht (Nat.le_refl _))

/-- An object or array, or a pattern, where there is no white space in front. -/
theorem literalOrPattern_lies {literal : Reader Expr} [Advances literal]
    (hs : trivia true s = s) : (literalOrPattern g literal).Yields s
      fun v rest => v.Lies s.length rest.length := by
  intro v rest h
  unfold literalOrPattern at h
  rw [hs] at h
  have pattern : ∀ v rest, (do
      g.pattern
      equals
      let _ ← g.value .enclosed
      return .plain s.length (← Reader.left) false : Reader Value) s = .done v rest →
      v.Lies s.length rest.length := by
    refine Yields.after fun _ t ht => .afterAdvance fun _ t₁ h₁ => .after fun _ t₂ h₂ => .left ?_
    exact .pure (Value.plain_lies (by omega) (Nat.le_refl _))
  dsimp only at h
  split at h
  · next hliteral =>
    split at h
    · exact pattern _ _ h
    · obtain ⟨rfl, rfl⟩ := Outcome.done.inj h
      exact Value.whole_lies (Advances.lt s _ _ hliteral) (Nat.le_refl _)
  · split at h
    · next hpattern =>
      obtain ⟨rfl, rfl⟩ := Outcome.done.inj h
      exact pattern _ _ hpattern
    · cases h

/-- What an expression that begins with a word is depends on the word: a function, a class, a name,
or something that is not kept. Each stands from the word on. -/
instance {setting : Setting} : Places (wordExpression d g setting) := by
  unfold wordExpression
  refine ⟨fun s => .after fun _ t ht => .left (.afterAdvance fun w r hr => .left ?_)⟩
  have name {core : Expr} {target : Bool} :
      (Pure.pure (Value.whole t.length core r target) : Reader Value).Yields r
        fun v rest => v.Lies s.length rest.length := .pure (Value.whole_lies hr ht)
  refine .ite (.bind (.goTo (Places.yields ht))) (.ite ?_ (.ite ?_ (.ite ?_ (.ite ?_ (.ite ?_ ?_)))))
  · exact .either (.bind (.goTo (.ite (Places.yields ht) (Places.yields ht)))) name
  · exact .bind (.goTo (Places.yields ht))
  · refine .bind (.goTo (.afterAdvance fun _ t₁ h₁ => .left (.pure ?_)))
    exact Value.plain_lies h₁ ht
  · refine .either (.ite ?_ (.ite .fail ?_)) (.ite (.bind (.goTo name)) .fail)
    · refine .after fun _ t₁ h₁ => .after fun _ t₂ h₂ => .left (.pure ?_)
      exact Value.plain_lies (by omega) ht
    · exact .after fun _ t₁ h₁ => .left (.pure (Value.plain_lies (by omega) ht))
  · exact .ite name .fail
  · exact .ite name (.ite name (.ite name .fail))

/-- A regular expression has its two slashes at least. -/
theorem regexLength?_pos {n : Nat} (h : regexLength? s = some n) : 0 < n := by
  unfold regexLength? at h
  split at h
  · split at h
    · obtain rfl := Option.some.inj h
      omega
    · cases h
  · cases h

instance {setting : Setting} : Places (primary d g setting) where
  lies s := by
    have ht : (trivia true s).length ≤ s.length := trivia_length_le true s
    have htrivia : trivia true (trivia true s) = trivia true s := trivia_trivia true s
    intro v rest h
    unfold primary at h
    generalize trivia true s = t at h ht htrivia
    dsimp only at h
    split at h
    · cases h
    · next c r =>
      -- from the first character on, and up to some place after it
      have piece {n : Nat} {core : Expr} (hn : 0 < n) :
          (Value.whole (c :: r).length core ((c :: r).drop n) false).Lies s.length
            ((c :: r).drop n).length := by
        refine Value.whole_lies ?_ ht
        rw [List.length_drop]
        simp only [List.length_cons]
        omega
      refine done_of_ite h (fun h => ?_) fun h => ?_
      · exact Yields.either (p := arrowFunction d g setting) (q := parenthesized d g)
          (Places.yields ht) (Places.yields ht) v rest h
      refine done_of_ite h (fun h => ?_) fun h => ?_
      · exact (literalOrPattern_lies htrivia v rest h).mono ht (Nat.le_refl _)
      refine done_of_ite h (fun h => ?_) fun h => ?_
      · exact (literalOrPattern_lies htrivia v rest h).mono ht (Nat.le_refl _)
      refine done_of_ite h (fun h => ?_) fun h => ?_
      · split at h
        · next hstring =>
          obtain ⟨rfl, rfl⟩ := Outcome.done.inj h
          exact Value.whole_lies (Advances.lt _ _ _ hstring) ht
        · cases h
      refine done_of_ite h (fun h => ?_) fun h => ?_
      · split at h
        · next htemplate =>
          obtain ⟨rfl, rfl⟩ := Outcome.done.inj h
          exact Value.whole_lies (Advances.lt _ _ _ htemplate) ht
        · cases h
      refine done_of_ite h (fun h => ?_) fun h => ?_
      · split at h
        · next hregex =>
          obtain ⟨rfl, rfl⟩ := Outcome.done.inj h
          exact piece (regexLength?_pos hregex)
        · cases h
      refine done_of_ite h (fun h => ?_) fun h => ?_
      · split at h
        · obtain ⟨rfl, rfl⟩ := Outcome.done.inj h
          exact piece (Nat.succ_pos (wordLength r))
        · cases h
      refine done_of_ite h (fun h => ?_) fun h => ?_
      · have decorated : (do
            decorators g
            let _ ← classDefinition d g
            return .plain (c :: r).length (← Reader.left) false : Reader Value).Yields (c :: r)
            fun v rest => v.Lies s.length rest.length := by
          refine .after fun _ t₁ h₁ => .afterAdvance fun _ t₂ h₂ => .left (.pure ?_)
          exact Value.plain_lies (Nat.lt_of_lt_of_le h₂ h₁) ht
        exact decorated v rest h
      split at h
      · obtain ⟨rfl, rfl⟩ := Outcome.done.inj h
        exact piece (Nat.succ_pos _)
      · split at h
        · cases h
        · exact Places.yields ht v rest h

/-! ## 5. Suffixes

What follows a value is read by functions that take the value and change it. The
lemma on each says: if the value lies between `high` and where reading goes on,
then what becomes of it lies between `high` and where reading ends. With that as
the invariant any number of suffixes may follow (`Yields.extend`). -/

instance : Shrinks assignment where
  le s := by
    intro u rest h
    unfold assignment at h
    split at h
    · exact Shrinks.le s _ _ h
    · exact Shrinks.le s _ _ h

/-- With every suffix but the mark that something is there, only the place of the value is kept;
with the mark the value stays what it was. -/
theorem suffix_lies {setting : Setting} {v : Value} (hv : v.Lies high s.length) :
    (suffix d g setting v).Yields s fun v rest => v.Lies high rest.length := by
  have plain {rest : List Char} {target : Bool} (h : rest.length ≤ s.length) :
      (Value.plain v.start rest target).Lies high rest.length :=
    Value.plain_lies (Nat.lt_of_le_of_lt h hv.start_gt) hv.start_le
  unfold suffix
  refine .left (.ite .fail ?_)
  split
  · next htrivia =>
    have hr := length_lt_of_trivia_eq_cons htrivia
    refine .bind (.goTo (.after fun _ t₁ h₁ => .after fun _ t₂ h₂ => .left (.pure ?_)))
    exact plain (by omega)
  · next r htrivia =>
    have hr := length_lt_of_trivia_eq_cons htrivia
    rw [List.length_cons] at hr
    -- after the dot, up to the end of what follows it
    have rest {p : Reader Unit} [Shrinks p] {t : List Char} (ht : t.length ≤ s.length) :
        (do p; return .plain v.start (← Reader.left) true : Reader Value).Yields t
          fun v rest => v.Lies high rest.length :=
      .after fun _ t₁ h₁ => .left (.pure (plain (Nat.le_trans h₁ ht)))
    refine .ite .fail (.bind (.goTo ?_))
    dsimp only
    split
    · next hinner =>
      have hr' := length_lt_of_trivia_eq_cons hinner
      exact .bind (.goTo (rest (by omega)))
    · next hinner =>
      have hr' := length_lt_of_trivia_eq_cons hinner
      refine .bind (.goTo (.after fun _ t₁ h₁ => .after fun _ t₂ h₂ => .left (.pure ?_)))
      exact plain (by omega)
    · refine .ite (.after fun _ t₁ h₁ => .after fun _ t₂ h₂ => rest (by omega)) (.bind .fail)
    · refine .after fun _ t₁ h₁ => .after fun _ t₂ h₂ => .left (.pure (plain (by omega)))
  · next htrivia =>
    have hr := length_lt_of_trivia_eq_cons htrivia
    refine .bind (.goTo (.after fun _ t₁ h₁ => .after fun _ t₂ h₂ => .left (.pure ?_)))
    exact plain (by omega)
  · next htrivia =>
    have hr := length_lt_of_trivia_eq_cons htrivia
    exact .bind (.goTo (.after fun _ t₁ h₁ => .left (.pure (plain (by omega)))))
  · exact .after fun _ t₁ h₁ => .left (.pure (plain h₁))
  · next htrivia =>
    have hr := length_lt_of_trivia_eq_cons htrivia
    rw [List.length_cons] at hr
    exact .bind (.goTo (.pure (plain (by omega))))
  · next htrivia =>
    have hr := length_lt_of_trivia_eq_cons htrivia
    rw [List.length_cons] at hr
    exact .bind (.goTo (.pure (plain (by omega))))
  · next htrivia =>
    have hr := length_lt_of_trivia_eq_cons htrivia
    have hv' := hv.mono (Nat.le_refl _) (Nat.le_of_lt hr)
    refine .ite (.bind (.goTo (.pure ?_))) .fail
    exact ⟨hv'.right, hv'.nonempty, hv'.left, hv'.start_gt, hv'.start_le⟩
  · refine .ite (.after fun _ t₁ h₁ => .left (.ite (.pure (plain h₁)) .fail)) (.bind .fail)
  · exact .fail

/-- An assignment stands from where the thing begins that is assigned to. -/
theorem assigned_lies {setting : Setting} {v : Value} (hv : v.Lies high s.length) :
    (assigned g setting v).Yields s fun v rest => v.Lies high rest.length := by
  unfold assigned
  refine .bind (.sees fun b => .ite ?_ (.pure hv))
  refine .after fun _ t₁ h₁ => .after fun _ t₂ h₂ => .left (.pure ?_)
  exact Value.plain_lies (Nat.lt_of_le_of_lt (Nat.le_trans h₂ h₁) hv.start_gt) hv.start_le

/-! ## 6. Operands

An operand stands from its prefix operators on. The place where they begin is
handed to the readers of what follows them, which begin to read further on. -/

instance {setting : Setting} : Places (suffixed d g setting) := by
  unfold suffixed
  refine ⟨fun s => .bind (.mono (Places.lies s) fun v t hv => .bind ?_)⟩
  exact .mono (.extend hv fun v t hv => suffix_lies hv) fun v t hv => assigned_lies hv

theorem prefixed_lies {setting : Setting} {start : Nat} (hs : s.length < start)
    (hstart : start ≤ high) :
    (prefixed g setting start).Yields s fun v rest => v.Lies high rest.length := by
  unfold prefixed
  exact .after fun _ t₁ h₁ => .left (.pure (Value.plain_lies (Nat.lt_of_le_of_lt h₁ hs) hstart))

theorem yielded_lies {setting : Setting} {start : Nat} (hs : s.length < start)
    (hstart : start ≤ high) :
    (yielded d g setting start).Yields s fun v rest => v.Lies high rest.length := by
  have plain {rest : List Char} (h : rest.length ≤ s.length) :
      (Value.plain start rest false).Lies high rest.length :=
    Value.plain_lies (Nat.lt_of_le_of_lt h hs) hstart
  unfold yielded
  refine .left (.ite (.pure (plain (Nat.le_refl _))) (.ite ?_ ?_))
  · exact .after fun _ t₁ h₁ => .after fun _ t₂ h₂ => .left (.pure (plain (by omega)))
  · exact .after fun _ t₁ h₁ => .left (.pure (plain h₁))

/-- A sign `<` in front begins type parameters, a tag, or the type that a value is taken to have;
only in the last case is the core another expression. -/
theorem angled_lies {setting : Setting} :
    (angled d g setting s.length).Yields s fun v rest => v.Lies s.length rest.length := by
  unfold angled
  refine .either (.ite (Places.lies s) .fail) (.ite ?_ ?_)
  · refine .afterAdvance fun _ t₁ h₁ => .after fun _ t₂ h₂ => .left (.pure ?_)
    exact Value.plain_lies (Nat.lt_of_le_of_lt h₂ h₁) (Nat.le_refl _)
  · refine .afterAdvance fun _ t₁ h₁ => .bind (.mono (Places.lies t₁) fun v t₂ hv => .pure ?_)
    exact hv.around (Nat.le_refl _) (Nat.le_of_lt h₁)

/-- Where there is a word, its length is not 0. -/
theorem wordLength_pos_of_nextWord (hs : trivia true s = s) (h : nextWord s ≠ "") :
    0 < wordLength s := by
  rcases Nat.eq_zero_or_pos (wordLength s) with h0 | hpos
  · exact absurd (by simp [nextWord, hs, h0]) h
  · exact hpos

/-- By the first characters, or the first word, after white space. -/
instance {setting : Setting} : Places (readOperand d g setting) where
  lies s := by
    have ht : (trivia true s).length ≤ s.length := trivia_length_le true s
    have htrivia : trivia true (trivia true s) = trivia true s := trivia_trivia true s
    intro v rest h
    unfold readOperand at h
    generalize trivia true s = t at h ht htrivia
    dsimp only at h
    split at h
    · exact prefixed_lies (by simp only [List.length_cons]; omega) ht v rest h
    · exact prefixed_lies (by simp only [List.length_cons]; omega) ht v rest h
    · exact prefixed_lies (by simp only [List.length_cons]; omega) ht v rest h
    · exact prefixed_lies (by simp only [List.length_cons]; omega) ht v rest h
    · exact prefixed_lies (by simp only [List.length_cons]; omega) ht v rest h
    · exact prefixed_lies (by simp only [List.length_cons]; omega) ht v rest h
    · exact (angled_lies v rest h).mono ht (Nat.le_refl _)
    · have drop (hw : nextWord t ≠ "") : (t.drop (wordLength t)).length < t.length := by
        have hpos := wordLength_pos_of_nextWord htrivia hw
        have hle : 0 < t.length := length_pos_of_wordLength (n := wordLength t - 1) (by omega)
        rw [List.length_drop]
        omega
      split at h
      · next hprefix =>
        refine prefixed_lies (drop fun hw => ?_) ht v rest h
        rw [hw] at hprefix
        exact absurd hprefix (by decide)
      · split at h
        · next hyield =>
          exact yielded_lies (drop fun hw => absurd (hw.symm.trans hyield) (by decide)) ht v rest h
        · split at h
          · next hsuffixed =>
            obtain ⟨rfl, rfl⟩ := Outcome.done.inj h
            exact Places.yields ht _ _ hsuffixed
          · cases h

/-! ## 7. Values

With operators only the place of the whole is kept, but a type assertion keeps
the core of what it is about. The instances at the end are the properties of one
level that the level above is proved from. -/

instance : Shrinks operator where
  le s := by
    intro u rest h
    unfold operator at h
    split at h
    · cases h
    · split at h
      · exact Shrinks.le s _ _ h
      · exact Yields.either (p := keyword "instanceof") (q := keyword "in")
          (Shrinks.le s) (Shrinks.le s) u rest h

/-- The operator with what it applies to, or the type that is asserted, comes after the value. -/
theorem operated_lies {setting : Setting} {v : Value} (hv : v.Lies high s.length) :
    (operated d g setting v).Yields s fun v rest => v.Lies high rest.length := by
  unfold operated
  refine .left (.ite .fail (.ite ?_ ?_))
  · refine .after fun _ t₁ h₁ => .after fun _ t₂ h₂ => .pure ?_
    have hv' := hv.mono (Nat.le_refl _) (Nat.le_trans h₂ h₁)
    exact ⟨hv'.right, hv'.nonempty, hv'.left, hv'.start_gt, hv'.start_le⟩
  · refine .after fun _ t₁ h₁ => .after fun _ t₂ h₂ => .left (.pure ?_)
    exact Value.plain_lies (Nat.lt_of_le_of_lt (Nat.le_trans h₂ h₁) hv.start_gt) hv.start_le

instance : Shrinks (choiceRest g) := by
  unfold choiceRest
  infer_instance

instance {setting : Setting} : Places (readValue d g setting) := by
  unfold readValue
  refine ⟨fun s => .bind (.mono (Places.lies s) fun v t hv => .bind ?_)⟩
  refine .mono (.extend hv fun v t hv => operated_lies hv) fun v t hv => .left (.ite ?_ (.pure hv))
  refine .after fun _ t₁ h₁ => .after fun _ t₂ h₂ => .after fun _ t₃ h₃ => .left (.pure ?_)
  exact Value.plain_lies (by have := hv.start_gt; omega) hv.start_le

instance {setting : Setting} : Shrinks (readOperand d g setting) := Places.shrinks inferInstance

instance {setting : Setting} : Shrinks (readValue d g setting) := Places.shrinks inferInstance

instance : Shrinks (parenthesized d g) := Places.shrinks inferInstance

instance : Shrinks (objectLiteral d g) := Advances.shrinks inferInstance

end LocaleEditor.Script
