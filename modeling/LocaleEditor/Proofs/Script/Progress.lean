/-
LocaleEditor.Proofs.Script.Progress — what is repeated reads something in each round.

A reader that repeats another one stops after as many rounds as characters are
left, which is never too few if each round leaves less text (`Advances`). This
module goes through what is repeated: decorators, the members of types and
classes, attributes and children of elements, suffixes and operators, and
statements. For the nested statements of a block it is assumed of the grammar
(`Grammar.Advances`), and then it holds level by level.

It is what makes two readings comparable that take different numbers of rounds:
neither of them stops because its rounds have run out.
-/
import LocaleEditor.Proofs.Script.Statements

namespace LocaleEditor.Script

open LocaleEditor.Text Reader

-- the size that instance search counts doubles with each step of a reader
set_option synthInstance.maxSize 1000000

variable {s : List Char} {d : Dialect} {α : Type}

/-! ## 1. Pieces of types and elements

Each piece begins with a sign or a word that it cannot do without. Where a reader
looks at the text after white space and goes on from there, the character that it
was told by has been passed over (`Reader.Yields.less`). -/

/-- From a place on that lies further than where the text began. -/
theorem Reader.Yields.less {p : Reader α} {n : Nat} [Shrinks p] (h : s.length < n) :
    p.Yields s fun _ rest => rest.length < n :=
  .mono (.leaves (Nat.le_refl _)) fun _ _ hle => Nat.lt_of_le_of_lt hle h

/-- The readers of nested pieces read what they are asked for, and a statement is never empty. -/
class Grammar.Advances (g : Grammar) : Prop extends g.Places where
  statement_advances : Reader.Advances g.statement

attribute [instance] Grammar.Advances.statement_advances

variable {g : Grammar} [g.Advances]

/-- By its sign. -/
instance : Advances (decorator g) := by
  unfold decorator
  refine ⟨fun s => .after fun _ t ht => .left ?_⟩
  split
  · next r =>
    have hr : r.length < s.length := ht
    split
    · next htrivia =>
      exact .bind (.goTo (.less (Nat.lt_trans (length_lt_of_trivia_eq_cons htrivia) hr)))
    · exact .ite .fail (.bind (.goTo (.less hr)))
  · exact .fail

instance : Advances number where
  lt s := by
    intro u rest h
    unfold number at h
    dsimp only at h
    split at h
    · cases h
    · next n hn =>
      obtain ⟨-, rfl⟩ := Outcome.done.inj h
      have hle := trivia_length_le true s
      have hpos : 0 < (trivia true s).length := by
        cases ht : trivia true s with
        | nil => rw [ht] at hn; cases hn
        | cons c r => exact Nat.succ_pos _
      rw [List.length_drop]
      omega

/-- By its name, or at least by the bracket or sign in front of it. -/
instance : Advances (propertyName g) := by
  unfold propertyName
  refine ⟨fun s => .left ?_⟩
  split
  · exact .fail
  · next c r htrivia =>
    have hr := length_lt_of_trivia_eq_cons htrivia
    refine .ite (Advances.lt s) (.ite (Advances.lt s)
      (.ite (.bind (.goTo (.less hr))) (.ite (.ite .fail (.goTo ?_)) (Advances.lt s))))
    rw [List.length_drop]
    omega

/-- By the parenthesis before its parameters. -/
instance {place : TypeSetting} : Advances (signature d g place) := by
  unfold signature parameters
  infer_instance

instance : Advances (indexSignature g) := by
  unfold indexSignature
  infer_instance

instance : Advances (typeMember d g) := by
  unfold typeMember
  infer_instance

/-- By a sign, or by the word `extends`. -/
instance {place : TypeSetting} : Advances (typeSuffix d g place) := by
  unfold typeSuffix
  refine ⟨fun s => .left (.ite .fail ?_)⟩
  split
  · next htrivia => exact .bind (.goTo (.less (length_lt_of_trivia_eq_cons htrivia)))
  · next htrivia => exact .ite .fail (.bind (.goTo (.less (length_lt_of_trivia_eq_cons htrivia))))
  · next htrivia => exact .ite .fail (.bind (.goTo (.less (length_lt_of_trivia_eq_cons htrivia))))
  · exact Advances.lt s

instance : Advances tagWord where
  lt s := by
    intro u rest h
    unfold tagWord at h
    dsimp only at h
    split at h
    · cases h
    · next n hn =>
      obtain ⟨-, rfl⟩ := Outcome.done.inj h
      have hle := trivia_length_le false s
      have hpos := length_pos_of_wordLength hn
      have hdrop : ((trivia false s).drop (n + 1)).length < s.length := by
        rw [List.length_drop]
        omega
      split
      · exact Nat.lt_of_le_of_lt (List.length_dropWhile_le _ _) hdrop
      · exact hdrop

/-- By a brace or a name. -/
instance : Advances (tagAttribute g) := by
  unfold tagAttribute
  refine ⟨fun s => .after fun _ t ht => .left ?_⟩
  split
  · next r =>
    have hr : r.length < s.length := ht
    exact .bind (.goTo (.less hr))
  · exact .mono (Advances.lt t) fun _ _ h => Nat.lt_of_lt_of_le h ht

instance : Advances tagText where
  lt s := by
    intro u rest h
    unfold tagText at h
    dsimp only at h
    split at h
    · next hlt =>
      obtain ⟨-, rfl⟩ := Outcome.done.inj h
      exact hlt
    · cases h

/-- An element or braces after their first character, a reference, or text. -/
instance : Advances (child g) where
  lt s := by
    intro u rest h
    unfold child at h
    split at h
    · exact Nat.lt_succ_of_le (Shrinks.le _ _ _ h)
    · exact Nat.lt_succ_of_le (Shrinks.le _ _ _ h)
    · split at h
      · cases h
      · obtain ⟨-, rfl⟩ := Outcome.done.inj h
        rw [List.length_drop]
        simp only [List.length_cons]
        omega
    · exact Advances.lt s _ _ h

instance : Advances (classMember d g) := by
  unfold classMember
  dsimp only
  infer_instance

/-! ## 2. Pieces of expressions

That a value takes a character is known from where it lies. What comes after a
value may be missing, but where it is read it has a sign in front. -/

/-- A value takes at least one character. -/
theorem Reader.Places.advances {p : Reader Value} (h : p.Places) : p.Advances :=
  ⟨fun s => .mono (h.lies s) fun _ _ hv => Nat.lt_of_lt_of_le hv.start_gt hv.start_le⟩

variable {setting : Setting}

/-- By the sign it is told by. -/
instance {v : Value} : Advances (suffix d g setting v) := by
  unfold suffix
  refine ⟨fun s => .left (.ite .fail ?_)⟩
  split
  · next htrivia => exact .bind (.goTo (.less (length_lt_of_trivia_eq_cons htrivia)))
  · next r htrivia =>
    have hr := Nat.lt_of_succ_lt (length_lt_of_trivia_eq_cons htrivia)
    refine .ite .fail (.bind (.goTo ?_))
    dsimp only
    split
    · next hinner =>
      exact .bind (.goTo (.less (Nat.lt_trans (length_lt_of_trivia_eq_cons hinner) hr)))
    · next hinner =>
      exact .bind (.goTo (.less (Nat.lt_trans (length_lt_of_trivia_eq_cons hinner) hr)))
    · exact .ite (.less hr) (.bind .fail)
    · exact .less hr
  · next htrivia => exact .bind (.goTo (.less (length_lt_of_trivia_eq_cons htrivia)))
  · next htrivia => exact .bind (.goTo (.less (length_lt_of_trivia_eq_cons htrivia)))
  · exact Advances.lt s
  · next htrivia =>
    exact .bind (.goTo (.less (Nat.lt_of_succ_lt (length_lt_of_trivia_eq_cons htrivia))))
  · next htrivia =>
    exact .bind (.goTo (.less (Nat.lt_of_succ_lt (length_lt_of_trivia_eq_cons htrivia))))
  · next htrivia =>
    exact .ite (.bind (.goTo (.less (length_lt_of_trivia_eq_cons htrivia)))) .fail
  · exact .ite (Advances.lt s) (.bind .fail)
  · exact .fail

theorem advances_symbol {t : List Char} (ht : t ≠ []) : Advances (symbol t) := by
  obtain ⟨c, r, rfl⟩ := List.exists_cons_of_ne_nil ht
  infer_instance

theorem ne_nil_of_mem_operators : ∀ t ∈ operators, t ≠ [] := by decide

instance : Advances operator where
  lt s := by
    intro u rest h
    unfold operator at h
    split at h
    · cases h
    · split at h
      · next t ht =>
        have := advances_symbol (ne_nil_of_mem_operators t (List.mem_of_find?_eq_some ht))
        exact Advances.lt s u rest h
      · exact Yields.either (p := keyword "instanceof") (q := keyword "in")
          (Advances.lt s) (Advances.lt s) u rest h

instance {v : Value} : Advances (operated d g setting v) := by
  unfold operated
  infer_instance

/-! ## 3. Statements

A declaration begins with a keyword, a class with its decorators or keyword, and
an expression takes a character. -/

instance : Shrinks (declarator d g) := Chains.shrinks (E := variableExtents) inferInstance

instance : Shrinks (declarators d g) := Chains.shrinks (E := Declared.extents) inferInstance

/-- By the word `function`; a generator is read like any other. -/
instance : Advances (functionDeclaration d g) := by
  unfold functionDeclaration
  refine ⟨fun s => .after fun _ t ht => .left ?_⟩
  refine .after fun _ t₁ h₁ => .afterAdvance fun _ t₂ h₂ => .after fun star t₃ h₃ => ?_
  refine .after fun name t₄ h₄ => .after fun ps t₅ h₅ => .left (.ite ?_ (.ite ?_ .fail))
  · refine .after fun extent r hr => .left (.bind (.goTo ?_))
    have hend : ((end? d false r).getD r).length ≤ r.length := by
      cases hend : end? d false r with
      | none => exact Nat.le_refl _
      | some rest => exact length_le_of_end?_eq_some hend
    cases star <;> exact .pure (by omega)
  · exact .less (by omega)

instance : Advances (classDeclaration d g) := by
  unfold classDeclaration
  dsimp only
  infer_instance

instance : Advances (typeAlias g d) := by
  unfold typeAlias
  infer_instance

instance : Advances (interfaceDeclaration g d) := by
  unfold interfaceDeclaration
  infer_instance

instance : Advances (enumDeclaration g) := by
  unfold enumDeclaration
  infer_instance

instance : Advances (moduleDeclaration g) := by
  unfold moduleDeclaration
  infer_instance

instance : Advances (plainDeclaration d g) := by
  unfold plainDeclaration
  infer_instance

instance : Advances (declaration d g) := by
  unfold declaration
  infer_instance

instance : Advances (importStatement d g) := by
  unfold importStatement
  infer_instance

instance : Advances (exportList d) := by
  unfold exportList
  infer_instance

instance : Advances (typedExport d g) := by
  unfold typedExport
  infer_instance

instance : Advances (exportStatement d g) := by
  unfold exportStatement
  have named : Shrinks (do
      match ← declaration d g with
      | some (kind, bindings) => return .exportNamed kind bindings
      | none => return .other : Reader Statement) :=
    ⟨fun s => .after fun declared t ht => by cases declared <;> exact .pure ht⟩
  infer_instance

instance : Advances (statementExpressions d g setting) := by
  unfold statementExpressions
  exact Reader.Places.advances inferInstance

instance : Advances (expressionStatement d g) := by
  unfold expressionStatement
  infer_instance

instance : Advances (exportExpression d g) := by
  unfold exportExpression
  infer_instance

instance {w : String} : Advances (statementFrom d g w) := by
  unfold statementFrom
  split
  · infer_instance
  · split
    · infer_instance
    · split
      · next hword =>
        have := wordStatement_shrinks w _ hword
        infer_instance
      · infer_instance

instance : Advances (readStatement d g) where
  lt s := by
    have ht : (trivia true s).length ≤ s.length := trivia_length_le true s
    have less {p : Reader Statement} [Advances p] {t : List Char} (ht : t.length ≤ s.length) :
        p.Yields t fun _ rest => rest.length < s.length :=
      .mono (Advances.lt t) fun _ _ h => Nat.lt_of_lt_of_le h ht
    intro statement rest h
    unfold readStatement at h
    generalize trivia true s = t at h ht
    dsimp only at h
    split at h
    · obtain ⟨rfl, rfl⟩ := Outcome.done.inj h
      exact ht
    · exact less ht _ _ h
    · exact less ht _ _ h
    · split at h
      · exact less ht _ _ h
      · exact less ht _ _ h

theorem grammar_none_advances : Grammar.none.Advances where
  toPlaces := grammar_none_places
  statement_advances := inferInstanceAs (Advances fail)

instance : (g.above d).Advances where
  toPlaces := inferInstance
  statement_advances := inferInstanceAs (Advances (readStatement d g))

/-- At every level of nesting. -/
theorem grammar_upTo_advances (d : Dialect) (n : Nat) : (Grammar.upTo d n).Advances := by
  induction n with
  | zero => exact grammar_none_advances
  | succ n ih => exact inferInstanceAs ((Grammar.upTo d n).above d).Advances

end LocaleEditor.Script
