/-
LocaleEditor.Proofs.Script.Statements — where the exports of a script stand.

`Extent.Chain high low es` says that pieces stand one after another between two
places, none of them empty. What a statement exports is such a chain between
where the statement begins and where it ends (`Chains`), and so is what a whole
script exports (`program_chain`).

This is what makes it possible to put new texts in the places of the exports, in
one pass over the script: no two of the places overlap, and they come in the
order in which the exports were read.
-/
import LocaleEditor.Proofs.Script.Values
import LocaleEditor.Script.Program

namespace LocaleEditor.Script

open LocaleEditor.Text Reader

set_option synthInstance.maxSize 1000000

/-! ## 1. Chains -/

/-- The pieces stand one after another between two places, and none of them is empty. -/
def Extent.Chain (high low : Nat) : List Extent → Prop
  | [] => low ≤ high
  | e :: es => e.left ≤ high ∧ e.right < e.left ∧ Extent.Chain e.right low es

namespace Extent

variable {high middle low : Nat} {es fs : List Extent}

theorem Chain.le (h : Chain high low es) : low ≤ high := by
  induction es generalizing high with
  | nil => exact h
  | cons e es ih =>
    obtain ⟨hleft, hpos, hrest⟩ := h
    have := ih hrest
    omega

/-- From an earlier place on. -/
theorem Chain.mono_high {high' : Nat} (h : Chain high low es) (hhigh : high ≤ high') :
    Chain high' low es := by
  cases es with
  | nil => exact Nat.le_trans h hhigh
  | cons e es => exact ⟨Nat.le_trans h.1 hhigh, h.2⟩

/-- Two chains of which the second begins where the first one ends. -/
theorem Chain.append (h : Chain high middle es) (h' : Chain middle low fs) :
    Chain high low (es ++ fs) := by
  induction es generalizing high with
  | nil => exact h'.mono_high h
  | cons e es ih => exact ⟨h.1, h.2.1, ih h.2.2⟩

theorem chain_nil (h : low ≤ high) : Chain high low [] := h

/-- Up to a later place. -/
theorem Chain.mono_low {low' : Nat} (h : Chain high low es) (hlow : low' ≤ low) :
    Chain high low' es := by
  have happend := h.append (chain_nil hlow)
  rwa [List.append_nil] at happend

theorem chain_singleton {e : Extent} (hleft : e.left ≤ high) (hpos : e.right < e.left)
    (hright : low ≤ e.right) : Chain high low [e] :=
  ⟨hleft, hpos, hright⟩

end Extent

theorem Value.Lies.chain {v : Value} {high low : Nat} (h : v.Lies high low) :
    Extent.Chain high low [v.extent] :=
  Extent.chain_singleton h.left h.nonempty h.right

/-- The pieces that belong to what is read are a chain in what was read. -/
class Reader.Chains {α : Type} (E : α → List Extent) (p : Reader α) : Prop where
  chain : ∀ s, p.Yields s fun a rest => Extent.Chain s.length rest.length (E a)

variable {α β : Type} {s : List Char} {d : Dialect}

namespace Reader.Chains

/-! The rules for readers that are put together: a step before the last one may read anything, and
of two readers of which one is tried first, both have to give chains. -/

variable {E : α → List Extent}

/-- What comes after a chain is no more than what came before it. -/
theorem shrinks {p : Reader α} (h : p.Chains E) : p.Shrinks :=
  ⟨fun s => .mono (h.chain s) fun _ _ hc => hc.le⟩

/-- Reading a chain from a later place on. -/
theorem yields {p : Reader α} [h : p.Chains E] {high : Nat} (hs : s.length ≤ high) :
    p.Yields s fun a rest => Extent.Chain high rest.length (E a) :=
  .mono (h.chain s) fun _ _ hc => hc.mono_high hs

instance : Chains E fail := ⟨fun _ => .fail⟩

instance {p : Reader β} {f : β → Reader α} [Shrinks p] [∀ a, Chains E (f a)] :
    Chains E (p >>= f) :=
  ⟨fun _ => .after fun _ _ hr => yields hr⟩

instance {p : Reader α} {q : Unit → Reader α} [Chains E p] [∀ u, Chains E (q u)] :
    Chains E (HOrElse.hOrElse p q) :=
  ⟨fun s => .either (chain s) (chain s)⟩

instance {c : Prop} {_ : Decidable c} {p q : Reader α} [Chains E p] [Chains E q] :
    Chains E (if c then p else q) := by
  split <;> assumption

/-- Items one after another give their pieces one after another. -/
instance {item : Reader α} [Chains E item] :
    Chains (fun as => as.flatMap E) (series item) := by
  unfold series
  refine ⟨fun s => .bind (.mono (chain (E := E) s) fun a t ht => ?_)⟩
  refine .bind (.mono (.extend (Q := fun as t =>
      Extent.Chain s.length t.length (E a ++ as.flatMap E)) ?_ ?_) ?_)
  · simpa using ht
  · intro as t ht
    refine .after fun _ t₁ h₁ => .bind (.mono (yields (E := E) h₁) fun b t₂ hb => .pure ?_)
    rw [List.flatMap_append, List.flatMap_singleton, ← List.append_assoc]
    exact ht.append hb
  · exact fun as t ht => .pure ht

end Reader.Chains

/-- Where the names of a declaration stand. -/
def Declared.extents (declared : Declared) : List Extent :=
  declared.elim [] fun p => p.2.map Binding.extent

/-- Where what a statement exports stands. -/
def Statement.extents : Statement → List Extent
  | .exportDefault v => [v.extent]
  | .exportNamed _ bindings => bindings.map Binding.extent
  | .labelled => []
  | .other => []

/-! A declaration or statement that exports nothing has no pieces, and the empty chain stands
anywhere. -/

instance : Chains Declared.extents (pure none) := ⟨fun _ => .pure (Nat.le_refl _)⟩

instance : Chains Statement.extents (pure .other) := ⟨fun _ => .pure (Nat.le_refl _)⟩

instance : Chains Statement.extents (pure .labelled) := ⟨fun _ => .pure (Nat.le_refl _)⟩

variable {g : Grammar} [g.Places]

/-! ## 2. Declarations

Only variables and functions have pieces. A variable has the extent of the core
of its value, so a chain of variables comes from where values lie (`Places`); a
function has the whole declaration. For the other declarations it is enough that
their readers leave no more text than they found. -/

instance : Shrinks (bindingName g) := by
  unfold bindingName
  infer_instance

/-- Where the value of a variable stands, if it has one and is kept. -/
def variableExtents (v : Option Binding) : List Extent := (v.map Binding.extent).toList

theorem flatMap_variableExtents (vs : List (Option Binding)) :
    vs.flatMap variableExtents = Declared.extents (some (.initializer, vs.filterMap id)) := by
  induction vs with
  | nil => rfl
  | cons v vs ih =>
    rw [List.flatMap_cons, ih]
    cases v <;> rfl

/-- The value comes after the name and the type, which have no pieces. -/
instance : Chains variableExtents (declarator d g) := by
  unfold declarator
  have initial (name : Option String) : Chains variableExtents (do
      if ← Reader.sees equals then
        equals
        let v ← g.value .statement
        return name.map fun n => ⟨n, v.extent, v.core⟩
      else return none : Reader (Option Binding)) := by
    refine ⟨fun s => .bind (.sees fun b => .ite ?_ (.pure (Nat.le_refl _)))⟩
    refine .after fun _ t₁ h₁ => .bind (.mono (Places.yields h₁) fun v t₂ hv => .pure ?_)
    cases name with
    | none => exact hv.chain.le
    | some n => exact hv.chain
  dsimp only
  infer_instance

/-- Variables that are not kept have no pieces, so they may be left out of the chain. -/
instance : Chains Declared.extents (declarators d g) := by
  unfold declarators
  refine ⟨fun s => .bind (.mono (Chains.chain (E := (·.flatMap variableExtents)) s) ?_)⟩
  refine fun vs t ht => .after fun _ t₁ h₁ => .pure ?_
  rw [← flatMap_variableExtents]
  exact ht.mono_low h₁

/-- The declaration ends after its block, or after the comments that belong to the statement where
a semicolon is left out. -/
instance : Chains Declared.extents (functionDeclaration d g) := by
  unfold functionDeclaration
  refine ⟨fun s => .after fun _ t ht => .left ?_⟩
  refine .after fun _ t₁ h₁ => .afterAdvance fun _ t₂ h₂ => .after fun star t₃ h₃ => ?_
  refine .after fun name t₄ h₄ => .after fun ps t₅ h₅ => .left (.ite ?_ (.ite ?_ .fail))
  · refine .after fun extent r hr => .left (.bind (.goTo ?_))
    have hend : ((end? d false r).getD r).length ≤ r.length := by
      cases hend : end? d false r with
      | none => exact Nat.le_refl _
      | some rest => exact length_le_of_end?_eq_some hend
    cases star with
    | some _ => exact .pure (Extent.chain_nil (by omega))
    | none => exact .pure (Extent.chain_singleton ht (by dsimp only; omega) (Nat.le_refl _))
  · exact .after fun _ t₆ h₆ => .pure (Extent.chain_nil (by omega))

instance : Chains Declared.extents (classDeclaration d g) := by
  unfold classDeclaration
  infer_instance

instance : Chains Declared.extents (typeAlias g d) := by
  unfold typeAlias
  infer_instance

instance : Chains Declared.extents (interfaceDeclaration g d) := by
  unfold interfaceDeclaration
  infer_instance

instance : Chains Declared.extents (enumDeclaration g) := by
  unfold enumDeclaration
  infer_instance

instance : Shrinks dottedName := by
  unfold dottedName
  infer_instance

instance : Chains Declared.extents (moduleDeclaration g) := by
  unfold moduleDeclaration
  infer_instance

instance : Chains Declared.extents (plainDeclaration d g) := by
  unfold plainDeclaration
  infer_instance

instance : Shrinks (plainDeclaration d g) :=
  Chains.shrinks (E := Declared.extents) inferInstance

instance : Chains Declared.extents (declaration d g) := by
  unfold declaration
  infer_instance

instance : Shrinks (declaration d g) := Chains.shrinks (E := Declared.extents) inferInstance

instance : Shrinks (classDeclaration d g) := Chains.shrinks (E := Declared.extents) inferInstance

/-! ## 3. Imports and exports

Names that come from elsewhere have no place of their own to be written to. Of
the readers up to `typedExport` it matters only that they leave no more text. -/

instance : Shrinks exportedName := by
  unfold exportedName
  infer_instance

instance : Shrinks (specifier d) := by
  unfold specifier
  infer_instance

instance : Shrinks (specifiers d) := by
  unfold specifiers
  infer_instance

instance : Shrinks fromClause := by
  unfold fromClause
  infer_instance

instance : Shrinks namespaceClause := by
  unfold namespaceClause
  infer_instance

instance : Shrinks (importClause d) := by
  unfold importClause
  infer_instance

instance : Shrinks (importAttributes d g) := by
  unfold importAttributes
  infer_instance

instance : Shrinks (importStatement d g) := by
  unfold importStatement
  infer_instance

instance : Shrinks (exportList d) := by
  unfold exportList
  infer_instance

instance : Shrinks (typedExport d g) := by
  unfold typedExport
  infer_instance

/-- What is exported by default is one piece, and a declaration has those of what it declares. -/
instance : Chains Statement.extents (exportStatement d g) := by
  unfold exportStatement
  have exported : Chains Statement.extents (do
      let v ← g.value .statement
      semicolon d true
      return .exportDefault v : Reader Statement) := by
    refine ⟨fun s => .bind (.mono (Places.lies s) fun v t hv => .after fun _ t₁ h₁ => .pure ?_)⟩
    exact hv.chain.mono_low h₁
  have named : Chains Statement.extents (do
      match ← declaration d g with
      | some (kind, bindings) => return .exportNamed kind bindings
      | none => return .other : Reader Statement) := by
    refine ⟨fun s => .bind (.mono (Chains.chain (E := Declared.extents) s) ?_)⟩
    intro declared t ht
    cases declared with
    | none => exact .pure ht
    | some p => exact .pure ht
  infer_instance

/-! ## 4. Statements

All statements other than exports are read only to find where they end. Those
that begin with a word of their own come from a function on words
(`wordStatement`), which is taken apart one word at a time. -/

instance : Shrinks (condition d g) := by
  unfold condition
  infer_instance

instance : Shrinks (forInHeader g) := by
  unfold forInHeader
  infer_instance

instance : Shrinks (forHeader d g) := by
  unfold forHeader
  infer_instance

instance : Shrinks (switchBody g) := by
  unfold switchBody
  infer_instance

instance : Shrinks (tryStatement d g) := by
  unfold tryStatement
  infer_instance

instance : Shrinks (jump d) := by
  unfold jump
  infer_instance

/-- One more word that begins a statement of its own. -/
theorem shrinks_of_mem_ite {c : Prop} {_ : Decidable c} {p q : Reader Unit}
    {o : Option (Reader Unit)} [Shrinks p] (ho : ∀ q ∈ o, q.Shrinks)
    (hq : q ∈ if c then some p else o) : q.Shrinks := by
  split at hq
  · obtain rfl := Option.some.inj hq
    assumption
  · exact ho q hq

/-- Whichever word a statement begins with. -/
theorem wordStatement_shrinks (w : String) : ∀ p ∈ wordStatement d g w, p.Shrinks := by
  intro p hp
  unfold wordStatement at hp
  dsimp only at hp
  refine shrinks_of_mem_ite ?_ hp
  repeat' refine fun p hp => shrinks_of_mem_ite ?_ hp
  exact fun p hp => absurd hp (Option.not_mem_none p)

instance {setting : Setting} : Shrinks (statementExpressions d g setting) := by
  unfold statementExpressions
  infer_instance

instance : Chains Statement.extents (expressionStatement d g) := by
  unfold expressionStatement
  infer_instance

instance : Chains Statement.extents (exportExpression d g) := by
  unfold exportExpression
  infer_instance

/-- A statement that begins with a word is an export, an import, a declaration, one of those above,
or an expression. -/
instance {w : String} : Chains Statement.extents (statementFrom d g w) := by
  unfold statementFrom
  split
  · infer_instance
  · split
    · infer_instance
    · split
      · next hword =>
        have := wordStatement_shrinks w _ hword
        infer_instance
      · infer_instance

/-- A statement without a word in front is empty, a block, a class or export with decorators, or an
expression. -/
instance : Chains Statement.extents (readStatement d g) where
  chain s := by
    have ht : (trivia true s).length ≤ s.length := trivia_length_le true s
    intro statement rest h
    unfold readStatement at h
    generalize trivia true s = t at h ht
    dsimp only at h
    split at h
    · obtain ⟨rfl, rfl⟩ := Outcome.done.inj h
      exact Extent.chain_nil (Nat.le_of_succ_le ht)
    · exact Chains.yields ht _ _ h
    · exact Chains.yields ht _ _ h
    · split at h
      · exact Chains.yields ht _ _ h
      · exact Chains.yields ht _ _ h

instance : Shrinks (readStatement d g) := Chains.shrinks (E := Statement.extents) inferInstance

/-! ## 5. Scripts

The readers of nested pieces are built level upon level, and what is assumed of
a level in the sections above is proved of the next one. So it holds of all of
them by induction (`grammar_upTo_places`), and then of a script, which is read
by the readers of one level. -/

/-- At the lowest level nothing is read. -/
theorem grammar_none_places : Grammar.none.Places where
  value _ := inferInstanceAs (Shrinks fail)
  operand _ := inferInstanceAs (Shrinks fail)
  statement := inferInstanceAs (Shrinks fail)
  type _ := inferInstanceAs (Shrinks fail)
  pattern := inferInstanceAs (Shrinks fail)
  element := inferInstanceAs (Shrinks fail)
  value_places _ := inferInstanceAs (Places fail)
  operand_places _ := inferInstanceAs (Places fail)

/-- From one level to the next: each reader was treated above, or in the modules before. -/
instance : (g.above d).Places where
  value setting := inferInstanceAs (Shrinks (readValue d g setting))
  operand setting := inferInstanceAs (Shrinks (readOperand d g setting))
  statement := inferInstanceAs (Shrinks (readStatement d g))
  type place := inferInstanceAs (Shrinks (readType d g place))
  pattern := inferInstanceAs (Shrinks (readPattern d g))
  element := inferInstanceAs (Shrinks (readElement d g))
  value_places setting := inferInstanceAs (Places (readValue d g setting))
  operand_places setting := inferInstanceAs (Places (readOperand d g setting))

/-- At every level of nesting. -/
theorem grammar_upTo_places (d : Dialect) (n : Nat) : (Grammar.upTo d n).Places := by
  induction n with
  | zero => exact grammar_none_places
  | succ n ih => exact inferInstanceAs ((Grammar.upTo d n).above d).Places

/-- What the statements of a text export stands in the text, in their order. -/
theorem statementsWithin_chain {statement : Reader Statement}
    [Chains Statement.extents statement] (n : Nat) (s : List Char) :
    (statementsWithin statement n).Yields s
      fun as rest => Extent.Chain s.length rest.length (as.flatMap Statement.extents) := by
  induction n generalizing s with
  | zero => exact .fail
  | succ n ih =>
    intro as rest h
    unfold statementsWithin at h
    dsimp only at h
    split at h
    · obtain ⟨rfl, rfl⟩ := Outcome.done.inj h
      exact Extent.chain_nil (Nat.zero_le _)
    · split at h
      · cases h
      · next hstatement =>
        split at h
        · cases h
        · next hrest =>
          obtain ⟨rfl, rfl⟩ := Outcome.done.inj h
          rw [List.flatMap_cons]
          exact (Chains.chain (E := Statement.extents) s _ _ hstatement).append (ih _ _ _ hrest)

/-- A line that names an interpreter is left out before the first statement. -/
theorem length_afterShebang_le (s : List Char) : (afterShebang s).length ≤ s.length := by
  unfold afterShebang
  split
  · next r htrivia =>
    have hr := length_lt_of_trivia_eq_cons htrivia
    have hle := List.length_dropWhile_le (· != '\n') r
    rw [List.length_cons] at hr
    omega
  · exact Nat.le_refl _

/-- What a script exports stands in its text, one piece after another. -/
theorem program_chain {source : List Char} {statements : List Statement}
    (h : program d source = .ok statements) :
    Extent.Chain source.length 0 (statements.flatMap Statement.extents) := by
  have hplaces := grammar_upTo_places d (2 * source.length + 3)
  have hstatement : Chains Statement.extents (Grammar.upTo d (2 * source.length + 4)).statement :=
    inferInstanceAs (Chains _ (readStatement d (Grammar.upTo d (2 * source.length + 3))))
  unfold program at h
  dsimp only at h
  split at h
  · next hstatements =>
    obtain rfl := Except.ok.inj h
    have hchain := statementsWithin_chain _ _ _ _ hstatements
    exact (hchain.mono_high (length_afterShebang_le source)).mono_low (Nat.zero_le _)
  · cases h

end LocaleEditor.Script
