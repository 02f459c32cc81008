/-
LocaleEditor.Proofs.Script.SteadyStatements — expressions and statements are read however lines are
indented.

The readers of expressions and statements, in the order in which they are
defined; the ways in which they are treated are those of the module on pieces.
The last section puts them together: with the readers of one level of nesting
those of the next level are steady, and so all of them (`grammar_upTo_steady`).

Where a reader does not choose by one character but by a longer test, it is
given an equation for each case first, in which the test has been made
(`literalOrPattern_eq`, `readOperand_sign`, `seesChoice_mark`). The equations are
about one text. The two texts meet only in the instance, where each case of one
is shown to be the same case of the other.
-/
import LocaleEditor.Proofs.Script.SteadyPieces

namespace LocaleEditor.Script

open LocaleEditor.Text Reader

-- the size that instance search counts doubles with each step of a reader
set_option synthInstance.maxSize 1000000

variable {kept : Nat} {s s' : List Char} {d : Dialect} {g : Grammar} [g.Advances] [g.Steady kept]
  {setting : Setting}

/-! ## 1. Objects, arrays and patterns

What is in them is nested and separated by commas. An object or array may turn
out to be a pattern that is assigned to, which is known only after it, so it is
read twice; the places that it is kept by differ between the two texts. -/

/-- Values with commas between them; several together are nothing to assign to. -/
instance {value : Reader Value} [Shrinks value] [Steady kept value value] :
    Steady kept (sequence value) (sequence value) := by
  unfold sequence
  infer_instance

instance : Steady kept (methodRest d g) (methodRest d g) := by
  unfold methodRest
  dsimp only
  infer_instance

instance : Steady kept (memberRest d g) (memberRest d g) := by
  unfold memberRest
  infer_instance

/-- A member is told by its first character, after white space. -/
instance : Steady kept (objectMember d g) (objectMember d g) := by
  unfold objectMember
  refine .afterGap fun s s' hfront => ?_
  have hs := hfront.indented
  cases hfront with
  | nil => infer_instance
  | cons c _ hr =>
    simp only
    infer_instance

instance : Steady kept (objectLiteral d g) (objectLiteral d g) := by
  unfold objectLiteral
  infer_instance

instance : Steady kept (spreadable g) (spreadable g) := by
  unfold spreadable
  infer_instance

instance : Steady kept (arrayLiteral g) (arrayLiteral g) := by
  unfold arrayLiteral
  infer_instance

instance : Steady kept (argumentsRest g) (argumentsRest g) := by
  unfold argumentsRest
  infer_instance

instance : Steady kept (template g) (template g) := by
  unfold template
  infer_instance

instance : Steady kept (parenthesized d g) (parenthesized d g) := by
  unfold parenthesized
  dsimp only
  infer_instance

/-- A pattern that is assigned to. -/
def assignedPattern (g : Grammar) (start : Nat) : Reader Value := do
  g.pattern
  equals
  let _ ← g.value .enclosed
  return .plain start (← Reader.left) false

instance {start start' : Nat} :
    Steady kept (assignedPattern g start) (assignedPattern g start') := by
  unfold assignedPattern
  infer_instance

omit [g.Advances] [g.Steady kept] in
/-- A literal in front of an equals sign is read again as a pattern. -/
theorem literalOrPattern_eq (literal : Reader Expr) (s : List Char) :
    literalOrPattern g literal s =
      match literal s with
      | .done e rest =>
        match equals rest with
        | .done _ _ => assignedPattern g (trivia true s).length s
        | .stuck _ => .done (.whole (trivia true s).length e rest false) rest
      | .stuck n =>
        match assignedPattern g (trivia true s).length s with
        | .done v rest => .done v rest
        | .stuck m => .stuck (min n m) := rfl

/-- An equals sign follows in both texts or in neither. -/
instance {literal : Reader Expr} [Steady kept literal literal] :
    Steady kept (literalOrPattern g literal) (literalOrPattern g literal) := ⟨fun {s s'} hs => by
  have pattern : (assignedPattern g (trivia true s).length s).Alike kept
      (assignedPattern g (trivia true s').length s') := Steady.alike hs
  rw [literalOrPattern_eq, literalOrPattern_eq]
  generalize assignedPattern g (trivia true s).length s = o at pattern ⊢
  generalize assignedPattern g (trivia true s').length s' = o' at pattern ⊢
  rcases Steady.cases literal literal hs with
    ⟨n, n', hp, hp'⟩ | ⟨e, e', r, r', hp, hp', -, hr⟩
  · rw [hp, hp']
    cases pattern with
    | done hv hr => exact .done hv hr
    | stuck => exact .stuck
  · rw [hp, hp']
    rcases Steady.cases equals equals hr with
      ⟨n, n', hq, hq'⟩ | ⟨u, u', x, x', hq, hq', -, hx⟩
    · simp only [hq, hq']
      exact .done rfl hr
    · simp only [hq, hq']
      exact pattern⟩

/-! ## 2. Operands and operators

A value, what may come after it, and what may come in front of it. Whether a
value goes on after a line break is asked of the text there, with the same answer
in both texts, so an expression ends on the same line in both. -/

instance [Indented kept s s'] : Same (seesPrefix s) (seesPrefix s') := by
  unfold seesPrefix
  infer_instance

/-- The words are equal, so the expression is of the same kind. -/
instance : Steady kept (wordExpression d g setting) (wordExpression d g setting) := by
  unfold wordExpression
  dsimp only
  infer_instance

/-- An expression without anything around it. -/
instance : Steady kept (primary d g setting) (primary d g setting) := ⟨fun {s s'} hs => by
  have hfront := hs.trivia true
  have ht := hfront.indented
  unfold primary
  generalize trivia true s = t at hfront ht ⊢
  generalize trivia true s' = t' at hfront ht ⊢
  cases hfront with
  | nil => exact .stuck
  | @cons r r' c _ hr =>
    dsimp only
    -- by the first character, which is the same: the first three begin nested pieces
    refine .ite (Steady.alike ht) ?_
    refine .ite (Steady.alike ht) ?_
    refine .ite (Steady.alike ht) ?_
    refine .ite ?_ ?_
    · rcases Steady.cases stringLiteral stringLiteral ht with
        ⟨n, n', hp, hp'⟩ | ⟨e, e', x, x', hp, hp', -, hx⟩
      · rw [hp, hp']
        exact .stuck
      · rw [hp, hp']
        exact .done rfl hx
    refine .ite ?_ ?_
    · rcases Steady.cases (template g) (template g) ht with
        ⟨n, n', hp, hp'⟩ | ⟨e, e', x, x', hp, hp', -, hx⟩
      · rw [hp, hp']
        exact .stuck
      · rw [hp, hp']
        exact .done rfl hx
    refine .ite ?_ ?_
    · have hline : OfLine fun x => (regexLength? x).getD 0 := fun x y hx =>
        congrArg (·.getD 0) (ofLine_regexLength? x y hx)
      have hle : ∀ x, (regexLength? x).getD 0 ≤ x.length := fun x => by
        cases hn : regexLength? x with
        | none => exact Nat.zero_le _
        | some n => exact regexLength?_le hn
      have hdrop := hline.drop hle ht (Nat.le_refl _)
      rw [← ofLine_regexLength?.eq ht]
      generalize regexLength? (c :: r) = o at hdrop ⊢
      cases o with
      | none => exact .stuck
      | some n => exact .done rfl hdrop
    refine .ite ?_ ?_
    · have hrest : Indented kept (r.drop (wordLength r)) (r'.drop (wordLength r')) := inferInstance
      have hin : nextWord (r.drop (wordLength r)) = nextWord (r'.drop (wordLength r')) := Same.eq
      have hword : wordLength r = wordLength r' := ofLine_wordLength.eq hr
      rw [hin, hword]
      rw [hword] at hrest
      exact .ite (.done rfl hrest) .stuck
    refine .ite (Steady.alike ht) ?_
    have hdrop := ofLine_numberLength.drop numberLength_le ht (Nat.le_refl _)
    have hword : wordLength (c :: r) = wordLength (c :: r') := ofLine_wordLength.eq ht
    rw [← ofLine_numberLength.eq ht, ← hword]
    generalize numberLength (c :: r) = n at hdrop ⊢
    cases n with
    | succ n => exact .done rfl hdrop
    | zero => exact .ite .stuck (Steady.alike ht)⟩

/-- It is seen from the next character. -/
instance [hs : Indented kept s s'] : Same (seesEnd s) (seesEnd s') := by
  have hnext : nextChar s = nextChar s' := Same.eq
  unfold seesEnd
  rw [hnext]
  exact ⟨rfl⟩

/-- Each suffix is told by the sign it begins with. -/
instance {v v' : Value} [Alike v v'] :
    Steady kept (suffix d g setting v) (suffix d g setting v') := by
  unfold suffix
  refine .left fun s s' hs => .ite inferInstance ?_
  have hrest := (hs.trivia false).indented
  rcases hrest.first (c := '.') (by decide) with ⟨r, r', hr, hr', hrr⟩ | ⟨hdot, hdot'⟩
  · simp only [hr, hr']
    infer_instance
  rcases hrest.begins (p := ['?', '.']) (by decide) with ⟨r, r', hr, hr', hrr⟩ | ⟨hmark, hmark'⟩
  · simp only [hr, hr', List.cons_append, List.nil_append]
    refine .ite inferInstance (.bind fun _ _ _ => ?_)
    have hinner := (hrr.trivia false).indented
    rcases hinner.first (c := '(') (by decide) with ⟨x, x', hx, hx', hxx⟩ | ⟨hcall, hcall'⟩
    · simp only [hx, hx']
      infer_instance
    rcases hinner.first (c := '[') (by decide) with ⟨x, x', hx, hx', hxx⟩ | ⟨hindex, hindex'⟩
    · simp only [hx, hx']
      infer_instance
    rcases hinner.first (c := '<') (by decide) with ⟨x, x', hx, hx', hxx⟩ | ⟨htypes, htypes'⟩
    · simp only [hx, hx']
      infer_instance
    split
    · next heq => exact absurd heq (hcall _)
    · next heq => exact absurd heq (hindex _)
    · next heq => exact absurd heq (htypes _)
    · infer_instance
  rcases hrest.first (c := '[') (by decide) with ⟨r, r', hr, hr', hrr⟩ | ⟨hbracket, hbracket'⟩
  · simp only [hr, hr']
    infer_instance
  rcases hrest.first (c := '(') (by decide) with ⟨r, r', hr, hr', hrr⟩ | ⟨hcall, hcall'⟩
  · simp only [hr, hr']
    infer_instance
  rcases hrest.first (c := '`') (by decide) with ⟨r, r', hr, hr', hrr⟩ | ⟨htemplate, htemplate'⟩
  · simp only [hr, hr']
    infer_instance
  rcases hrest.begins (p := ['+', '+']) (by decide) with ⟨r, r', hr, hr', hrr⟩ | ⟨hplus, hplus'⟩
  · simp only [hr, hr', List.cons_append, List.nil_append]
    infer_instance
  rcases hrest.begins (p := ['-', '-']) (by decide) with ⟨r, r', hr, hr', hrr⟩ | ⟨hminus, hminus'⟩
  · simp only [hr, hr', List.cons_append, List.nil_append]
    infer_instance
  rcases hrest.first (c := '!') (by decide) with ⟨r, r', hr, hr', hrr⟩ | ⟨hnot, hnot'⟩
  · simp only [hr, hr']
    infer_instance
  rcases hrest.first (c := '<') (by decide) with ⟨r, r', hr, hr', hrr⟩ | ⟨hless, hless'⟩
  · simp only [hr, hr']
    infer_instance
  -- no sign of a suffix in either text
  split
  · next heq => exact absurd heq (hdot _)
  · next heq => exact absurd heq (hmark _)
  · next heq => exact absurd heq (hbracket _)
  · next heq => exact absurd heq (hcall _)
  · next heq => exact absurd heq (htemplate _)
  · next heq => exact absurd heq (hplus _)
  · next heq => exact absurd heq (hminus _)
  · next heq => exact absurd heq (hnot _)
  · next heq => exact absurd heq (hless _)
  · split
    · next heq => exact absurd heq (hdot' _)
    · next heq => exact absurd heq (hmark' _)
    · next heq => exact absurd heq (hbracket' _)
    · next heq => exact absurd heq (hcall' _)
    · next heq => exact absurd heq (htemplate' _)
    · next heq => exact absurd heq (hplus' _)
    · next heq => exact absurd heq (hminus' _)
    · next heq => exact absurd heq (hnot' _)
    · next heq => exact absurd heq (hless' _)
    · infer_instance

/-! Operators and assignments are looked for one after the other in a list of signs,
none of which goes over a line break. -/

/-- The same one of some signs comes next in both texts. -/
theorem find?_startsWith (hs : Indented kept s s') {ts : List (List Char)}
    (hts : ∀ t ∈ ts, '\n' ∉ t) :
    (ts.find? fun t => startsWith t s) = ts.find? fun t => startsWith t s' := by
  induction ts with
  | nil => rfl
  | cons t ts ih =>
    have hsame : startsWith t s = startsWith t s' :=
      same_startsWith (hts t List.mem_cons_self)
    rw [List.find?_cons, List.find?_cons, hsame,
      ih fun t ht => hts t (List.mem_cons_of_mem _ ht)]

theorem newline_notMem_assignments : ∀ t ∈ assignments, '\n' ∉ t := by decide

theorem newline_notMem_operators : ∀ t ∈ operators, '\n' ∉ t := by decide

instance : Steady kept assignment assignment := ⟨fun {s s'} hs => by
  unfold assignment
  rw [← find?_startsWith hs newline_notMem_assignments]
  split
  · next t ht =>
    exact (Steady.symbol (newline_notMem_assignments t (List.mem_of_find?_eq_some ht))).alike hs
  · exact Steady.self equals hs⟩

instance {v v' : Value} [Alike v v'] :
    Steady kept (assigned g setting v) (assigned g setting v') := by
  unfold assigned
  infer_instance

instance : Steady kept (suffixed d g setting) (suffixed d g setting) := by
  unfold suffixed
  infer_instance

instance {start start' : Nat} :
    Steady kept (prefixed g setting start) (prefixed g setting start') := by
  unfold prefixed
  infer_instance

instance {start start' : Nat} :
    Steady kept (yielded d g setting start) (yielded d g setting start') := by
  unfold yielded
  infer_instance

instance {start start' : Nat} :
    Steady kept (angled d g setting start) (angled d g setting start') := by
  unfold angled
  infer_instance

/-- An operand that begins with no sign. -/
def wordOperand (d : Dialect) (g : Grammar) (setting : Setting) (left : Nat) : Reader Value :=
  fun t =>
    if prefixWords.contains (nextWord t) then prefixed g setting t.length (t.drop (wordLength t))
    else if nextWord t = "yield" then yielded d g setting t.length (t.drop (wordLength t))
    else
      match suffixed d g setting t with
      | .done v rest => .done v rest
      | .stuck n => .stuck (if n = t.length then left else n)

/-! An operand, by what comes first: a sign twice, a sign, an angle bracket, or none
of these. -/

omit [g.Advances] [g.Steady kept] in
theorem readOperand_twice {c : Char} {r : List Char} (h : trivia true s = c :: c :: r)
    (hc : c = '+' ∨ c = '-') : readOperand d g setting s = prefixed g setting (r.length + 2) r := by
  unfold readOperand
  rw [h]
  rcases hc with rfl | rfl <;> rfl

omit [g.Advances] [g.Steady kept] in
theorem readOperand_sign {c : Char} {r : List Char} (h : trivia true s = c :: r)
    (hc : c = '+' ∨ c = '-' ∨ c = '!' ∨ c = '~') (htwice : c = '+' ∨ c = '-' → ∀ t, r ≠ c :: t) :
    readOperand d g setting s = prefixed g setting (r.length + 1) r := by
  unfold readOperand
  rw [h]
  rcases hc with rfl | rfl | rfl | rfl <;> dsimp only <;> split <;> simp_all

omit [g.Advances] [g.Steady kept] in
theorem readOperand_angled {r : List Char} (h : trivia true s = '<' :: r) :
    readOperand d g setting s = angled d g setting (r.length + 1) ('<' :: r) := by
  unfold readOperand
  rw [h]
  rfl

omit [g.Advances] [g.Steady kept] in
theorem readOperand_other {t : List Char} (h : trivia true s = t)
    (hsign : ∀ c ∈ t.head?, ¬(c = '+' ∨ c = '-' ∨ c = '!' ∨ c = '~') ∧ c ≠ '<') :
    readOperand d g setting s = wordOperand d g setting s.length t := by
  unfold readOperand wordOperand
  rw [h]
  dsimp only
  split <;> first | rfl | simp_all

instance {left left' : Nat} :
    Steady kept (wordOperand d g setting left) (wordOperand d g setting left') :=
  ⟨fun {s s'} hs => by
    have hword : nextWord s = nextWord s' := Same.eq
    unfold wordOperand
    rw [hword]
    refine .ite (Steady.alike inferInstance) (.ite (Steady.alike inferInstance) ?_)
    rcases Steady.cases (suffixed d g setting) (suffixed d g setting) hs with
      ⟨n, n', hp, hp'⟩ | ⟨v, v', r, r', hp, hp', hv, hr⟩
    · rw [hp, hp']
      exact .stuck
    · rw [hp, hp']
      exact .done hv hr⟩

/-- By the first characters or the first word. -/
instance : Steady kept (readOperand d g setting) (readOperand d g setting) := ⟨fun {s s'} hs => by
  have hrest := (hs.trivia true).indented
  rcases hrest.begins (p := ['+', '+']) (by decide) with
    ⟨r, r', hr, hr', hrr⟩ | ⟨hincrement, hincrement'⟩
  · rw [readOperand_twice hr (.inl rfl), readOperand_twice hr' (.inl rfl)]
    exact Steady.alike hrr
  rcases hrest.begins (p := ['-', '-']) (by decide) with
    ⟨r, r', hr, hr', hrr⟩ | ⟨hdecrement, hdecrement'⟩
  · rw [readOperand_twice hr (.inr rfl), readOperand_twice hr' (.inr rfl)]
    exact Steady.alike hrr
  -- a sign that does not stand there twice
  by_cases hsign : ∃ c, (c = '+' ∨ c = '-' ∨ c = '!' ∨ c = '~') ∧ ∃ r, trivia true s = [c] ++ r
  · obtain ⟨c, hc, r, hr⟩ := hsign
    have hline : c ≠ '\n' := by rcases hc with rfl | rfl | rfl | rfl <;> decide
    rw [hr] at hrest
    obtain ⟨r', hr', hrr⟩ := hrest.exists_append (by simpa using hline.symm)
    rw [readOperand_sign hr hc ?_, readOperand_sign hr' hc ?_]
    · exact Steady.alike hrr
    · rintro (rfl | rfl) t rfl
      · exact hincrement' t hr'
      · exact hdecrement' t hr'
    · rintro (rfl | rfl) t rfl
      · exact hincrement t hr
      · exact hdecrement t hr
  rcases hrest.first (c := '<') (by decide) with ⟨r, r', hr, hr', hrr⟩ | ⟨hless, hless'⟩
  · rw [readOperand_angled hr, readOperand_angled hr']
    exact Steady.alike (hrr.cons '<')
  · have hfirst : ∀ c ∈ (trivia true s).head?,
        ¬(c = '+' ∨ c = '-' ∨ c = '!' ∨ c = '~') ∧ c ≠ '<' := by
      intro c hc
      obtain ⟨r, hr⟩ := List.head?_eq_some_iff.mp hc
      exact ⟨fun hc => hsign ⟨c, hc, r, hr⟩, fun hc => hless r (hc ▸ hr)⟩
    rw [readOperand_other rfl hfirst, readOperand_other rfl (hrest.head?_eq ▸ hfirst)]
    exact Steady.alike hrest⟩

/-- The operator that is found first in the list, unless an assignment or an arrow is there. -/
instance : Steady kept operator operator := ⟨fun {s s'} hs => by
  have hany : (assignments.any fun t => startsWith t s)
      = assignments.any fun t => startsWith t s' := by
    rw [← List.isSome_find?, ← List.isSome_find?, find?_startsWith hs newline_notMem_assignments]
  have harrow : startsWith ['=', '>'] s = startsWith ['=', '>'] s' := Same.eq
  unfold operator
  rw [hany, harrow, ← find?_startsWith hs newline_notMem_operators]
  split
  · exact .stuck
  split
  · next t ht =>
    exact (Steady.symbol (newline_notMem_operators t (List.mem_of_find?_eq_some ht))).alike hs
  · exact Steady.self (either (keyword "instanceof") (keyword "in")) hs⟩

/-- An operator with its operand, or a type assertion. -/
instance {v v' : Value} [Alike v v'] :
    Steady kept (operated d g setting v) (operated d g setting v') := by
  unfold operated
  infer_instance

instance : Steady kept (choiceRest g) (choiceRest g) := by
  unfold choiceRest
  infer_instance

/-- A question mark is a choice, but for one with another or a point after it. -/
theorem seesChoice_mark {r : List Char} (h : trivia false s = '?' :: r)
    (htwice : ∀ t, r ≠ '?' :: t) (hdot : ∀ t, r ≠ '.' :: t) : seesChoice s = true := by
  rw [seesChoice, h]
  split <;> simp_all

theorem seesChoice_other (h : ∀ r, trivia false s ≠ '?' :: r) : seesChoice s = false := by
  rw [seesChoice]
  split <;> simp_all

/-- Whether a question mark is that of a choice is seen from the two characters after it. -/
instance [hs : Indented kept s s'] : Same (seesChoice s) (seesChoice s') := ⟨by
  rcases (hs.trivia false).indented.first (c := '?') (by decide) with
    ⟨r, r', hr, hr', hrr⟩ | ⟨hmark, hmark'⟩
  · -- a point may be that of a number
    rcases hrr.first (c := '?') (by decide) with ⟨t, t', rfl, rfl, ht⟩ | ⟨htwice, htwice'⟩
    · rw [seesChoice, hr, seesChoice, hr']
      rfl
    rcases hrr.first (c := '.') (by decide) with ⟨t, t', rfl, rfl, ht⟩ | ⟨hdot, hdot'⟩
    · rw [seesChoice, hr, seesChoice, hr']
      exact congrArg (fun o : Option Char => o.elim false Char.isDigit) ht.head?_eq
    · rw [seesChoice_mark hr htwice hdot, seesChoice_mark hr' htwice' hdot']
  · rw [seesChoice_other hmark, seesChoice_other hmark']⟩

/-- An operand, the operators after it with their operands, and perhaps a choice. -/
instance : Steady kept (readValue d g setting) (readValue d g setting) := by
  unfold readValue
  infer_instance

/-! ## 3. Statements

Of a statement only whether it begins with a label is compared, since the other
parts of it are places in the text. -/

instance : Steady kept (statementExpressions d g setting) (statementExpressions d g setting) := by
  unfold statementExpressions
  infer_instance

instance : Steady kept (condition d g) (condition d g) := by
  unfold condition
  infer_instance

/-! Declarations. What they declare is given by places, so of a declaration only that
it was read is the same. -/

instance : Steady kept (bindingName g) (bindingName g) := by
  unfold bindingName
  infer_instance

instance : Steady kept (declarator d g) (declarator d g) := by
  unfold declarator
  dsimp only
  infer_instance

instance : Steady kept (declarators d g) (declarators d g) := by
  unfold declarators
  infer_instance

/-- After a statement, where it ends without a semicolon. -/
instance {operator : Bool} [h : Indented kept s s'] :
    Indented kept ((end? d operator s).getD s) ((end? d operator s').getD s') := by
  have hending := h.ending d operator
  generalize end? d operator s = o at hending ⊢
  generalize end? d operator s' = o' at hending ⊢
  cases hending with
  | none => exact h
  | some hrest => exact hrest

/-- A function may have no block, and then it ends like other statements. -/
instance : Steady kept (functionDeclaration d g) (functionDeclaration d g) := by
  unfold functionDeclaration
  dsimp only
  infer_instance

instance : Steady kept (classDeclaration d g) (classDeclaration d g) := by
  unfold classDeclaration
  dsimp only
  infer_instance

instance : Steady kept (typeAlias g d) (typeAlias g d) := by
  unfold typeAlias
  infer_instance

instance : Steady kept (interfaceDeclaration g d) (interfaceDeclaration g d) := by
  unfold interfaceDeclaration
  dsimp only
  infer_instance

instance : Steady kept (enumDeclaration g) (enumDeclaration g) := by
  unfold enumDeclaration
  infer_instance

instance : Steady kept dottedName dottedName := by
  unfold dottedName
  infer_instance

instance : Steady kept (moduleDeclaration g) (moduleDeclaration g) := by
  unfold moduleDeclaration
  infer_instance

/-- By the word the declaration begins with. -/
instance : Steady kept (plainDeclaration d g) (plainDeclaration d g) := by
  unfold plainDeclaration
  infer_instance

instance : Steady kept (declaration d g) (declaration d g) := by
  unfold declaration
  infer_instance

/-! Imports and exports. -/

instance : Steady kept exportedName exportedName := by
  unfold exportedName
  infer_instance

instance : Steady kept (specifier d) (specifier d) := by
  unfold specifier
  infer_instance

instance : Steady kept (specifiers d) (specifiers d) := by
  unfold specifiers
  infer_instance

instance : Steady kept fromClause fromClause := by
  unfold fromClause
  infer_instance

instance : Steady kept namespaceClause namespaceClause := by
  unfold namespaceClause
  infer_instance

instance : Steady kept (importClause d) (importClause d) := by
  unfold importClause
  infer_instance

instance : Steady kept (importAttributes d g) (importAttributes d g) := by
  unfold importAttributes
  infer_instance

instance : Steady kept (importStatement d g) (importStatement d g) := by
  unfold importStatement
  dsimp only
  infer_instance

instance : Steady kept (exportList d) (exportList d) := by
  unfold exportList
  infer_instance

instance : Steady kept (typedExport d g) (typedExport d g) := by
  unfold typedExport
  infer_instance

/-- The ways to export something are tried one after the other, in both texts. -/
instance : Steady kept (exportStatement d g) (exportStatement d g) := by
  unfold exportStatement
  have named : Steady kept (do
      match ← declaration d g with
      | some (kind, bindings) => return .exportNamed kind bindings
      | none => return .other : Reader Statement) (do
      match ← declaration d g with
      | some (kind, bindings) => return .exportNamed kind bindings
      | none => return .other : Reader Statement) := by
    refine .bind fun o o' _ => ⟨fun hs => ?_⟩
    -- neither result has a label, so nothing depends on whether the two agree
    cases o <;> cases o' <;> exact .done rfl hs
  infer_instance

/-! Loops, branches, and statements that are told by no word. -/

instance [Indented kept s s'] : Same (seesLetPattern s) (seesLetPattern s') := by
  unfold seesLetPattern
  infer_instance

/-- A variable for the members is declared, or they are assigned to something that is there. -/
instance : Steady kept (forInHeader g) (forInHeader g) := by
  unfold forInHeader
  infer_instance

instance : Steady kept (forHeader d g) (forHeader d g) := by
  unfold forHeader
  dsimp only
  infer_instance

instance [Indented kept s s'] : Same (seesBranch s) (seesBranch s') := by
  unfold seesBranch
  infer_instance

instance : Steady kept (switchBody g) (switchBody g) := by
  unfold switchBody
  infer_instance

instance : Steady kept (tryStatement d g) (tryStatement d g) := by
  unfold tryStatement
  dsimp only
  infer_instance

/-- A jump may end at a line break before its label. -/
instance : Steady kept (jump d) (jump d) := by
  unfold jump
  infer_instance

instance : Steady kept (expressionStatement d g) (expressionStatement d g) := by
  unfold expressionStatement
  infer_instance

/-- Whether the first word is a statement of its own. -/
instance [Indented kept s s'] : Same (standsAlone d s) (standsAlone d s') := by
  unfold standsAlone
  infer_instance

instance : Steady kept (exportExpression d g) (exportExpression d g) := by
  unfold exportExpression
  infer_instance

/-- One more word that begins a statement of its own. -/
theorem steady_of_mem_ite {c : Prop} {_ : Decidable c} {p : Reader Unit}
    {o : Option (Reader Unit)} [Steady kept p p] (ho : ∀ q ∈ o, Steady kept q q) {q : Reader Unit}
    (hq : q ∈ if c then some p else o) : Steady kept q q := by
  split at hq
  · obtain rfl := Option.some.inj hq
    assumption
  · exact ho q hq

/-- Whichever word a statement begins with. -/
theorem wordStatement_steady (w : String) : ∀ p ∈ wordStatement d g w, Steady kept p p := by
  intro p hp
  unfold wordStatement at hp
  dsimp only at hp
  refine steady_of_mem_ite ?_ hp
  repeat' refine fun p hp => steady_of_mem_ite ?_ hp
  exact fun p hp => absurd hp (Option.not_mem_none p)

/-- The statement that begins with a given word. -/
instance {w : String} : Steady kept (statementFrom d g w) (statementFrom d g w) := by
  unfold statementFrom
  refine .ite inferInstance (.ite inferInstance ?_)
  split
  · next hword =>
    have : Steady kept _ _ := wordStatement_steady w _ hword
    infer_instance
  · infer_instance

/-- An empty statement, a block and a decorator are told by a sign, the others by a word or by
none. -/
instance : Steady kept (readStatement d g) (readStatement d g) := ⟨fun {s s'} hs => by
  have ht := (hs.trivia true).indented
  have hlength : wordLength (trivia true s) = wordLength (trivia true s') := Same.eq
  have hword : nextWord (trivia true s) = nextWord (trivia true s') := Same.eq
  unfold readStatement
  dsimp only
  rw [hlength, hword]
  generalize trivia true s = t at ht ⊢
  generalize trivia true s' = t' at ht ⊢
  rcases ht.first (c := ';') (by decide) with ⟨r, r', rfl, rfl, hr⟩ | ⟨hempty, hempty'⟩
  · exact .done rfl hr
  rcases ht.first (c := '\x7b') (by decide) with ⟨r, r', rfl, rfl, hr⟩ | ⟨hblock, hblock'⟩
  · simp only
    exact Steady.alike ht
  rcases ht.first (c := '@') (by decide) with ⟨r, r', rfl, rfl, hr⟩ | ⟨hsign, hsign'⟩
  · simp only
    exact Steady.alike ht
  split
  · exact absurd rfl (hempty _)
  · exact absurd rfl (hblock _)
  · exact absurd rfl (hsign _)
  · exact .ite (Steady.alike ht) (Steady.alike ht)⟩

/-! ## 4. Levels of nesting

All readers of a level have been treated, with those of the level below as
assumptions. -/

/-- The grammar that reads nothing. -/
theorem grammar_none_steady : Grammar.none.Steady kept where
  value _ := inferInstanceAs (Steady kept fail fail)
  operand _ := inferInstanceAs (Steady kept fail fail)
  statement := inferInstanceAs (Steady kept fail fail)
  type _ := inferInstanceAs (Steady kept fail fail)
  pattern := inferInstanceAs (Steady kept fail fail)
  element := inferInstanceAs (Steady kept fail fail)

/-- One level more. -/
instance : (g.above d).Steady kept where
  value setting := inferInstanceAs (Steady kept (readValue d g setting) (readValue d g setting))
  operand setting :=
    inferInstanceAs (Steady kept (readOperand d g setting) (readOperand d g setting))
  statement := inferInstanceAs (Steady kept (readStatement d g) (readStatement d g))
  type place := inferInstanceAs (Steady kept (readType d g place) (readType d g place))
  pattern := inferInstanceAs (Steady kept (readPattern d g) (readPattern d g))
  element := inferInstanceAs (Steady kept (readElement d g) (readElement d g))

/-- At every level of nesting. -/
theorem grammar_upTo_steady (kept : Nat) (d : Dialect) (n : Nat) :
    (Grammar.upTo d n).Steady kept := by
  induction n with
  | zero => exact grammar_none_steady
  | succ n ih =>
    have := grammar_upTo_advances d n
    exact inferInstanceAs (((Grammar.upTo d n).above d).Steady kept)

end LocaleEditor.Script
