/-
LocaleEditor.Proofs.Script.Exported — scripts whose exports are read where they were printed.

Of the text around the exports `Settled` demands that its statements are read
before an export, whatever that exports. Then a script with its exports printed
in their places is read again, each export where it was printed
(`readExports_default`, `readExports_named`).

An object exported by default stands alone: there are statements before it, the
object, perhaps something around it such as a type assertion (`Wraps`), and
statements after it.

Named exports come one after another, and where one ends depends on what it is:
`Place` tells what was read last, and `Framed` goes from export to export. A
function ends with its block. A variable ends at a comma, where the next one
follows, or at the end of its statement. So in `Framed` a value has nothing
around it, which is the point where the output of a script with a type assertion
after an arrow function goes wrong.
-/
import LocaleEditor.Proofs.Script.Outlines
import LocaleEditor.Proofs.Script.Passing
import LocaleEditor.Proofs.Script.Splicing

namespace LocaleEditor.Script

open LocaleEditor.Text Reader

variable {d : Dialect} {g : Grammar} {style : Style} {source : List Char}

/-! ## 1. The text around the exports

All of it is source that stays where it is. The conditions speak of the texts
between two exports alone, and of what is exported they say only that it begins
with the word `export`. -/

/-- The statements in front of an export are read whatever is exported there, where there are enough
levels, and all of them satisfy `Q`. -/
def Settled (d : Dialect) (Q : Statement → Prop) (x : List Char) : Prop :=
  ∃ as, (∀ a ∈ as, Q a) ∧ ∀ m r, 2 * x.length ≤ m →
    Passes d (Grammar.upTo d m) (x ++ (exportWord ++ ' ' :: r)) as (exportWord ++ ' ' :: r)

/-- The statements up to the end of the script are read, and all of them satisfy `Q`. -/
def Closing (d : Dialect) (Q : Statement → Prop) (x : List Char) : Prop :=
  ∃ as, (∀ a ∈ as, Q a) ∧ ∀ m, 2 * x.length ≤ m → Passes d (Grammar.upTo d m) x as []

/-- The statement exports no object by default. -/
def Statement.IsPlain (a : Statement) : Prop := defaultObject? [a] = none

/-- The statement exports neither an object by default nor anything under a name. -/
def Statement.IsSilent (a : Statement) : Prop := a.IsPlain ∧ namedBindings [a] = []

theorem defaultObject?_append (as bs : List Statement) :
    defaultObject? (as ++ bs) = (defaultObject? as).or (defaultObject? bs) := by
  rw [defaultObject?, defaultObject?, defaultObject?, List.findSome?_append]

theorem defaultObject?_eq_none {as : List Statement} (h : ∀ a ∈ as, a.IsPlain) :
    defaultObject? as = none := by
  induction as with
  | nil => rfl
  | cons a as ih =>
    have hfirst := h a List.mem_cons_self
    rw [show a :: as = [a] ++ as from rfl, defaultObject?_append, hfirst,
      ih fun b hb => h b (List.mem_cons_of_mem _ hb)]
    rfl

theorem namedBindings_append (as bs : List Statement) :
    namedBindings (as ++ bs) = namedBindings as ++ namedBindings bs := by
  rw [namedBindings, namedBindings, namedBindings, List.flatMap_append]

theorem namedBindings_eq_nil {as : List Statement} (h : ∀ a ∈ as, a.IsSilent) :
    namedBindings as = [] := by
  induction as with
  | nil => rfl
  | cons a as ih =>
    rw [show a :: as = [a] ++ as from rfl, namedBindings_append, (h a List.mem_cons_self).2,
      ih fun b hb => h b (List.mem_cons_of_mem _ hb)]
    rfl

/-- Where a piece stands that has texts before and after it. -/
theorem Extent.span_append (before inside after : List Char) :
    Extent.span (before ++ (inside ++ after)) ⟨(inside ++ after).length, after.length⟩
      = ⟨byteLength before, byteLength before + byteLength inside⟩ := by
  have hbefore :
      (before ++ (inside ++ after)).length - (inside ++ after).length = before.length := by
    simp
  have hinside : (inside ++ after).length - after.length = inside.length := by simp
  simp only [Extent.span, Extent.text, hbefore, hinside, List.take_left, List.drop_left]

/-! ## 2. Entries by name

The tree of a script with named exports has an entry for each export that has a
node. An export may have none, if its value is no translation, and its text is
kept then. -/

/-- What follows an object leaves it as it is, such as a type assertion, up to `y`. -/
structure Wraps (d : Dialect) (x y : List Char) : Prop where
  equals_stuck : equals x = .stuck x.length
  assignment_stuck : assignment x = .stuck x.length
  suffix_stuck : ∀ m v, suffix d (Grammar.upTo d m) .statement v x = .stuck x.length
  operated : ∀ m v, 2 * x.length ≤ m → ∃ v' : Value, v'.core = v.core ∧ v'.extent = v.extent ∧
    Reader.extend (operated d (Grammar.upTo d m) .statement) v x = .done v' y
  choice : seesChoice y = false

/-- There may be nothing around the object. -/
theorem Ends.wraps {x : List Char} (h : Ends .statement x) : Wraps d x x where
  equals_stuck := h.equals_stuck
  assignment_stuck := h.assignment_stuck
  suffix_stuck _ v := Script.suffix_stuck h v
  operated _ v _ := ⟨v, rfl, rfl, extend_stuck (operated_stuck h v)⟩
  choice := seesChoice_eq_false h

/-- An object with something around it is a value with the object as its core. -/
theorem readValue_wrapped {s z x y : List Char} {e : Expr} {m : Nat} (hs : Reaches s ('\x7b' :: z))
    (hread : objectLiteral d (Grammar.upTo d m) ('\x7b' :: z) = .done e x) (hx : Wraps d x y)
    (hm : 2 * x.length ≤ m) : ∃ v : Value, v.core = e ∧
      v.extent = ⟨('\x7b' :: z).length, x.length⟩ ∧
      readValue d (Grammar.upTo d m) .statement s = .done v y := by
  have hreaches : Reaches ('\x7b' :: z) ('\x7b' :: z) := .solid (by decide) z
  have hprimary : primary d (Grammar.upTo d m) .statement ('\x7b' :: z)
      = .done (.whole ('\x7b' :: z).length e x false) x := by
    have hliteral : literalOrPattern (Grammar.upTo d m) (objectLiteral d (Grammar.upTo d m))
        ('\x7b' :: z) = .done (.whole ('\x7b' :: z).length e x false) x := by
      simp only [literalOrPattern, hreaches true, hread, hx.equals_stuck]
    simp only [primary, hreaches true]
    exact hliteral
  have hword : nextWord ('\x7b' :: z) = "" :=
    nextWord_eq_empty hreaches (wordLength_punctuation (by decide) (by decide) z)
  have hoperand := readOperand_of_primary hs (by decide) (by rw [hword]; decide) hprimary
    (hx.suffix_stuck m _) hx.assignment_stuck
  obtain ⟨v, hcore, hextent, hwrapped⟩ :=
    hx.operated m (.whole ('\x7b' :: z).length e x false) hm
  refine ⟨v, hcore, hextent, ?_⟩
  rw [readValue, bind_done hoperand, bind_done hwrapped]
  change (if seesChoice y then _ else _ : Reader Value) y = _
  rw [hx.choice]
  rfl

/-- The object is read as what it was printed for, and the statements after it are passed. -/
theorem readExports_default (hstyle : style.annotations = d.types) {t : Tree}
    (ht : (Node.object t).Stands d) (hunique : t.Unique) {x w after y z : List Char}
    (hx : Settled d Statement.IsPlain x) (hw : IsGap w) (hafter : Wraps d after y)
    (hend : semicolon d true y = .done () z) (hz : Closing d (fun _ => True) z) :
    let before := x ++ (exportWord ++ ' ' :: (defaultWord ++ w))
    readExports d (before ++ (printNode style 0 (.object t) ++ after))
      = .ok ⟨Tree.tidied t, .default ⟨byteLength before,
          byteLength before + byteLength (printNode style 0 (.object t))⟩⟩ := by
  intro before
  have hnodes : ∀ p ∈ t, p.2.Stands d := by
    cases ht with
    | object _ hnodes => exact hnodes
  generalize hsource : before ++ (printNode style 0 (.object t) ++ after) = source
  have htext : source = x ++ (exportWord ++ ' ' :: (defaultWord ++
      (w ++ (printNode style 0 (.object t) ++ after)))) := by
    rw [← hsource]
    simp [before]
  have hlength := congrArg List.length htext
  simp only [List.length_append, List.length_cons] at hlength
  -- the object, with what is around it
  have hlevels : 2 * (printNode style 0 (.object t)).length ≤ 2 * source.length + 2 := by omega
  have hsuffix : printNode style 0 (.object t) ++ after <:+ source := by
    rw [← hsource]
    exact List.suffix_append _ _
  obtain ⟨members, hnode, hobject⟩ := objectLiteral_printNode (d := d) hunique.1 hnodes
    (fun p hp => readsBack_of_stands hstyle (hnodes p hp) (Tree.uniqueBelow_iff.mp hunique.2 p hp))
    hlevels hsuffix
  obtain ⟨inside, hinside⟩ :
      ∃ inside, printNode style 0 (.object t) ++ after = '\x7b' :: inside := by
    obtain ⟨blanks, closing, -, -, hprint⟩ :=
      exists_printObject style 0 t fun p hp => isUnknown_of_stands (hnodes p hp)
    exact ⟨_, hprint after⟩
  have hspan := Extent.span_append before (printNode style 0 (.object t)) after
  have hinside' := congrArg List.length hinside
  rw [hsource] at hspan
  rw [hinside] at hobject htext hspan
  simp only [List.length_append, List.length_cons] at hinside'
  obtain ⟨v, hcore, hextent, hvalue⟩ :=
    readValue_wrapped (hw.reaches (.solid (by decide) _)) hobject hafter (by omega)
  have hplaces := grammar_upTo_places d (2 * source.length + 2)
  have hy := (Reader.Places.lies _ _ _ hvalue).start_gt
  have hy' := (Reader.Places.lies _ _ _ hvalue).start_le
  have hstatement := readStatement_exportDefault (g := Grammar.upTo d (2 * source.length + 3))
    hw hvalue hend
  have hle := Reader.Shrinks.le (p := semicolon d true) _ _ _ hend
  -- the statements before and after it
  obtain ⟨as, has, hpass⟩ := hx
  obtain ⟨bs, -, hclose⟩ := hz
  simp only [List.length_append, List.length_cons] at hy'
  have hstep := Passes.next (d := d) hstatement (by
    rw [reaches_exportWord _ true]
    simp only [List.length_append, List.length_cons]
    omega) (hclose (2 * source.length + 3) (by omega))
  have hpasses := (hpass (2 * source.length + 3) _ (by omega)).append hstep
  rw [← htext] at hpasses
  rw [readExports, program_of_passes hpasses rfl]
  have hfirst : defaultObject? (as ++ .exportDefault v :: bs) = some v := by
    rw [defaultObject?_append, defaultObject?_eq_none has]
    simp [defaultObject?, hcore, Expr.isObject]
  simp only [exportsOf, hfirst, hcore, hnode, hextent, hspan]
  rfl

/-! ## 4. Named exports

`Framed` is the condition on the texts between the exports, with one constructor
for each way in which an export may come next. `NamedExport.Stands` is the
condition on what stands in the place of an export. Under both, what is printed
there is read as the binding it was printed for (`declarator_text`,
`declaration_text`). -/

/-- What was read last. -/
inductive Place where
  /-- A whole statement, or nothing. -/
  | statement
  /-- The declaration of a function. -/
  | declaration
  /-- The value of a variable. -/
  | value

/-- From `s` on, what was read last ends, and a statement may begin at `z`. -/
def Place.Follows (d : Dialect) : Place → List Char → List Char → Prop
  | .statement, s, z => s = z
  | .declaration, s, z => s = z ∧ (end? d false s).getD s = s
  | .value, s, z => Ends .statement s ∧ nextChar s ≠ some ',' ∧ semicolon d true s = .done () z

/-- The texts of a script around its exports, each with what stood in the place of the export. An
export is a function, a variable, or one more variable after a comma. -/
inductive Framed (d : Dialect) :
    Place → List NamedExport → List (List Char × List Char) → List Char → Prop
  | stop {place : Place} {s z : List Char} (h : place.Follows d s z)
      (hz : Closing d Statement.IsSilent z) : Framed d place [] [] s
  | function {place : Place} {e : NamedExport} {es : List NamedExport}
      {ps : List (List Char × List Char)} {before x old rest : List Char}
      (hkind : e.kind = .function) (hname : IsWord e.name.toList)
      (hx : Settled d Statement.IsSilent x)
      (h : ∀ r, place.Follows d (before ++ r) (x ++ (exportWord ++ ' ' :: r)))
      (hrest : Framed d .declaration es ps rest) :
      Framed d place (e :: es) ((before, old) :: ps) rest
  | variable {place : Place} {e : NamedExport} {es : List NamedExport}
      {ps : List (List Char × List Char)} {before x w typing w' old rest : List Char} {k : String}
      (hkind : e.kind = .initializer) (hname : IsWord e.name.toList) (hk : k ∈ variableWords)
      (hw : IsGap w ∧ w ≠ []) (htyping : StandingAnnotation d typing) (hw' : IsGap w' ∧ w' ≠ [])
      (hx : Settled d Statement.IsSilent x)
      (h : ∀ r, place.Follows d (before ++ r) (x ++ (exportWord ++ ' ' ::
        (k.toList ++ (w ++ (e.name.toList ++ (typing ++ '=' :: (w' ++ r))))))))
      (hrest : Framed d .value es ps rest) : Framed d place (e :: es) ((before, old) :: ps) rest
  | another {e : NamedExport} {es : List NamedExport} {ps : List (List Char × List Char)}
      {w typing w' old rest : List Char} (hkind : e.kind = .initializer)
      (hname : IsWord e.name.toList) (hw : IsGap w) (htyping : StandingAnnotation d typing)
      (hw' : IsGap w' ∧ w' ≠ []) (hrest : Framed d .value es ps rest) :
      Framed d .value (e :: es)
        ((',' :: (w ++ (e.name.toList ++ (typing ++ '=' :: w'))), old) :: ps) rest

/-- A value whose text is kept is read as one that is no translation, wherever a statement may end
after it. -/
def StandingValue (d : Dialect) (x : List Char) : Prop :=
  ∀ m w r, 2 * x.length ≤ m → IsGap w → Ends .statement r → ∃ v : Value,
    v.extent = ⟨(x ++ r).length, r.length⟩ ∧ (∀ source, v.core.node? source = none) ∧
    readValue d (Grammar.upTo d m) .statement (w ++ (x ++ r)) = .done v r

/-- What stands in the place of the export is read back. -/
def NamedExport.Stands (d : Dialect) (t : Tree) (e : NamedExport) (old : List Char) : Prop :=
  (∃ n, t.get? e.name = some n ∧ n.Stands d ∧ n.Unique ∧
    (e.kind = .function → ∃ params text, n = .function params (.block text))) ∨
  t.get? e.name = none ∧ e.kind = .initializer ∧ StandingValue d old

/-- The text in the place of an export. -/
def NamedExport.text (style : Style) (t : Tree) (e : NamedExport) (old : List Char) : List Char :=
  (e.newText? style t).getD old

/-- The pieces of the script with the exports printed. -/
def writtenPieces (style : Style) (t : Tree) (es : List NamedExport)
    (ps : List (List Char × List Char)) : List (List Char × List Char) :=
  List.zipWith (fun e p => (p.1, e.text style t p.2)) es ps

/-- The script from the text before an export on. -/
theorem text_writtenPieces (style : Style) (t : Tree) (e : NamedExport) (es : List NamedExport)
    (before old : List Char) (ps : List (List Char × List Char)) (rest : List Char) :
    (Cut.mk (writtenPieces style t (e :: es) ((before, old) :: ps)) rest).text
      = before ++ (e.text style t old ++ (Cut.mk (writtenPieces style t es ps) rest).text) := by
  simp [writtenPieces, Cut.text]

/-- From `s` on, the variables `bs` follow after commas, and then the statements `as`, up to the end
of the script. -/
def Place.Reads (d : Dialect) (g : Grammar) : Place → List Char → List (Option Binding) →
    List Statement → Prop
  | .statement, s, bs, as => bs = [] ∧ Passes d g s as []
  | .declaration, s, bs, as => bs = [] ∧ (end? d false s).getD s = s ∧ Passes d g s as []
  | .value, s, bs, as => Ends .statement s ∧ ∃ t z,
      (∀ acc, Reader.extend (moreDeclarators d g) acc s = .done (acc ++ bs) t) ∧
      semicolon d true t = .done () z ∧ z.length ≤ s.length ∧ Passes d g z as []

theorem sign_stuck_of_nextChar {s : List Char} {c : Char} (h : nextChar s ≠ some c) :
    sign c s = .stuck s.length := by
  unfold sign symbol
  rw [nextChar] at h
  cases htrivia : trivia false s with
  | nil => rfl
  | cons a r =>
    have hne : c ≠ a := fun hca => h (by rw [htrivia, hca]; rfl)
    simp [hne]

/-- Where no export follows, the rest is read by what was read last. -/
theorem Place.Follows.reads {place : Place} {s z : List Char} {as : List Statement}
    (h : place.Follows d s z) (hz : Passes d g z as []) : place.Reads d g s [] as := by
  cases place with
  | statement => exact ⟨rfl, h ▸ hz⟩
  | declaration => exact ⟨rfl, h.2, h.1 ▸ hz⟩
  | value =>
    obtain ⟨hends, hcomma, hend⟩ := h
    refine ⟨hends, s, z, fun acc => ?_, hend, Reader.Shrinks.le (p := semicolon d true) _ _ _ hend,
      hz⟩
    rw [List.append_nil]
    refine extend_stuck (n := s.length) ?_
    unfold moreDeclarators
    exact bind_stuck (sign_stuck_of_nextChar hcomma)

/-- What is printed for a variable is read as its value. -/
theorem value_text (hstyle : style.annotations = d.types) {t : Tree} {e : NamedExport}
    {old w r : List Char} (he : e.Stands d t old) (hkind : e.kind = .initializer) (hw : IsGap w)
    {m : Nat} (hm : 2 * (e.text style t old).length ≤ m)
    (hsource : e.text style t old ++ r <:+ source) (hr : Ends .statement r) : ∃ v : Value,
      v.extent = ⟨(e.text style t old ++ r).length, r.length⟩ ∧
      v.core.node? source = (t.get? e.name).map Node.tidied ∧
      (Grammar.upTo d (m + 1)).value .statement (w ++ (e.text style t old ++ r)) = .done v r := by
  rcases he with ⟨n, hget, hn, hunique, -⟩ | ⟨hget, -, hold⟩
  · have htext : e.text style t old = printNode style 0 n := by
      have hnew := replacementText?_initializer style hkind (isUnknown_of_stands hn)
      rw [NamedExport.text, NamedExport.newText?, hget, Option.bind_some, hnew]
      rfl
    rw [htext] at hm hsource ⊢
    obtain ⟨c, x, hfront, hc⟩ := printNode_head hn 0
    have hreaches : Reaches (w ++ (printNode style 0 n ++ r)) (printNode style 0 n ++ r) := by
      rw [hfront]
      exact hw.reaches (.solid hc _)
    obtain ⟨e', target, hnode, hread⟩ :=
      readsBack_of_stands hstyle hn hunique 0 m .statement _ r source hm hreaches hsource hr
    exact ⟨_, rfl, by rw [hget]; exact hnode, hread⟩
  · have htext : e.text style t old = old := by
      rw [NamedExport.text, NamedExport.newText?, hget]
      rfl
    rw [htext] at hm hsource ⊢
    obtain ⟨v, hextent, hnode, hread⟩ := hold m w r hm hw hr
    exact ⟨v, hextent, by rw [hget]; exact hnode source, hread⟩

/-- A variable is read with the value that was printed for it. -/
theorem declarator_text (hstyle : style.annotations = d.types) {t : Tree} {e : NamedExport}
    {old w typing w' r : List Char} (he : e.Stands d t old) (hkind : e.kind = .initializer)
    (hname : IsWord e.name.toList) (hw : IsGap w) (htyping : StandingAnnotation d typing)
    (hw' : IsGap w' ∧ w' ≠ []) {m : Nat} (hm : 2 * (e.text style t old).length + 1 ≤ m)
    (hm' : 2 * typing.length ≤ m)
    (hsource : e.text style t old ++ r <:+ source) (hr : Ends .statement r) :
    ∃ b : Binding, b.name = e.name ∧ b.extent = ⟨(e.text style t old ++ r).length, r.length⟩ ∧
      b.core.node? source = (t.get? e.name).map Node.tidied ∧
      declarator d (Grammar.upTo d m) (w ++ (e.name.toList ++
        (typing ++ '=' :: (w' ++ (e.text style t old ++ r))))) = .done (some b) r := by
  obtain ⟨m, rfl⟩ : ∃ k, m = k + 1 := ⟨m - 1, by omega⟩
  have hlevels : 2 * (e.text style t old).length ≤ m := by omega
  obtain ⟨v, hextent, hnode, hvalue⟩ := value_text hstyle he hkind hw'.1 hlevels hsource hr
  exact ⟨⟨e.name, v.extent, v.core⟩, rfl, hextent, hnode,
    declarator_done hname htyping hm' hw'.1 hw'.2 (hw.reaches (hname.reaches _)) hvalue⟩

theorem toList_functionWord : "function ".toList = functionWord ++ [' '] := by decide

/-- How a function with a block is declared. -/
theorem printDeclaration_block (style : Style) (name : String) (params : List Param) (t : String)
    (r : List Char) : printDeclaration style name params (.block t) ++ r
      = functionWord ++ ' ' :: (name.toList ++ '(' ::
        (printParams style params ++ ')' :: ' ' :: (printBlock style 0 t.toList ++ r))) := by
  unfold printDeclaration
  rw [toList_functionWord]
  simp only [List.append_assoc, List.cons_append, List.nil_append]

/-- What is printed for a function is read as its declaration. -/
theorem declaration_text (hstyle : style.annotations = d.types) {t : Tree} {e : NamedExport}
    {old r : List Char} (he : e.Stands d t old) (hkind : e.kind = .function)
    (hname : IsWord e.name.toList) {m : Nat} (hm : 2 * (e.text style t old).length ≤ m)
    (hsource : e.text style t old ++ r <:+ source) (hr : (end? d false r).getD r = r) :
    ∃ b : Binding, b.name = e.name ∧ b.extent = ⟨(e.text style t old ++ r).length, r.length⟩ ∧
      b.core.node? source = (t.get? e.name).map Node.tidied ∧
      (∃ x, e.text style t old ++ r = 'f' :: x) ∧
      nextWord (' ' :: (e.text style t old ++ r)) = "function" ∧
      declaration d (Grammar.upTo d m) (' ' :: (e.text style t old ++ r))
        = .done (some (.function, [b])) r := by
  rcases he with ⟨n, hget, hn, -, hblock⟩ | ⟨-, hkind', -⟩
  swap
  · rw [hkind] at hkind'
    cases hkind'
  obtain ⟨params, t', rfl⟩ := hblock hkind
  obtain ⟨hparams, hbody⟩ : (∀ p ∈ params, StandingParam d p) ∧ StandingBlock d t'.toList := by
    cases hn with
    | function _ _ hparams hbody => exact ⟨hparams, hbody⟩
  have htext : e.text style t old ++ r = functionWord ++ ' ' :: (e.name.toList ++ '(' ::
      (printParams style params ++ ')' :: ' ' :: (printBlock style 0 t'.toList ++ r))) := by
    rw [NamedExport.text, NamedExport.newText?, hget, Option.bind_some,
      replacementText?_function style hkind, Option.getD_some, printDeclaration_block]
  have hlength := congrArg List.length htext
  simp only [List.length_append, List.length_cons] at hlength
  have hblock : printBlock style 0 t'.toList ++ r <:+ source := by
    obtain ⟨before, rfl⟩ := hsource
    exact ⟨before ++ (functionWord ++ ' ' :: (e.name.toList ++ '(' ::
      (printParams style params ++ [')', ' ']))), by rw [htext]; simp⟩
  obtain ⟨extent, l, hread, hkept⟩ := hbody.exists_block style 0 (m := m) (by omega) hblock
  obtain ⟨qs, hqs, hlist⟩ := strictList_printParams (m := m) hstyle hparams (by omega)
    (' ' :: (printBlock style 0 t'.toList ++ r))
  obtain ⟨z, hz⟩ := printBlock_head style 0 t'.toList
  rw [htext]
  rw [hz, List.cons_append] at hread hlist ⊢
  have hreaches : ∀ x, Reaches (' ' :: (functionWord ++ x)) (functionWord ++ x) := fun x =>
    .space (isWord_functionWord.reaches x)
  obtain ⟨hnext, -⟩ := keyword_front (k := "function") rfl isWord_functionWord (hreaches _)
    (endsWord_space (e.name.toList ++ '(' ::
      (printParams style params ++ ')' :: ' ' :: '\x7b' :: (z ++ r))))
  refine ⟨_, rfl, rfl, ?_, ⟨_, rfl⟩, hnext,
    declaration_function hname (hreaches _) hlist hread hr⟩
  rw [hget]
  simp only [Expr.node?, Signature.params, hqs, FunctionBody.toBody, hkept, Option.map_some,
    Node.tidied, Body.tidied]

/-! ## 5. Scripts with named exports

What has been passed so far (`pre`) is carried along, since spans count from the
beginning of the script. What is left to be read depends on the last thing that
was read (`Place.Reads`): after a value further variables, and in all places the
statements up to the end. There is a step for each way in which an export may
come next, and the run of them follows `Framed`. -/

/-- The bindings are those of the exports, each at its span and with its node. -/
structure Exported (source : List Char) (t : Tree) (es : List NamedExport) (spans : List Span)
    (bindings : List (ExportKind × Binding)) : Prop where
  exports : bindings.map (fun p => (⟨p.2.name, p.2.extent.span source, p.1⟩ : NamedExport))
    = List.zipWith (fun e span => { e with span }) es spans
  nodes : bindings.map (fun p => (p.2.name, p.2.core.node? source))
    = es.map fun e => (e.name, (t.get? e.name).map Node.tidied)

/-- One more export in front, at its span. -/
theorem Exported.cons {t : Tree} {e : NamedExport} {es : List NamedExport}
    {ps : List (List Char × List Char)} {pre before w tail : List Char} {b : Binding}
    {bindings : List (ExportKind × Binding)} (hsource : pre ++ (before ++ (w ++ tail)) = source)
    (hname : b.name = e.name) (hextent : b.extent = ⟨(w ++ tail).length, tail.length⟩)
    (hnode : b.core.node? source = (t.get? e.name).map Node.tidied)
    (h : Exported source t es (spansFrom (byteLength (pre ++ before ++ w)) ps) bindings) :
    Exported source t (e :: es) (spansFrom (byteLength pre) ((before, w) :: ps))
      ((e.kind, b) :: bindings) := by
  have hspan := Extent.span_append (pre ++ before) w tail
  rw [List.append_assoc, hsource, byteLength_append, ← hextent] at hspan
  rw [byteLength_append, byteLength_append] at h
  constructor
  · rw [List.map_cons, spansFrom, List.zipWith_cons_cons, ← h.exports, hname, hspan]
  · rw [List.map_cons, List.map_cons, ← h.nodes, hname, hnode]

/-- The variables that follow after commas, and what the statements export. -/
def exportedBindings (bs : List (Option Binding)) (as : List Statement) :
    List (ExportKind × Binding) :=
  (bs.filterMap id).map (ExportKind.initializer, ·) ++ namedBindings as

theorem Place.Follows.length_le {place : Place} {s z : List Char} (h : place.Follows d s z) :
    z.length ≤ s.length := by
  cases place with
  | statement => exact Nat.le_of_eq (congrArg _ (Eq.symm h))
  | declaration => exact Nat.le_of_eq (congrArg _ h.1.symm)
  | value => exact Reader.Shrinks.le (p := semicolon d true) _ _ _ h.2.2

theorem variableWords_front : ∀ k ∈ variableWords, IsWord k.toList ∧ k ≠ "default" ∧
    ∃ c x, k.toList = c :: x ∧ isWordStart c = true := by
  intro k hk
  simp only [variableWords, List.mem_cons, List.not_mem_nil, or_false] at hk
  rcases hk with rfl | rfl | rfl
  · exact ⟨by decide, by decide, 'v', ['a', 'r'], by decide, by decide⟩
  · exact ⟨by decide, by decide, 'l', ['e', 't'], by decide, by decide⟩
  · exact ⟨by decide, by decide, 'c', ['o', 'n', 's', 't'], by decide, by decide⟩

/-- The text before an export, and the statement that is read there. -/
theorem Place.Reads.of_settled {place : Place} {before x y t z : List Char} {a : Statement}
    {as : List Statement} {m : Nat} (hx : Settled d Statement.IsSilent x)
    (h : place.Follows d (before ++ y) (x ++ (exportWord ++ ' ' :: t)))
    (hm : 2 * (before ++ y).length ≤ m)
    (hread : readStatement d (Grammar.upTo d m) (exportWord ++ ' ' :: t) = .done a z)
    (hz : z.length ≤ t.length) (has : Passes d (Grammar.upTo d m) z as [])
    (ha : a.IsPlain) (has' : defaultObject? as = none) :
    ∃ cs, place.Reads d (Grammar.upTo d m) (before ++ y) [] cs ∧ defaultObject? cs = none ∧
      exportedBindings [] cs = namedBindings [a] ++ namedBindings as := by
  obtain ⟨before', hsilent, hpass⟩ := hx
  have hlength := h.length_le
  simp only [List.length_append, List.length_cons] at hlength hm
  have hstep := Passes.next (d := d) hread (by
    rw [reaches_exportWord _ true]
    simp only [List.length_append, List.length_cons]
    omega) has
  have hpasses := (hpass m t (by omega)).append hstep
  refine ⟨before' ++ a :: as, h.reads hpasses, ?_, ?_⟩
  · rw [defaultObject?_append, defaultObject?_eq_none fun b hb => (hsilent b hb).1,
      show a :: as = [a] ++ as from rfl, defaultObject?_append, has',
      show defaultObject? [a] = none from ha]
    rfl
  · rw [exportedBindings, namedBindings_append, namedBindings_eq_nil hsilent,
      show a :: as = [a] ++ as from rfl, namedBindings_append]
    rfl

/-- The statement that exports a variable, and further ones after it. -/
theorem readStatement_variables {k : String} {x u z r : List Char} {m : Nat} {b : Binding}
    {bs : List (Option Binding)} (hk : k ∈ variableWords) (hx : EndsWord x)
    (hfirst : declarator d (Grammar.upTo d m) x = .done (some b) r)
    (hmore : Reader.extend (moreDeclarators d (Grammar.upTo d m)) [] r = .done bs u)
    (hend : semicolon d true u = .done () z) :
    readStatement d (Grammar.upTo d m) (exportWord ++ ' ' :: (k.toList ++ x))
      = .done (.exportNamed .initializer (b :: bs.filterMap id)) z := by
  obtain ⟨hword, hdefault, c, k', hfront, hc⟩ := variableWords_front k hk
  have hreaches : Reaches (' ' :: (k.toList ++ x)) (k.toList ++ x) := .space (hword.reaches _)
  have hdeclaration := declaration_variables hk hreaches hx (declarators_done hfirst hmore hend)
  obtain ⟨hnext, -⟩ := keyword_front (k := k) rfl hword hreaches hx
  rw [hfront, List.cons_append] at hnext hdeclaration ⊢
  exact readStatement_exportNamed hc (by rw [hnext]; exact hdefault) hdeclaration

/-- From the end of `pre` on, the exports are read as what they were printed for, and after them the
rest of the script. -/
def ReadsOn (d : Dialect) (m : Nat) (style : Style) (source : List Char) (t : Tree)
    (pre : List Char) (place : Place) (es : List NamedExport) (ps : List (List Char × List Char))
    (rest : List Char) : Prop :=
  ∃ bs as, place.Reads d (Grammar.upTo d m) (Cut.mk (writtenPieces style t es ps) rest).text bs as ∧
    defaultObject? as = none ∧
    Exported source t es (spansFrom (byteLength pre) (writtenPieces style t es ps))
      (exportedBindings bs as)

section Steps

variable {t : Tree} {place : Place} {e : NamedExport} {es : List NamedExport}
  {ps : List (List Char × List Char)} {pre before x w typing w' old rest z : List Char} {m : Nat}

theorem suffix_of_append_append {inside : List Char} (h : pre ++ (before ++ inside) = source) :
    inside <:+ source := by
  rw [← h]
  exact (List.suffix_append _ _).trans (List.suffix_append _ _)

theorem readsOn_stop (h : place.Follows d rest z) (hz : Closing d Statement.IsSilent z)
    (hm : 2 * rest.length ≤ m) : ReadsOn d m style source t pre place [] [] rest := by
  obtain ⟨as, hsilent, hpass⟩ := hz
  have hle := h.length_le
  have htext : (Cut.mk (writtenPieces style t [] []) rest).text = rest := rfl
  rw [ReadsOn, htext]
  refine ⟨[], as, h.reads (hpass m (by omega)),
    defaultObject?_eq_none fun a ha => (hsilent a ha).1, ?_⟩
  rw [exportedBindings, namedBindings_eq_nil hsilent]
  exact ⟨rfl, rfl⟩

/-- A function in front of the exports that have been read. -/
theorem readsOn_function (hstyle : style.annotations = d.types) (he : e.Stands d t old)
    (hkind : e.kind = .function) (hname : IsWord e.name.toList)
    (hx : Settled d Statement.IsSilent x)
    (hfollows : ∀ r, place.Follows d (before ++ r) (x ++ (exportWord ++ ' ' :: r)))
    (hsource : pre ++ (before ++ (e.text style t old
      ++ (Cut.mk (writtenPieces style t es ps) rest).text)) = source)
    (hm : 2 * source.length ≤ m)
    (h : ReadsOn d m style source t (pre ++ before ++ e.text style t old) .declaration es ps rest) :
    ReadsOn d m style source t pre place (e :: es) ((before, old) :: ps) rest := by
  obtain ⟨bs, as, ⟨rfl, hend, hpass⟩, has, hexported⟩ := h
  rw [ReadsOn, text_writtenPieces]
  generalize (Cut.mk (writtenPieces style t es ps) rest).text = tail at *
  have hlength := congrArg List.length hsource
  simp only [List.length_append] at hlength
  have hsuffix := suffix_of_append_append hsource
  obtain ⟨b, hb, hextent, hnode, ⟨y, hy⟩, hnext, hread⟩ :=
    declaration_text (m := m) hstyle he hkind hname (by omega) hsuffix hend
  rw [hy] at hnext hread
  have hstatement := readStatement_exportNamed (by decide) (by rw [hnext]; decide) hread
  rw [← hy] at hstatement
  obtain ⟨cs, hreads, hcs, hbindings⟩ := Place.Reads.of_settled hx
    (hfollows (e.text style t old ++ tail)) (by simp only [List.length_append]; omega) hstatement
    (by simp only [List.length_append]; omega) hpass rfl has
  have hcons := hexported.cons hsource hb hextent hnode
  rw [hkind] at hcons
  refine ⟨[], cs, hreads, hcs, ?_⟩
  rw [hbindings]
  exact hcons

/-- A statement that declares a variable, with those that were read after commas. -/
theorem readsOn_variable (hstyle : style.annotations = d.types) (he : e.Stands d t old)
    (hkind : e.kind = .initializer) (hname : IsWord e.name.toList) {k : String}
    (hk : k ∈ variableWords) (hw : IsGap w ∧ w ≠ []) (htyping : StandingAnnotation d typing)
    (hw' : IsGap w' ∧ w' ≠ []) (hx : Settled d Statement.IsSilent x)
    (hfollows : ∀ r, place.Follows d (before ++ r) (x ++ (exportWord ++ ' ' ::
      (k.toList ++ (w ++ (e.name.toList ++ (typing ++ '=' :: (w' ++ r))))))))
    (hsource : pre ++ (before ++ (e.text style t old
      ++ (Cut.mk (writtenPieces style t es ps) rest).text)) = source)
    (hm : 2 * source.length + 2 ≤ m)
    (h : ReadsOn d m style source t (pre ++ before ++ e.text style t old) .value es ps rest) :
    ReadsOn d m style source t pre place (e :: es) ((before, old) :: ps) rest := by
  obtain ⟨bs, as, ⟨hends, u, z, hmore, hend, hz, hpass⟩, has, hexported⟩ := h
  rw [ReadsOn, text_writtenPieces]
  generalize (Cut.mk (writtenPieces style t es ps) rest).text = tail at *
  have hfollows := hfollows (e.text style t old ++ tail)
  have hlength := congrArg List.length hsource
  have hlength' := hfollows.length_le
  simp only [List.length_append, List.length_cons] at hlength hlength'
  have hsuffix := suffix_of_append_append hsource
  obtain ⟨b, hb, hextent, hnode, hfirst⟩ := declarator_text (m := m) hstyle he hkind hname hw.1
    htyping hw' (by omega) (by omega) hsuffix hends
  have hstatement := readStatement_variables hk (hw.1.endsWord hw.2 _) hfirst (hmore []) hend
  obtain ⟨cs, hreads, hcs, hbindings⟩ := Place.Reads.of_settled hx hfollows
    (by simp only [List.length_append]; omega) hstatement
    (by simp only [List.length_append, List.length_cons]; omega) hpass rfl has
  have hcons := hexported.cons hsource hb hextent hnode
  rw [hkind] at hcons
  refine ⟨[], cs, hreads, hcs, ?_⟩
  have hall : exportedBindings [] cs = (.initializer, b) :: exportedBindings bs as := by
    rw [hbindings]
    simp [namedBindings, exportedBindings]
  rw [hall]
  exact hcons

/-- One more variable after a comma, which is read after those of its statement in front of it. -/
theorem readsOn_another (hstyle : style.annotations = d.types) (he : e.Stands d t old)
    (hkind : e.kind = .initializer) (hname : IsWord e.name.toList) (hw : IsGap w)
    (htyping : StandingAnnotation d typing) (hw' : IsGap w' ∧ w' ≠ [])
    (hbefore : before = ',' :: (w ++ (e.name.toList ++ (typing ++ '=' :: w'))))
    (hsource : pre ++ (before ++ (e.text style t old
      ++ (Cut.mk (writtenPieces style t es ps) rest).text)) = source)
    (hm : 2 * source.length + 2 ≤ m)
    (h : ReadsOn d m style source t (pre ++ before ++ e.text style t old) .value es ps rest) :
    ReadsOn d m style source t pre .value (e :: es) ((before, old) :: ps) rest := by
  obtain ⟨bs, as, ⟨hends, u, z, hmore, hend, hz, hpass⟩, has, hexported⟩ := h
  rw [ReadsOn, text_writtenPieces]
  generalize (Cut.mk (writtenPieces style t es ps) rest).text = tail at *
  have htext : before ++ (e.text style t old ++ tail) = ',' :: (w ++ (e.name.toList ++
      (typing ++ '=' :: (w' ++ (e.text style t old ++ tail))))) := by
    rw [hbefore]
    simp
  have hlength := congrArg List.length hsource
  have hlength' := congrArg List.length htext
  simp only [List.length_append, List.length_cons] at hlength hlength'
  have hsuffix := suffix_of_append_append hsource
  obtain ⟨b, hb, hextent, hnode, hfirst⟩ := declarator_text (m := m) hstyle he hkind hname hw
    htyping hw' (by omega) (by omega) hsuffix hends
  have hstep : ∀ acc, moreDeclarators d (Grammar.upTo d m) acc
      (before ++ (e.text style t old ++ tail)) = .done (acc ++ [some b]) tail := by
    intro acc
    rw [htext, moreDeclarators, bind_done (sign_done (.solid (by decide) _)), bind_done hfirst]
    rfl
  have hcons := hexported.cons hsource hb hextent hnode
  rw [hkind] at hcons
  refine ⟨some b :: bs, as, ⟨?_, u, z, fun acc => ?_, hend, ?_, hpass⟩, has, hcons⟩
  · rw [htext]
    exact .comma _ _
  · rw [extend_done (hstep acc) (by simp only [List.length_append]; omega), hmore,
      List.append_assoc]
    rfl
  · simp only [List.length_append]
    omega

end Steps

/-- Framed exports are read one after another up to the end of the script. -/
theorem Framed.reads (hstyle : style.annotations = d.types) {t : Tree} {place : Place}
    {es : List NamedExport} {ps : List (List Char × List Char)} {rest : List Char} {m : Nat}
    (h : Framed d place es ps rest) (hstands : List.Forall₂ (fun e p => e.Stands d t p.2) es ps)
    (hm : 2 * source.length + 2 ≤ m) :
    ∀ pre, pre ++ (Cut.mk (writtenPieces style t es ps) rest).text = source →
      ReadsOn d m style source t pre place es ps rest := by
  induction h with
  | stop hfollows hz =>
    intro pre hsource
    refine readsOn_stop hfollows hz ?_
    have hlength := congrArg List.length hsource
    have htext : ∀ s, (Cut.mk (writtenPieces style t [] []) s).text = s := fun _ => rfl
    rw [htext, List.length_append] at hlength
    omega
  | function hkind hname hx hfollows hrest ih =>
    intro pre hsource
    obtain ⟨he, hstands⟩ := List.forall₂_cons.mp hstands
    rw [text_writtenPieces] at hsource
    exact readsOn_function hstyle he hkind hname hx hfollows hsource (by omega)
      (ih hstands _ (by rw [← hsource]; simp))
  | «variable» hkind hname hk hw htyping hw' hx hfollows hrest ih =>
    intro pre hsource
    obtain ⟨he, hstands⟩ := List.forall₂_cons.mp hstands
    rw [text_writtenPieces] at hsource
    exact readsOn_variable hstyle he hkind hname hk hw htyping hw' hx hfollows hsource hm
      (ih hstands _ (by rw [← hsource]; simp))
  | another hkind hname hw htyping hw' hrest ih =>
    intro pre hsource
    obtain ⟨he, hstands⟩ := List.forall₂_cons.mp hstands
    rw [text_writtenPieces] at hsource
    exact readsOn_another hstyle he hkind hname hw htyping hw' rfl hsource hm
      (ih hstands _ (by rw [← hsource]; simp))

end LocaleEditor.Script
