/-
LocaleEditor.Proofs.Script.Passing — statements that are read one after another.

`Passes d g s as t` says that the statements `as` are read from `s` on and that
`t` is left. Texts that are passed follow one another (`Passes.append`), and a
script that is passed to its end has those statements (`program_of_passes`). Of
the statements themselves only the exports are looked at: an object exported by
default, variables with a value, and functions.

Of all other statements nothing has to be known but that they are passed. They
stand in the script as they stood when it was read, and what comes after them has
changed; that they are passed all the same is a condition on them, which the
module on scripts with exports states.
-/
import LocaleEditor.Proofs.Script.Printed
import LocaleEditor.Proofs.Script.Statements

namespace LocaleEditor.Script

open LocaleEditor.Text Reader

variable {d : Dialect} {g : Grammar} {s t r : List Char} {a : Statement} {as : List Statement}

/-! ## 1. Statements one after another

The relation has no count of rounds. The reader of a script has one, and each
statement takes at least a character, so it is large enough
(`statementsWithin_of_passes`). A line that names an interpreter is passed over
before the statements; a script that is passed has none, since no statement
begins like it. -/

/-- The statements are read one after another from `s` on, and `t` is left. -/
inductive Passes (d : Dialect) (g : Grammar) : List Char → List Statement → List Char → Prop
  | stop {s t : List Char} (h : trivia true s = trivia true t) : Passes d g s [] t
  | next {s t rest : List Char} {a : Statement} {as : List Statement}
      (h : readStatement d g s = .done a rest) (hlt : rest.length < (trivia true s).length)
      (hrest : Passes d g rest as t) : Passes d g s (a :: as) t

/-- A statement is read after the white space in front of it. -/
theorem readStatement_congr (h : trivia true s = trivia true t) :
    readStatement d g s = readStatement d g t := by
  unfold readStatement
  rw [h]

theorem Passes.append {bs : List Statement} (h : Passes d g s as t) (h' : Passes d g t bs r) :
    Passes d g s (as ++ bs) r := by
  induction h with
  | stop hst =>
    cases h' with
    | stop htr => exact .stop (hst.trans htr)
    | next hread hlt hrest =>
      exact .next ((readStatement_congr hst).trans hread) (by rw [hst]; exact hlt) hrest
  | next hread hlt _ ih => exact .next hread hlt (ih h')

theorem statementsWithin_of_passes (h : Passes d g s as t) (ht : trivia true t = []) :
    ∀ n, (trivia true s).length < n →
      statementsWithin (readStatement d g) n s = .done as [] := by
  induction h with
  | stop hst =>
    intro n hn
    obtain ⟨n, rfl⟩ := Nat.exists_eq_add_one.mpr (Nat.zero_lt_of_lt hn)
    have hempty := hst.trans ht
    simp [statementsWithin, hempty]
  | @next s t rest a as hread hlt _ ih =>
    intro n hn
    obtain ⟨n, rfl⟩ := Nat.exists_eq_add_one.mpr (Nat.zero_lt_of_lt hn)
    have hle := trivia_length_le true rest
    have hrest := ih ht n (by omega)
    have hsome : (trivia true s).isEmpty = false := by
      cases htrivia : trivia true s with
      | nil => rw [htrivia] at hlt; cases hlt
      | cons c r => rfl
    simp only [statementsWithin, hsome, hread, hrest]
    rfl

/-- No statement begins like a line that names an interpreter. -/
theorem readStatement_shebang (h : trivia true s = '#' :: '!' :: r) :
    ∃ n, readStatement d g s = .stuck n := by
  have hreaches : Reaches ('#' :: '!' :: r) ('#' :: '!' :: r) := .solid (by decide) _
  have hword : wordLength ('#' :: '!' :: r) = 0 :=
    wordLength_punctuation (by decide) (by decide) _
  have hword' : wordLength ('!' :: r) = 0 := wordLength_punctuation (by decide) (by decide) _
  have hprimary : primary d g .statement ('#' :: '!' :: r) = .stuck ('#' :: '!' :: r).length := by
    simp [primary, hreaches true, hword']
  have hsuffixed : suffixed d g .statement ('#' :: '!' :: r)
      = .stuck ('#' :: '!' :: r).length := by
    unfold suffixed
    exact bind_stuck hprimary
  have hoperand : ∃ n, readOperand d g .statement ('#' :: '!' :: r) = .stuck n := by
    unfold readOperand
    rw [hreaches true]
    dsimp only
    rw [nextWord_eq_empty hreaches hword, hsuffixed]
    exact ⟨_, rfl⟩
  obtain ⟨n, hoperand⟩ := hoperand
  refine ⟨n, ?_⟩
  unfold readStatement
  rw [h]
  dsimp only
  rw [if_pos hword, expressionStatement, statementExpressions, sequence, readValue]
  exact bind_stuck (bind_stuck (bind_stuck hoperand))

theorem afterShebang_of_passes (h : Passes d g s as t) (ht : (trivia true t).head? ≠ some '#') :
    afterShebang s = s := by
  unfold afterShebang
  split
  · next r hs =>
    exfalso
    cases h with
    | stop hst => exact ht (by rw [← hst, hs]; rfl)
    | next hread =>
      obtain ⟨n, hstuck⟩ := readStatement_shebang (d := d) (g := g) hs
      rw [hstuck] at hread
      cases hread
  · rfl

/-- A script whose statements are read one after another is read. -/
theorem program_of_passes (h : Passes d (Grammar.upTo d (2 * s.length + 3)) s as t)
    (ht : trivia true t = []) : program d s = .ok as := by
  have hshebang : afterShebang s = s := afterShebang_of_passes h (by rw [ht]; rintro ⟨⟩)
  have hlength := trivia_length_le true s
  have hread : statementsWithin (Grammar.upTo d (2 * s.length + 4)).statement (s.length + 1) s
      = .done as [] := statementsWithin_of_passes h ht (s.length + 1) (by omega)
  simp only [program, hshebang, hread]

/-! ## 2. Ends of statements

A statement may end without a semicolon, at a line break or before a brace. What
is printed goes on after a space or ends with a semicolon, so it is cut nowhere
else. -/

theorem isSpace_of_isPlainSpace {c : Char} (h : isPlainSpace c = true) : isSpace c = true := by
  simp only [isPlainSpace, Bool.or_eq_true, beq_iff_eq, Bool.and_eq_true,
    decide_eq_true_eq] at h
  rcases h with rfl | ⟨hlow, hhigh⟩
  · decide
  · have hlow : 9 ≤ c.toNat := hlow
    have hhigh : c.toNat ≤ 13 := hhigh
    have hcode : c.toNat ∈ [9, 10, 11, 12, 13] := by simp; omega
    rw [← Char.ofNat_toNat c]
    simp only [List.mem_cons, List.not_mem_nil, or_false] at hcode
    rcases hcode with hcode | hcode | hcode | hcode | hcode <;> rw [hcode] <;> decide

/-- No statement ends before a space and something else than a closing brace. -/
theorem end?_space {operator : Bool} {c : Char} (hc : isSolid c = true) (hbrace : c ≠ '\x7d')
    (r : List Char) : end? d operator (' ' :: c :: r) = none := by
  simp only [isSolid, Bool.and_eq_true, Bool.not_eq_true', bne_iff_ne, ne_eq] at hc
  obtain ⟨⟨⟨hspace, hslash⟩, hless⟩, hminus⟩ := hc
  have hplain : isPlainSpace c = false :=
    Bool.eq_false_iff.mpr fun h => by rw [isSpace_of_isPlainSpace h] at hspace; cases hspace
  have hne : ∀ a, isSpace a = true → c ≠ a := by
    rintro a ha rfl
    rw [ha] at hspace
    cases hspace
  have hblank : isPlainSpace ' ' = true := by decide
  -- neither within the rounds nor after them is an end found
  have hends : ∀ n, endsWithin d.types operator n (' ' :: c :: r) = false := by
    rintro (_ | _ | n)
    · rfl
    · simp [endsWithin, hblank]
    · simp [endsWithin, hblank, hplain, hne '\n' (by decide), hne '\u2028' (by decide),
        hne '\u2029' (by decide)]
  have hcomment : commentLength false (c :: r) = 0 := by
    unfold commentLength
    split <;> simp_all
  simp [end?, endWithin?, hends, hspace, hcomment, show isSpace ' ' = true by decide]

theorem end?_semicolon {operator : Bool} (r : List Char) : end? d operator (';' :: r) = none := by
  have hspace : isSpace ';' = false := by decide
  have hplain : isPlainSpace ';' = false := by decide
  simp [end?, endWithin?, endsWithin, hspace, hplain, commentLength]

theorem semicolon_done {operator : Bool} (r : List Char) :
    semicolon d operator (';' :: r) = .done () r := by
  unfold semicolon
  rw [end?_semicolon, Reaches.solid (by decide) r false]
  rfl

/-! ## 3. The beginning of an export

The word `export` may also be a name, at the beginning of an expression; with a
word after it, it is not (`readStatement_export`). -/

/-- A word in front is read as a keyword. -/
theorem keyword_front {k : String} {w : List Char} (hk : k.toList = w) (hw : IsWord w)
    (h : Reaches s (w ++ r)) (hr : EndsWord r) : nextWord s = k ∧ keyword k s = .done () r := by
  subst hk
  have hlength := hw.wordLength_append hr
  refine ⟨?_, keyword_done h hlength hw.1⟩
  rw [nextWord_eq h hlength, String.ofList_toList]

/-- The word `export`. -/
def exportWord : List Char := ['e', 'x', 'p', 'o', 'r', 't']

theorem endsWord_space (r : List Char) : EndsWord (' ' :: r) := by
  rintro c ⟨⟩
  decide

theorem reaches_exportWord (r : List Char) : Reaches (exportWord ++ r) (exportWord ++ r) :=
  .solid (by decide) _

/-- A statement that begins with `export` and a word is an export, if it can be read as one. -/
theorem readStatement_export {c : Char} (hc : isWordStart c = true)
    (h : exportStatement d g (exportWord ++ ' ' :: c :: r) = .done a t) :
    readStatement d g (exportWord ++ ' ' :: c :: r) = .done a t := by
  let text := exportWord ++ ' ' :: c :: r
  have hreaches : Reaches text text := reaches_exportWord _
  have hlength : wordLength text = 6 :=
    IsWord.wordLength_append (w := exportWord) (by decide) (endsWord_space _)
  obtain ⟨hnext, -⟩ := keyword_front (k := "export") (w := exportWord) rfl (by decide) hreaches
    (endsWord_space _)
  have hstands : standsAlone d text = false := by
    have hbrace : c ≠ '\x7d' := ne_of_isWordStart hc (by decide)
    have hend : end? d true (text.drop 6) = none := end?_space (isSolid_of_isWordStart hc) hbrace r
    rw [standsAlone, hreaches true, hlength, mayEnd, hend]
    rfl
  unfold readStatement
  rw [show trivia true (exportWord ++ ' ' :: c :: r) = text from hreaches true]
  change (if wordLength text = 0 then _ else statementFrom d g (nextWord text) text) = _
  rw [if_neg (by omega), hnext, statementFrom, if_pos rfl,
    bind_done (rfl : Reader.left _ = .done _ _), hstands, if_neg Bool.false_ne_true]
  exact either_done h

/-- The keyword of an export, before which there is no decorator. -/
theorem decorators_exportWord (r : List Char) :
    decorators g (exportWord ++ r) = .done () (exportWord ++ r) := by
  refine extend_stuck (n := (exportWord ++ r).length) ?_
  have hgap : gapBefore (exportWord ++ r) = .done () (exportWord ++ r) := by
    rw [gapBefore, reaches_exportWord r true]
  rw [decorator, bind_done hgap]
  rfl

/-- The word `default`. -/
def defaultWord : List Char := ['d', 'e', 'f', 'a', 'u', 'l', 't']

/-- Nothing that begins with a brace is a declaration. -/
theorem declaration_stuck (h : Reaches s ('\x7b' :: r)) : declaration d g s = .stuck s.length := by
  have hnext : nextWord s = "" :=
    nextWord_eq_empty h (wordLength_punctuation (by decide) (by decide) r)
  have hchar : nextChar s = some '\x7b' := nextChar_eq h
  have hat : (some '\x7b' == some '@') = false := by decide
  have hplain : plainDeclaration d g s = .stuck s.length := by
    rw [plainDeclaration, bind_done (rfl : Reader.left _ = .done _ _), hnext, hchar, hat]
    simp only [String.reduceEq, decide_false, Bool.or_false, if_false, Bool.false_eq_true]
    split <;> rfl
  rw [declaration, bind_done (rfl : Reader.left _ = .done _ _), hnext, if_neg (by simp)]
  exact hplain

/-- The statement that exports an object by default. -/
theorem readStatement_exportDefault {v : Value} {w x : List Char} (hw : IsGap w)
    (hread : g.value .statement (w ++ '\x7b' :: x) = .done v r)
    (hend : semicolon d true r = .done () t) :
    readStatement d g (exportWord ++ ' ' :: (defaultWord ++ (w ++ '\x7b' :: x)))
      = .done (.exportDefault v) t := by
  have hword : IsWord defaultWord := by decide
  have hbrace : Reaches (w ++ '\x7b' :: x) ('\x7b' :: x) := hw.reaches (.solid (by decide) x)
  have hends : EndsWord (w ++ '\x7b' :: x) := by
    by_cases hempty : w = []
    · subst hempty
      rintro c ⟨⟩
      decide
    · exact hw.endsWord hempty _
  obtain ⟨-, hexport⟩ := keyword_front (k := "export") (w := exportWord) rfl (by decide)
    (reaches_exportWord _) (endsWord_space (defaultWord ++ (w ++ '\x7b' :: x)))
  obtain ⟨hnext, hdefault⟩ := keyword_front (k := "default") (w := defaultWord) rfl hword
    (.space (hword.reaches _)) hends
  refine readStatement_export (c := 'd') (by decide) ?_
  change exportStatement d g (exportWord ++ ' ' :: (defaultWord ++ (w ++ '\x7b' :: x))) = _
  unfold exportStatement
  refine either_done ?_
  rw [bind_done (decorators_exportWord _), bind_done hexport,
    bind_done (rfl : Reader.left _ = .done _ _), hnext, if_pos rfl, bind_done hdefault]
  refine either_of_stuck (bind_stuck (declaration_stuck hbrace)) ?_
  rw [bind_done hread, bind_done hend]
  rfl

/-- The statement that exports what a declaration declares. -/
theorem readStatement_exportNamed {c : Char} {x : List Char} {kind : ExportKind}
    {bindings : List Binding} (hc : isWordStart c = true)
    (hnext : nextWord (' ' :: c :: x) ≠ "default")
    (hread : declaration d g (' ' :: c :: x) = .done (some (kind, bindings)) t) :
    readStatement d g (exportWord ++ ' ' :: c :: x) = .done (.exportNamed kind bindings) t := by
  obtain ⟨-, hexport⟩ := keyword_front (k := "export") (w := exportWord) rfl (by decide)
    (reaches_exportWord _) (endsWord_space (c :: x))
  refine readStatement_export hc ?_
  unfold exportStatement
  refine either_done ?_
  rw [bind_done (decorators_exportWord _), bind_done hexport,
    bind_done (rfl : Reader.left _ = .done _ _), if_neg hnext, bind_done hread]
  rfl

/-! ## 4. Variables

Between the name and the equals sign there may be a type. It is text of the
script that stays as it is, and `StandingAnnotation` demands that it is read as
far as the sign, whatever the value. -/

theorem equals_done (h : Reaches s ('=' :: t)) (ht : ∀ c ∈ t.head?, isSolid c = false) :
    equals s = .done () t := by
  have hnext : (t.head?.elim false ['=', '>'].contains) = false := by
    cases t with
    | nil => rfl
    | cons c t =>
      have hsolid := ht c rfl
      have hne : c ≠ '=' ∧ c ≠ '>' := by
        constructor <;> (rintro rfl; exact absurd hsolid (by decide))
      simp [hne.1, hne.2]
  simp only [equals, symbolUnless, h false]
  simp [hnext]

/-- What stands between the name of a variable and the equals sign: a gap, or a type that is read
whole before the sign, whatever value follows that, where there are enough levels. -/
def StandingAnnotation (d : Dialect) (x : List Char) : Prop :=
  IsGap x ∨ d.types = true ∧ (∃ w y, IsGap w ∧ x = w ++ ':' :: y) ∧
    ∀ m w r, IsGap w → w ≠ [] → 2 * x.length ≤ m →
      ∃ text t, colonType (Grammar.upTo d m) ⟨true, false⟩ (x ++ '=' :: (w ++ r)) = .done text t ∧
        Reaches t ('=' :: (w ++ r))

theorem StandingAnnotation.endsWord {x : List Char} (hx : StandingAnnotation d x) (r : List Char) :
    EndsWord (x ++ '=' :: r) := by
  have hgap : ∀ {w : List Char} {c : Char} (y : List Char), IsGap w →
      isWordPart c = false ∧ c ≠ '\\' → EndsWord (w ++ c :: y) := by
    intro w c y hw hc
    by_cases hempty : w = []
    · subst hempty
      rintro a ⟨⟩
      exact hc
    · exact hw.endsWord hempty _
  rcases hx with hx | ⟨-, ⟨w, y, hw, rfl⟩, -⟩
  · exact hgap r hx (by decide)
  · rw [List.append_assoc]
    exact hgap _ hw (by decide)

/-- A variable with a value. -/
theorem declarator_done {name : String} {x w : List Char} {v : Value} {m : Nat}
    (hname : IsWord name.toList) (hx : StandingAnnotation d x) (hm : 2 * x.length ≤ m)
    (hw : IsGap w) (hne : w ≠ []) (hs : Reaches s (name.toList ++ (x ++ '=' :: (w ++ r))))
    (hread : (Grammar.upTo d m).value .statement (w ++ r) = .done v t) :
    declarator d (Grammar.upTo d m) s = .done (some ⟨name, v.extent, v.core⟩) t := by
  have hword := word_done hs (hname.wordLength_append (hx.endsWord _)) hname.1
  rw [String.ofList_toList] at hword
  have hpattern : seesPattern s = false := by
    obtain ⟨c, y, hfront, -, -, hne⟩ := hname.front
    rw [hfront] at hs
    simp [seesPattern, nextChar_eq hs, hne '\x7b' (by decide) (by decide),
      hne '[' (by decide) (by decide)]
  generalize htext : x ++ '=' :: (w ++ r) = z at hs hword
  have hbinding : bindingName (Grammar.upTo d m) s = .done (some name) z := by
    unfold bindingName
    rw [bind_done (rfl : Reader.left s = .done s s), hpattern, if_neg Bool.false_ne_true,
      bind_done hword]
    rfl
  have hsolid : ∀ c ∈ (w ++ r).head?, isSolid c = false := by
    intro c hc
    obtain ⟨a, w, rfl⟩ := List.exists_cons_of_ne_nil hne
    exact hw.isSolid_head c hc
  -- from the equals sign on
  have hvalue : ∀ {z : List Char}, Reaches z ('=' :: (w ++ r)) → ((do
      if ← Reader.sees equals then
        equals
        let v ← (Grammar.upTo d m).value .statement
        return (some name).map fun n => ⟨n, v.extent, v.core⟩
      else return none : Reader (Option Binding)) z) = .done (some ⟨name, v.extent, v.core⟩) t := by
    intro z hz
    have hequals : Reader.sees equals z = .done true z := by
      simp only [Reader.sees, equals_done hz hsolid]
    rw [bind_done hequals, if_pos rfl, bind_done (equals_done hz hsolid), bind_done hread]
    rfl
  have hmark : ∀ {c : Char} {y : List Char}, Reaches z (c :: y) → c ≠ '!' →
      Reader.option (symbolUnless ['!'] ['=']) z = .done none z := fun h hc =>
    option_stuck (symbolUnless_stuck h hc.symm)
  unfold declarator
  rw [bind_done hbinding]
  rcases hx with hx | ⟨htypes, ⟨w', y, hw', rfl⟩, hx⟩
  · have hreaches : Reaches z ('=' :: (w ++ r)) := htext ▸ hx.reaches (.solid (by decide) _)
    have hstarts : startsWith [':'] z = false := startsWith_eq_false hreaches (by decide)
    split
    · rw [bind_done (hmark hreaches (by decide)), bind_done (rfl : Reader.left _ = .done _ _),
        hstarts, if_neg Bool.false_ne_true]
      exact hvalue hreaches
    · exact hvalue hreaches
  · obtain ⟨text, u, htype, hu⟩ := hx m w r hw hne hm
    rw [htext] at htype
    have hreaches : Reaches z (':' :: (y ++ '=' :: (w ++ r))) := by
      rw [← htext, List.append_assoc]
      exact hw'.reaches (.solid (by decide) _)
    have hstarts : startsWith [':'] z = true := startsWith_eq hreaches
    rw [if_pos htypes, bind_done (hmark hreaches (by decide)),
      bind_done (rfl : Reader.left _ = .done _ _), hstarts, if_pos rfl, bind_done htype]
    exact hvalue hu

/-- Further variables after a comma. -/
def moreDeclarators (d : Dialect) (g : Grammar) (bs : List (Option Binding)) :
    Reader (List (Option Binding)) := do
  sign ','
  return bs ++ [← declarator d g]

theorem declarators_done {b : Option Binding} {bs : List (Option Binding)} {u : List Char}
    (hfirst : declarator d g s = .done b r)
    (hmore : Reader.extend (moreDeclarators d g) [] r = .done bs t)
    (hend : semicolon d true t = .done () u) :
    declarators d g s = .done (some (.initializer, (b :: bs).filterMap id)) u := by
  have hseries : series (declarator d g) s = .done (b :: bs) t := by
    unfold series
    rw [bind_done hfirst]
    change (Reader.extend (moreDeclarators d g) [] >>= _) r = _
    rw [bind_done hmore]
    rfl
  unfold declarators
  rw [bind_done hseries, bind_done hend]
  rfl

/-- The words that declare variables. -/
def variableWords : List String := ["var", "let", "const"]

/-- By the word it begins with, which is looked for after others. -/
theorem declaration_variables {k : String} {x : List Char} {declared : Declared}
    (hk : k ∈ variableWords) (hs : Reaches s (k.toList ++ x)) (hx : EndsWord x)
    (hread : declarators d g x = .done declared t) : declaration d g s = .done declared t := by
  have hword : IsWord k.toList := by
    simp only [variableWords, List.mem_cons, List.not_mem_nil, or_false] at hk
    rcases hk with rfl | rfl | rfl <;> decide
  obtain ⟨hnext, hkeyword⟩ := keyword_front rfl hword hs hx
  have hboth : ((do keyword k; declarators d g : Reader Declared) s) = .done declared t := by
    rw [bind_done hkeyword, hread]
  unfold declaration
  rw [bind_done (rfl : Reader.left s = .done s s), hnext]
  unfold plainDeclaration
  simp only [variableWords, List.mem_cons, List.not_mem_nil, or_false] at hk
  rcases hk with rfl | rfl | rfl
  · simp only [String.reduceEq, decide_false, Bool.and_false, Bool.false_eq_true, if_false]
    rw [bind_done (rfl : Reader.left s = .done s s), hnext]
    simp only [if_true]
    exact hboth
  · simp only [String.reduceEq, decide_false, Bool.and_false, Bool.false_eq_true, if_false]
    rw [bind_done (rfl : Reader.left s = .done s s), hnext]
    simp only [String.reduceEq, if_false, if_true]
    exact hboth
  · simp only [String.reduceEq, decide_false, Bool.and_false, Bool.false_eq_true, if_false]
    rw [bind_done (rfl : Reader.left s = .done s s), hnext]
    simp only [String.reduceEq, if_false, if_true]
    exact either_done hboth

/-! ## 5. Functions

After the block the declaration ends, and where a line break follows it may end
after that. -/

/-- A function with a block, after which the declaration ends at once. -/
theorem declaration_function {name : String} {y z : List Char} {qs : List Parameter} {e : Extent}
    {l : Bool} (hname : IsWord name.toList)
    (hs : Reaches s (functionWord ++ ' ' :: (name.toList ++ '(' :: y)))
    (hy : strictList ')' (parameter d g) y = .done qs (' ' :: '\x7b' :: z))
    (hz : block g ('\x7b' :: z) = .done (e, l) r) (hend : (end? d false r).getD r = r) :
    declaration d g s = .done (some (.function, [⟨name,
      ⟨(functionWord ++ ' ' :: (name.toList ++ '(' :: y)).length, r.length⟩,
      .function ⟨false, qs⟩ (.block e)⟩])) r := by
  obtain ⟨hnext, -⟩ := keyword_front (k := "function") rfl isWord_functionWord hs (endsWord_space _)
  obtain ⟨hreaches, hasync, hfunction⟩ := functionWord_front (name.toList ++ '(' :: y)
  have hgap : gapBefore s
      = .done () (functionWord ++ ' ' :: (name.toList ++ '(' :: y)) := by
    rw [gapBefore, hs true]
  have hafter : Reaches (' ' :: (name.toList ++ '(' :: y)) (name.toList ++ '(' :: y) :=
    .space (hname.reaches _)
  have hparen : EndsWord ('(' :: y) := by rintro c ⟨⟩; decide
  have hword := word_done hafter (hname.wordLength_append hparen) hname.1
  rw [String.ofList_toList] at hword
  have hstar : Reader.option (sign '*') (' ' :: (name.toList ++ '(' :: y))
      = .done none (' ' :: (name.toList ++ '(' :: y)) := by
    obtain ⟨c, x, hfront, -, -, hne⟩ := hname.front
    rw [hfront] at hafter ⊢
    exact option_stuck (sign_stuck hafter (hne '*' (by decide) (by decide)).symm)
  have hbrace : Reaches (' ' :: '\x7b' :: z) ('\x7b' :: z) := .space (.solid (by decide) z)
  have hstarts : startsWith ['\x7b'] (' ' :: '\x7b' :: z) = true := startsWith_eq hbrace
  unfold declaration
  rw [bind_done (rfl : Reader.left s = .done s s), hnext]
  unfold plainDeclaration
  simp only [String.reduceEq, decide_false, Bool.and_false, Bool.false_eq_true, if_false]
  rw [bind_done (rfl : Reader.left s = .done s s), hnext]
  simp only [String.reduceEq, if_false, decide_true, Bool.true_or, if_true]
  unfold functionDeclaration
  rw [bind_done hgap, bind_done (rfl : Reader.left _ = .done _ _), bind_done (option_stuck hasync),
    bind_done hfunction, bind_done hstar, bind_done hword,
    bind_done (signature_done (.solid (by decide) y) hy hbrace (by decide)),
    bind_done (rfl : Reader.left _ = .done _ _), hstarts, if_pos rfl,
    bind_done ((block_of_reaches hbrace).trans hz)]
  change (do
    let rest := (end? d false r).getD r
    Reader.goTo rest
    return some (.function, [⟨name,
      ⟨(functionWord ++ ' ' :: (name.toList ++ '(' :: y)).length, rest.length⟩,
      .function ⟨false, qs⟩ (.block e)⟩]) : Reader Declared) r = _
  rw [hend]
  rfl

/-! ## 6. Blocks that return a value

The body of a function that returns something without braces is kept as a block
with one statement. Whether the block stands is a question about the returned
expression alone: it has to be read whole in a statement, where a line break may
end it. -/

end LocaleEditor.Script
