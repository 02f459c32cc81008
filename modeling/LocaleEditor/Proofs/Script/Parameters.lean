/-
LocaleEditor.Proofs.Script.Parameters — printed parameters are read back.

A parameter is printed by its name, and with its type where types are written.
`StandingParam` demands that the name is a word for a name and that the type is
read whole, up to the comma or the parenthesis after it, whatever follows. The
placeholder needs no such condition: it is printed as a pattern in brackets, and
a pattern is what it stands for when it is read (`strictList_printParams`).

In a dialect without types a type is neither written nor read, and the parameter
is read as one without a type. So a parameter with a type is read back only
where types are written, which is part of the condition.
-/
import LocaleEditor.Proofs.Script.Atoms

namespace LocaleEditor.Script

open LocaleEditor.Text Reader

variable {d : Dialect} {g : Grammar} {s t r : List Char} {c : Char} {style : Style}

/-! ## 1. What follows a name or a type

The three signs that may follow a name end a word, are passed over by no gap and
begin nothing that could be more of a name or a type. -/

/-- A comma or the closing parenthesis, which end a parameter. -/
def IsParameterEnd (c : Char) : Prop := c = ',' ∨ c = ')'

/-- A sign that ends the name of a parameter: a type follows, or the parameter ends. -/
def IsNameEnd (c : Char) : Prop := c = ':' ∨ IsParameterEnd c

theorem IsNameEnd.reaches (hc : IsNameEnd c) (r : List Char) : Reaches (c :: r) (c :: r) := by
  rcases hc with rfl | rfl | rfl <;> exact .solid (by decide) r

theorem IsNameEnd.ne (hc : IsNameEnd c) {a : Char} (ha : a ∉ [':', ',', ')']) : a ≠ c := by
  rintro rfl
  rcases hc with rfl | rfl | rfl <;> exact ha (by decide)

theorem IsNameEnd.endsWord (hc : IsNameEnd c) (r : List Char) : EndsWord (c :: r) := by
  rintro a ⟨⟩
  rcases hc with rfl | rfl | rfl <;> decide

theorem IsNameEnd.wordLength (hc : IsNameEnd c) (r : List Char) : wordLength (c :: r) = 0 := by
  rcases hc with rfl | rfl | rfl <;> exact wordLength_punctuation (by decide) (by decide) r

theorem IsNameEnd.sign_stuck (hc : IsNameEnd c) {a : Char} (ha : a ∉ [':', ',', ')'])
    (r : List Char) : sign a (c :: r) = .stuck (c :: r).length :=
  Script.sign_stuck (hc.reaches r) (hc.ne ha)

theorem IsNameEnd.startsWith_eq_false (hc : IsNameEnd c) {a : Char} (ha : a ∉ [':', ',', ')'])
    (r : List Char) : startsWith (a :: t) (c :: r) = false :=
  Script.startsWith_eq_false (hc.reaches r) (hc.ne ha)

/-! ## 2. Types

A type may have any form the grammar knows, so `StandingType` demands of it what
is needed. That there are such types, the names, is shown here
(`standingType_name`). -/

/-- After a colon the text is read as a type, up to the comma or parenthesis after it, where there
are enough levels. -/
def StandingType (d : Dialect) (t : List Char) : Prop :=
  ∀ m c r, IsParameterEnd c → 2 * t.length ≤ m →
    colonType (Grammar.upTo d m) .afterColon (':' :: ' ' :: (t ++ c :: r)) = .done t (c :: r)

/-- The words that begin a type with more parts. -/
def typeWords : List String :=
  ["keyof", "readonly", "typeof", "infer", "unique", "new", "abstract", "import"]

/-- Nothing of a type follows its name. -/
theorem qualified_done (hc : IsNameEnd c) (r : List Char) :
    qualified g (c :: r) = .done () (c :: r) := by
  have hless : typeArguments g (c :: r) = .stuck (c :: r).length := by
    unfold typeArguments
    exact bind_stuck (hc.sign_stuck (by decide) r)
  unfold qualified
  rw [bind_done (extend_stuck (bind_stuck (hc.sign_stuck (by decide) r))),
    bind_done (option_stuck hless)]
  rfl

/-- Nor does anything of a type follow before the end of a parameter. -/
theorem typeSuffix_stuck (hc : IsNameEnd c) (r : List Char) :
    typeSuffix d g .afterColon (c :: r) = .stuck (c :: r).length := by
  have hkeyword : keyword "extends" (c :: r) = .stuck (c :: r).length :=
    keyword_stuck (hc.reaches r) (hc.wordLength r)
  have hreaches := hc.reaches r false
  unfold typeSuffix
  rw [bind_done (rfl : Reader.left (c :: r) = .done _ _), hreaches]
  rcases hc with rfl | rfl | rfl <;> exact bind_stuck hkeyword

/-- A name is a type. -/
theorem readType_name {w : String} (hw : IsWord w.toList) (hname : w ∉ typeWords)
    (hc : IsNameEnd c) (r : List Char) :
    readType d g .afterColon (w.toList ++ c :: r) = .done () (c :: r) := by
  have hreaches := hw.reaches (c :: r)
  have hword := word_done hreaches (hw.wordLength_append (hc.endsWord r)) hw.1
  have hempty : w ≠ "" := by rintro rfl; exact hw.1 rfl
  rw [String.ofList_toList] at hword
  have hwordType : wordType d g .afterColon (w.toList ++ c :: r) = .done () (c :: r) := by
    simp only [typeWords, List.mem_cons, List.not_mem_nil, or_false, not_or] at hname
    obtain ⟨hkeyof, hreadonly, htypeof, hinfer, hunique, hnew, habstract, himport⟩ := hname
    unfold wordType
    rw [bind_done (rfl : Reader.left _ = .done _ _), bind_done hword, if_neg (by simp [*]),
      if_neg htypeof, if_neg hinfer, if_neg hunique, if_neg hnew, if_neg habstract, if_neg himport,
      if_neg hempty]
    exact qualified_done hc r
  have hatom : typeAtom d g .afterColon (w.toList ++ c :: r) = .done () (c :: r) := by
    obtain ⟨a, x, hfront, -, hdigit, hne⟩ := hw.front
    have hsign : ∀ b, isWordPart b = false → b ≠ '\\' → (a == b) = false := fun b hb hescape =>
      beq_false_of_ne (hne b hb hescape)
    unfold typeAtom
    rw [bind_done (rfl : Reader.left _ = .done _ _), hreaches true]
    rw [hfront, List.cons_append] at hwordType ⊢
    simp only [hsign '(' (by decide) (by decide), hsign '<' (by decide) (by decide),
      hsign '\x7b' (by decide) (by decide), hsign '[' (by decide) (by decide),
      hsign '`' (by decide) (by decide), hsign '"' (by decide) (by decide),
      hsign '\'' (by decide) (by decide), hsign '.' (by decide) (by decide),
      hsign '-' (by decide) (by decide), hsign '+' (by decide) (by decide),
      hsign '|' (by decide) (by decide), hsign '&' (by decide) (by decide),
      hsign '?' (by decide) (by decide), hsign '*' (by decide) (by decide), hdigit,
      Bool.or_self, Bool.false_eq_true, if_false]
    exact hwordType
  rw [readType, bind_done hatom]
  exact extend_stuck (typeSuffix_stuck hc r)

/-- A name stands for itself as a type, in any place. -/
theorem standingType_name {w : String} (hw : IsWord w.toList) (hname : w ∉ typeWords) :
    StandingType d w.toList := by
  intro m c r hc hm
  obtain ⟨m, rfl⟩ : ∃ k, m = k + 1 := by
    have hpos := List.length_pos_iff.mpr hw.1
    exact ⟨m - 1, by omega⟩
  have hread := readType_name (d := d) (g := Grammar.upTo d m) hw hname (.inr hc) r
  have hgap : gap (' ' :: (w.toList ++ c :: r)) = .done () (w.toList ++ c :: r) := by
    rw [gap, (hw.reaches (c :: r)).space false]
  unfold colonType
  rw [bind_done (sign_done (.solid (by decide) _)), bind_done hgap,
    bind_done (rfl : Reader.left _ = .done _ _),
    bind_done (show (Grammar.upTo d (m + 1)).type .afterColon _ = _ from hread),
    bind_done (rfl : Reader.left _ = .done _ _)]
  have hconsumed : consumed (w.toList ++ c :: r) (c :: r) = w.toList := by simp [consumed]
  rw [hconsumed]
  rfl

/-! ## 3. Parameters -/

/-- The parameter is read back as it is printed: it is the placeholder, or a name with a type that
can be read. -/
def StandingParam (d : Dialect) (p : Param) : Prop :=
  p = .placeholder ∨ IsWord p.name.toList ∧ isName d p.name = true ∧
    (p.isAnnotated = true → d.types = true ∧ StandingType d p.type.toList)

/-- From `x` up to `y` the type of a parameter is read, or there is none. -/
def ReadsType (d : Dialect) (g : Grammar) (type : Option String) (x y : List Char) : Prop :=
  x = y ∧ type = none ∨ d.types = true ∧ (∃ z, x = ':' :: z) ∧
    ∃ t, type = some (String.ofList t) ∧ colonType g .afterColon x = .done t y

section Parts

/-! A parameter is what is bound, perhaps with a type, and here without a default
value. Before what is bound there may be decorators and modifiers, and these are
looked for first. -/

variable {type : Option String} {x : List Char} {b : Binder}

theorem ReadsType.front (h : ReadsType d g type x (c :: r)) (hc : IsParameterEnd c) :
    ∃ a y, x = a :: y ∧ IsNameEnd a := by
  rcases h with ⟨rfl, -⟩ | ⟨-, ⟨z, rfl⟩, -⟩
  · exact ⟨c, r, rfl, .inr hc⟩
  · exact ⟨':', z, rfl, .inl rfl⟩

theorem decorators_done {a : Char} {y : List Char} (h : Reaches s (a :: y)) (ha : a ≠ '@') :
    decorators g s = .done () s := by
  have hgap : gapBefore s = .done () (a :: y) := by rw [gapBefore, h true]
  refine extend_stuck (n := (a :: y).length) ?_
  unfold decorator
  rw [bind_done hgap, bind_done (rfl : Reader.left (a :: y) = .done _ _)]
  simp [ha, Reader.fail]

/-- What is bound is read, then perhaps a type, and no default value. -/
theorem parameter_done (hfront : decorators g s = .done () s ∧ parameterModifiers s = .done () s)
    (hbinder : parameterBinder d g s = .done b x) (hx : ReadsType d g type x (c :: r))
    (hc : IsParameterEnd c) : parameter d g s = .done ⟨b, type, false⟩ (c :: r) := by
  have hend : IsNameEnd c := .inr hc
  have hequals : Reader.sees equals (c :: r) = .done false (c :: r) := by
    have hstuck : equals (c :: r) = .stuck (c :: r).length :=
      symbolUnless_stuck (hend.reaches r) (hend.ne (by decide))
    simp only [Reader.sees, hstuck]
  have hquestion : Reader.option (sign '?') x = .done none x := by
    obtain ⟨a, y, rfl, ha⟩ := hx.front hc
    exact option_stuck (ha.sign_stuck (by decide) y)
  unfold parameter
  rcases hx with ⟨rfl, rfl⟩ | ⟨htypes, ⟨z, rfl⟩, t, rfl, hread⟩
  · have hcolon : startsWith [':'] (c :: r) = false :=
      startsWith_eq_false (hend.reaches r) (by rcases hc with rfl | rfl <;> decide)
    cases d.types with
    | false =>
      simp only [Bool.false_eq_true, if_false]
      rw [bind_done hbinder, bind_done hequals]
      rfl
    | true =>
      simp only [if_true]
      rw [bind_done hfront.1, bind_done hfront.2, bind_done hbinder, bind_done hquestion,
        bind_done (rfl : Reader.left (c :: r) = .done _ _), hcolon, if_neg Bool.false_ne_true,
        bind_done hequals]
      rfl
  · have hcolon : startsWith [':'] (':' :: z) = true := startsWith_eq (.solid (by decide) z)
    simp only [htypes, if_true]
    rw [bind_done hfront.1, bind_done hfront.2, bind_done hbinder, bind_done hquestion,
      bind_done (rfl : Reader.left (':' :: z) = .done _ _), hcolon, if_pos rfl, bind_done hread,
      bind_done hequals]
    rfl

/-- A parameter with a name, after which no more of the name comes. -/
theorem parameter_name {w : String} (hw : IsWord w.toList) (hname : isName d w = true)
    (h : Reaches s (w.toList ++ x)) (hx : ReadsType d g type x (c :: r)) (hc : IsParameterEnd c) :
    parameter d g s = .done ⟨.name w, type, false⟩ (c :: r) := by
  obtain ⟨a, y, rfl, ha⟩ := hx.front hc
  have hword := word_done h (hw.wordLength_append (ha.endsWord y)) hw.1
  rw [String.ofList_toList] at hword
  obtain ⟨c₀, z, hfront, -, -, hsign⟩ := hw.front
  have hhead : Reaches s (c₀ :: (z ++ a :: y)) := by
    rw [hfront] at h
    exact h
  have hmodifiers : parameterModifiers s = .done () s := by
    have hnext : nextWord (a :: y) = "" := nextWord_eq_empty (ha.reaches y) (ha.wordLength y)
    have hpattern : seesPattern (a :: y) = false := by
      simp [seesPattern, nextChar_eq (ha.reaches y), (ha.ne (a := '\x7b') (by decide)).symm,
        (ha.ne (a := '[') (by decide)).symm]
    refine extend_stuck (n := (a :: y).length) ?_
    rw [bind_done hword, bind_done (rfl : Reader.left (a :: y) = .done _ _), hpattern, hnext]
    simp [Reader.fail]
  refine parameter_done ⟨decorators_done hhead (hsign '@' (by decide) (by decide)), hmodifiers⟩ ?_
    hx hc
  -- no pattern and no dots in front, so what is bound is the word
  have hseen : seesPattern s = false := by
    simp [seesPattern, nextChar_eq hhead, hsign '\x7b' (by decide) (by decide),
      hsign '[' (by decide) (by decide)]
  have hdots : startsWith ['.', '.', '.'] s = false :=
    startsWith_eq_false hhead (hsign '.' (by decide) (by decide)).symm
  have hkeyword : w ∉ expressionWords := by
    simp only [isName, Bool.and_eq_true, Bool.not_eq_true', List.contains_eq_mem,
      decide_eq_false_iff_not] at hname
    exact hname.1
  have hother : (decide (w = "undefined") || d.types && decide (w = "this")) = false := by
    have hundefined : w ≠ "undefined" := by
      rintro rfl
      exact hkeyword (by decide)
    have hthis : w ≠ "this" := by
      rintro rfl
      exact hkeyword (by decide)
    simp [hundefined, hthis]
  unfold parameterBinder
  rw [bind_done (rfl : Reader.left s = .done _ _), hseen, if_neg Bool.false_ne_true, hdots,
    if_neg Bool.false_ne_true, bind_done hword, bind_done (rfl : Reader.left (a :: y) = .done _ _),
    ha.startsWith_eq_false (by decide), ha.startsWith_eq_false (by decide), Bool.or_self,
    if_neg Bool.false_ne_true]
  simp only [hother, hname, Bool.false_eq_true, if_false, if_true]
  rfl

theorem toList_placeholder :
    Param.placeholder.name.toList = ['[', 'u', 'n', 'k', 'n', 'o', 'w', 'n', ']'] := by decide

/-- The brackets of the placeholder hold one name, with no default value. -/
theorem looseList_unknown (d : Dialect) (m : Nat) (x : List Char) :
    looseList ']' (patternElement (Grammar.upTo d (m + 1)))
      ('u' :: 'n' :: 'k' :: 'n' :: 'o' :: 'w' :: 'n' :: ']' :: x) = .done [()] x := by
  obtain ⟨types, elements⟩ := d
  cases types <;> rfl

/-- The name of the placeholder is read as a pattern. -/
theorem parameter_placeholder {m : Nat} (h : Reaches s (Param.placeholder.name.toList ++ x))
    (hx : ReadsType d (Grammar.upTo d (m + 2)) type x (c :: r)) (hc : IsParameterEnd c) :
    parameter d (Grammar.upTo d (m + 2)) s = .done ⟨.pattern, type, false⟩ (c :: r) := by
  rw [toList_placeholder] at h
  simp only [List.cons_append, List.nil_append] at h
  have hpattern : (Grammar.upTo d (m + 2)).pattern s = .done () x := by
    change readPattern d (Grammar.upTo d (m + 1)) s = _
    unfold readPattern
    rw [bind_done (rfl : Reader.left s = .done _ _), h true]
    exact bind_done (looseList_unknown d m x)
  have hseen : seesPattern s = true := by simp [seesPattern, nextChar_eq h]
  have hmodifiers : parameterModifiers s = .done () s :=
    extend_stuck (bind_stuck (word_stuck h (wordLength_punctuation (by decide) (by decide) _)))
  refine parameter_done ⟨decorators_done h (by decide), hmodifiers⟩ ?_ hx hc
  unfold parameterBinder
  rw [bind_done (rfl : Reader.left s = .done _ _), hseen, if_pos rfl, bind_done hpattern]
  rfl

end Parts

/-! ## 4. Printed parameters

Each parameter is read up to the comma after it or the closing parenthesis, and
the list by induction on the parameters. -/

/-- The type that is written for a parameter is read up to its end. -/
theorem exists_readsType (hstyle : style.annotations = d.types) {p : Param}
    (htype : p.isAnnotated = true → d.types = true → StandingType d p.type.toList) {m : Nat}
    (hm : 2 * (printParam style p).length ≤ m) (hc : IsParameterEnd c) (r : List Char) :
    ∃ x type, printParam style p ++ c :: r = p.name.toList ++ x ∧
      ReadsType d (Grammar.upTo d m) type x (c :: r) ∧
      type = if style.annotations && p.isAnnotated then some p.type else none := by
  unfold printParam at hm ⊢
  by_cases hannotated : (style.annotations && p.isAnnotated) = true
  · rw [if_pos hannotated] at hm ⊢
    rw [if_pos hannotated]
    obtain ⟨hwritten, hknown⟩ := Bool.and_eq_true_iff.mp hannotated
    have htypes : d.types = true := by rw [← hstyle, hwritten]
    simp only [List.length_append] at hm
    have hread := htype hknown htypes m c r hc (by omega)
    refine ⟨':' :: ' ' :: (p.type.toList ++ c :: r), _, by simp,
      .inr ⟨htypes, ⟨_, rfl⟩, _, rfl, hread⟩, ?_⟩
    rw [String.ofList_toList]
  · rw [if_neg hannotated, if_neg hannotated]
    exact ⟨c :: r, none, rfl, .inl ⟨rfl, rfl⟩, rfl⟩

/-- A printed parameter is read as one that stands for it. -/
theorem exists_parameter (hstyle : style.annotations = d.types) {p : Param}
    (hp : StandingParam d p) {m : Nat} (hm : 2 * (printParam style p).length ≤ m)
    (h : Reaches s (printParam style p ++ c :: r)) (hc : IsParameterEnd c) :
    ∃ q : Parameter, q.param = p ∧ parameter d (Grammar.upTo d m) s = .done q (c :: r) := by
  rcases hp with rfl | ⟨hw, hname, htype⟩
  · have hstring : StandingType d Param.placeholder.type.toList :=
      standingType_name (by decide) (by decide)
    obtain ⟨x, type, htext, hx, -⟩ := exists_readsType hstyle (fun _ _ => hstring) hm hc r
    have hlength : Param.placeholder.name.toList.length
        ≤ (printParam style .placeholder).length := by
      unfold printParam
      split
      · simp only [List.length_append]
        omega
      · exact Nat.le_refl _
    rw [toList_placeholder] at hlength
    simp only [List.length_cons, List.length_nil] at hlength
    obtain ⟨m, rfl⟩ : ∃ k, m = k + 2 := ⟨m - 2, by omega⟩
    rw [htext] at h
    exact ⟨_, rfl, parameter_placeholder h hx hc⟩
  · obtain ⟨x, type, htext, hx, hwritten⟩ :=
      exists_readsType hstyle (fun hknown _ => (htype hknown).2) hm hc r
    rw [htext] at h
    refine ⟨_, ?_, parameter_name hw hname h hx hc⟩
    have hkept : type.getD Param.untyped = p.type := by
      rw [hwritten]
      cases hknown : p.isAnnotated with
      | false =>
        have huntyped : p.type = Param.untyped := by simpa [Param.isAnnotated] using hknown
        rw [Bool.and_false, huntyped]
        rfl
      | true =>
        rw [hstyle, (htype hknown).1]
        rfl
    rw [Parameter.param, hkept]

/-- A printed parameter begins with a sign or a letter other than a closing parenthesis. -/
theorem StandingParam.front {p : Param} (hp : StandingParam d p) (style : Style) :
    ∃ a x, printParam style p = a :: x ∧ isSolid a = true ∧ a ≠ ')' := by
  have hname : ∃ a x, p.name.toList = a :: x ∧ isSolid a = true ∧ a ≠ ')' := by
    rcases hp with rfl | ⟨hw, -, -⟩
    · exact ⟨'[', _, toList_placeholder, by decide, by decide⟩
    · obtain ⟨a, x, hfront, hsolid, -, hne⟩ := hw.front
      exact ⟨a, x, hfront, hsolid, hne ')' (by decide) (by decide)⟩
  obtain ⟨a, x, hfront, hsolid, hne⟩ := hname
  unfold printParam
  split
  · exact ⟨a, _, by rw [hfront]; rfl, hsolid, hne⟩
  · exact ⟨a, x, hfront, hsolid, hne⟩

theorem printParams_cons (style : Style) (p : Param) {ps : List Param} (hps : ps ≠ [])
    (r : List Char) : printParams style (p :: ps) ++ r
      = printParam style p ++ ',' :: ' ' :: (printParams style ps ++ r) := by
  cases ps with
  | nil => exact absurd rfl hps
  | cons q ps => simp [printParams]

/-- Where there are parameters, something other than a closing parenthesis comes first. -/
theorem printParams_front (style : Style) {ps : List Param} (hne : ps ≠ [])
    (hps : ∀ p ∈ ps, StandingParam d p) (r : List Char) :
    ∃ a x, printParams style ps ++ r = a :: x ∧ isSolid a = true ∧ a ≠ ')' := by
  cases ps with
  | nil => exact absurd rfl hne
  | cons p ps =>
    obtain ⟨a, x, hfront, hsolid, hclose⟩ := (hps p List.mem_cons_self).front style
    cases ps with
    | nil => exact ⟨a, x ++ r, by rw [printParams, hfront]; rfl, hsolid, hclose⟩
    | cons q ps =>
      rw [printParams_cons style p (List.cons_ne_nil _ _), hfront]
      exact ⟨a, _, rfl, hsolid, hclose⟩

/-- Printed parameters are read back up to the closing parenthesis. -/
theorem strictListWithin_printParams (hstyle : style.annotations = d.types) {m : Nat}
    (r : List Char) (ps : List Param) (hps : ∀ p ∈ ps, StandingParam d p)
    (hm : 2 * (printParams style ps).length ≤ m) :
    ∀ n s, ps.length < n → Reaches s (printParams style ps ++ ')' :: r) →
      ∃ qs : List Parameter, qs.map Parameter.param = ps ∧
        strictListWithin ')' (parameter d (Grammar.upTo d m)) n s = .done qs r := by
  have hclose : Reaches (')' :: r) (')' :: r) := .solid (by decide) r
  induction ps with
  | nil =>
    intro n s hn hs
    obtain ⟨n, rfl⟩ := Nat.exists_eq_add_one.mpr hn
    have hs : Reaches s (')' :: r) := hs
    refine ⟨[], rfl, ?_⟩
    simp only [strictListWithin, nextChar_eq hs, hs false]
    rfl
  | cons p ps ih =>
    intro n s hn hs
    obtain ⟨n, rfl⟩ := Nat.exists_eq_add_one.mpr (Nat.zero_lt_of_lt hn)
    have hp := hps p List.mem_cons_self
    have hrest : ∀ p ∈ ps, StandingParam d p := fun p hp => hps p (List.mem_cons_of_mem _ hp)
    obtain ⟨a, x, hfront, -, hne⟩ := printParams_front style (List.cons_ne_nil p ps) hps (')' :: r)
    have hnext := nextChar_eq (hfront ▸ hs)
    by_cases hlast : ps = []
    · subst hlast
      obtain ⟨q, hq, hread⟩ := exists_parameter hstyle hp hm hs (.inr rfl)
      refine ⟨[q], by rw [List.map_cons, hq]; rfl, ?_⟩
      simp only [strictListWithin, hnext, Option.some_beq_some, beq_iff_eq, if_neg hne, hread,
        hclose false]
      rfl
    · have hlength := congrArg List.length (printParams_cons style p hlast [])
      simp only [List.length_append, List.length_cons, List.length_nil] at hlength
      rw [printParams_cons style p hlast] at hs
      obtain ⟨q, hq, hread⟩ := exists_parameter (m := m) hstyle hp (by omega) hs (.inl rfl)
      have hspace : Reaches (' ' :: (printParams style ps ++ ')' :: r))
          (printParams style ps ++ ')' :: r) := by
        obtain ⟨b, y, hb, hsolid, -⟩ := printParams_front style hlast hrest (')' :: r)
        rw [hb]
        exact .space (.solid hsolid y)
      obtain ⟨qs, hqs, hlist⟩ := ih hrest (by omega) n _ (Nat.lt_of_succ_lt_succ hn) hspace
      have hcomma : ∀ x, Reaches (',' :: x) (',' :: x) := .solid (by decide)
      refine ⟨q :: qs, by rw [List.map_cons, hq, hqs], ?_⟩
      simp only [strictListWithin, hnext, Option.some_beq_some, beq_iff_eq, if_neg hne, hread,
        hcomma _ false, hlist]

theorem length_le_length_printParams (style : Style) {ps : List Param}
    (hps : ∀ p ∈ ps, StandingParam d p) : ps.length ≤ (printParams style ps).length := by
  induction ps with
  | nil => exact Nat.le_refl _
  | cons p ps ih =>
    have hrest := ih fun p hp => hps p (List.mem_cons_of_mem _ hp)
    obtain ⟨a, x, hfront, -⟩ := (hps p List.mem_cons_self).front style
    by_cases hlast : ps = []
    · subst hlast
      rw [printParams, hfront]
      simp
    · have htext := congrArg List.length (printParams_cons style p hlast [])
      simp only [List.append_nil, List.length_append, List.length_cons] at htext
      rw [htext, List.length_cons]
      omega

theorem strictList_printParams (hstyle : style.annotations = d.types) {ps : List Param}
    (hps : ∀ p ∈ ps, StandingParam d p) {m : Nat} (hm : 2 * (printParams style ps).length ≤ m)
    (r : List Char) : ∃ qs : List Parameter, qs.map Parameter.param = ps ∧
      strictList ')' (parameter d (Grammar.upTo d m)) (printParams style ps ++ ')' :: r)
        = .done qs r := by
  have hlength := length_le_length_printParams style hps
  refine strictListWithin_printParams hstyle r ps hps hm _ _ ?_ ?_
  · rw [List.length_append]
    omega
  by_cases hempty : ps = []
  · subst hempty
    exact .solid (by decide) r
  · obtain ⟨a, x, hfront, hsolid, -⟩ := printParams_front style hempty hps (')' :: r)
    rw [hfront]
    exact .solid hsolid x

end LocaleEditor.Script
