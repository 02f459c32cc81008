/-
LocaleEditor.Proofs.Script.Running — what readers give where the text in front is known.

`Reaches s t` says that `t` is what comes next in `s`, after white space. From
it each reader of a sign, a word or a string has its outcome, and so has the
reader of an operand, of a value and of a list in which each item has one.

Only values that end at a comma or a semicolon are considered (`Ends`): no
operator and no suffix begins there, so that the value is what its primary
expression is.
-/
import LocaleEditor.Proofs.Script.Reading
import LocaleEditor.Proofs.Script.Words
import LocaleEditor.Proofs.Text.Quoted
import LocaleEditor.Script.Program
import Mathlib.Data.List.Forall2

namespace LocaleEditor.Script

open LocaleEditor.Text

open Reader

variable {d : Dialect} {g : Grammar} {setting : Setting} {s t r : List Char} {c a : Char}

/-! ## 1. White space

`isSolid` is what makes a text begin where it seems to: no reader passes over
such a character as part of a gap. -/

/-- After white space and comments `s` goes on with `t`, whether or not an HTML comment may stand
there. -/
def Reaches (s t : List Char) : Prop := ∀ html, trivia html s = t

/-- A character that begins neither white space nor a comment. -/
def isSolid (c : Char) : Bool := !isSpace c && c != '/' && c != '<' && c != '-'

theorem Reaches.solid (h : isSolid c = true) (r : List Char) : Reaches (c :: r) (c :: r) := by
  simp only [isSolid, Bool.and_eq_true, Bool.not_eq_true', bne_iff_ne, ne_eq] at h
  obtain ⟨⟨⟨hspace, hslash⟩, hless⟩, hminus⟩ := h
  intro html
  have hcomment : commentLength html (c :: r) = 0 := by
    unfold commentLength
    split <;> simp_all
  simp [trivia, triviaFrom, hspace, hcomment]

/-- White space and comments, or nothing. -/
def IsGap (w : List Char) : Prop := ∀ html s, trivia html (w ++ s) = trivia html s

theorem IsGap.reaches {w : List Char} (hw : IsGap w) (h : Reaches s t) : Reaches (w ++ s) t :=
  fun html => (hw html s).trans (h html)

theorem isGap_nil : IsGap [] := fun _ _ => rfl

theorem isGap_of_spaces {w : List Char} (hw : ∀ a ∈ w, isSpace a = true) : IsGap w := by
  induction w with
  | nil => exact isGap_nil
  | cons a w ih =>
    intro html s
    have hrest := ih (fun b hb => hw b (List.mem_cons_of_mem _ hb)) html s
    simpa [trivia, triviaFrom, hw a List.mem_cons_self] using hrest

theorem isGap_space : IsGap [' '] := isGap_of_spaces (List.all_eq_true.mp (by decide))

/-- A gap begins with white space or a comment. -/
theorem IsGap.isSolid_head {w : List Char} (hw : IsGap w) : ∀ c ∈ w.head?, isSolid c = false := by
  rintro c hc
  obtain ⟨w, rfl⟩ := List.head?_eq_some_iff.mp hc
  refine Bool.eq_false_iff.mpr fun hsolid => ?_
  have hpassed := hw false []
  rw [List.append_nil, Reaches.solid hsolid w false] at hpassed
  cases hpassed

theorem IsGap.endsWord {w : List Char} (hw : IsGap w) (hne : w ≠ []) (r : List Char) :
    EndsWord (w ++ r) := by
  cases w with
  | nil => exact absurd rfl hne
  | cons c w =>
    have hsolid := hw.isSolid_head c rfl
    rintro a ⟨⟩
    simp only [isSolid, Bool.and_eq_false_iff, Bool.not_eq_false', bne_eq_false_iff_eq] at hsolid
    rcases hsolid with ((hspace | rfl) | rfl) | rfl
    · exact ⟨by simp [isWordPart, hspace], by rintro rfl; exact absurd hspace (by decide)⟩
    · decide
    · decide
    · decide

theorem Reaches.spaces {blanks : List Char} (hblanks : ∀ a ∈ blanks, isSpace a = true)
    (h : Reaches s t) : Reaches (blanks ++ s) t :=
  (isGap_of_spaces hblanks).reaches h

theorem Reaches.space (h : Reaches s t) : Reaches (' ' :: s) t := isGap_space.reaches h

theorem Reaches.newline (h : Reaches s t) : Reaches ('\n' :: s) t :=
  (isGap_of_spaces (List.all_eq_true.mp (by decide)) : IsGap ['\n']).reaches h

/-! ## 2. Signs, words and strings

Each reader of a token is looked up by what is reached: `…_done` where the token
is there, `…_stuck` where something else is. -/

theorem symbol_done (h : Reaches s (t ++ r)) : symbol t s = .done () r := by
  unfold symbol
  simp [h false]

theorem sign_done (h : Reaches s (c :: r)) : sign c s = .done () r := symbol_done h

theorem symbolUnless_stuck {next : List Char} (h : Reaches s (c :: r)) (hc : a ≠ c) :
    symbolUnless (a :: t) next s = .stuck s.length := by
  unfold symbolUnless
  simp [h false, hc]

theorem startsWith_eq (h : Reaches s r) : startsWith t s = t.isPrefixOf r := by
  rw [startsWith, h false]

theorem startsWith_eq_false (h : Reaches s (c :: r)) (hc : a ≠ c) :
    startsWith (a :: t) s = false := by
  rw [startsWith_eq h]
  simp [List.isPrefixOf, hc]

theorem sign_stuck (h : Reaches s (c :: t)) (hc : a ≠ c) : sign a s = .stuck s.length := by
  have hstarts : startsWith [a] s = false := startsWith_eq_false h hc
  rw [startsWith] at hstarts
  simp only [sign, symbol, hstarts]
  rfl

theorem nextChar_eq (h : Reaches s (c :: r)) : nextChar s = some c := by
  rw [nextChar, h false]
  rfl

theorem word_done {w : List Char} (h : Reaches s (w ++ r)) (hw : wordLength (w ++ r) = w.length)
    (hne : w ≠ []) : word s = .done (String.ofList w) r := by
  obtain ⟨n, hn⟩ := Nat.exists_eq_add_one.mpr (List.length_pos_iff.mpr hne)
  have htake : (w ++ r).take (n + 1) = w := by rw [← hn, List.take_left]
  have hdrop : (w ++ r).drop (n + 1) = r := by rw [← hn, List.drop_left]
  simp only [word, h true, hw, hn, htake, hdrop]

theorem word_stuck (h : Reaches s t) (hw : wordLength t = 0) : word s = .stuck s.length := by
  simp only [word, h true, hw]

theorem nextWord_eq {w : List Char} (h : Reaches s (w ++ r))
    (hw : wordLength (w ++ r) = w.length) : nextWord s = String.ofList w := by
  rw [nextWord, h true, hw, List.take_left]

theorem nextWord_eq_empty (h : Reaches s t) (hw : wordLength t = 0) : nextWord s = "" := by
  rw [nextWord, h true, hw]
  rfl

theorem keyword_done {k : String} (h : Reaches s (k.toList ++ r))
    (hw : wordLength (k.toList ++ r) = k.toList.length) (hne : k.toList ≠ []) :
    keyword k s = .done () r := by
  have hk : String.ofList k.toList = k := String.ofList_toList
  simp only [keyword, word_done h hw hne, hk, if_true]

theorem keyword_stuck {k : String} (h : Reaches s t) (hw : wordLength t = 0) :
    keyword k s = .stuck s.length := by
  simp only [keyword, word_stuck h hw]

/-! ## 3. Quoted texts

A quoted text is read to its closing quote, since each of its characters is
written so that the reader does not stop in it. -/

theorem stringLength?_quoteChar (c : Char) (r : List Char) :
    stringLength? '"' 0 (quoteChar c ++ r)
      = (stringLength? '"' 0 r).map (· + (quoteChar c).length) := by
  have hescape : ∀ e : Char, escapeLength ('\\' :: e :: r) = 2 →
      stringLength? '"' 0 (['\\', e] ++ r) = (stringLength? '"' 0 r).map (· + 2) := by
    intro e he
    simp [stringLength?, he, Function.comp_def]
  unfold quoteChar
  split
  · exact hescape '"' rfl
  · exact hescape '\\' rfl
  · exact hescape 'b' rfl
  · exact hescape 'f' rfl
  · exact hescape 'n' rfl
  · exact hescape 'r' rfl
  · exact hescape 't' rfl
  · rename_i hquote hback _ _ hline hreturn _
    split
    · -- a control character, written by the four digits of its code
      rename_i hlow
      have hhigh : (hexDigit? (hexChar (c.toNat / 16))).isSome = true := by
        rw [hexDigit?_hexChar _ (by omega)]
        rfl
      have hdigit : (hexDigit? (hexChar (c.toNat % 16))).isSome = true := by
        rw [hexDigit?_hexChar _ (by omega)]
        rfl
      have hzero : (hexDigit? '0').isSome = true := by decide
      have hrun :
          4 ≤ hexRun ('0' :: '0' :: hexChar (c.toNat / 16) :: hexChar (c.toNat % 16) :: r) := by
        simp [hexRun, hzero, hhigh, hdigit]
      have hlength : escapeLength
          ('\\' :: 'u' :: '0' :: '0' :: hexChar (c.toNat / 16) :: hexChar (c.toNat % 16) :: r)
            = 6 := by
        simp [escapeLength, unicodeLength, hrun]
      simp [stringLength?, hlength, Function.comp_def]
    · rename_i hlow
      have hnull : c ≠ '\x00' := fun h => hlow (h ▸ by decide)
      have hplain : ¬((c = '\n' ∨ c = '\r') ∨ c = '\x00') :=
        not_or.mpr ⟨not_or.mpr ⟨hline, hreturn⟩, hnull⟩
      simp only [List.singleton_append, stringLength?, beq_iff_eq, if_neg hquote, if_neg hback,
        Bool.or_eq_true, if_neg hplain, List.length_singleton]

theorem stringLength?_quoted (v r : List Char) :
    stringLength? '"' 0 (v.flatMap quoteChar ++ '"' :: r) = some (v.flatMap quoteChar).length := by
  induction v with
  | nil => simp [stringLength?]
  | cons c v ih => simp [stringLength?_quoteChar, ih, Nat.add_comm]

theorem stringLiteral_quote {v : List Char} (h : Reaches s (quote v ++ r)) :
    stringLiteral s = .done (v.flatMap quoteChar) r := by
  have hquote : quote v ++ r = '"' :: (v.flatMap quoteChar ++ '"' :: r) := by simp [quote]
  have hdrop : (v.flatMap quoteChar ++ '"' :: r).drop ((v.flatMap quoteChar).length + 1) = r := by
    rw [List.drop_length_add_append]
    rfl
  rw [hquote] at h
  simp only [stringLiteral, h true, stringLength?_quoted, List.take_left, hdrop]
  rfl

/-! ## 4. Lists

Arrays and objects are printed with one item to a line. The lemma leaves open
what the items are and what they are read as (`R`), so that it serves both. -/

/-- Items with a comma and a line end after each are read up to the closing sign, if each of them
is read up to its comma. All of it is at the end of `source`. -/
theorem looseListWithin_listed {ι α : Type} {R : ι → α → Prop} (item : Reader α) (close : Char)
    {print : ι → List Char} {before closing : List Char} (hclose : isSolid close = true)
    (hbefore : ∀ a ∈ before, isSpace a = true)
    (hclosing : ∀ a ∈ closing, isSpace a = true) (source rest : List Char) (items : List ι)
    (hfirst : ∀ i ∈ items, ∃ c t, print i = c :: t ∧ isSolid c = true ∧ c ≠ close ∧ c ≠ ',')
    (hitem : ∀ i ∈ items, ∀ s r, Reaches s (print i ++ ',' :: r) → print i ++ ',' :: r <:+ source →
      ∃ a, R i a ∧ item s = .done a (',' :: r)) :
    ∀ (n : Nat) (blanks : List Char), items.length < n → (∀ a ∈ blanks, isSpace a = true) →
      items.flatMap (fun i => before ++ (print i ++ [',', '\n'])) ++ (closing ++ close :: rest)
        <:+ source →
      ∃ as, List.Forall₂ R items as ∧
        looseListWithin close item n (blanks ++ (items.flatMap (fun i =>
          before ++ (print i ++ [',', '\n'])) ++ (closing ++ close :: rest))) = .done as rest := by
  induction items with
  | nil =>
    intro n blanks hn hblanks _
    obtain ⟨n, rfl⟩ := Nat.exists_eq_add_one.mpr hn
    have hreaches : Reaches (blanks ++ (closing ++ close :: rest)) (close :: rest) :=
      .spaces hblanks (.spaces hclosing (.solid hclose rest))
    refine ⟨[], .nil, ?_⟩
    rw [List.flatMap_nil, List.nil_append, looseListWithin]
    simp [hreaches true]
  | cons i items ih =>
    intro n blanks hn hblanks hsource
    obtain ⟨n, rfl⟩ := Nat.exists_eq_add_one.mpr (Nat.lt_of_le_of_lt (Nat.zero_le _) hn)
    let after := items.flatMap (fun i => before ++ (print i ++ [',', '\n']))
      ++ (closing ++ close :: rest)
    have htext : (i :: items).flatMap (fun i => before ++ (print i ++ [',', '\n']))
        ++ (closing ++ close :: rest) = before ++ (print i ++ ',' :: '\n' :: after) := by
      simp [after]
    rw [htext] at hsource ⊢
    have hhere : print i ++ ',' :: '\n' :: after <:+ source :=
      (List.suffix_append _ _).trans hsource
    have hafter : after <:+ source :=
      ((List.suffix_cons _ _).trans (List.suffix_cons _ _)).trans
        ((List.suffix_append _ _).trans hhere)
    obtain ⟨c, t, hprint, hc, hcclose, hccomma⟩ := hfirst i List.mem_cons_self
    have hreaches : Reaches (blanks ++ (before ++ (print i ++ ',' :: '\n' :: after)))
        (print i ++ ',' :: '\n' :: after) := by
      rw [hprint]
      exact .spaces hblanks (.spaces hbefore (.solid hc _))
    obtain ⟨a, ha, hread⟩ := hitem i List.mem_cons_self _ _ hreaches hhere
    have hcomma : Reaches (',' :: '\n' :: after) (',' :: '\n' :: after) := .solid (by decide) _
    obtain ⟨as, has, hrest⟩ := ih (fun j hj => hfirst j (List.mem_cons_of_mem _ hj))
      (fun j hj => hitem j (List.mem_cons_of_mem _ hj)) n ['\n'] (by simpa using hn)
      (by simp; decide) hafter
    have hrest : looseListWithin close item n ('\n' :: after) = .done as rest := hrest
    refine ⟨a :: as, .cons ha has, ?_⟩
    rw [hprint, List.cons_append] at hreaches hread ⊢
    simp only [looseListWithin, hreaches true, beq_iff_eq, if_neg hcclose, if_neg hccomma, hread,
      hcomma false, hrest]

/-! ## 5. Values

After a primary expression three readers look for more of the value: suffixes,
assignments and operators. At a comma or a semicolon all of them are stuck, and
in a statement they look first whether it may end at a line break, so there they
are stuck too (`Ends`). -/

/-- A line break where a statement ends: the text is at its end there, or a word comes next. -/
structure Breaks (rest : List Char) : Prop where
  mayEnd : ∀ d, mayEnd d true rest = true
  first : ∀ c ∈ rest.head?, isSpace c = true
  next : ∃ t, Reaches rest t ∧ ∀ c ∈ t.head?, isWordStart c = true

/-- A value ends here: before a comma or a semicolon, and in a statement at a line break. -/
def Ends (setting : Setting) (rest : List Char) : Prop :=
  (∃ r, rest = ',' :: r ∨ rest = ';' :: r) ∨ (setting.line = true ∧ Breaks rest)

theorem Ends.comma (setting : Setting) (r : List Char) : Ends setting (',' :: r) :=
  .inl ⟨r, .inl rfl⟩

theorem Ends.semicolon (setting : Setting) (r : List Char) : Ends setting (';' :: r) :=
  .inl ⟨r, .inr rfl⟩

/-- A character that may come next where a value ends. -/
def isEnding (c : Char) : Bool := c == ',' || c == ';' || isWordStart c

theorem Ends.next (h : Ends setting r) : ∃ t, Reaches r t ∧ ∀ c ∈ t.head?, isEnding c = true := by
  obtain ⟨r', rfl | rfl⟩ | ⟨-, hbreaks⟩ := h
  · exact ⟨',' :: r', .solid (by decide) r', by rintro c ⟨⟩; decide⟩
  · exact ⟨';' :: r', .solid (by decide) r', by rintro c ⟨⟩; decide⟩
  · obtain ⟨t, ht, hc⟩ := hbreaks.next
    exact ⟨t, ht, fun c h => by simp [isEnding, hc c h]⟩

theorem Ends.startsWith_eq_false (h : Ends setting r) (hne : t ≠ [])
    (ht : ∀ c ∈ t.head?, isEnding c = false) : startsWith t r = false := by
  obtain ⟨x, hx, hnext⟩ := h.next
  rw [startsWith_eq hx]
  cases t with
  | nil => exact absurd rfl hne
  | cons a t =>
    cases x with
    | nil => rfl
    | cons c x =>
      have hac : a ≠ c := by
        rintro rfl
        exact absurd (hnext a rfl) (Bool.eq_false_iff.mp (ht a rfl))
      simp [List.isPrefixOf, hac]

/-- No operator begins with what may come next where a value ends. -/
theorem operators_head? : ∀ t ∈ operators ++ assignments,
    t ≠ [] ∧ ∀ c ∈ t.head?, isEnding c = false := by
  have hall : (operators ++ assignments).all
      (fun t => !t.isEmpty && t.head?.all (fun c => !isEnding c)) = true := by decide
  intro t ht
  have := List.all_eq_true.mp hall t ht
  cases t with
  | nil => cases this
  | cons c t => exact ⟨List.cons_ne_nil _ _, by rintro c ⟨⟩; simpa using this⟩

theorem Ends.equals_stuck (h : Ends setting r) : equals r = .stuck r.length := by
  have hstarts : startsWith ['='] r = false :=
    h.startsWith_eq_false (by simp) (by rintro c ⟨⟩; decide)
  rw [startsWith] at hstarts
  simp only [equals, symbolUnless, hstarts]
  rfl

theorem Ends.assignment_stuck (h : Ends setting r) : assignment r = .stuck r.length := by
  have hnone : assignments.find? (fun t => startsWith t r) = none :=
    List.find?_eq_none.mpr fun t ht => by
      obtain ⟨hne, hhead⟩ := operators_head? t (List.mem_append_right _ ht)
      simp [h.startsWith_eq_false hne hhead]
  simp only [assignment, hnone, h.equals_stuck]

theorem suffix_stuck (h : Ends setting r) (v : Value) :
    suffix d g setting v r = .stuck r.length := by
  unfold suffix
  change (if _ then _ else _ : Reader Value) _ = _
  obtain ⟨r', rfl | rfl⟩ | ⟨hline, hbreaks⟩ := h
  · rw [Reaches.solid (by decide) r' false]
    split <;> rfl
  · rw [Reaches.solid (by decide) r' false]
    split <;> rfl
  · rw [hline, hbreaks.mayEnd d]
    rfl

theorem operator_stuck (h : Ends setting r) (hword : wordLength r = 0) (hr : Reaches r r) :
    operator r = .stuck r.length := by
  have hstarts : ∀ t ∈ operators ++ assignments, startsWith t r = false := fun t ht =>
    h.startsWith_eq_false (operators_head? t ht).1 (operators_head? t ht).2
  have hassignments : (assignments.any fun t => startsWith t r) = false := by
    refine Bool.eq_false_iff.mpr fun hany => ?_
    obtain ⟨t, ht, h⟩ := List.any_eq_true.mp hany
    rw [hstarts t (List.mem_append_right _ ht)] at h
    cases h
  have hnone : operators.find? (fun t => startsWith t r) = none :=
    List.find?_eq_none.mpr fun t ht => by simp [hstarts t (List.mem_append_left _ ht)]
  have harrow : startsWith ['=', '>'] r = false :=
    h.startsWith_eq_false (by simp) (by rintro c ⟨⟩; decide)
  have hkeyword : ∀ k, keyword k r = .stuck r.length := fun k => keyword_stuck hr hword
  simp [operator, hassignments, harrow, hnone, Reader.either, hkeyword]

theorem operated_stuck (h : Ends setting r) (v : Value) :
    operated d g setting v r = .stuck r.length := by
  unfold operated
  change (if _ then _ else _ : Reader Value) _ = _
  -- before a comma or semicolon there is no operator, and a line break is looked at first
  have hsign : ∀ c r', r = c :: r' → isSolid c = true → isWordPart c = false → c ≠ '\\' →
      (if setting.line && mayEnd d true r then Reader.fail
        else if d.types && (nextWord r = "as" || nextWord r = "satisfies") then do
          let _ ← word
          g.type ⟨setting.line, true⟩
          return { v with bare := false, target := false }
        else do
          operator
          let _ ← g.operand setting
          return .plain v.start (← Reader.left) false : Reader Value) r = .stuck r.length := by
    rintro c r' rfl hsolid hpart hescape
    have hreaches : Reaches (c :: r') (c :: r') := .solid hsolid r'
    have hword : wordLength (c :: r') = 0 := wordLength_punctuation hpart hescape r'
    rw [nextWord_eq_empty hreaches hword]
    split
    · rfl
    · rw [if_neg (by simp)]
      exact bind_stuck (operator_stuck h hword hreaches)
  obtain ⟨r', rfl | rfl⟩ | ⟨hline, hbreaks⟩ := id h
  · exact hsign ',' r' rfl (by decide) (by decide) (by decide)
  · exact hsign ';' r' rfl (by decide) (by decide) (by decide)
  · rw [hline, hbreaks.mayEnd d]
    rfl

theorem seesChoice_eq_false (h : Ends setting r) : seesChoice r = false := by
  have hstarts : startsWith ['?'] r = false :=
    h.startsWith_eq_false (by simp) (by rintro c ⟨⟩; decide)
  rw [startsWith] at hstarts
  unfold seesChoice
  split <;> simp_all [List.isPrefixOf]

/-- A primary expression that begins with no prefix operator, and neither a suffix nor an assignment
after it, is the operand. -/
theorem readOperand_of_primary {v : Value} {n k : Nat} (h : Reaches s (c :: t))
    (hc : "+-!~<".toList.contains c = false)
    (hword : ("yield" :: prefixWords).contains (nextWord (c :: t)) = false)
    (hp : primary d g setting (c :: t) = .done v r) (hsuffix : suffix d g setting v r = .stuck n)
    (hassignment : assignment r = .stuck k) : readOperand d g setting s = .done v r := by
  have hassigned : assigned g setting v r = .done v r := by
    have hsees : Reader.sees assignment r = .done false r := by
      simp only [Reader.sees, hassignment]
    rw [assigned, bind_done hsees, Bool.and_false]
    rfl
  have hsuffixed : suffixed d g setting (c :: t) = .done v r := by
    rw [suffixed, bind_done hp, bind_done (extend_stuck hsuffix), hassigned]
  have hprefixed : prefixWords.contains (nextWord (c :: t)) = false := by
    rw [List.contains_cons, Bool.or_eq_false_iff] at hword
    exact hword.2
  have hyield : nextWord (c :: t) ≠ "yield" := by
    rintro hyield
    rw [hyield] at hword
    exact absurd hword (by decide)
  unfold readOperand
  rw [h true]
  dsimp only
  split
  case h_8 => rw [hprefixed, if_neg Bool.false_ne_true, if_neg hyield, hsuffixed]
  all_goals
    rename_i heq
    obtain ⟨rfl, -⟩ := List.cons.inj heq
    exact absurd hc (by decide)

/-- A primary expression that begins with no prefix operator, and no suffix or operator after it, is
the value. -/
theorem readValue_of_primary {v : Value} (h : Reaches s (c :: t))
    (hc : "+-!~<".toList.contains c = false)
    (hword : ("yield" :: prefixWords).contains (nextWord (c :: t)) = false)
    (hp : primary d g setting (c :: t) = .done v r) (hr : Ends setting r) :
    readValue d g setting s = .done v r := by
  have hoperand := readOperand_of_primary h hc hword hp (suffix_stuck hr v) hr.assignment_stuck
  rw [readValue, bind_done hoperand, bind_done (extend_stuck (operated_stuck hr v))]
  change (if seesChoice r then _ else _ : Reader Value) r = _
  rw [seesChoice_eq_false hr]
  rfl

end LocaleEditor.Script
