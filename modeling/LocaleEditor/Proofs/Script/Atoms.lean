/-
LocaleEditor.Proofs.Script.Atoms — names, strings, templates and arrays are read as printed.

A printed item is read back as an atom that stands for it, wherever a value may
end after it (`readValue_printItem`), and so is an array of items. A string is
read back by its escapes. A name or a template is source that was kept as it
stood; of it `Item.Stands` demands that it is read whole, whatever follows it.

Nested pieces are read by the next lower level of the grammar. Two levels for
each character are more than a text can use up, so `2 * length ≤ m` stands in
every statement about a text that is read at level `m`, and it passes to the
parts of the text by arithmetic.
-/
import LocaleEditor.Proofs.Script.Blocks
import LocaleEditor.Proofs.Script.Running
import LocaleEditor.Proofs.Tree.Entries

namespace LocaleEditor.Script

open LocaleEditor.Text Reader

variable {d : Dialect} {g : Grammar} {setting : Setting} {s r : List Char} {style : Style}

/-! ## 1. Names

A word in front of a value may be a keyword, a prefix operator, or the beginning
of a function. `isVariable` rules these out, and then the value is the name. -/

/-- The word can be a value: a name that begins no expression of another kind. -/
def isVariable (d : Dialect) (w : String) : Bool := isName d w && w != "async" && w != "new"

theorem Ends.endsWord (h : Ends setting r) : EndsWord r := by
  obtain ⟨r', rfl | rfl⟩ | ⟨-, hbreaks⟩ := h
  · rintro c ⟨⟩; decide
  · rintro c ⟨⟩; decide
  · intro c hc
    have hspace := hbreaks.first c hc
    exact ⟨by simp [isWordPart, hspace], by rintro rfl; exact absurd hspace (by decide)⟩

theorem isSolid_of_isWordStart {c : Char} (h : isWordStart c = true) : isSolid c = true := by
  have hspace : isSpace c = false := by
    simp only [isWordStart, isWordPart, Bool.and_eq_true, Bool.not_eq_true'] at h
    exact h.1.2
  simp only [isSolid, hspace, Bool.not_false, Bool.true_and, Bool.and_eq_true, bne_iff_ne]
  refine ⟨⟨?_, ?_⟩, ?_⟩ <;> rintro rfl <;> exact absurd h (by decide)

/-- A word begins with no sign that begins none. -/
theorem ne_of_isWordStart {c a : Char} (hc : isWordStart c = true) (ha : isWordStart a = false) :
    c ≠ a := by
  rintro rfl
  rw [ha] at hc
  cases hc

/-- What a word begins with: no sign but the backslash of an escape, and no digit. -/
theorem IsWord.front {w : List Char} (hw : IsWord w) : ∃ c x, w = c :: x ∧ isSolid c = true ∧
    c.isDigit = false ∧ ∀ a, isWordPart a = false → a ≠ '\\' → c ≠ a := by
  obtain ⟨c, x, rfl, hstart | rfl⟩ := hw.head
  · refine ⟨c, x, rfl, isSolid_of_isWordStart hstart, ?_, fun a ha _ => ?_⟩
    · simp only [isWordStart, Bool.and_eq_true, Bool.not_eq_true'] at hstart
      exact hstart.2
    · exact ne_of_isWordStart hstart (by simp [isWordStart, ha])
  · exact ⟨'\\', x, rfl, by decide, by decide, fun a _ hescape => hescape.symm⟩

theorem IsWord.reaches {w : List Char} (hw : IsWord w) (r : List Char) :
    Reaches (w ++ r) (w ++ r) := by
  obtain ⟨c, x, rfl, hc, -, -⟩ := hw.front
  exact .solid hc _

theorem numberLength_eq_zero {c : Char} (hc : c.isDigit = false) (hdot : c ≠ '.') (r : List Char) :
    numberLength (c :: r) = 0 := by
  have hzero : c ≠ '0' := by rintro rfl; cases hc
  have hdigits : digitsLength Char.isDigit (c :: r) = 0 := by simp [digitsLength, hc]
  unfold numberLength
  simp [hzero, hdot, hdigits]

/-- An expression that begins with a word. -/
theorem primary_word {w : List Char} (hw : IsWord w) (hr : EndsWord r) :
    primary d g setting (w ++ r) = wordExpression d g setting (w ++ r) := by
  have hlength := hw.wordLength_append hr
  have hreaches := hw.reaches r
  obtain ⟨c, x, rfl, hc, hdigit, hne⟩ := hw.front
  have hnumber : numberLength (c :: (x ++ r)) = 0 :=
    numberLength_eq_zero hdigit (hne '.' (by decide) (by decide)) _
  have hsome : wordLength (c :: (x ++ r)) ≠ 0 := by
    rw [← List.cons_append, hlength]
    exact Nat.succ_ne_zero _
  have hsign : ∀ a, isWordPart a = false → a ≠ '\\' → (c == a) = false := fun a ha hescape =>
    beq_false_of_ne (hne a ha hescape)
  rw [List.cons_append] at hreaches ⊢
  simp only [primary, hreaches true, hsign '(' (by decide) (by decide),
    hsign '\x7b' (by decide) (by decide), hsign '[' (by decide) (by decide),
    hsign '"' (by decide) (by decide), hsign '\'' (by decide) (by decide),
    hsign '`' (by decide) (by decide), hsign '/' (by decide) (by decide),
    hsign '#' (by decide) (by decide), hsign '@' (by decide) (by decide), hnumber, hsome,
    Bool.or_self, Bool.false_eq_true, if_false]

/-- A word that is an expression, and no suffix or operator after it. -/
theorem readValue_word {w rest : List Char} {v : Value} (hw : IsWord w) (hr : EndsWord r)
    (hword : ("yield" :: prefixWords).contains (String.ofList w) = false)
    (h : Reaches s (w ++ r)) (hread : wordExpression d g setting (w ++ r) = .done v rest)
    (hrest : Ends setting rest) : readValue d g setting s = .done v rest := by
  have hnext : nextWord (w ++ r) = String.ofList w :=
    nextWord_eq (hw.reaches r) (hw.wordLength_append hr)
  have hprimary : primary d g setting (w ++ r) = .done v rest := (primary_word hw hr).trans hread
  obtain ⟨c, x, rfl, hc, hdigit, hne⟩ := hw.front
  have hsigns : "+-!~<".toList.contains c = false := by
    simp [hne '+' (by decide) (by decide), hne '-' (by decide) (by decide),
      hne '!' (by decide) (by decide), hne '~' (by decide) (by decide),
      hne '<' (by decide) (by decide)]
  rw [List.cons_append] at h hnext hprimary
  exact readValue_of_primary h hsigns (by rw [hnext]; exact hword) hprimary hrest

/-- A name is a value. -/
theorem readValue_name {w : String} (hw : IsWord w.toList) (hname : isVariable d w = true)
    (h : Reaches s (w.toList ++ r)) (hr : Ends setting r) :
    readValue d g setting s
      = .done (.whole (w.toList ++ r).length (.atom (.name w)) r true) r := by
  have hofList : String.ofList w.toList = w := String.ofList_toList
  simp only [isVariable, isName, Bool.and_eq_true, Bool.not_eq_true', bne_iff_ne, ne_eq] at hname
  obtain ⟨⟨⟨hwords, htypes⟩, hasync⟩, hnew⟩ := hname
  have hne : ∀ k ∈ expressionWords, w ≠ k := by
    rintro k hk rfl
    rw [List.contains_eq_mem] at hwords
    exact absurd hk (by simpa using hwords)
  -- a name is none of the words that begin an expression, whichever of them are looked for
  have hnot : ∀ ks : List String, ks ⊆ expressionWords → ks.contains w = false := by
    intro ks hks
    rw [List.contains_eq_mem, decide_eq_false_iff_not]
    exact fun hmem => hne w (hks hmem) rfl
  refine readValue_word hw hr.endsWord (by rw [hofList]; exact hnot _ (by decide)) h ?_ hr
  have hgap : gapBefore (w.toList ++ r) = .done () (w.toList ++ r) := by
    rw [gapBefore, hw.reaches r true]
  have hword := word_done (hw.reaches r) (hw.wordLength_append hr.endsWord) hw.1
  have harrow : startsWith ['=', '>'] r = false :=
    hr.startsWith_eq_false (by simp) (by rintro c ⟨⟩; decide)
  have hisName : isName d w = true := by
    rw [isName, hwords, htypes]
    rfl
  rw [hofList] at hword
  unfold wordExpression
  rw [bind_done hgap, bind_done (rfl : Reader.left _ = .done _ _), bind_done hword,
    bind_done (rfl : Reader.left _ = .done _ _)]
  rw [harrow, Bool.false_and, if_neg Bool.false_ne_true, if_neg hasync,
    if_neg (hne "function" (by decide)), if_neg (hne "class" (by decide)), if_neg hnew,
    if_neg (hne "import" (by decide)), if_neg (hne "undefined" (by decide)),
    hnot _ (by decide), if_neg Bool.false_ne_true, hisName, if_pos rfl]
  rfl

theorem readValue_undefined (h : Reaches s ("undefined".toList ++ r)) (hr : Ends setting r) :
    readValue d g setting s
      = .done (.whole ("undefined".toList ++ r).length .undefined r true) r := by
  have hw : IsWord "undefined".toList := by decide
  refine readValue_word hw hr.endsWord (by decide) h ?_ hr
  have hgap : gapBefore ("undefined".toList ++ r) = .done () ("undefined".toList ++ r) := by
    rw [gapBefore, hw.reaches r true]
  have hword := word_done (hw.reaches r) (hw.wordLength_append hr.endsWord) hw.1
  have harrow : startsWith ['=', '>'] r = false :=
    hr.startsWith_eq_false (by simp) (by rintro c ⟨⟩; decide)
  rw [String.ofList_toList] at hword
  unfold wordExpression
  rw [bind_done hgap, bind_done (rfl : Reader.left _ = .done _ _), bind_done hword,
    bind_done (rfl : Reader.left _ = .done _ _), harrow]
  rfl

/-! ## 2. Strings, templates and arrays

These begin with a sign, by which the primary expression is chosen. -/

/-- How a text is kept when it was read. -/
def quotedAtom (v : String) : Atom := .string (v.toList.flatMap quoteChar)

theorem item_quotedAtom (v : String) : (quotedAtom v).item = .literal v := by
  rw [quotedAtom, Atom.item, unescape_flatMap_quoteChar, String.ofList_toList]

/-- A value that begins with a sign, which is neither a prefix operator nor part of a word. -/
theorem readValue_sign {v : Value} {c : Char} {t : List Char} (hsolid : isSolid c = true)
    (hc : "+-!~<".toList.contains c = false) (hpart : isWordPart c = false) (hescape : c ≠ '\\')
    (h : Reaches s (c :: t)) (hp : primary d g setting (c :: t) = .done v r)
    (hr : Ends setting r) : readValue d g setting s = .done v r := by
  refine readValue_of_primary h hc ?_ hp hr
  rw [nextWord_eq_empty (.solid hsolid t) (wordLength_punctuation hpart hescape t)]
  decide

theorem readValue_quote {v : String} (h : Reaches s (quote v.toList ++ r)) (hr : Ends setting r) :
    readValue d g setting s
      = .done (.whole (quote v.toList ++ r).length (.atom (quotedAtom v)) r false) r := by
  obtain ⟨t, ht⟩ : ∃ t, quote v.toList ++ r = '"' :: t := ⟨_, rfl⟩
  have hsolid : Reaches ('"' :: t) ('"' :: t) := .solid (by decide) t
  have hliteral : stringLiteral ('"' :: t) = .done (v.toList.flatMap quoteChar) r :=
    stringLiteral_quote (ht ▸ hsolid)
  rw [ht] at h ⊢
  refine readValue_sign (by decide) (by decide) (by decide) (by decide) h ?_ hr
  simp only [primary, hsolid true, hliteral]
  rfl

/-- The template is read whole, whatever follows it, where there are enough levels. -/
def StandingTemplate (d : Dialect) (v : List Char) : Prop :=
  ∀ m r, 2 * (v.length + 2) ≤ m →
    template (Grammar.upTo d m) ('`' :: (v ++ '`' :: r)) = .done (.template v true) r

theorem readValue_template {v : String}
    (hv : template g ('`' :: (v.toList ++ '`' :: r)) = .done (.template v.toList true) r)
    (h : Reaches s (backticked v ++ r)) (hr : Ends setting r) :
    readValue d g setting s
      = .done (.whole (backticked v ++ r).length (.atom (.template v.toList true)) r false) r := by
  have htext : backticked v ++ r = '`' :: (v.toList ++ '`' :: r) := by simp [backticked]
  rw [htext] at h ⊢
  refine readValue_sign (by decide) (by decide) (by decide) (by decide) h ?_ hr
  simp only [primary, Reaches.solid (show isSolid '`' = true by decide) _ true, hv]
  rfl

end LocaleEditor.Script

namespace LocaleEditor

open LocaleEditor.Text

/-- The item is read back, whatever follows it. -/
def Item.Stands (d : Dialect) : Item → Prop
  | .literal _ => True
  | .template v => Script.StandingTemplate d v.toList
  | .variable w => Script.IsWord w.toList ∧ Script.isVariable d w = true

namespace Script

open Reader

variable {d : Dialect} {g : Grammar} {setting : Setting} {s r : List Char} {style : Style}

/-- A printed item is read as an atom that stands for it. -/
theorem readValue_printItem {i : Item} (hi : i.Stands d) {m : Nat}
    (hm : 2 * (printItem i).length ≤ m) (h : Reaches s (printItem i ++ r)) (hr : Ends setting r) :
    ∃ a target, a.item = i ∧ readValue d (Grammar.upTo d m) setting s
      = .done (.whole (printItem i ++ r).length (.atom a) r target) r := by
  cases i with
  | literal v => exact ⟨_, _, item_quotedAtom v, readValue_quote h hr⟩
  | template v =>
    have hlength : 2 * (v.toList.length + 2) ≤ m := by
      simp only [printItem, backticked, List.length_cons, List.length_append, List.length_nil] at hm
      omega
    exact ⟨_, _, by rw [Atom.item, String.ofList_toList], readValue_template (hi m r hlength) h hr⟩
  | «variable» w => exact ⟨_, _, rfl, readValue_name hi.1 hi.2 h hr⟩

/-- A printed item begins with a sign or a word, and not like a list that ends. -/
theorem printItem_front {i : Item} (hi : i.Stands d) : ∃ c t, printItem i = c :: t ∧
    isSolid c = true ∧ c ≠ ']' ∧ c ≠ ',' ∧ c ≠ '.' ∧ c ≠ '\x7b' := by
  cases i with
  | literal v => exact ⟨'"', _, rfl, by decide, by decide, by decide, by decide, by decide⟩
  | template v => exact ⟨'`', _, rfl, by decide, by decide, by decide, by decide, by decide⟩
  | «variable» w =>
    obtain ⟨c, x, hw, hc, -, hne⟩ := hi.1.front
    exact ⟨c, x, hw, hc, hne _ (by decide) (by decide), hne _ (by decide) (by decide),
      hne _ (by decide) (by decide), hne _ (by decide) (by decide)⟩

/-- An object or array that is not assigned to. -/
theorem literalOrPattern_done {literal : Reader Expr} {e : Expr} {c : Char} {t : List Char}
    (hc : isSolid c = true) (hliteral : literal (c :: t) = .done e r) (hr : Ends setting r) :
    literalOrPattern g literal (c :: t) = .done (.whole (c :: t).length e r false) r := by
  simp only [literalOrPattern, Reaches.solid hc t true, hliteral, hr.equals_stuck]

theorem readValue_array {t : List Char} {elements : Elements} (h : Reaches s ('[' :: t))
    (hread : arrayLiteral g ('[' :: t) = .done (.array elements) r) (hr : Ends setting r) :
    readValue d g setting s
      = .done (.whole ('[' :: t).length (.array elements) r false) r := by
  refine readValue_sign (by decide) (by decide) (by decide) (by decide) h ?_ hr
  have hliteral := literalOrPattern_done (g := g) (by decide) hread hr
  simp only [primary, Reaches.solid (show isSolid '[' = true by decide) t true]
  exact hliteral

theorem readValue_object {t : List Char} {e : Expr} (h : Reaches s ('\x7b' :: t))
    (hread : objectLiteral d g ('\x7b' :: t) = .done e r) (hr : Ends setting r) :
    readValue d g setting s = .done (.whole ('\x7b' :: t).length e r false) r := by
  refine readValue_sign (by decide) (by decide) (by decide) (by decide) h ?_ hr
  have hliteral := literalOrPattern_done (g := g) (by decide) hread hr
  simp only [primary, Reaches.solid (show isSolid '\x7b' = true by decide) t true]
  exact hliteral

/-- How an array is printed, with or without items. -/
theorem exists_printItems (style : Style) (level : Nat) (items : List Item) :
    ∃ blanks closing : List Char, (∀ a ∈ blanks, isSpace a = true) ∧
      (∀ a ∈ closing, isSpace a = true) ∧
      ∀ rest, printItems style level items ++ rest = '[' :: (blanks ++ (items.flatMap (fun i =>
        style.indent (level + 1) ++ (printItem i ++ [',', '\n'])) ++ (closing ++ ']' :: rest))) := by
  cases items with
  | nil => exact ⟨[], [], by simp, by simp, fun rest => rfl⟩
  | cons i items =>
    refine ⟨['\n'], style.indent level, by simp; decide, fun a => isSpace_of_mem_indent, ?_⟩
    simp [printItems]

/-- An atom that was read for an item. -/
def AtomFor (i : Item) (a : Option Atom) : Prop := ∃ b : Atom, a = some b ∧ b.item = i

/-- An item of an array is no spread, so it is read as its value. -/
theorem spreadable_printItem {i : Item} (hi : i.Stands d) {m : Nat}
    (hm : 2 * (printItem i).length ≤ m) (h : Reaches s (printItem i ++ ',' :: r)) :
    ∃ a, AtomFor i a ∧ spreadable (Grammar.upTo d (m + 1)) s = .done a (',' :: r) := by
  obtain ⟨a, target, ha, hread⟩ := readValue_printItem hi hm h (.comma .enclosed r)
  have hvalue : (Grammar.upTo d (m + 1)).value = readValue d (Grammar.upTo d m) := rfl
  have hdots : startsWith ['.', '.', '.'] s = false := by
    obtain ⟨c, t, hprint, -, -, -, hdot, -⟩ := printItem_front hi
    rw [hprint] at h
    exact startsWith_eq_false h hdot.symm
  refine ⟨some a, ⟨a, rfl, ha⟩, ?_⟩
  unfold spreadable
  rw [bind_done (rfl : Reader.left s = .done s s), hdots, if_neg Bool.false_ne_true, hvalue,
    bind_done hread]
  rfl

/-! The length of a printed list bounds the number of its items, which are the rounds that reading
it takes, and the length of each of them, by which there are levels enough. -/

theorem length_le_length_flatMap {α β : Type} {f : α → List β} (l : List α)
    (hf : ∀ a ∈ l, f a ≠ []) : l.length ≤ (l.flatMap f).length := by
  induction l with
  | nil => exact Nat.le_refl _
  | cons a l ih =>
    have hpos := List.length_pos_iff.mpr (hf a List.mem_cons_self)
    have hrest := ih fun b hb => hf b (List.mem_cons_of_mem _ hb)
    rw [List.flatMap_cons, List.length_append, List.length_cons]
    omega

theorem length_le_length_flatMap_of_mem {α β : Type} {f : α → List β} {l : List α} {a : α}
    (h : a ∈ l) : (f a).length ≤ (l.flatMap f).length := by
  obtain ⟨before, after, rfl⟩ := List.append_of_mem h
  rw [List.flatMap_append, List.flatMap_cons, List.length_append, List.length_append]
  omega

/-- Where all items were read, the array is kept with them. -/
theorem allSome_of_forall₂ {items : List Item} {as : List (Option Atom)}
    (h : List.Forall₂ AtomFor items as) :
    ∃ es : List Atom, allSome as = some es ∧ es.map Atom.item = items := by
  induction h with
  | nil => exact ⟨[], rfl, rfl⟩
  | @cons i a items as ha _ ih =>
    obtain ⟨b, rfl, rfl⟩ := ha
    obtain ⟨es, hes, rfl⟩ := ih
    exact ⟨b :: es, by rw [allSome, hes]; rfl, rfl⟩

theorem arrayLiteral_printItems {items : List Item} (hitems : ∀ i ∈ items, i.Stands d)
    (style : Style) (level : Nat) {m : Nat}
    (hm : 2 * (printItems style level items).length ≤ m + 1)
    (rest : List Char) : ∃ es : List Atom, es.map Atom.item = items ∧
      arrayLiteral (Grammar.upTo d (m + 1)) (printItems style level items ++ rest)
        = .done (.array (some es)) rest := by
  obtain ⟨blanks, closing, hblanks, hclosing, hprint⟩ := exists_printItems style level items
  let inside := blanks ++ (items.flatMap (fun i =>
    style.indent (level + 1) ++ (printItem i ++ [',', '\n'])) ++ (closing ++ ']' :: rest))
  have hlength : items.length < inside.length + 1 := by
    have hle := length_le_length_flatMap (f := fun i : Item =>
      style.indent (level + 1) ++ (printItem i ++ [',', '\n'])) items (by simp)
    simp only [inside, List.length_append]
    omega
  have hitem : ∀ i ∈ items, 2 * (printItem i).length ≤ m := by
    intro i hi
    have hle := length_le_length_flatMap_of_mem (f := fun i : Item =>
      style.indent (level + 1) ++ (printItem i ++ [',', '\n'])) hi
    have htext := congrArg List.length (hprint [])
    simp only [List.append_nil, List.length_cons, List.length_append] at htext hle
    omega
  obtain ⟨as, has, hlist⟩ := looseListWithin_listed (R := AtomFor)
    (spreadable (Grammar.upTo d (m + 1))) ']' (by decide) (fun a => isSpace_of_mem_indent) hclosing
    inside rest items
    (fun i hi => by
      obtain ⟨c, t, ht, hc, hclose, hcomma, -⟩ := printItem_front (hitems i hi)
      exact ⟨c, t, ht, hc, hclose, hcomma⟩)
    (fun i hi s r h _ => spreadable_printItem (hitems i hi) (hitem i hi) h) (inside.length + 1)
    blanks hlength hblanks (List.suffix_append _ _)
  obtain ⟨es, hes, hmap⟩ := allSome_of_forall₂ has
  have hopen : sign '[' ('[' :: inside) = .done () inside := sign_done (.solid (by decide) _)
  refine ⟨es, hmap, ?_⟩
  rw [hprint, arrayLiteral, bind_done hopen, bind_done (show looseList ']' _ inside = _ from hlist),
    hes]
  rfl

end Script

end LocaleEditor
