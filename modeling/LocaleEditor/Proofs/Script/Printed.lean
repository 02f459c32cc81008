/-
LocaleEditor.Proofs.Script.Printed — printed nodes are read back.

A node keeps some pieces of the source it was read from as they stood: names,
templates, types of parameters, and the statements of a function. `Node.Stands`
demands of each of them that it is read the same wherever it stands, and nothing
of the node itself, nor of how it is printed. Then the node is read back
(`readsBack_of_stands`): an object member by member, where a key is a word or a
string, and a function by its parameters and what it returns or does. Every
nested piece is shorter than what it is part of, so twice as many levels as the
node has characters are enough.

## Blocks

A block is the one piece that is not printed as it is kept: its lines are
indented by the level at which it is printed, and those that hold only white
space are emptied. `StandingBlock` is about the text tidied once and put in
braces, at no level. From there the module on indentation leads to the printed
block at every level (`StandingBlock.reads_printed`), and the text that is read
is the tidied one (`StandingBlock.blockText_eq`). So a node is not read back as
itself but with its blocks tidied.
-/
import LocaleEditor.Proofs.Script.Parameters
import LocaleEditor.Proofs.Script.Reindented

namespace LocaleEditor.Script

open LocaleEditor.Text Reader

variable {d : Dialect} {g : Grammar} {setting : Setting} {s r : List Char} {style : Style}

/-! ## 1. Objects

A key is printed as a word where it is plain and in quotes otherwise, and both
are read as the same key. A printed object has no key twice if the tree has not,
so its members give the entries back in their order. -/

/-- A member of an object, up to its comma. -/
def printMember (style : Style) (level : Nat) (p : String × Node) : List Char :=
  printKey p.1 ++ ':' :: ' ' :: printNode style level p.2

/-- The entries that are known are printed one to a line. -/
theorem printEntries_eq_flatMap (style : Style) (level : Nat) (t : Tree)
    (ht : ∀ p ∈ t, isUnknown p.2 = false) : printEntries style level t
      = t.flatMap fun p => style.indent level ++ (printMember style level p ++ [',', '\n']) := by
  induction t with
  | nil => rfl
  | cons p t ih =>
    obtain ⟨key, n⟩ := p
    have hknown : isUnknown n = false := ht _ List.mem_cons_self
    rw [printEntries_cons, hknown, ih fun p hp => ht p (List.mem_cons_of_mem _ hp)]
    simp [printMember]

/-- How an object is printed, with or without members. -/
theorem exists_printObject (style : Style) (level : Nat) (t : Tree)
    (ht : ∀ p ∈ t, isUnknown p.2 = false) :
    ∃ blanks closing : List Char, (∀ a ∈ blanks, isSpace a = true) ∧
      (∀ a ∈ closing, isSpace a = true) ∧
      ∀ rest, printNode style level (.object t) ++ rest = '\x7b' :: (blanks ++ (t.flatMap (fun p =>
        style.indent (level + 1) ++ (printMember style (level + 1) p ++ [',', '\n']))
          ++ (closing ++ '\x7d' :: rest))) := by
  rw [printNode_object, printEntries_eq_flatMap style (level + 1) t ht]
  cases t with
  | nil => exact ⟨[], [], by simp, by simp, fun rest => rfl⟩
  | cons p t =>
    refine ⟨['\n'], style.indent level, by simp; decide, fun a => isSpace_of_mem_indent, ?_⟩
    intro rest
    split
    · simp_all
    · simp

/-- After the key of a member and a colon comes its value. -/
theorem memberRest_colon {x : List Char} {v : Value}
    (hv : g.value .enclosed (' ' :: x) = .done v r) :
    memberRest d g (':' :: ' ' :: x) = .done (some v.core) r := by
  have hsolid : Reaches (':' :: ' ' :: x) (':' :: ' ' :: x) := .solid (by decide) _
  have hcolon : startsWith [':'] (':' :: ' ' :: x) = true := startsWith_eq hsolid
  unfold memberRest
  rw [bind_done (rfl : Reader.left (':' :: ' ' :: x) = .done _ _), hcolon, if_pos rfl,
    bind_done (sign_done hsolid), bind_done hv]
  rfl

/-- A member whose key is written as a word, which the colon ends. -/
theorem objectMember_word {key x : List Char} {v : Value} (hplain : isPlainKey key = true)
    (hgap : gapBefore s = .done () (key ++ ':' :: ' ' :: x))
    (hv : g.value .enclosed (' ' :: x) = .done v r) :
    objectMember d g s = .done (some (String.ofList key, v.core)) r := by
  obtain ⟨c, w, rfl, hstart, -⟩ := wordParts_of_isPlainKey hplain
  have hlength := wordLength_plainKey hplain (' ' :: x)
  have hreaches : Reaches (c :: w ++ ':' :: ' ' :: x) (c :: w ++ ':' :: ' ' :: x) :=
    .solid (isSolid_of_isWordStart hstart) _
  have hword := word_done hreaches hlength (List.cons_ne_nil _ _)
  have hcolon : startsWith [':'] (':' :: ' ' :: x) = true := startsWith_eq (.solid (by decide) _)
  have hquote : (c == '"' || c == '\'') = false := by
    simp [ne_of_isWordStart hstart (a := '"') (by decide),
      ne_of_isWordStart hstart (a := '\'') (by decide)]
  have hstar : (c == '*') = false := beq_false_of_ne (ne_of_isWordStart hstart (by decide))
  have hdots : startsWith ['.', '.', '.'] (c :: w ++ ':' :: ' ' :: x) = false :=
    startsWith_eq_false hreaches (ne_of_isWordStart hstart (by decide)).symm
  have hsome : wordLength (c :: w ++ ':' :: ' ' :: x) ≠ 0 := by
    rw [hlength]
    exact Nat.succ_ne_zero _
  -- no spread, quote, star, bracket or digit in front, so the key is a word
  unfold objectMember
  rw [bind_done hgap, bind_done (rfl : Reader.left _ = .done _ _)]
  rw [List.cons_append] at hword hdots hsome ⊢
  dsimp only
  rw [hdots, if_neg Bool.false_ne_true, hquote, if_neg Bool.false_ne_true, hstar,
    if_neg Bool.false_ne_true, if_neg hsome, bind_done hword,
    bind_done (rfl : Reader.left _ = .done _ _), hcolon, if_pos rfl,
    bind_done (memberRest_colon hv)]
  rfl

/-- A member whose key is written in quotes. -/
theorem objectMember_quote {key x : List Char} {v : Value}
    (hgap : gapBefore s = .done () (quote key ++ ':' :: ' ' :: x))
    (hv : g.value .enclosed (' ' :: x) = .done v r) :
    objectMember d g s = .done (some (String.ofList key, v.core)) r := by
  have hreaches : Reaches (quote key ++ ':' :: ' ' :: x) (quote key ++ ':' :: ' ' :: x) :=
    .solid (by decide) _
  have hliteral := stringLiteral_quote hreaches
  have hdots : startsWith ['.', '.', '.'] (quote key ++ ':' :: ' ' :: x) = false :=
    startsWith_eq_false hreaches (by decide)
  unfold objectMember
  rw [bind_done hgap, bind_done (rfl : Reader.left _ = .done _ _)]
  obtain ⟨t, ht⟩ : ∃ t, quote key ++ ':' :: ' ' :: x = '"' :: t := ⟨_, rfl⟩
  rw [ht] at hliteral hdots ⊢
  dsimp only
  rw [hdots, if_neg Bool.false_ne_true, if_pos (by decide), bind_done hliteral,
    bind_done (memberRest_colon hv), unescape_flatMap_quoteChar]
  rfl

/-- A member is read by its key, as a word or a string, and its value. -/
theorem objectMember_printKey {key : String} {x : List Char} {v : Value}
    (h : Reaches s (printKey key ++ ':' :: ' ' :: x))
    (hv : g.value .enclosed (' ' :: x) = .done v r) :
    objectMember d g s = .done (some (key, v.core)) r := by
  have hgap : gapBefore s = .done () (printKey key ++ ':' :: ' ' :: x) := by
    rw [gapBefore, h true]
  have hkey : String.ofList key.toList = key := String.ofList_toList
  by_cases hplain : isPlainKey key.toList = true
  · rw [printKey, if_pos hplain] at hgap
    rw [objectMember_word hplain hgap hv, hkey]
  · rw [printKey, if_neg hplain] at hgap
    rw [objectMember_quote hgap hv, hkey]

/-- A member that was read in a script stands for an entry, with its blocks tidied. -/
def StandsFor (source : List Char) (p : String × Node) (a : Option (String × Expr)) : Prop :=
  ∃ e : Expr, a = some (p.1, e) ∧ e.node? source = some p.2.tidied

/-- The members of an object give its entries back, tidied. -/
theorem treeOf_of_forall₂ (source : List Char) {t : Tree} {as : List (Option (String × Expr))}
    (h : List.Forall₂ (StandsFor source) t as) (before : Tree)
    (hkeys : (Tree.keys (before ++ t)).Nodup) :
    treeOf source before (as.filterMap id) = before ++ Tree.tidied t := by
  induction h generalizing before with
  | nil => exact (List.append_nil before).symm
  | @cons p a t as ha _ ih =>
    obtain ⟨e, rfl, hnode⟩ := ha
    obtain ⟨key, n⟩ := p
    have hnew : key ∉ Tree.keys before := by
      intro hmem
      rw [Tree.keys, List.map_append, List.nodup_append] at hkeys
      exact hkeys.2.2 key hmem key List.mem_cons_self rfl
    have hinsert : before.insert key n.tidied = before ++ [(key, n.tidied)] :=
      Tree.insert_of_notMem_keys hnew
    have hkeys' : (Tree.keys (before ++ [(key, n.tidied)] ++ t)).Nodup := by
      rw [List.append_assoc]
      simpa [Tree.keys] using hkeys
    change treeOf source before ((key, e) :: as.filterMap id) = _
    rw [treeOf, hnode]
    dsimp only
    rw [hinsert, ih _ hkeys', Tree.tidied, List.append_assoc]
    rfl

/-! ## 2. Blocks

The text of a block has no white space at its ends, since that is taken off when
it is read. An empty text is printed as a pair of braces on one line. -/

/-- There is no white space at either end. -/
def IsTrimmed (t : List Char) : Prop :=
  (∀ c ∈ t.head?, isSpace c = false) ∧ ∀ c ∈ t.getLast?, isSpace c = false

/-- In braces on lines of its own the tidied text is a block, whatever follows it. -/
structure StandingBlock (d : Dialect) (t : List Char) : Prop where
  trimmed : IsTrimmed t
  reads : ∀ m r, 2 * (inBraces (tidied t)).length ≤ m →
    ∃ a, block (Grammar.upTo d m) (inBraces (tidied t) ++ r) = .done a r

/-- Printed as a block, the text is read as one at every level. -/
theorem StandingBlock.reads_printed {t : List Char} (h : StandingBlock d t) (style : Style)
    (level m : Nat) (r : List Char) (hm : 2 * (printBlock style level t).length ≤ m) :
    ∃ l, block (Grammar.upTo d m) (printBlock style level t ++ r)
      = .done (blockExtent ((printBlock style level t).drop 1 ++ r) ('\x7d' :: r), l) r := by
  cases t with
  | nil => exact ⟨false, block_braces _ r⟩
  | cons c t =>
    have hblank : allBlank (tidied (c :: t)) = false := by
      rw [allBlank_tidied]
      exact allBlank_eq_false List.mem_cons_self (isBlank_eq_false_of_isSpace (h.trimmed.1 c rfl))
    have hlength := (Indented.printBlock style level (tidied_tidied _) hblank []).length_le
    rw [printBlock_tidied, List.append_nil, List.append_nil] at hlength
    obtain ⟨a, hread⟩ := h.reads m r (by omega)
    rw [← printBlock_tidied]
    exact block_printBlock (tidied_tidied _) hblank hread style level

/-- The text that is found again between the braces is the tidied one. -/
theorem StandingBlock.blockText_eq {t : List Char} (h : StandingBlock d t) (style : Style)
    (level : Nat) (before after : List Char) :
    blockText (before ++ (printBlock style level t ++ after))
        (blockExtent ((printBlock style level t).drop 1 ++ after) ('\x7d' :: after)) = tidied t := by
  obtain ⟨hfirst, hlast⟩ := h.trimmed
  cases t with
  | nil =>
    have hextent : blockExtent ('\x7d' :: after) ('\x7d' :: after)
        = ⟨('\x7d' :: after).length, ('\x7d' :: after).length⟩ := by
      have hbrace : isSpace '\x7d' = false := by decide
      simp [blockExtent, hbrace]
    have htext : ∀ source n, Extent.text source ⟨n, n⟩ = [] := by simp [Extent.text]
    change blockText _ (blockExtent ('\x7d' :: after) ('\x7d' :: after)) = []
    rw [hextent, blockText, htext]
    rfl
  | cons c t =>
    obtain ⟨c', hc'⟩ : ∃ c', (c :: t).getLast? = some c' := by
      rw [List.getLast?_cons]
      exact ⟨_, rfl⟩
    have htext : blockText (before ++ printBlock style level (c :: t) ++ after)
        (blockExtent ((printBlock style level (c :: t)).drop 1 ++ after) ('}' :: after))
          = Text.tidied (c :: t) :=
      blockText_printBlock style level rfl (hfirst c rfl) hc' (hlast c' hc')
    rw [List.append_assoc] at htext
    exact htext

/-- Printed in a script, the text is read as a block, and found again there. -/
theorem StandingBlock.exists_block {t source r : List Char} (h : StandingBlock d t) (style : Style)
    (level : Nat) {m : Nat} (hm : 2 * (printBlock style level t).length ≤ m)
    (hsource : printBlock style level t ++ r <:+ source) :
    ∃ e l, block (Grammar.upTo d m) (printBlock style level t ++ r) = .done (e, l) r ∧
      blockText source e = tidied t := by
  obtain ⟨before, rfl⟩ := hsource
  obtain ⟨l, hread⟩ := h.reads_printed style level m r hm
  exact ⟨_, l, hread, h.blockText_eq style level before r⟩

/-- A block is read after the white space in front of it. -/
theorem block_of_reaches {x : List Char} (h : Reaches s ('\x7b' :: x)) :
    block g s = block g ('\x7b' :: x) := by
  unfold block
  rw [bind_done (sign_done h), bind_done (sign_done (.solid (by decide) x))]

theorem printBlock_head (style : Style) (level : Nat) (t : List Char) :
    ∃ x, printBlock style level t = '\x7b' :: x := by
  unfold printBlock
  split <;> exact ⟨_, rfl⟩

/-! ## 3. Functions

A function is printed in one of two forms, by what it does: with the word
`function` and a block, or with an arrow and what it returns. The lemmas take
the parameters and the body as they have been read, and put the function
together. -/

section Signatures

variable {y : List Char} {qs : List Parameter} {c : Char} {t : List Char}

theorem parameters_done (h : Reaches s ('(' :: y))
    (hy : strictList ')' (parameter d g) y = .done qs r) : parameters d g s = .done qs r := by
  rw [parameters, bind_done (sign_done h)]
  exact hy

theorem optionalTypeParameters_done (h : Reaches s (c :: t)) (hc : c ≠ '<') :
    optionalTypeParameters d g s = .done () s := by
  have hstarts : startsWith ['<'] s = false := startsWith_eq_false h hc.symm
  unfold optionalTypeParameters
  rw [bind_done (rfl : Reader.left s = .done s s), hstarts, Bool.and_false]
  rfl

/-- Parameters after which no type comes. -/
theorem signature_done {place : TypeSetting} (h : Reaches s ('(' :: y))
    (hy : strictList ')' (parameter d g) y = .done qs r) (hr : Reaches r (c :: t)) (hc : c ≠ ':') :
    signature d g place s = .done qs r := by
  have hstarts : startsWith [':'] r = false := startsWith_eq_false hr hc.symm
  unfold signature
  rw [bind_done (optionalTypeParameters_done h (by decide)), bind_done (parameters_done h hy)]
  rw [bind_done (rfl : Reader.left r = .done r r), hstarts, Bool.and_false]
  rfl

/-- The word `function`. -/
def functionWord : List Char := ['f', 'u', 'n', 'c', 't', 'i', 'o', 'n']

theorem isWord_functionWord : IsWord functionWord := by decide

/-- The word `function` with a space after it. -/
theorem functionWord_front (x : List Char) : Reaches (functionWord ++ ' ' :: x)
      (functionWord ++ ' ' :: x) ∧
    keyword "async" (functionWord ++ ' ' :: x) = .stuck (functionWord ++ ' ' :: x).length ∧
    keyword "function" (functionWord ++ ' ' :: x) = .done () (' ' :: x) := by
  have hreaches : Reaches (functionWord ++ ' ' :: x) (functionWord ++ ' ' :: x) :=
    isWord_functionWord.reaches _
  have hword : word (functionWord ++ ' ' :: x) = .done "function" (' ' :: x) :=
    word_done hreaches (isWord_functionWord.wordLength_append (by rintro c ⟨⟩; decide)) (by decide)
  refine ⟨hreaches, ?_, ?_⟩
  · simp only [keyword, hword]
    rfl
  · simp only [keyword, hword]
    rfl

/-- The word `function`, the parameters and a block. -/
theorem functionExpression_done {z : List Char} {e : Extent} {l : Bool}
    (hy : strictList ')' (parameter d g) y = .done qs (' ' :: '\x7b' :: z))
    (hz : block g ('\x7b' :: z) = .done (e, l) r) :
    functionExpression d g (functionWord ++ ' ' :: '(' :: y)
      = .done (.whole (functionWord ++ ' ' :: '(' :: y).length (.function ⟨false, qs⟩ (.block e)) r
          false) r := by
  obtain ⟨hreaches, hasync, hfunction⟩ := functionWord_front ('(' :: y)
  have hopen : Reaches (' ' :: '(' :: y) ('(' :: y) := .space (.solid (by decide) y)
  have hbrace : Reaches (' ' :: '\x7b' :: z) ('\x7b' :: z) := .space (.solid (by decide) z)
  have hgap : gapBefore (functionWord ++ ' ' :: '(' :: y)
      = .done () (functionWord ++ ' ' :: '(' :: y) := by
    rw [gapBefore, hreaches true]
  have hstarts : startsWith ['('] (' ' :: '(' :: y) = true := startsWith_eq hopen
  unfold functionExpression
  rw [bind_done hgap, bind_done (rfl : Reader.left _ = .done _ _), bind_done (option_stuck hasync),
    bind_done hfunction, bind_done (option_stuck (sign_stuck hopen (by decide))),
    bind_done (rfl : Reader.left _ = .done _ _), hstarts]
  rw [show (!(true || startsWith ['<'] (' ' :: '(' :: y))) = false from rfl,
    if_neg Bool.false_ne_true]
  beta_reduce
  rw [bind_done (signature_done hopen hy hbrace (by decide)),
    bind_done ((block_of_reaches hbrace).trans hz)]
  rfl

/-- Such a function is a value, which begins with the word `function`. -/
theorem readValue_functionExpression {z : List Char} {e : Extent} {l : Bool}
    (h : Reaches s (functionWord ++ ' ' :: '(' :: y))
    (hy : strictList ')' (parameter d g) y = .done qs (' ' :: '\x7b' :: z))
    (hz : block g ('\x7b' :: z) = .done (e, l) r) (hr : Ends setting r) :
    readValue d g setting s
      = .done (.whole (functionWord ++ ' ' :: '(' :: y).length (.function ⟨false, qs⟩ (.block e)) r
          false) r := by
  have hspace : EndsWord (' ' :: '(' :: y) := by rintro c ⟨⟩; decide
  refine readValue_word isWord_functionWord hspace (by decide) h ?_ hr
  obtain ⟨hreaches, -, -⟩ := functionWord_front ('(' :: y)
  have hgap : gapBefore (functionWord ++ ' ' :: '(' :: y)
      = .done () (functionWord ++ ' ' :: '(' :: y) := by
    rw [gapBefore, hreaches true]
  have hword := word_done hreaches (isWord_functionWord.wordLength_append hspace) (by decide)
  have harrow : startsWith ['=', '>'] (' ' :: '(' :: y) = false :=
    startsWith_eq_false (.space (.solid (by decide) y)) (by decide)
  unfold wordExpression
  rw [bind_done hgap, bind_done (rfl : Reader.left _ = .done _ _), bind_done hword,
    bind_done (rfl : Reader.left _ = .done _ _), harrow, Bool.false_and, if_neg Bool.false_ne_true,
    if_neg (by decide), if_pos (by decide),
    bind_done (rfl : Reader.goTo (functionWord ++ ' ' :: '(' :: y) _ = .done () _)]
  exact functionExpression_done hy hz

/-- What is returned after an arrow is no block. -/
theorem arrowBody_done {v : Value} (h : Reaches s (c :: t)) (hc : c ≠ '\x7b')
    (hv : g.value setting (c :: t) = .done v r) :
    ∃ text, arrowBody g setting s = .done (.returned v.returned? text) r := by
  have hblock : block g s = .stuck s.length := by
    rw [block]
    exact bind_stuck (sign_stuck h hc.symm)
  have hgap : gapBefore s = .done () (c :: t) := by rw [gapBefore, h true]
  have hreturned : returnedBody g setting s
      = .done (.returned v.returned? (consumed (c :: t) r)) r := by
    unfold returnedBody
    rw [bind_done hgap, bind_done (rfl : Reader.left _ = .done _ _), bind_done hv]
    rfl
  exact ⟨consumed (c :: t) r, by simp only [arrowBody, hblock, hreturned]⟩

/-- Parameters, an arrow and an expression are a value, which begins with a parenthesis. -/
theorem readValue_arrowFunction {z : List Char} {v : Value} (h : Reaches s ('(' :: y))
    (hy : strictList ')' (parameter d g) y = .done qs (' ' :: '=' :: '>' :: z))
    (hz : Reaches z (c :: t)) (hc : c ≠ '\x7b') (hv : g.value setting (c :: t) = .done v r)
    (hr : Ends setting r) : ∃ text, readValue d g setting s = .done
      (.whole ('(' :: y).length (.function ⟨false, qs⟩ (.returned v.returned? text)) r false) r := by
  obtain ⟨text, hbody⟩ := arrowBody_done hz hc hv
  refine ⟨text, readValue_sign (by decide) (by decide) (by decide) (by decide) h ?_ hr⟩
  have hopen : Reaches ('(' :: y) ('(' :: y) := .solid (by decide) y
  have harrow : Reaches (' ' :: '=' :: '>' :: z) (['=', '>'] ++ z) := .space (.solid (by decide) _)
  have hkeyword : keyword "async" ('(' :: y) = .stuck ('(' :: y).length :=
    keyword_stuck hopen (wordLength_punctuation (by decide) (by decide) y)
  have hstarts : startsWith ['('] ('(' :: y) = true := startsWith_eq hopen
  have hcolon : startsWith [':'] (' ' :: '=' :: '>' :: z) = false :=
    startsWith_eq_false harrow (by decide)
  have hhead : arrowHead d g setting false ('(' :: y) = .done ⟨false, qs⟩ z := by
    unfold arrowHead
    rw [bind_done (rfl : Reader.left _ = .done _ _), hstarts, Bool.true_or, if_pos rfl,
      bind_done (optionalTypeParameters_done hopen (by decide)),
      bind_done (parameters_done hopen hy), bind_done (rfl : Reader.left _ = .done _ _), hcolon,
      Bool.and_false, if_neg Bool.false_ne_true]
    exact bind_done (symbol_done harrow)
  have hfunction : arrowFunction d g setting ('(' :: y) = .done
      (.whole ('(' :: y).length (.function ⟨false, qs⟩ (.returned v.returned? text)) r false)
        r := by
    have hgap : gapBefore ('(' :: y) = .done () ('(' :: y) := by rw [gapBefore, hopen true]
    unfold arrowFunction
    rw [bind_done hgap, bind_done (rfl : Reader.left _ = .done _ _),
      bind_done (either_of_stuck (bind_stuck hkeyword) hhead), bind_done hbody]
    rfl
  simp only [primary, hopen true]
  exact either_done (q := parenthesized d g) hfunction

end Signatures

end LocaleEditor.Script

namespace LocaleEditor

open LocaleEditor.Text

/-! ## 4. Nodes

The condition is defined along the node, so the main theorem is by induction on
it, with one case for each kind of node. -/

/-- What the function does is read back as it is printed. -/
def Body.Stands (d : Dialect) : Body → Prop
  | .literal _ => True
  | .template v => (Item.template v).Stands d
  | .variable w => (Item.variable w).Stands d
  | .array items => ∀ i ∈ items, i.Stands d
  | .block t => Script.StandingBlock d t.toList

/-- The node is known, and each piece of source that it keeps is read the same wherever it stands. -/
inductive Node.Stands (d : Dialect) : Node → Prop
  | literal (v : String) : Stands d (.literal v)
  | template (v : String) (hv : (Item.template v).Stands d) : Stands d (.template v)
  | variable (w : String) (hw : Script.IsWord w.toList)
      (hname : Script.isVariable d w = true ∨ w = "undefined") : Stands d (.variable w)
  | array (items : List Item) (hitems : ∀ i ∈ items, i.Stands d) : Stands d (.array items)
  | object (t : Tree) (hnodes : ∀ p ∈ t, p.2.Stands d) : Stands d (.object t)
  | function (params : List Param) (body : Body) (hparams : ∀ p ∈ params, Script.StandingParam d p)
      (hbody : body.Stands d) : Stands d (.function params body)

namespace Script

open Reader

variable {d : Dialect} {g : Grammar} {setting : Setting} {s r : List Char} {style : Style}

theorem isUnknown_of_stands {n : Node} (h : n.Stands d) : isUnknown n = false := by
  cases h <;> rfl

/-- A printed member begins with a quote or like a word. -/
theorem printMember_head (style : Style) (level : Nat) (p : String × Node) :
    ∃ c t, printMember style level p = c :: t ∧ isSolid c = true ∧ c ≠ '\x7d' ∧ c ≠ ',' := by
  obtain ⟨key, n⟩ := p
  by_cases hplain : isPlainKey key.toList = true
  · obtain ⟨c, w, hkey, hstart, -⟩ := wordParts_of_isPlainKey hplain
    refine ⟨c, w ++ ':' :: ' ' :: printNode style level n, ?_, isSolid_of_isWordStart hstart,
      ne_of_isWordStart hstart (by decide), ne_of_isWordStart hstart (by decide)⟩
    rw [printMember, printKey, if_pos hplain, hkey]
    rfl
  · have htext : printMember style level (key, n)
        = quote key.toList ++ ':' :: ' ' :: printNode style level n := by
      rw [printMember, printKey, if_neg hplain]
    exact ⟨'"', _, htext, by decide, by decide, by decide⟩

theorem toList_function : "function (".toList = functionWord ++ [' ', '('] := by decide

theorem toList_arrow : ") => ".toList = [')', ' ', '=', '>', ' '] := by decide

/-- A function with a block is written with the word `function`, any other with an arrow. -/
theorem printFunction_block (style : Style) (level : Nat) (params : List Param) (t : String)
    (r : List Char) : printFunction style level params (.block t) ++ r = functionWord ++ ' ' :: '(' ::
      (printParams style params ++ ')' :: ' ' :: (printBlock style level t.toList ++ r)) := by
  unfold printFunction
  rw [toList_function]
  simp only [List.append_assoc, List.cons_append, List.nil_append]

theorem printFunction_returned {style : Style} {level : Nat} {params : List Param} {body : Body}
    {x : List Char} (hx : printReturned? style level body = some x) (r : List Char) :
    printFunction style level params body ++ r = '(' ::
      (printParams style params ++ ')' :: ' ' :: '=' :: '>' :: ' ' :: (x ++ r)) := by
  have hprint : printFunction style level params body
      = '(' :: printParams style params ++ ") => ".toList ++ x := by
    cases body with
    | block t => cases hx
    | _ =>
      obtain rfl : (printReturned? style level _).getD [] = x := by rw [hx]; rfl
      rfl
  rw [hprint, toList_arrow]
  simp only [List.append_assoc, List.cons_append, List.nil_append]

/-- A printed node begins with a sign or a word. -/
theorem printNode_head {n : Node} (h : n.Stands d) (level : Nat) :
    ∃ c t, printNode style level n = c :: t ∧ isSolid c = true := by
  cases h with
  | literal v => exact ⟨'"', _, rfl, by decide⟩
  | template v => exact ⟨'`', _, rfl, by decide⟩
  | «variable» w hw =>
    obtain ⟨c, x, hw, hc, -⟩ := hw.front
    exact ⟨c, x, hw, hc⟩
  | array items =>
    obtain ⟨blanks, closing, -, -, hprint⟩ := exists_printItems style level items
    have htext := hprint []
    rw [List.append_nil] at htext
    exact ⟨'[', _, htext, by decide⟩
  | object t hnodes =>
    obtain ⟨blanks, closing, -, -, hprint⟩ :=
      exists_printObject style level t fun p hp => isUnknown_of_stands (hnodes p hp)
    have htext := hprint []
    rw [List.append_nil] at htext
    exact ⟨'\x7b', _, htext, by decide⟩
  | function params body =>
    cases hx : printReturned? style level body with
    | none =>
      cases body with
      | block t =>
        have htext := printFunction_block style level params t []
        rw [List.append_nil] at htext
        exact ⟨'f', _, htext, by decide⟩
      | _ => cases hx
    | some x =>
      have htext : printFunction style level params body ++ [] = '(' :: _ :=
        printFunction_returned hx []
      rw [List.append_nil] at htext
      exact ⟨'(', _, htext, by decide⟩

/-- What is printed after an arrow is no block, so tidying does not change it. -/
theorem tidied_of_printReturned? {body : Body} {level : Nat} {x : List Char}
    (hx : printReturned? style level body = some x) : body.tidied = body := by
  cases body with
  | block t => cases hx
  | _ => rfl

/-- What a function returns is read as an expression that is kept as its body. -/
theorem readValue_printReturned {body : Body} (hbody : body.Stands d) {level m : Nat}
    {x : List Char} (hx : printReturned? style level body = some x) (hm : 2 * x.length ≤ m)
    (hr : Ends setting r) : ∃ c t v, x ++ r = c :: t ∧ isSolid c = true ∧ c ≠ '\x7b' ∧
      readValue d (Grammar.upTo d m) setting (x ++ r) = .done v r ∧
      ∀ source text, (FunctionBody.returned v.returned? text).toBody source = body := by
  -- a string, a template or a name, which are printed as an item of an array would be
  have item {i : Item} (hi : i.Stands d) (hprint : printItem i = x)
      (hbody : ∀ a : Atom, a.item = i → ∀ source text,
        (FunctionBody.returned (some (.inl a)) text).toBody source = body) :
      ∃ c t v, x ++ r = c :: t ∧ isSolid c = true ∧ c ≠ '\x7b' ∧
        readValue d (Grammar.upTo d m) setting (x ++ r) = .done v r ∧
        ∀ source text, (FunctionBody.returned v.returned? text).toBody source = body := by
    obtain ⟨c, t, hfront, hc, -, -, -, hbrace⟩ := printItem_front hi
    have hreaches : Reaches (printItem i ++ r) (printItem i ++ r) := by
      rw [hfront]
      exact .solid hc _
    have hlevels : 2 * (printItem i).length ≤ m := by rw [hprint]; exact hm
    obtain ⟨a, target, ha, hread⟩ := readValue_printItem hi hlevels hreaches hr
    rw [hprint] at hread hfront
    exact ⟨c, t ++ r, _, by rw [hfront]; rfl, hc, hbrace, hread, hbody a ha⟩
  cases body with
  | literal v =>
    exact item (i := .literal v) trivial (Option.some.inj hx) fun a ha source text => by
      rw [FunctionBody.toBody, ha]
  | template v =>
    exact item (i := .template v) hbody (Option.some.inj hx) fun a ha source text => by
      rw [FunctionBody.toBody, ha]
  | «variable» w =>
    exact item (i := .variable w) hbody (Option.some.inj hx) fun a ha source text => by
      rw [FunctionBody.toBody, ha]
  | array items =>
    obtain rfl := Option.some.inj hx
    obtain ⟨blanks, closing, -, -, hprint⟩ := exists_printItems style level items
    have hlength := congrArg List.length (hprint [])
    simp only [List.append_nil, List.length_cons] at hlength
    obtain ⟨m, rfl⟩ : ∃ k, m = k + 1 := ⟨m - 1, by omega⟩
    obtain ⟨es, hes, hread⟩ := arrayLiteral_printItems (d := d) hbody style level hm r
    rw [hprint] at hread ⊢
    refine ⟨'[', _, _, rfl, by decide, by decide,
      readValue_array (.solid (by decide) _) hread hr, fun source text => ?_⟩
    simp [Value.returned?, Value.whole, FunctionBody.toBody, hes]
  | block t => cases hx

/-- A printed member is read where its value is. -/
theorem exists_objectMember {source : List Char} {level : Nat} {p : String × Node}
    (hp : p.2.Stands d)
    (hvalue : ∀ s, Reaches s (printNode style level p.2 ++ ',' :: r) →
      ∃ v : Value, v.core.node? source = some p.2.tidied ∧
        g.value .enclosed s = .done v (',' :: r))
    (hs : Reaches s (printMember style level p ++ ',' :: r)) :
    ∃ a, StandsFor source p a ∧ objectMember d g s = .done a (',' :: r) := by
  obtain ⟨c, x, hhead, hc⟩ := printNode_head hp level
  have hreaches : Reaches (' ' :: (printNode style level p.2 ++ ',' :: r))
      (printNode style level p.2 ++ ',' :: r) := by
    rw [hhead]
    exact .space (.solid hc _)
  obtain ⟨v, hnode, hread⟩ := hvalue _ hreaches
  have htext : printMember style level p ++ ',' :: r
      = printKey p.1 ++ ':' :: ' ' :: (printNode style level p.2 ++ ',' :: r) := by
    simp [printMember]
  rw [htext] at hs
  exact ⟨_, ⟨v.core, rfl, hnode⟩, objectMember_printKey hs hread⟩

/-- A printed object is read where its members are. -/
theorem exists_objectLiteral {source : List Char} {level : Nat} {t : Tree}
    (ht : ∀ p ∈ t, isUnknown p.2 = false) {rest : List Char}
    (hsource : printNode style level (.object t) ++ rest <:+ source)
    (hmember : ∀ p ∈ t, ∀ s r, Reaches s (printMember style (level + 1) p ++ ',' :: r) →
      printMember style (level + 1) p ++ ',' :: r <:+ source →
      ∃ a, StandsFor source p a ∧ objectMember d g s = .done a (',' :: r)) :
    ∃ as, List.Forall₂ (StandsFor source) t as ∧
      objectLiteral d g (printNode style level (.object t) ++ rest)
        = .done (.object (as.filterMap id)) rest := by
  obtain ⟨blanks, closing, hblanks, hclosing, hprint⟩ := exists_printObject style level t ht
  have hfirst : ∀ p ∈ t, ∃ c x, printMember style (level + 1) p = c :: x ∧ isSolid c = true ∧
      c ≠ '\x7d' ∧ c ≠ ',' := fun p _ => printMember_head style (level + 1) p
  let inside := blanks ++ (t.flatMap (fun p =>
    style.indent (level + 1) ++ (printMember style (level + 1) p ++ [',', '\n']))
      ++ (closing ++ '\x7d' :: rest))
  have hlength : t.length < inside.length + 1 := by
    have hle := length_le_length_flatMap (f := fun p : String × Node =>
      style.indent (level + 1) ++ (printMember style (level + 1) p ++ [',', '\n'])) t (by simp)
    simp only [inside, List.length_append]
    omega
  rw [hprint] at hsource
  have hinside : inside <:+ source := (List.suffix_cons _ _).trans hsource
  obtain ⟨as, has, hlist⟩ := looseListWithin_listed (objectMember d g) '\x7d' (by decide)
    (fun a => isSpace_of_mem_indent) hclosing source rest t hfirst hmember (inside.length + 1) blanks
    hlength hblanks ((List.suffix_append _ _).trans hinside)
  have hopen : sign '\x7b' ('\x7b' :: inside) = .done () inside :=
    sign_done (.solid (by decide) _)
  refine ⟨as, has, ?_⟩
  rw [hprint, objectLiteral, bind_done hopen,
    bind_done (show looseList '\x7d' _ inside = _ from hlist)]
  rfl

/-- Printed in a script where a value may end after it, the node is read as an expression that
stands for the tidied node, where there are enough levels. -/
def ReadsBack (d : Dialect) (style : Style) (n : Node) : Prop :=
  ∀ (level m : Nat) (setting : Setting) (s rest source : List Char),
    2 * (printNode style level n).length ≤ m → Reaches s (printNode style level n ++ rest) →
    printNode style level n ++ rest <:+ source → Ends setting rest →
    ∃ (e : Expr) (target : Bool), e.node? source = some n.tidied ∧
      readValue d (Grammar.upTo d m) setting s
        = .done (.whole (printNode style level n ++ rest).length e rest target) rest

/-- A printed object is read back if the nodes in it are. -/
theorem objectLiteral_printNode {t : Tree} (hkeys : t.keys.Nodup)
    (hnodes : ∀ p ∈ t, p.2.Stands d) (hread : ∀ p ∈ t, ReadsBack d style p.2)
    {level m : Nat} {rest source : List Char}
    (hm : 2 * (printNode style level (.object t)).length ≤ m)
    (hsource : printNode style level (.object t) ++ rest <:+ source) :
    ∃ members, (Expr.object members).node? source = some (.object (Tree.tidied t)) ∧
      objectLiteral d (Grammar.upTo d m) (printNode style level (.object t) ++ rest)
        = .done (.object members) rest := by
  have hknown : ∀ p ∈ t, isUnknown p.2 = false := fun p hp => isUnknown_of_stands (hnodes p hp)
  obtain ⟨blanks, closing, -, -, hprint⟩ := exists_printObject style level t hknown
  have hlength := congrArg List.length (hprint [])
  simp only [List.append_nil, List.length_cons, List.length_append] at hlength
  -- one level of the grammar is for the object, the others for its members
  obtain ⟨m, rfl⟩ : ∃ k, m = k + 1 := ⟨m - 1, by omega⟩
  have hmember : ∀ p ∈ t, ∀ s r, Reaches s (printMember style (level + 1) p ++ ',' :: r) →
      printMember style (level + 1) p ++ ',' :: r <:+ source →
      ∃ a, StandsFor source p a ∧ objectMember d (Grammar.upTo d (m + 1)) s
        = .done a (',' :: r) := by
    intro p hp s r hs hsuffix
    have hlevels : 2 * (printNode style (level + 1) p.2).length ≤ m := by
      have hle := length_le_length_flatMap_of_mem (f := fun p : String × Node =>
        style.indent (level + 1) ++ (printMember style (level + 1) p ++ [',', '\n'])) hp
      simp only [printMember, List.length_append, List.length_cons] at hle hlength
      omega
    refine exists_objectMember (hnodes p hp) (fun s hs => ?_) hs
    have hvalue : printNode style (level + 1) p.2 ++ ',' :: r <:+ source := by
      refine (List.suffix_append (printKey p.1 ++ [':', ' ']) _).trans ?_
      simpa [printMember] using hsuffix
    obtain ⟨e, target, hnode, hdone⟩ :=
      hread p hp (level + 1) m .enclosed s (',' :: r) source hlevels hs hvalue (.comma _ r)
    exact ⟨_, hnode, hdone⟩
  obtain ⟨as, has, hobject⟩ := exists_objectLiteral hknown hsource hmember
  refine ⟨as.filterMap id, ?_, hobject⟩
  rw [Expr.node?, treeOf_of_forall₂ source has [] hkeys, List.nil_append]

theorem readsBack_array {items : List Item} (hitems : ∀ i ∈ items, i.Stands d) :
    ReadsBack d style (.array items) := by
  intro level m setting s rest source hm hs _ hrest
  obtain ⟨blanks, closing, -, -, hprint⟩ := exists_printItems style level items
  have htext : printNode style level (.array items) ++ rest = '[' :: _ := hprint rest
  have hlength := congrArg List.length (hprint [])
  simp only [List.append_nil, List.length_cons] at hlength
  have hm : 2 * (printItems style level items).length ≤ m := hm
  obtain ⟨m, rfl⟩ : ∃ k, m = k + 1 := ⟨m - 1, by omega⟩
  obtain ⟨es, hes, hread⟩ := arrayLiteral_printItems (d := d) hitems style level hm rest
  rw [htext] at hs ⊢
  rw [hprint rest] at hread
  exact ⟨.array (some es), _, by rw [Expr.node?, hes]; rfl, readValue_array hs hread hrest⟩

/-- A function with a block. -/
theorem readsBack_block (hstyle : style.annotations = d.types) {params : List Param} {t : String}
    (hparams : ∀ p ∈ params, StandingParam d p) (ht : StandingBlock d t.toList) :
    ReadsBack d style (.function params (.block t)) := by
  intro level m setting s rest source hm hs hsource hrest
  have htext : printNode style level (.function params (.block t)) ++ rest
      = functionWord ++ ' ' :: '(' :: (printParams style params ++ ')' :: ' ' ::
        (printBlock style level t.toList ++ rest)) := printFunction_block style level params t rest
  have hlength := congrArg List.length htext
  rw [htext] at hs hsource ⊢
  simp only [List.length_append, List.length_cons] at hlength
  have hblock : printBlock style level t.toList ++ rest <:+ source := by
    obtain ⟨before, rfl⟩ := hsource
    exact ⟨before ++ (functionWord ++ ' ' :: '(' :: (printParams style params ++ [')', ' '])),
      by simp⟩
  obtain ⟨e, l, hread, hkept⟩ := ht.exists_block style level (m := m) (by omega) hblock
  obtain ⟨qs, hqs, hlist⟩ := strictList_printParams (m := m) hstyle hparams (by omega)
    (' ' :: (printBlock style level t.toList ++ rest))
  obtain ⟨z, hz⟩ := printBlock_head style level t.toList
  rw [hz, List.cons_append] at hlist hread hs ⊢
  refine ⟨.function ⟨false, qs⟩ (.block e), false, ?_,
    readValue_functionExpression hs hlist hread hrest⟩
  simp only [Expr.node?, Signature.params, hqs, FunctionBody.toBody, hkept, Node.tidied,
    Body.tidied]

/-- A function with an arrow and what it returns. -/
theorem readsBack_returned (hstyle : style.annotations = d.types) {params : List Param}
    {body : Body} (hparams : ∀ p ∈ params, StandingParam d p) (hbody : body.Stands d)
    (hreturned : ∀ t, body ≠ .block t) : ReadsBack d style (.function params body) := by
  intro level m setting s rest source hm hs hsource hrest
  obtain ⟨x, hx⟩ : ∃ x, printReturned? style level body = some x := by
    cases body with
    | block t => exact absurd rfl (hreturned t)
    | _ => exact ⟨_, rfl⟩
  have htext : ∀ r, printNode style level (.function params body) ++ r = '(' ::
      (printParams style params ++ ')' :: ' ' :: '=' :: '>' :: ' ' :: (x ++ r)) :=
    printFunction_returned hx
  have hlength := congrArg List.length (htext [])
  rw [htext] at hs ⊢
  simp only [List.append_nil, List.length_append, List.length_cons] at hlength
  -- one level of the grammar is for the function, the others for what it returns
  obtain ⟨m, rfl⟩ : ∃ k, m = k + 1 := ⟨m - 1, by omega⟩
  obtain ⟨c, t, v, hfront, hc, hbrace, hv, hbody⟩ :=
    readValue_printReturned (m := m) hbody hx (by omega) hrest
  have hz : Reaches (' ' :: (x ++ rest)) (c :: t) := by
    rw [hfront]
    exact .space (.solid hc t)
  obtain ⟨qs, hqs, hlist⟩ := strictList_printParams (m := m + 1) hstyle hparams (by omega)
    (' ' :: '=' :: '>' :: ' ' :: (x ++ rest))
  rw [hfront] at hv
  obtain ⟨text, hdone⟩ := readValue_arrowFunction hs hlist hz hbrace hv hrest
  refine ⟨.function ⟨false, qs⟩ (.returned v.returned? text), false, ?_, hdone⟩
  simp only [Expr.node?, Signature.params, hqs, hbody, Node.tidied, tidied_of_printReturned? hx]

/-- A printed node is read as an expression that stands for the node, with its blocks tidied. -/
theorem readsBack_of_stands (hstyle : style.annotations = d.types) {n : Node} (h : n.Stands d)
    (hunique : n.Unique) : ReadsBack d style n := by
  induction h with
  | literal v =>
    intro level m setting s rest source _ hs _ hrest
    refine ⟨.atom (quotedAtom v), _, ?_, readValue_quote hs hrest⟩
    rw [Expr.node?, item_quotedAtom]
    rfl
  | template v hv =>
    intro level m setting s rest source hm hs _ hrest
    obtain ⟨a, target, ha, hread⟩ := readValue_printItem (i := .template v) hv hm hs hrest
    exact ⟨.atom a, target, by rw [Expr.node?, ha]; rfl, hread⟩
  | «variable» w hw hname =>
    intro level m setting s rest source hm hs _ hrest
    rcases hname with hname | rfl
    · exact ⟨.atom (.name w), _, rfl, readValue_name hw hname hs hrest⟩
    · exact ⟨.undefined, _, rfl, readValue_undefined hs hrest⟩
  | array items hitems => exact readsBack_array hitems
  | object t hnodes ih =>
    intro level m setting s rest source hm hs hsource hrest
    obtain ⟨hkeys, hbelow⟩ := Tree.unique_object.mp hunique
    obtain ⟨members, hnode, hobject⟩ := objectLiteral_printNode hkeys hnodes
      (fun p hp => ih p hp (Tree.uniqueBelow_iff.mp hbelow p hp)) hm hsource
    obtain ⟨blanks, closing, -, -, hprint⟩ :=
      exists_printObject style level t fun p hp => isUnknown_of_stands (hnodes p hp)
    rw [hprint] at hs hobject ⊢
    exact ⟨.object members, false, hnode, readValue_object hs hobject hrest⟩
  | function params body hparams hbody =>
    cases body with
    | block t => exact readsBack_block hstyle hparams hbody
    | _ => exact readsBack_returned hstyle hparams hbody fun t hblock => by cases hblock

end Script

end LocaleEditor
