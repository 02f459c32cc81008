/-
LocaleEditor.Proofs.Script.Functions — where the functions of a script are written.

`Tree.replace` puts another node in the place that a path leads to. Whatever
function is put there, what is printed before and after it stays the same
(`exists_printNode_replace`). So each function of a script has a place in what is
written for an export (`exists_form?`), where it stands as an expression or as a
declaration (`exists_writesAt`).
-/
import LocaleEditor.Proofs.Script.Blocks
import LocaleEditor.Proofs.Script.NormalForm
import LocaleEditor.Proofs.Script.Outlines

namespace LocaleEditor

open LocaleEditor.Text

/-! ## 1. Other nodes in place of nodes -/

/-- The node with `m` in the place that a path leads to. -/
def Node.replace : Node → List String → Node → Node
  | _, [], m => m
  | .object es, key :: path, m =>
    match Tree.get? es key with
    | some n => .object (Tree.insert es key (n.replace path m))
    | none => .object es
  | n, _ :: _, _ => n

/-- The tree with `m` in the place that a path leads to. -/
def Tree.replace (t : Tree) (path : List String) (m : Node) : Tree :=
  match path with
  | [] => t
  | key :: path =>
    match t.get? key with
    | some n => t.insert key (n.replace path m)
    | none => t

theorem Node.replace_object (es : Tree) (key : String) (path : List String) (m : Node) :
    (Node.object es).replace (key :: path) m = .object (es.replace (key :: path) m) := by
  rw [Node.replace, Tree.replace]
  split <;> rfl

/-- Putting a node in its own place changes nothing. -/
theorem Node.replace_self {m n : Node} {path : List String} (h : n.at? path = some m) :
    n.replace path m = n := by
  induction path generalizing n with
  | nil =>
    rw [Node.replace]
    exact (Option.some.inj h).symm
  | cons key path ih =>
    cases n with
    | object es =>
      obtain ⟨child, hget, hchild⟩ := Tree.at?_cons_eq_some_iff.mp h
      rw [Node.replace, hget]
      dsimp only
      rw [ih hchild, Tree.insert_of_get? hget]
    | _ => cases h

theorem Tree.get?_replace {t : Tree} {key : String} {n : Node} (hget : t.get? key = some n)
    (path : List String) (m : Node) :
    (t.replace (key :: path) m).get? key = some (n.replace path m) := by
  rw [Tree.replace, hget]
  exact Tree.get?_insert_self _ _ _

theorem Tree.replace_self {m : Node} {t : Tree} {path : List String} (h : t.at? path = some m) :
    t.replace path m = t := by
  cases path with
  | nil => rfl
  | cons key path =>
    exact Node.object.inj ((Node.replace_object t key path m).symm.trans (Node.replace_self h))

namespace Script

variable {t : Tree} {n : Node}

/-! ## 2. Printed places -/

/-- What is printed around an entry does not depend on its node. -/
theorem exists_printEntries_insert (style : Style) (level : Nat) {key : String}
    (hget : t.get? key = some n) :
    ∃ before after, [':', ' '] <:+ before ∧ ∀ m, isUnknown m = false →
      printEntries style level (t.insert key m)
        = before ++ printNode style level m ++ after := by
  induction t with
  | nil => cases hget
  | cons p r ih =>
    obtain ⟨k, node⟩ := p
    rw [Tree.get?_cons] at hget
    split at hget
    · next hk =>
      subst hk
      refine ⟨style.indent level ++ printKey k ++ [':', ' '],
        [',', '\n'] ++ printEntries style level r, List.suffix_append _ _, fun m hm => ?_⟩
      rw [Tree.insert_cons, if_pos rfl, printEntries_cons, hm]
      simp
    · next hk =>
      obtain ⟨before, after, hcolon, h⟩ := ih hget
      refine ⟨printEntries style level [(k, node)] ++ before, after,
        hcolon.trans (List.suffix_append _ _), fun m hm => ?_⟩
      rw [Tree.insert_cons, if_neg hk, printEntries_cons, h m hm, printEntries_cons]
      simp [printEntries]

/-- What a node of a known kind is put into is of a known kind. -/
theorem isUnknown_replace {m m' : Node} {path : List String} (hat : n.at? path = some m)
    (hm' : isUnknown m' = false) :
    isUnknown (n.replace path m') = false := by
  cases path with
  | nil => exact hm'
  | cons key path =>
    cases n with
    | object es => rw [Node.replace_object]; rfl
    | _ => cases hat

/-- What is printed around a node inside another one does not depend on the node. In front of it
there is the colon after its key, or nothing. -/
theorem exists_printNode_replace (style : Style) (level : Nat) {m : Node} {path : List String}
    (hat : n.at? path = some m) :
    ∃ before after, (before = [] ∨ [':', ' '] <:+ before) ∧ ∀ m', isUnknown m' = false →
      printNode style level (n.replace path m')
        = before ++ printNode style (level + path.length) m' ++ after := by
  induction path generalizing n level with
  | nil => exact ⟨[], [], .inl rfl, fun m' _ => by simp [Node.replace]⟩
  | cons key path ih =>
    cases n with
    | object es =>
      obtain ⟨child, hget, hchild⟩ := Tree.at?_cons_eq_some_iff.mp hat
      obtain ⟨before, after, hcolon, hentries⟩ := exists_printEntries_insert style (level + 1) hget
      obtain ⟨before', after', hcolon', hinside⟩ := ih (level + 1) hchild
      refine ⟨['\x7b', '\n'] ++ before ++ before',
        after' ++ after ++ style.indent level ++ ['\x7d'], .inr ?_, fun m' hm' => ?_⟩
      · rcases hcolon' with rfl | hcolon'
        · rw [List.append_nil]
          exact hcolon.trans (List.suffix_append _ _)
        · exact hcolon'.trans (List.suffix_append _ _)
      have hprinted := hentries _ (isUnknown_replace hchild hm')
      have hlevel : level + 1 + path.length = level + (key :: path).length := by
        rw [List.length_cons]
        omega
      rw [hinside m' hm', hlevel] at hprinted
      rw [Node.replace, hget]
      dsimp only
      rw [printNode_object, hprinted]
      split
      · next hnil =>
        obtain ⟨front, rfl⟩ := hcolon
        simp at hnil
      · simp
    | _ => cases hat

/-! ## 3. Functions in the exports of a script -/

/-- How a function is written. -/
inductive Form where
  /-- As an expression whose last line is indented by a level. -/
  | expression (level : Nat)
  /-- As the declaration of a name. -/
  | declaration (name : String)
  deriving DecidableEq, Repr

/-- A function in its form. -/
def Form.print (style : Style) (form : Form) (params : List Param) (body : Body) : List Char :=
  match form with
  | .expression level => printFunction style level params body
  | .declaration name => printDeclaration style name params body

/-- What a function begins with in front of its parameters. -/
def Form.opening (form : Form) (body : Body) : List Char :=
  match form, body with
  | .declaration name, _ => "function ".toList ++ name.toList
  | .expression _, .block _ => "function ".toList
  | .expression _, _ => []

/-- What a function ends with after its parameters. -/
def Form.rest (style : Style) (form : Form) (body : Body) : List Char :=
  match form, body with
  | .declaration _, .block text => ' ' :: printBlock style 0 text.toList
  | .declaration _, body => ' ' :: printBlock style 0
      ("return ".toList ++ (printReturned? style 1 body).getD [] ++ [';'])
  | .expression level, .block text => ' ' :: printBlock style level text.toList
  | .expression level, body => " => ".toList ++ (printReturned? style level body).getD []

/-- A function is its parameters between what depends on the form and the body alone. -/
theorem Form.print_eq (style : Style) (form : Form) (params : List Param) (body : Body) :
    form.print style params body
      = form.opening body ++ '(' :: printParams style params ++ ')' :: form.rest style body := by
  have hword : "function (".toList = "function ".toList ++ ['('] := by decide
  have harrow : ") => ".toList = ')' :: " => ".toList := by decide
  cases form with
  | declaration name =>
    cases body <;> unfold print opening rest printDeclaration <;> dsimp only <;>
      simp only [List.append_assoc, List.cons_append, List.nil_append]
  | expression level =>
    cases body <;> unfold print opening rest printFunction <;> dsimp only <;>
      simp only [hword, harrow, List.append_assoc, List.cons_append, List.nil_append]

/-- How far the line with the closing brace of a block is indented. -/
def Form.level : Form → Nat
  | .expression level => level
  | .declaration _ => 0

theorem Form.rest_block (style : Style) (form : Form) (text : String) :
    form.rest style (.block text) = ' ' :: printBlock style form.level text.toList := by
  cases form <;> rfl

/-- How the function that a path leads to is written in the `i`-th export, if it is. -/
def Layout.form? (i : Nat) : Layout → List String → Option Form
  | _, [] => none
  | .default _, key :: path => if i = 0 then some (.expression (key :: path).length) else none
  | .named es, key :: path =>
    match es[i]? with
    | none => none
    | some e =>
      if e.name = key then
        match e.kind, path with
        | .initializer, _ => some (.expression path.length)
        | .function, [] => some (.declaration key)
        | .function, _ => none
      else none

/-- Whatever function stands where the path leads, it is written in its form in the `i`-th export,
where `before` and `after` are around it. -/
def Layout.WritesAt (layout : Layout) (style : Style) (tree : Tree) (old : List (List Char))
    (path : List String) (i : Nat) (form : Form) (before after : List Char) : Prop :=
  ∀ params body, (layout.texts style (tree.replace path (.function params body)) old)[i]?
    = some (before ++ form.print style params body ++ after)

/-- What is written for a named export. -/
theorem getElem?_texts_named (style : Style) (tree : Tree) {es : List NamedExport} {c : Cut}
    (hspans : c.spans = (Layout.named es).spans) {i : Nat} {e : NamedExport} (he : es[i]? = some e)
    {text : List Char} (htext : e.newText? style tree = some text) :
    ((Layout.named es).texts style tree c.inside)[i]? = some text := by
  have hlength : c.inside.length = es.length := by
    have hpieces : c.spans.length = c.pieces.length := length_spansFrom 0 c.pieces
    rw [Cut.inside, List.length_map, ← hpieces, hspans, Layout.spans, List.length_map]
  obtain ⟨hi, -⟩ := List.getElem?_eq_some_iff.mp he
  rw [Layout.texts, List.getElem?_zipWith, he, List.getElem?_eq_getElem (hlength ▸ hi)]
  simp only [htext, Option.getD_some]

/-- The place of a function in the object that is exported by default. -/
theorem exists_writesAt_default (style : Style) {tree : Tree} {key : String} {path : List String}
    {m : Node} (hat : tree.at? (key :: path) = some m) (span : Span) (old : List (List Char)) :
    ∃ before after, (before = [] ∨ [':', ' '] <:+ before) ∧
      (Layout.default span).WritesAt style tree old (key :: path) 0
        (.expression (key :: path).length) before after := by
  obtain ⟨before, after, hcolon, h⟩ := exists_printNode_replace (n := .object tree) style 0 hat
  refine ⟨before, after, hcolon, fun params body => ?_⟩
  have hprinted := h (.function params body) rfl
  rw [Node.replace_object, Nat.zero_add] at hprinted
  rw [Layout.texts, hprinted]
  rfl

/-- The place of a function in the value of a name. -/
theorem exists_writesAt_initializer (style : Style) {tree : Tree} {es : List NamedExport} {c : Cut}
    (hspans : c.spans = (Layout.named es).spans) {i : Nat} {e : NamedExport} (he : es[i]? = some e)
    (hkind : e.kind = .initializer) (hget : tree.get? e.name = some n) {m : Node}
    {path : List String} (hat : n.at? path = some m) :
    ∃ before after, (before = [] ∨ [':', ' '] <:+ before) ∧
      (Layout.named es).WritesAt style tree c.inside (e.name :: path) i
        (.expression path.length) before after := by
  obtain ⟨before, after, hcolon, h⟩ := exists_printNode_replace style 0 hat
  refine ⟨before, after, hcolon, fun params body => getElem?_texts_named style _ hspans he ?_⟩
  rw [NamedExport.newText?, Tree.get?_replace hget, Option.bind_some,
    replacementText?_initializer style hkind (isUnknown_replace hat rfl), h _ rfl, Nat.zero_add]
  rfl

/-- A function that is declared is all of its export. -/
theorem writesAt_function (style : Style) {tree : Tree} {es : List NamedExport} {c : Cut}
    (hspans : c.spans = (Layout.named es).spans) {i : Nat} {e : NamedExport} (he : es[i]? = some e)
    (hkind : e.kind = .function) (hget : tree.get? e.name = some n) :
    (Layout.named es).WritesAt style tree c.inside [e.name] i (.declaration e.name) [] [] := by
  refine fun params body => getElem?_texts_named style _ hspans he ?_
  rw [NamedExport.newText?, Tree.get?_replace hget, Option.bind_some, Node.replace,
    replacementText?_function style hkind, List.nil_append, List.append_nil]
  rfl

/-- A function of the tree has its place in every export that it is written in. In front of it there
is the colon after its key, or nothing of the export. -/
theorem exists_writesAt (style : Style) {layout : Layout} {tree : Tree} {path : List String}
    {params : List Param} {body : Body} (hat : tree.at? path = some (.function params body))
    {c : Cut} (hspans : c.spans = layout.spans) {i : Nat} {form : Form}
    (hform : layout.form? i path = some form) :
    ∃ before after, (before = [] ∨ [':', ' '] <:+ before) ∧
      layout.WritesAt style tree c.inside path i form before after := by
  cases path with
  | nil => cases hat
  | cons key path =>
    cases layout with
    | default span =>
      rw [Layout.form?] at hform
      split at hform
      · next hi =>
        obtain rfl := Option.some.inj hform
        exact hi ▸ exists_writesAt_default style hat span c.inside
      · cases hform
    | named es =>
      obtain ⟨n, hget, hn⟩ := Tree.at?_cons_eq_some_iff.mp hat
      rw [Layout.form?] at hform
      split at hform
      · cases hform
      · next e he =>
        split at hform
        · next hname =>
          subst hname
          split at hform
          · next hkind =>
            obtain rfl := Option.some.inj hform
            exact exists_writesAt_initializer style hspans he hkind hget hn
          · next hkind =>
            obtain rfl := Option.some.inj hform
            exact ⟨[], [], .inl rfl, writesAt_function style hspans he hkind hget⟩
          · cases hform
        · cases hform

/-- Every function of a script is written in one of its exports. -/
theorem exists_form? {d : Dialect} {source : List Char} {exports : Exports}
    (hread : readExports d source = .ok exports) {path : List String} {params : List Param}
    {body : Body} (hat : exports.tree.at? path = some (.function params body)) :
    ∃ i form, exports.layout.form? i path = some form := by
  obtain ⟨statements, hprogram, h⟩ := exists_statements hread
  cases path with
  | nil => cases hat
  | cons key path =>
    obtain ⟨head, fbody, hexpr, -, -⟩ := exists_function_of_at? h hat
    unfold exportsOf at h
    split at h
    · obtain rfl := Except.ok.inj h
      exact ⟨0, _, by rw [Layout.form?, if_pos rfl]⟩
    · next hnone =>
      dsimp only at h
      split at h
      · cases h
      · obtain rfl := Except.ok.inj h
        rw [outline_of_none hnone, Expr.at?] at hexpr
        split at hexpr
        · next e hmember =>
          obtain ⟨⟨kind, b⟩, hb, heq⟩ := List.mem_map.mp (mem_of_member? hmember)
          obtain ⟨rfl, rfl⟩ := Prod.mk.inj heq
          obtain ⟨i, hi⟩ := List.getElem?_of_mem hb
          refine ⟨i, ?_⟩
          rw [Layout.form?, List.getElem?_map, hi]
          cases kind with
          | initializer => exact ⟨_, if_pos rfl⟩
          | function =>
            -- a path does not go on below a function
            obtain ⟨head', body', hcore⟩ := hasBlock_of_program hprogram hb
            cases path with
            | nil => exact ⟨_, if_pos rfl⟩
            | cons next path =>
              rw [hcore] at hexpr
              cases hexpr
        · cases hexpr

end Script

/-! ## 4. The script written again -/

/-- The tree of a script is written into the script at the places of its exports. -/
theorem exists_assembled {file : String} {language : Language} {dialect : Dialect}
    (hfile : Language.ofFileName? file = some language)
    (hdialect : language.dialect? = some dialect)
    {script : String} {exports : Script.Exports}
    (hread : Script.readExports dialect script.toList = .ok exports) (indentWidth : Nat) :
    ∃ c : Cut, c.text = script.toList ∧ c.spans = exports.layout.spans ∧
      ∀ reference templates,
        assemble file exports.tree reference (some script) ⟨indentWidth, templates⟩
          = .ok (String.ofList (c.fill (exports.layout.texts
              ⟨indentWidth, language.hasAnnotations⟩ exports.tree c.inside))) := by
  obtain ⟨c, htext, hspans, -⟩ := Script.exists_cut_of_readExports hread
  refine ⟨c, htext, hspans, fun reference templates => ?_⟩
  rw [assemble_existing hfile hdialect]
  exact assembleScript_eq file language exports.tree indentWidth hread htext hspans

end LocaleEditor
