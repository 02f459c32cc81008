/-
LocaleEditor.Proofs.Script.Splicing — a tree written into a script changes only its exports.

The exports of a script that was read are a chain of pieces, so its text can be
cut at their spans (`exists_cut_of_readExports`). Splicing into a cut text fills
the cut (`splice?_replacements`): an export gets its new text or keeps the one it
has, and the text between them stays. So splicing never fails on the spans of a
script that can be read, and `assemble_script` says this of assembly.
-/
import LocaleEditor.Assemble
import LocaleEditor.Proofs.Script.Statements
import LocaleEditor.Proofs.Text.Cut

namespace LocaleEditor.Script

open LocaleEditor.Text

/-! ## 1. From chains to cuts -/

theorem Extent.Chain.sublist {high low : Nat} {es fs : List Extent} (h : Chain high low es)
    (hsub : fs.Sublist es) : Chain high low fs := by
  induction hsub generalizing high with
  | slnil => exact h
  | cons e _ ih =>
    obtain ⟨hleft, hpos, hrest⟩ := h
    exact (ih hrest).mono_high (by omega)
  | cons_cons e _ ih => exact ⟨h.1, h.2.1, ih h.2.2⟩

/-- A text can be cut at a chain of pieces. -/
theorem exists_cut {source : List Char} {es : List Extent} (h : Extent.Chain source.length 0 es) :
    ∃ c : Cut, c.text = source ∧ c.spans = es.map (Extent.span source) ∧
      ∀ p ∈ c.pieces, p.2 ≠ [] := by
  -- the part of the text that is behind the pieces so far is `done`
  have from' : ∀ (es : List Extent) (done s : List Char), source = done ++ s →
      Extent.Chain s.length 0 es → ∃ (ps : List (List Char × List Char)) (rest : List Char),
        (ps.flatMap fun p => p.1 ++ p.2) ++ rest = s ∧
        spansFrom (byteLength done) ps = es.map (Extent.span source) ∧ ∀ p ∈ ps, p.2 ≠ [] := by
    intro es
    induction es with
    | nil => exact fun done s _ _ => ⟨[], s, rfl, rfl, by simp⟩
    | cons e es ih =>
      intro done s hs hchain
      obtain ⟨hleft, hpos, hchain⟩ := hchain
      let before := s.take (s.length - e.left)
      let here := s.drop (s.length - e.left)
      let inside := here.take (e.left - e.right)
      let after := here.drop (e.left - e.right)
      have hhere : here.length = e.left := by simp only [here, List.length_drop]; omega
      have hafter : after.length = e.right := by simp only [after, List.length_drop]; omega
      have hsplit : s = before ++ (inside ++ after) := by
        rw [List.take_append_drop, List.take_append_drop]
      have hsource : source = done ++ before ++ inside ++ after := by
        rw [hs, hsplit]
        simp only [List.append_assoc]
      obtain ⟨ps, rest, htext, hspans, hne⟩ := ih (done ++ before ++ inside) after hsource
        (by rw [hafter]; exact hchain)
      refine ⟨(before, inside) :: ps, rest, ?_, ?_, ?_⟩
      · rw [List.flatMap_cons, List.append_assoc, htext, List.append_assoc]
        exact hsplit.symm
      · have htake : source.take (source.length - e.left) = done ++ before := by
          rw [hs, List.length_append, Nat.add_sub_assoc hleft, List.take_length_add_append]
        have hinside : e.text source = inside := by
          rw [Extent.text, hs, List.length_append, Nat.add_sub_assoc hleft,
            List.drop_length_add_append]
        rw [List.map_cons, ← hspans, Extent.span, htake, hinside]
        simp only [spansFrom, byteLength_append]
      · intro p hp
        rcases List.mem_cons.mp hp with rfl | hp
        · intro hnil
          have hlen := congrArg List.length hnil
          simp only [inside, List.length_take, List.length_nil] at hlen
          omega
        · exact hne p hp
  obtain ⟨ps, rest, htext, hspans, hne⟩ := from' es [] source rfl h
  exact ⟨⟨ps, rest⟩, htext, hspans, hne⟩

/-! ## 2. The exports of a script -/

/-- The spans of what is exported. -/
def Layout.spans : Layout → List Span
  | .default span => [span]
  | .named es => es.map NamedExport.span

theorem extents_of_defaultObject? {statements : List Statement} {v : Value}
    (h : defaultObject? statements = some v) :
    [v.extent].Sublist (statements.flatMap Statement.extents) := by
  obtain ⟨statement, hmem, hv⟩ := List.exists_of_findSome?_eq_some h
  refine List.singleton_sublist.mpr (List.mem_flatMap.mpr ⟨statement, hmem, ?_⟩)
  cases statement with
  | exportDefault w =>
    dsimp only at hv
    split at hv
    · obtain rfl := Option.some.inj hv
      exact List.mem_singleton.mpr rfl
    · cases hv
  | _ => cases hv

theorem extents_of_namedBindings (statements : List Statement) :
    ((namedBindings statements).map fun p => p.2.extent).Sublist
      (statements.flatMap Statement.extents) := by
  induction statements with
  | nil => exact List.Sublist.refl _
  | cons statement statements ih =>
    rw [namedBindings, List.flatMap_cons, List.map_append, List.flatMap_cons]
    refine List.Sublist.append ?_ ih
    cases statement with
    | exportNamed kind bindings => simp [Statement.extents, Function.comp_def]
    | _ => exact List.nil_sublist _

/-- The text of a script can be cut at its exports, and none of them is empty. -/
theorem exists_cut_of_readExports {d : Dialect} {source : List Char} {exports : Exports}
    (h : readExports d source = .ok exports) : ∃ c : Cut, c.text = source ∧
      c.spans = exports.layout.spans ∧ ∀ p ∈ c.pieces, p.2 ≠ [] := by
  unfold readExports at h
  split at h
  · cases h
  · next statements hprogram =>
    have hchain := program_chain hprogram
    unfold exportsOf at h
    split at h
    · next v hv =>
      obtain rfl := Except.ok.inj h
      exact exists_cut (hchain.sublist (extents_of_defaultObject? hv))
    · dsimp only at h
      split at h
      · cases h
      · obtain rfl := Except.ok.inj h
        have hcut := exists_cut (hchain.sublist (extents_of_namedBindings statements))
        simpa [Layout.spans, Function.comp_def] using hcut

/-! ## 3. Splicing -/

/-- The new text of a named export, unless its text is kept. -/
def NamedExport.newText? (style : Style) (tree : Tree) (e : NamedExport) : Option (List Char) :=
  (tree.get? e.name).bind (replacementText? style e)

/-- An export keeps its text if the tree has no node for it, if that node is of unknown kind, or if
it would turn the declaration of a function into something else. -/
def NamedExport.Keeps (tree : Tree) (e : NamedExport) : Prop :=
  tree.get? e.name = none ∨ tree.get? e.name = some .unknown ∨
    (e.kind = .function ∧ ∀ params body, tree.get? e.name ≠ some (.function params body))

theorem newText?_eq_none_iff {style : Style} {tree : Tree} {e : NamedExport} :
    e.newText? style tree = none ↔ e.Keeps tree := by
  unfold NamedExport.newText? NamedExport.Keeps
  cases hget : tree.get? e.name with
  | none => simp
  | some node => cases node <;> cases hkind : e.kind <;> simp [replacementText?, hkind]

theorem replacementText?_initializer (style : Style) {e : NamedExport} (he : e.kind = .initializer)
    {n : Node}
    (hn : isUnknown n = false) : replacementText? style e n = some (printNode style 0 n) := by
  cases n with
  | unknown => cases hn
  | _ => simp only [replacementText?, he]

theorem replacementText?_function (style : Style) {e : NamedExport} (he : e.kind = .function)
    (params : List Param) (body : Body) : replacementText? style e (.function params body)
      = some (printDeclaration style e.name params body) := by
  simp only [replacementText?, he]

/-- What stands in the place of the exports, where `old` stood there. -/
def Layout.texts (style : Style) (tree : Tree) (old : List (List Char)) :
    Layout → List (List Char)
  | .default _ => [printNode style 0 (.object tree)]
  | .named es => List.zipWith (fun e old => (e.newText? style tree).getD old) es old

/-- Splicing, where `start` is before the text `kept` that stays in front of the next piece. -/
theorem spliceFrom?_filterMap {α : Type} (span : α → Span) (new? : α → Option (List Char))
    (as : List α) : ∀ (ps : List (List Char × List Char)) (start : Nat) (kept rest : List Char),
      spansFrom (start + byteLength kept) ps = as.map span →
      spliceFrom? start (kept ++ ((ps.flatMap fun p => p.1 ++ p.2) ++ rest))
          (as.filterMap fun a => (new? a).map (⟨span a, ·⟩))
        = some (kept ++ ((List.zipWith (fun p new => p.1 ++ new) ps
            (List.zipWith (fun a old => (new? a).getD old) as (ps.map (·.2)))).flatten ++ rest)) := by
  induction as with
  | nil =>
    intro ps start kept rest hspans
    cases ps with
    | nil => rfl
    | cons p ps => cases hspans
  | cons a as ih =>
    intro ps start kept rest hspans
    cases ps with
    | nil => cases hspans
    | cons p ps =>
      obtain ⟨before, inside⟩ := p
      rw [spansFrom, List.map_cons, List.cons.injEq] at hspans
      obtain ⟨hspan, hspans⟩ := hspans
      cases hnew : new? a with
      | none =>
        -- the cursor stays where it is, with one more piece behind it
        have hih := ih ps start (kept ++ before ++ inside) rest (by
          rw [← hspans, byteLength_append, byteLength_append]
          simp only [Nat.add_assoc])
        simp only [List.filterMap_cons, hnew, Option.map_none, List.flatMap_cons, List.map_cons,
          List.zipWith_cons_cons, Option.getD_none, List.flatten_cons]
        simpa only [List.append_assoc] using hih
      | some new =>
        have hih := ih ps (start + byteLength kept + byteLength before + byteLength inside) [] rest
          (by simpa only [byteLength, Nat.add_zero] using hspans)
        rw [List.nil_append, List.nil_append] at hih
        have hstart : (span a).start - start = byteLength (kept ++ before) := by
          rw [← hspan, byteLength_append]
          dsimp only
          omega
        have hstop : (span a).stop - (span a).start = byteLength inside := by
          rw [← hspan]
          dsimp only
          omega
        have horder : start ≤ (span a).start ∧ (span a).start ≤ (span a).stop := by
          rw [← hspan]
          dsimp only
          omega
        have htext : kept ++ ((((before, inside) :: ps).flatMap fun p => p.1 ++ p.2) ++ rest)
            = (kept ++ before) ++ (inside ++ ((ps.flatMap fun p => p.1 ++ p.2) ++ rest)) := by
          simp
        rw [htext, List.filterMap_cons, hnew]
        simp only [Option.map_some, spliceFrom?]
        rw [if_pos horder, hstart, splitBytes?_append]
        dsimp only
        rw [hstop, splitBytes?_append]
        dsimp only
        rw [← hspan, hih]
        simp [hnew]

/-- Splicing into a text that was cut at the exports fills the cut. -/
theorem splice?_replacements (style : Style) (tree : Tree) {layout : Layout} {c : Cut}
    (h : c.spans = layout.spans) :
    splice? c.text (replacements style layout tree)
      = some (c.fill (layout.texts style tree c.inside)) := by
  cases layout with
  | default span =>
    have hfill := spliceFrom?_filterMap (fun _ : Unit => span)
      (fun _ => some (printNode style 0 (.object tree))) [()] c.pieces 0 [] c.rest h
    obtain ⟨ps, rest⟩ := c
    cases ps with
    | nil => cases h
    | cons p ps =>
      simpa [replacements, Layout.texts, splice?, Cut.text, Cut.fill, Cut.inside] using hfill
  | named es =>
    have hfill := spliceFrom?_filterMap NamedExport.span (NamedExport.newText? style tree) es
      c.pieces 0 [] c.rest h
    have hreplacements : replacements style (.named es) tree
        = es.filterMap fun e => (e.newText? style tree).map (⟨e.span, ·⟩) := by
      refine congrArg (List.filterMap · es) (funext fun e => ?_)
      unfold NamedExport.newText?
      cases tree.get? e.name <;> rfl
    rw [hreplacements]
    exact hfill

end LocaleEditor.Script

namespace LocaleEditor

open LocaleEditor.Text

/-! ## 4. Assembly -/

theorem assembleScript_eq (file : String) (language : Language) {dialect : Dialect}
    {template : String} {exports : Script.Exports} {c : Cut} (tree : Tree) (indentWidth : Nat)
    (hread : Script.readExports dialect template.toList = .ok exports)
    (htext : c.text = template.toList) (hspans : c.spans = exports.layout.spans) :
    assembleScript file language dialect template tree indentWidth
      = .ok (String.ofList (c.fill
          (exports.layout.texts ⟨indentWidth, language.hasAnnotations⟩ tree c.inside))) := by
  unfold assembleScript
  rw [hread]
  dsimp only
  rw [← htext, Script.splice?_replacements _ tree hspans]

/-- Assembling a script fails only where its template cannot be read. Otherwise the template is cut
at the spans of its exports, which are not empty and stand in order between its characters, and
only what is in them changes: an object exported by default is replaced, and a named export gets
its new text unless it keeps the one it has. -/
theorem assemble_script {file : String} {language : Language} {dialect : Dialect}
    (hfile : Language.ofFileName? file = some language) (hdialect : language.dialect? = some dialect)
    (tree reference : Tree) (existing : Option String) (options : AssembleOptions) :
    let template := (resolveTemplate file existing options.templates).toList
    let style : Script.Style := ⟨options.indentWidth, language.hasAnnotations⟩
    let assembled := assemble file tree reference existing options
    assembled ≠ .error .invalidSpan ∧
    ((∃ error, assembled = .error error) ↔
      ∃ error, Script.readExports dialect template = .error error) ∧
    ∀ exports, Script.readExports dialect template = .ok exports →
      exports.layout.spans.Pairwise (fun a b => a.start < b.start ∧ a.stop ≤ b.start) ∧
      (∀ span ∈ exports.layout.spans, span.start < span.stop ∧ span.stop ≤ byteLength template ∧
        (span.slice? template).isSome) ∧
      (∃ c : Cut, c.text = template ∧ c.spans = exports.layout.spans ∧
        assembled = .ok (String.ofList (c.fill (exports.layout.texts style tree c.inside)))) ∧
      ∀ e : Script.NamedExport, e.newText? style tree = none ↔ e.Keeps tree := by
  dsimp only
  have hassemble : assemble file tree reference existing options
      = assembleScript file language dialect (resolveTemplate file existing options.templates) tree
          options.indentWidth := by
    simp [assemble, hfile, hdialect]
  rw [hassemble]
  generalize resolveTemplate file existing options.templates = template
  cases hread : Script.readExports dialect template.toList with
  | error error =>
    have herror : assembleScript file language dialect template tree options.indentWidth
        = .error (.unreadableTemplate file) := by
      simp [assembleScript, hread]
    rw [herror]
    exact ⟨by simp, by simp, by simp⟩
  | ok exports =>
    obtain ⟨c, htext, hspans, hne⟩ := Script.exists_cut_of_readExports hread
    have hok := assembleScript_eq file language tree options.indentWidth hread htext hspans
    have hspan : ∀ span ∈ exports.layout.spans, span.start < span.stop ∧
        span.stop ≤ byteLength template.toList ∧ (span.slice? template.toList).isSome := by
      intro span hmem
      rw [← hspans] at hmem
      obtain ⟨p, hp, hslice, hstop, hle⟩ := Cut.slice?_text hmem
      have hpos := byteLength_pos (hne p hp)
      rw [← htext]
      exact ⟨by omega, hle, by rw [hslice]; rfl⟩
    have horder : exports.layout.spans.Pairwise fun a b => a.start < b.start ∧ a.stop ≤ b.start := by
      have hpairwise := c.spans_pairwise
      rw [hspans] at hpairwise
      refine hpairwise.imp_of_mem fun ha _ hab => ⟨?_, hab⟩
      have := (hspan _ ha).1
      omega
    rw [hok]
    refine ⟨by simp, by simp, fun exports' h => ?_⟩
    obtain rfl := Except.ok.inj h
    exact ⟨horder, hspan, ⟨c, htext, hspans, rfl⟩, fun e => Script.newText?_eq_none_iff⟩

/-- Of two exports one gets a new text. -/
theorem assemble_script_pair :
    Language.ofFileName? "en.js" = some .javaScript ∧
    Language.javaScript.dialect? = some ⟨false, true⟩ ∧
    ∃ exports, Script.readExports ⟨false, true⟩ "export let a=b,c=d".toList = .ok exports ∧
      exports.layout.spans = [⟨13, 14⟩, ⟨17, 18⟩] ∧
      ∃ c : Cut, c.text = "export let a=b,c=d".toList ∧ c.spans = exports.layout.spans ∧
        assemble "en.js" [("a", .literal "x")] [] (some "export let a=b,c=d") ⟨2, []⟩
          = .ok (String.ofList (c.fill
              (exports.layout.texts ⟨2, false⟩ [("a", .literal "x")] c.inside))) := by
  have hfile : Language.ofFileName? "en.js" = some .javaScript := by decide
  have hspans : (Script.readExports ⟨false, true⟩ "export let a=b,c=d".toList).toOption.map
      (·.layout.spans) = some [⟨13, 14⟩, ⟨17, 18⟩] := by rfl
  have hassemble := assemble_script hfile rfl [("a", .literal "x")] []
    (some "export let a=b,c=d") ⟨2, []⟩
  obtain ⟨-, -, hread⟩ := hassemble
  cases hexports : Script.readExports ⟨false, true⟩ "export let a=b,c=d".toList with
  | error error =>
    rw [hexports] at hspans
    cases hspans
  | ok exports =>
    rw [hexports] at hspans
    obtain ⟨-, -, hcut, -⟩ := hread exports hexports
    exact ⟨hfile, rfl, exports, rfl, Option.some.inj hspans, hcut⟩

end LocaleEditor
