/-
LocaleEditor.Proofs.Script.Literals — strings and templates in bodies that nobody edited.

The statements of a function lose the indentation they have in the script and get
another one where they are written. What that does to strings and templates which
span lines depends on backticks alone. Where these tell of each line inside a
literal that it is there, all literals of the body are written as they were, and
the code between them has the same lines but for their indentation
(`assemble_literals`). Where they do not, as after a backslash that is escaped
itself, the text of a literal may change (`exists_changed_literal`).
-/
import LocaleEditor.Proofs.Script.Functions
import LocaleEditor.Proofs.Text.Dedented

namespace LocaleEditor

open LocaleEditor.Text

namespace Text

/-! ## 1. Indentation taken away -/

/-- Code in front of the first line that has neither backticks nor backslashes stays there. -/
theorem dedent_append_of_plain {plain : List Char} (h : ∀ c ∈ plain, c ≠ '`' ∧ c ≠ '\\')
    (hfeed : '\n' ∉ plain) (width : Nat) (s : List Char) :
    dedent width (plain ++ s) = plain ++ dedent width s := by
  cases hs : lines s with
  | nil => exact absurd hs (lines_ne_nil s)
  | cons first rest =>
    rw [dedent, dedent, lines_append_of_notMem hfeed hs, hs, dedentLines, dedentLines,
      insideAfter_append_of_plain h, unlines_append_cons]

/-- Indentation that is taken away from a text in between. -/
theorem relined_dedent {opening closing : List Char} (hopening : ∀ c ∈ opening, c ≠ '`' ∧ c ≠ '\\')
    (hfeed : '\n' ∉ opening) (hclosing : '\n' ∉ closing) (width : Nat) (s : List Char) :
    Relined false (lines (opening ++ s ++ closing))
      (lines (opening ++ dedent width s ++ closing)) := by
  have h := (relined_dedentLines width (lines (opening ++ s))).append
    (fun _ => notMem_of_mem_lines)
    (fun _ => notMem_of_mem_dedentLines fun _ => notMem_of_mem_lines)
    (lines_ne_nil _) hclosing
  rwa [unlines_lines, ← dedent, dedent_append_of_plain hopening hfeed] at h

end Text

namespace Script

/-! ## 2. Bodies -/

/-- A body as it is written: the statements, or the expression that is returned. -/
def FunctionBody.text (source : List Char) : FunctionBody → List Char
  | .block e => e.text source
  | .returned _ text => text

/-- What makes a statement of an expression that is returned, in front of it. -/
def FunctionBody.opening : FunctionBody → List Char
  | .block _ => []
  | .returned _ _ => "return ".toList

/-- What makes a statement of an expression that is returned, after it. -/
def FunctionBody.closing : FunctionBody → List Char
  | .block _ => []
  | .returned _ _ => [';']

theorem FunctionBody.plain_opening (fbody : FunctionBody) :
    (∀ c ∈ fbody.opening, c ≠ '`' ∧ c ≠ '\\') ∧ '\n' ∉ fbody.opening ∧ '\n' ∉ fbody.closing := by
  cases fbody with
  | block e => exact ⟨fun c hc => absurd hc List.not_mem_nil, List.not_mem_nil, List.not_mem_nil⟩
  | returned core text =>
    have hreturn : "return ".toList = ['r', 'e', 't', 'u', 'r', 'n', ' '] := rfl
    show (∀ c ∈ "return ".toList, c ≠ '`' ∧ c ≠ '\\') ∧ '\n' ∉ "return ".toList ∧ '\n' ∉ [';']
    rw [hreturn]
    exact ⟨by simp, by decide, by decide⟩

/-- A block that is kept has the lines of the body, but for their indentation. -/
theorem relined_toBody {source : List Char} {fbody : FunctionBody} {text : String}
    (h : fbody.toBody source = .block text) :
    Relined false (lines (fbody.opening ++ fbody.text source ++ fbody.closing))
      (lines text.toList) := by
  obtain ⟨hopening, hfeed, hclosing⟩ := fbody.plain_opening
  suffices hdedent : ∃ width, text.toList
      = fbody.opening ++ dedent width (fbody.text source) ++ fbody.closing by
    obtain ⟨width, hdedent⟩ := hdedent
    rw [hdedent]
    exact relined_dedent hopening hfeed hclosing width _
  cases fbody with
  | block e =>
    obtain rfl := Body.block.inj h
    refine ⟨e.column source, ?_⟩
    rw [String.toList_ofList, FunctionBody.closing, List.append_nil]
    rfl
  | returned core returned =>
    cases core with
    | some core =>
      cases core with
      | inl a => cases hitem : a.item <;> rw [FunctionBody.toBody, hitem] at h <;> cases h
      | inr es => cases h
    | none =>
      obtain rfl := Body.block.inj h
      exact ⟨continuationIndent returned, String.toList_ofList⟩

/-! ## 3. Printed blocks -/

/-- A block is printed with the literals of a body that has its lines but for their indentation. -/
theorem exists_division_printBlock (style : Style) (level : Nat) {text opening closing : List Char}
    {d : Division} (hopening : ∀ c ∈ opening, c ≠ '`' ∧ c ≠ '\\') (hfeed : '\n' ∉ opening)
    (h : Relined false (lines (opening ++ d.text ++ closing)) (lines text))
    (htracked : d.Tracked) :
    ∃ inner, printBlock style level text = '\x7b' :: inner ++ ['\x7d'] ∧
      ∃ d' : Division, d'.text = inner ∧ d'.literals = d.literals ∧
        (allBlank text = false → d'.codes.map codeLines
          = (d.enclosed ('\n' :: opening) (closing ++ ['\n'])).codes.map codeLines) := by
  have hblank : allBlank text = allBlank (opening ++ d.text ++ closing) := by
    have hlines := h.allBlank_eq
    rwa [← allBlank_unlines, ← allBlank_unlines, unlines_lines, unlines_lines] at hlines
  cases htext : allBlank text with
  | true =>
    refine ⟨[], by rw [printBlock, if_pos htext]; rfl, .code [], rfl, ?_, fun h => by cases h⟩
    rw [← Division.literals_enclosed opening closing d]
    refine (Division.literals_eq_nil_of_allBlank ?_).symm
    rw [Division.text_enclosed, ← hblank, htext]
  | false =>
    let printed := unlines (indentLines (style.indent (level + 1)) (lines text))
    let opened := d.enclosed ('\n' :: opening) closing
    refine ⟨'\n' :: printed ++ '\n' :: style.indent level,
      by simp only [printBlock, htext, printed]; simp, ?_⟩
    have hreindents : Reindents [] opened.text ('\n' :: printed) := by
      have hrelined : Relined (endsInside []) (lines (opening ++ d.text ++ closing))
          (indentLines (style.indent (level + 1)) (lines text)) :=
        h.trans (relined_indentLines (style.indentWidth * (level + 1)) (lines text))
      have hre := Reindents.of_relined hrelined (lines_ne_nil _) (fun _ => notMem_of_mem_lines)
        (fun _ => notMem_of_mem_indentLines fun _ => notMem_of_mem_lines)
      rw [unlines_lines] at hre
      rwa [Division.text_enclosed]
    have hends : ∀ s, endsInside ('\n' :: opening ++ s) = endsInside s := by
      intro s
      have hline : endsInside ('\n' :: (opening ++ s)) = endsInside (opening ++ s) := rfl
      exact hline.trans (endsInside_append_of_plain hopening hfeed s)
    obtain ⟨d', hd', hliterals, hcodes⟩ := Division.exists_of_reindents hreindents
      ((Division.trackedAfter_enclosed hends closing d).trans htracked)
    refine ⟨d'.enclosed [] ('\n' :: style.indent level), ?_, ?_, fun _ => ?_⟩
    · rw [Division.text_enclosed, hd', List.nil_append]
    · rw [Division.literals_enclosed, hliterals, Division.literals_enclosed]
    · -- the line of the closing brace is blank up to there
      have hindent : codeLines (style.indent level) = codeLines [] := by
        have hspaces : '\n' ∉ style.indent level := notMem_replicate _
        rw [codeLines, lines_of_notMem hspaces, List.map_singleton, Style.indent,
          trimLeft_of_allBlank (allBlank_replicate _)]
        rfl
      rw [Division.codes_enclosed_line hliterals hcodes hindent, Division.enclosed_enclosed,
        List.nil_append]

end Script

/-! ## 4. Assembly -/

/-- When the tree of a script is written into the script, every body that is kept as a block is
written where its function is exported. If the body in the script is divided into code and literals,
and backticks tell of each line that starts inside a literal that it does, then what is written
between the braces can be divided into the same literals, in the same order, and the code between
them has the same lines but for their indentation. -/
theorem assemble_literals {file : String} {language : Language} {dialect : Dialect}
    (hfile : Language.ofFileName? file = some language)
    (hdialect : language.dialect? = some dialect)
    {script : String} {exports : Script.Exports}
    (hread : Script.readExports dialect script.toList = .ok exports) {path : List String}
    {params : List Param} {text : String}
    (hat : exports.tree.at? path = some (.function params (.block text))) (indentWidth : Nat) :
    ∃ head fbody, Script.functionAt? dialect script.toList path = some (head, fbody) ∧
    ∃ c : Cut, c.text = script.toList ∧ c.spans = exports.layout.spans ∧
      let style : Script.Style := ⟨indentWidth, language.hasAnnotations⟩
      let texts := exports.layout.texts style exports.tree c.inside
      (∀ reference templates,
        assemble file exports.tree reference (some script) ⟨indentWidth, templates⟩
          = .ok (String.ofList (c.fill texts))) ∧
      (∃ i form, exports.layout.form? i path = some form) ∧
      ∀ i form, exports.layout.form? i path = some form → ∃ before after,
        exports.layout.WritesAt style exports.tree c.inside path i form before after ∧
        ∀ d : Division, d.text = fbody.text script.toList → d.Tracked → ∃ d' : Division,
          texts[i]? = some (before ++ (form.opening (.block text)
            ++ '(' :: Script.printParams style params
            ++ ')' :: ' ' :: ('\x7b' :: d'.text ++ ['\x7d'])) ++ after) ∧
          d'.literals = d.literals ∧
          (allBlank text.toList = false → d'.codes.map codeLines = (d.enclosed
            ('\n' :: fbody.opening) (fbody.closing ++ ['\n'])).codes.map codeLines) := by
  obtain ⟨head, fbody, hfunction, -, hbody⟩ := Script.exists_functionAt? hread hat
  obtain ⟨c, htext, hspans, hassemble⟩ := exists_assembled hfile hdialect hread indentWidth
  refine ⟨head, fbody, hfunction, c, htext, hspans, hassemble, Script.exists_form? hread hat, ?_⟩
  intro i form hform
  let style : Script.Style := ⟨indentWidth, language.hasAnnotations⟩
  obtain ⟨before, after, -, hwrites⟩ := Script.exists_writesAt style hat hspans hform
  refine ⟨before, after, hwrites, fun d hd htracked => ?_⟩
  obtain ⟨hopening, hfeed, -⟩ := fbody.plain_opening
  have hrelined := Script.relined_toBody hbody.symm
  rw [← hd] at hrelined
  obtain ⟨inner, hprint, d', rfl, hliterals, hcodes⟩ :=
    Script.exists_division_printBlock style form.level hopening hfeed hrelined htracked
  refine ⟨d', ?_, hliterals, hcodes⟩
  have hself := hwrites params (.block text)
  rw [Tree.replace_self hat, Script.Form.print_eq, Script.Form.rest_block, hprint] at hself
  exact hself

/-- A function with a template over two lines. -/
def Script.templateScript : String := "export let f=()=>\x7b\n a(`b\n c`,\n 'd')\x7d"

/-- Its body, divided into code and literals. -/
def Script.templateDivision : Division :=
  .literal ['a', '('] ⟨.backtick, ['b', '\n', ' ', 'c']⟩
    (.literal [',', '\n', ' '] ⟨.single, ['d']⟩ (.code [')']))

theorem assemble_literals_template :
    Language.ofFileName? "en.js" = some .javaScript ∧
    Language.javaScript.dialect? = some ⟨false, true⟩ ∧
    ∃ exports, Script.readExports ⟨false, true⟩ Script.templateScript.toList = .ok exports ∧
    exports.tree.at? ["f"] = some (.function [] (.block "a(`b\n c`,\n'd')")) ∧
    ∃ head fbody, Script.functionAt? ⟨false, true⟩ Script.templateScript.toList ["f"]
        = some (head, fbody) ∧
    Script.templateDivision.text = fbody.text Script.templateScript.toList ∧
    Script.templateDivision.Tracked ∧
    ∃ c : Cut, c.text = Script.templateScript.toList ∧ c.spans = exports.layout.spans ∧
      ∃ before after, ∃ d' : Division,
        (exports.layout.texts ⟨4, false⟩ exports.tree c.inside)[0]?
          = some (before ++ ("function ".toList ++ '(' :: []
            ++ ')' :: ' ' :: ('\x7b' :: d'.text ++ ['\x7d'])) ++ after) ∧
        d'.literals = [⟨.backtick, ['b', '\n', ' ', 'c']⟩, ⟨.single, ['d']⟩] := by
  have hfile : Language.ofFileName? "en.js" = some .javaScript := by decide
  have hread := Script.exports_of_function
    (Script.readExports ⟨false, true⟩ Script.templateScript.toList) "f" []
    (.block "a(`b\n c`,\n'd')") (.named [⟨"f", ⟨13, 36⟩, .initializer⟩]) (by decide +kernel)
  have hat : Tree.at? [("f", .function [] (.block "a(`b\n c`,\n'd')"))] ["f"]
      = some (.function [] (.block "a(`b\n c`,\n'd')")) := rfl
  have hbody : (Script.functionAt? ⟨false, true⟩ Script.templateScript.toList ["f"]).map
      (fun p => p.2.text Script.templateScript.toList) = some Script.templateDivision.text := by
    decide +kernel
  have htracked : Script.templateDivision.Tracked := by decide
  obtain ⟨head, fbody, hfunction, c, htext, hspans, -, -, hplaces⟩ :=
    assemble_literals hfile rfl hread hat 4
  rw [hfunction] at hbody
  have hdivision := (Option.some.inj hbody).symm
  obtain ⟨before, after, -, hliterals⟩ := hplaces 0 (.expression 0) rfl
  obtain ⟨d', hprinted, hkept, -⟩ := hliterals _ hdivision htracked
  exact ⟨hfile, rfl, _, hread, hat, head, fbody, hfunction, hdivision, htracked, c, htext, hspans,
    before, after, d', hprinted, hkept⟩

/-- A function with a template that ends in a backslash, and with one over two lines. -/
def Script.slashScript : String := "export let f=()=>\x7ba`\\\\`;a`b\nc`\x7d"

/-- After a backslash that is escaped itself, the end of a template is not seen, and the next
template is indented. -/
theorem exists_changed_literal :
    ∃ exports written,
      Script.readExports ⟨false, true⟩ Script.slashScript.toList = .ok exports ∧
      assemble "en.js" exports.tree [] (some Script.slashScript) ⟨4, []⟩ = .ok written ∧
      (Script.functionAt? ⟨false, true⟩ Script.slashScript.toList ["f"]).map
        (fun p => p.2.text Script.slashScript.toList) = some "a`\\\\`;a`b\nc`".toList ∧
      (Script.functionAt? ⟨false, true⟩ written.toList ["f"]).map
        (fun p => p.2.text written.toList) = some "a`\\\\`;a`b\n    c`".toList := by
  have hread := Script.exports_of_function
    (Script.readExports ⟨false, true⟩ Script.slashScript.toList) "f" []
    (.block "a`\\\\`;a`b\nc`") (.named [⟨"f", ⟨13, 31⟩, .initializer⟩]) (by decide +kernel)
  have hwritten : assemble "en.js" [("f", .function [] (.block "a`\\\\`;a`b\nc`"))] []
      (some Script.slashScript) ⟨4, []⟩
        = .ok "export let f=function () \x7b\n    a`\\\\`;a`b\n    c`\n\x7d" := by decide +kernel
  exact ⟨_, _, hread, hwritten, by decide +kernel, by decide +kernel⟩

end LocaleEditor
