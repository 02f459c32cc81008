/-
LocaleEditor.Proofs.Script.Texts — trees of texts are read back from new scripts.

A text is quoted when it is printed, so a tree of texts keeps no source that
could be read in another way somewhere else (`stands_of_isText`). The object is
put into a new script, where nothing but the words in front of it and the end of
the statement is around it, and the script is read (`assemble_texts`).
-/
import LocaleEditor.Assemble
import LocaleEditor.LocaleFile
import LocaleEditor.Proofs.LocaleFile
import LocaleEditor.Proofs.Script.Exported

namespace LocaleEditor.Script

open LocaleEditor.Text

variable {d : Dialect} {style : Style}

/-! ## 1. Scripts with one object -/

theorem stands_of_isText {n : Node} (h : n.IsText) : n.Stands d := by
  induction h with
  | literal v => exact .literal v
  | array vs =>
    refine .array _ fun i hi => ?_
    obtain ⟨v, -, rfl⟩ := List.mem_map.mp hi
    exact trivial
  | object t _ _ ih => exact .object t ih

/-- There is nothing to tidy in a tree of texts. -/
theorem tidied_of_isText {n : Node} (h : n.IsText) : n.tidied = n := by
  induction h with
  | literal v => rfl
  | array vs => rfl
  | object t _ _ ih =>
    have hsame : ∀ p ∈ t, (p.1, p.2.tidied) = p := fun p hp => by rw [ih p hp]
    rw [Node.tidied, Tree.tidied_eq_map, List.map_congr_left hsame, List.map_id']

/-- The text up to an object that is exported by default. -/
def exportDefault : List Char := exportWord ++ ' ' :: (defaultWord ++ [' '])

/-- A script that exports an object of texts has its tree. -/
theorem readExports_exportDefault (style : Style) (hstyle : style.annotations = d.types) {t : Tree}
    (ht : (Node.object t).IsText) :
    readExports d (exportDefault ++ (printNode style 0 (.object t) ++ [';', '\n']))
      = .ok ⟨t, .default ⟨byteLength exportDefault,
          byteLength exportDefault + byteLength (printNode style 0 (.object t))⟩⟩ := by
  have hends : Ends .statement [';', '\n'] := .semicolon _ _
  have hsame : Tree.tidied t = t := Node.object.inj (tidied_of_isText ht)
  have hread := readExports_default hstyle (stands_of_isText ht) (Tree.unique_object.mp ht.unique)
    (x := []) ⟨[], by simp, fun m r _ => .stop rfl⟩ isGap_space hends.wraps (semicolon_done _)
    ⟨[], by simp, fun m _ => .stop rfl⟩
  rw [hsame] at hread
  exact hread

end LocaleEditor.Script

namespace LocaleEditor

open LocaleEditor.Text

/-! ## 2. New files -/

/-- The stand-in for a new script is an empty object that is exported by default. -/
theorem toList_defaultTemplate (annotations : Bool) : defaultTemplate.toList = Script.exportDefault
    ++ (Script.printNode ⟨0, annotations⟩ 0 (.object []) ++ [';', '\n']) := by
  cases annotations <;> decide

/-- A tree of texts that is written into a new script is read back from it. -/
theorem assemble_texts {file : String} {language : Language} {dialect : Dialect}
    (hfile : Language.ofFileName? file = some language)
    (hdialect : language.dialect? = some dialect)
    {options : AssembleOptions}
    (htemplate : (Files.fileStem? file).bind (fun stem => options.templates.lookup stem) = none)
    {t : Tree} (ht : (Node.object t).IsText) (reference : Tree) :
    ∃ text, assemble file t reference none options = .ok text ∧ readLocaleFile file text = t := by
  let style : Script.Style := ⟨options.indentWidth, language.hasAnnotations⟩
  let printed := Script.printNode style 0 (.object t)
  have hempty : (Node.object []).IsText := .object [] List.nodup_nil (by simp)
  have hread := Script.readExports_exportDefault (d := dialect) ⟨0, dialect.types⟩ rfl hempty
  have hagain := Script.readExports_exportDefault style
    (language.hasAnnotations_eq_types hdialect) ht
  rw [← toList_defaultTemplate] at hread
  let c : Cut := ⟨[(Script.exportDefault, ['\x7b', '\x7d'])], [';', '\n']⟩
  have htext : c.text = defaultTemplate.toList := by decide
  have hassemble := assembleScript_eq file language t options.indentWidth hread htext rfl
  have hfill : c.fill [printed] = Script.exportDefault ++ (printed ++ [';', '\n']) := by
    simp [c, Cut.fill]
  refine ⟨String.ofList (c.fill [printed]), ?_, ?_⟩
  · have htemplate' : resolveTemplate file none options.templates = defaultTemplate := by
      simp only [resolveTemplate, htemplate]
    simp only [assemble, hfile, hdialect, htemplate']
    exact hassemble
  · rw [hfill]
    simp only [readLocaleFile, hfile, Language.readTree, hdialect, String.toList_ofList]
    rw [hagain]

/-- A tree with a key that has to be quoted, texts with escapes, and an empty object. -/
def quotedTree : Tree :=
  [("a b", .literal "\"\\`\x00"), ("list", .array [.literal "", .literal "\n"]),
    ("default", .object [])]

theorem quotedTree_isText : (Node.object quotedTree).IsText := by
  refine .object _ (by decide) ?_
  simp only [quotedTree, List.mem_cons, List.not_mem_nil, or_false, forall_eq_or_imp, forall_eq]
  exact ⟨.literal _, .array ["", "\n"], .object _ List.nodup_nil (by simp)⟩

theorem assemble_texts_quoted :
    Language.ofFileName? "fr.ts" = some .typeScript ∧ (Node.object quotedTree).IsText ∧
    ∃ text, assemble "fr.ts" quotedTree [] none ⟨2, [("en", "export default x;")]⟩ = .ok text ∧
      readLocaleFile "fr.ts" text = quotedTree := by
  have hfile : Language.ofFileName? "fr.ts" = some .typeScript := by decide
  exact ⟨hfile, quotedTree_isText,
    assemble_texts hfile rfl (by decide) quotedTree_isText []⟩

end LocaleEditor
