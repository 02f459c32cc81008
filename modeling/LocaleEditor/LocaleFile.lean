/-
LocaleEditor.LocaleFile — reading locale files of every kind.

Reading never fails: a file that cannot be read has no translations.
-/
import LocaleEditor.LooseJson.Tree
import LocaleEditor.Script.Exports

namespace LocaleEditor

/-- The translations of a text in a language. -/
def Language.readTree (language : Language) (text : String) : Tree :=
  match language.dialect? with
  | none => (LooseJson.readTree? text.toList).getD []
  | some dialect =>
    match Script.readExports dialect text.toList with
    | .ok exports => exports.tree
    | .error _ => []

/-- The translations of a file. -/
def readLocaleFile (file text : String) : Tree :=
  match Language.ofFileName? file with
  | some language => language.readTree text
  | none => []

end LocaleEditor
