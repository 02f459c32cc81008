/-
LocaleEditor.Language — the kinds of locale file.

The extension of a file decides its language. Scripts are edited in
place, JSON files are written anew. Two facts about a script language
matter to its reader: whether it has types and whether it has elements
written as tags.
-/
import LocaleEditor.Files.Path

namespace LocaleEditor

/-- The languages that locale files are written in. -/
inductive Language where
  | javaScript
  | jsx
  | typeScript
  | tsx
  | json
  deriving DecidableEq, Repr

/-- How a locale file is written back. -/
inductive Category where
  /-- Written anew from its tree. -/
  | structuredData
  /-- Changed in place. -/
  | script
  deriving DecidableEq, Repr

/-- What a script may contain beyond the common language. -/
structure Dialect where
  /-- Type annotations and declarations. -/
  types : Bool
  /-- Elements such as `<b>…</b>`. -/
  elements : Bool
  deriving DecidableEq, Repr

namespace Language

/-- The language that an extension stands for, in any case. -/
def ofExtension? (ext : String) : Option Language :=
  let lower := String.ofList (ext.toList.map Char.toLower)
  if lower = "tsx" then some .tsx
  else if lower = "ts" ∨ lower = "mts" ∨ lower = "cts" then some .typeScript
  else if lower = "jsx" then some .jsx
  else if lower = "js" ∨ lower = "mjs" ∨ lower = "cjs" then some .javaScript
  else if lower = "json" ∨ lower = "jsonc" then some .json
  else none

/-- The language of a file. -/
def ofFileName? (file : String) : Option Language :=
  (Files.extension? file).bind ofExtension?

def name : Language → String
  | .javaScript => "JavaScript"
  | .jsx => "Jsx"
  | .typeScript => "TypeScript"
  | .tsx => "Tsx"
  | .json => "Json"

def category : Language → Category
  | .json => .structuredData
  | _ => .script

/-- The dialect of a script language. -/
def dialect? : Language → Option Dialect
  | .javaScript => some ⟨false, true⟩
  | .jsx => some ⟨false, true⟩
  | .typeScript => some ⟨true, false⟩
  | .tsx => some ⟨true, true⟩
  | .json => none

/-- Whether the types of parameters can be written. -/
def hasAnnotations : Language → Bool
  | .typeScript => true
  | .tsx => true
  | _ => false

/-- Types are written where they can be read. -/
theorem hasAnnotations_eq_types {d : Dialect} : (language : Language) →
    language.dialect? = some d → language.hasAnnotations = d.types
  | .javaScript, rfl | .jsx, rfl | .typeScript, rfl | .tsx, rfl => rfl

/-- Stands in for a file that does not exist yet. -/
def emptyDocument : Language → String
  | .json => "{}"
  | _ => "export default {};"

end Language

end LocaleEditor
