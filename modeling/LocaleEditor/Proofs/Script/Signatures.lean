/-
LocaleEditor.Proofs.Script.Signatures — the parameters of functions that nobody edited.

A function that is read from a script and written into it again has an entry for
each of its parameters, in their order (`assemble_signatures`). Plain names stay,
with their types where types are written. Of every other parameter only a
placeholder is left, and a function is never written as asynchronous, so that a
signature may change though nobody edited it (`exists_changed_signature`).
-/
import LocaleEditor.Proofs.Script.Functions
import Mathlib.Data.List.Forall2

namespace LocaleEditor

open LocaleEditor.Text

namespace Script

/-! ## 1. Parameters -/

/-- How a parameter is written again. Nothing is said of a name that is one pattern with its default
value. -/
def Parameter.rewritten? (annotations : Bool) (p : Parameter) : Option (List Char) :=
  match p.binder with
  | .name w =>
    match p.type with
    | some type =>
      if annotations && type != Param.untyped then some (w.toList ++ [':', ' '] ++ type.toList)
      else some w.toList
    | none => some w.toList
  | .assigned _ => none
  | .pattern | .rest | .other =>
    some (if annotations then "[unknown]: string".toList else "[unknown]".toList)

theorem printParam_param {style : Style} {p : Parameter} {text : List Char}
    (h : p.rewritten? style.annotations = some text) : printParam style p.param = text := by
  obtain ⟨binder, type, default⟩ := p
  cases binder with
  | name w =>
    cases type with
    | none => simpa [Parameter.rewritten?, Parameter.param, printParam, Param.isAnnotated] using h
    | some type =>
      simp only [Parameter.rewritten?] at h
      show (if style.annotations && type != Param.untyped then w.toList ++ [':', ' '] ++ type.toList
        else w.toList) = text
      split at h
      · next hc => rw [if_pos hc, Option.some.inj h]
      · next hc => rw [if_neg hc, Option.some.inj h]
  | assigned w => cases h
  | _ =>
    rw [← Option.some.inj h]
    cases hannotations : style.annotations <;>
      simp [Parameter.param, printParam, Param.placeholder, Param.isAnnotated, Param.untyped,
        hannotations]

/-- Parameters with what separates them. -/
theorem printParams_eq (style : Style) (params : List Param) :
    printParams style params = [',', ' '].intercalate (params.map (printParam style)) := by
  induction params with
  | nil => rfl
  | cons p ps ih =>
    cases ps with
    | nil => simp [printParams, List.intercalate]
    | cons q ps => simp [printParams, ih, List.intercalate]

end Script

/-! ## 2. Assembly -/

/-- When the tree of a script is written into the script, every function is written where it is
exported, with an entry for each of its parameters in their order. What is in front of them has no
word for an asynchronous function. -/
theorem assemble_signatures {file : String} {language : Language} {dialect : Dialect}
    (hfile : Language.ofFileName? file = some language)
    (hdialect : language.dialect? = some dialect)
    {script : String} {exports : Script.Exports}
    (hread : Script.readExports dialect script.toList = .ok exports) {path : List String}
    {params : List Param} {body : Body}
    (hat : exports.tree.at? path = some (.function params body)) (indentWidth : Nat) :
    ∃ head fbody, Script.functionAt? dialect script.toList path = some (head, fbody) ∧
    ∃ c : Cut, c.text = script.toList ∧ c.spans = exports.layout.spans ∧
      let style : Script.Style := ⟨indentWidth, language.hasAnnotations⟩
      let texts := exports.layout.texts style exports.tree c.inside
      (∀ reference templates,
        assemble file exports.tree reference (some script) ⟨indentWidth, templates⟩
          = .ok (String.ofList (c.fill texts))) ∧
      (∃ i form, exports.layout.form? i path = some form) ∧
      ∀ i form, exports.layout.form? i path = some form → ∃ before after entries,
        (before = [] ∨ [':', ' '] <:+ before) ∧
        exports.layout.WritesAt style exports.tree c.inside path i form before after ∧
        texts[i]? = some (before ++ (form.opening body ++ '(' :: [',', ' '].intercalate entries
          ++ ')' :: form.rest style body) ++ after) ∧
        List.Forall₂ (fun (p : Script.Parameter) entry =>
          ∀ text, p.rewritten? style.annotations = some text → entry = text)
          head.parameters entries := by
  obtain ⟨head, fbody, hfunction, rfl, -⟩ := Script.exists_functionAt? hread hat
  obtain ⟨c, htext, hspans, hassemble⟩ := exists_assembled hfile hdialect hread indentWidth
  refine ⟨head, fbody, hfunction, c, htext, hspans, hassemble, Script.exists_form? hread hat, ?_⟩
  intro i form hform
  let style : Script.Style := ⟨indentWidth, language.hasAnnotations⟩
  obtain ⟨before, after, hcolon, hwrites⟩ := Script.exists_writesAt style hat hspans hform
  refine ⟨before, after, head.parameters.map fun p => Script.printParam style p.param, hcolon,
    hwrites, ?_, ?_⟩
  · have hself := hwrites head.params body
    rw [Tree.replace_self hat, Script.Form.print_eq, Script.printParams_eq, Script.Signature.params,
      List.map_map] at hself
    exact hself
  · rw [List.forall₂_map_right_iff, List.forall₂_same]
    exact fun p _ text h => (Script.printParam_param h).symm ▸ rfl

/-- An asynchronous function with a parameter for the remaining arguments. -/
def Script.asyncScript : String := "export let f=async(a,...b)=>a"

theorem Script.readExports_asyncScript : Script.readExports ⟨true, false⟩ asyncScript.toList
    = .ok ⟨[("f", .function [⟨"a", "unknown"⟩, Param.placeholder] (.variable "a"))],
        .named [⟨"f", ⟨13, 29⟩, .initializer⟩]⟩ :=
  exports_of_function _ "f" _ (.variable "a") _ (by decide +kernel)

theorem assemble_signatures_async :
    Language.ofFileName? "a.ts" = some .typeScript ∧
    Language.typeScript.dialect? = some ⟨true, false⟩ ∧
    ∃ exports, Script.readExports ⟨true, false⟩ Script.asyncScript.toList = .ok exports ∧
    exports.tree.at? ["f"]
      = some (.function [⟨"a", "unknown"⟩, Param.placeholder] (.variable "a")) ∧
    ∃ head fbody, Script.functionAt? ⟨true, false⟩ Script.asyncScript.toList ["f"]
        = some (head, fbody) ∧
    ∃ c : Cut, c.text = Script.asyncScript.toList ∧ c.spans = exports.layout.spans ∧
      ∃ before after entries,
        (exports.layout.texts ⟨4, true⟩ exports.tree c.inside)[0]?
          = some (before ++ ('(' :: [',', ' '].intercalate entries ++ ") => a".toList) ++ after) ∧
        List.Forall₂ (fun (p : Script.Parameter) entry =>
          ∀ text, p.rewritten? true = some text → entry = text) head.parameters entries := by
  have hfile : Language.ofFileName? "a.ts" = some .typeScript := by decide
  have hat : Tree.at? [("f", .function [⟨"a", "unknown"⟩, Param.placeholder] (.variable "a"))] ["f"]
      = some (.function [⟨"a", "unknown"⟩, Param.placeholder] (.variable "a")) := rfl
  obtain ⟨head, fbody, hfunction, c, htext, hspans, -, -, hplaces⟩ :=
    assemble_signatures hfile rfl Script.readExports_asyncScript hat 4
  obtain ⟨before, after, entries, -, -, hprinted, hentries⟩ :=
    hplaces 0 (.expression 0) rfl
  exact ⟨hfile, rfl, _, Script.readExports_asyncScript, rfl, head, fbody, hfunction, c, htext,
    hspans, before, after, entries, hprinted, hentries⟩

/-- The function is no longer asynchronous after it was written again, and what took all arguments
takes one apart. -/
theorem exists_changed_signature :
    ∃ exports written,
      Script.readExports ⟨true, false⟩ "export let f=async(...a)=>a".toList = .ok exports ∧
      assemble "a.ts" exports.tree [] (some "export let f=async(...a)=>a") ⟨4, []⟩ = .ok written ∧
      (Script.functionAt? ⟨true, false⟩ "export let f=async(...a)=>a".toList ["f"]).map (·.1)
        = some ⟨true, [⟨.rest, none, false⟩]⟩ ∧
      (Script.functionAt? ⟨true, false⟩ written.toList ["f"]).map (·.1)
        = some ⟨false, [⟨.pattern, some "string", false⟩]⟩ := by
  have hread := Script.exports_of_function
    (Script.readExports ⟨true, false⟩ "export let f=async(...a)=>a".toList) "f" [Param.placeholder]
    (.variable "a") (.named [⟨"f", ⟨13, 27⟩, .initializer⟩]) (by decide +kernel)
  have hwritten : assemble "a.ts" [("f", .function [Param.placeholder] (.variable "a"))] []
      (some "export let f=async(...a)=>a") ⟨4, []⟩
        = .ok "export let f=([unknown]: string) => a" := by decide +kernel
  exact ⟨_, _, hread, hwritten, by decide +kernel, by decide +kernel⟩

end LocaleEditor
