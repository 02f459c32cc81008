/-
LocaleEditor.Proofs.Settings.Templates — new scripts from the templates of valid settings.

Templates are checked when settings are, long before a file is assembled from
one. A template is registered for the stem of a name, so the check cannot know
the extension, and it reads every template as TypeScript. A new file is
assembled in the language of its own name.

* `reads_defaultTemplate` — the stand-in can be read in every dialect.
* `assemble_new_script` — with valid settings a new script is assembled exactly
  if its template can be read in its own dialect; that is so where there is no
  template, and in every TypeScript file.
* `exists_unassembled_template` — not in every script.
-/
import LocaleEditor.Settings.Basic
import LocaleEditor.Proofs.Script.Splicing

namespace LocaleEditor

/-! ## 1. Templates that can be read -/

/-- The script has translations in the dialect. -/
def Dialect.Reads (d : Dialect) (script : String) : Prop :=
  ∃ exports, Script.readExports d script.toList = .ok exports

theorem Dialect.reads_iff {d : Dialect} {script : String} :
    d.Reads script ↔ (Script.readExports d script.toList).toOption.isSome = true := by
  unfold Dialect.Reads
  cases Script.readExports d script.toList <;> simp [Except.toOption]

instance (d : Dialect) (script : String) : Decidable (d.Reads script) :=
  decidable_of_iff _ Dialect.reads_iff.symm

theorem reads_defaultTemplate (d : Dialect) : d.Reads defaultTemplate := by
  obtain ⟨types, elements⟩ := d
  cases types <;> cases elements <;> decide +kernel

namespace Settings

variable {s : Settings}

theorem templateFaults_eq_nil_iff {stem text : String} :
    templateFaults (stem, text) = [] ↔ (⟨true, false⟩ : Dialect).Reads text := by
  unfold templateFaults Dialect.Reads
  dsimp only [Language.dialect?]
  cases Script.readExports ⟨true, false⟩ text.toList <;> simp

/-- Every template of valid settings can be read as TypeScript. -/
theorem IsValid.reads (h : s.IsValid) {stem text : String} (hmem : (stem, text) ∈ s.templates) :
    (⟨true, false⟩ : Dialect).Reads text := by
  unfold IsValid faults at h
  have htemplates := (List.append_eq_nil_iff.mp h).2
  exact templateFaults_eq_nil_iff.mp
    (List.flatMap_eq_nil_iff.mp htemplates (stem, text) (List.mem_mergeSort.mpr hmem))

end Settings

/-! ## 2. Assembling -/

section

variable {file : String} {language : Language} {d : Dialect} {template : String}

/-- A template that can be read has a place for every export. -/
theorem assembleScript_of_reads (h : d.Reads template) (file : String) (language : Language)
    (tree : Tree) (indentWidth : Nat) :
    ∃ text, assembleScript file language d template tree indentWidth = .ok text := by
  obtain ⟨exports, hread⟩ := h
  obtain ⟨c, htext, hspans, -⟩ := Script.exists_cut_of_readExports hread
  exact ⟨_, assembleScript_eq file language tree indentWidth hread htext hspans⟩

theorem assembleScript_of_not_reads (h : ¬ d.Reads template) (file : String) (language : Language)
    (tree : Tree) (indentWidth : Nat) :
    assembleScript file language d template tree indentWidth
      = .error (.unreadableTemplate file) := by
  unfold assembleScript
  cases hread : Script.readExports d template.toList with
  | error error => rfl
  | ok exports => exact absurd ⟨exports, hread⟩ h

end

/-- The template that is registered for a file. -/
def Settings.templateFor? (s : Settings) (file : String) : Option String :=
  (Files.fileStem? file).bind fun stem => s.templates.lookup stem

theorem Settings.mem_templates_of_templateFor? {s : Settings} {file template : String}
    (h : s.templateFor? file = some template) : ∃ stem, (stem, template) ∈ s.templates := by
  obtain ⟨stem, -, hlookup⟩ := Option.bind_eq_some_iff.mp h
  obtain ⟨before, after, htemplates, -⟩ := List.lookup_eq_some_iff.mp hlookup
  exact ⟨stem, htemplates ▸ List.mem_append_right _ List.mem_cons_self⟩

/-- With valid settings, a script that does not exist yet is assembled from any tree, unless a
template is registered for it that cannot be read in the dialect of its name; then the template is
the error. Each template can be read as TypeScript, so there is no error for a TypeScript file, nor
for a file without a template. -/
theorem assemble_new_script {s : Settings} (hs : s.IsValid) {file : String} {language : Language}
    {d : Dialect} (hfile : Language.ofFileName? file = some language)
    (hdialect : language.dialect? = some d) (tree reference : Tree) :
    let assembled := assemble file tree reference none s.assembleOptions
    ((∃ text, assembled = .ok text) ↔ ∀ template ∈ s.templateFor? file, d.Reads template) ∧
    ((∃ template ∈ s.templateFor? file, ¬ d.Reads template) →
      assembled = .error (.unreadableTemplate file)) ∧
    (s.templateFor? file = none → ∃ text, assembled = .ok text) ∧
    (language = .typeScript → ∃ text, assembled = .ok text) := by
  intro assembled
  have hassembled : assembled = assembleScript file language d
      ((s.templateFor? file).getD defaultTemplate) tree s.indentWidth := by
    have hresolve : resolveTemplate file none s.assembleOptions.templates
        = (s.templateFor? file).getD defaultTemplate := by
      unfold resolveTemplate Settings.templateFor?
      dsimp only [Settings.assembleOptions]
      cases (Files.fileStem? file).bind fun stem => s.templates.lookup stem <;> rfl
    simp only [assembled, assemble, hfile, hdialect, hresolve]
    rfl
  rw [hassembled]
  -- with the template, or with the stand-in
  have hok : (∀ template ∈ s.templateFor? file, d.Reads template) →
      ∃ text, assembleScript file language d ((s.templateFor? file).getD defaultTemplate) tree
        s.indentWidth = .ok text := by
    intro hreads
    refine assembleScript_of_reads ?_ file language tree s.indentWidth
    cases htemplate : s.templateFor? file with
    | none => exact reads_defaultTemplate d
    | some template => exact hreads template htemplate
  have herror : (∃ template ∈ s.templateFor? file, ¬ d.Reads template) →
      assembleScript file language d ((s.templateFor? file).getD defaultTemplate) tree
        s.indentWidth = .error (.unreadableTemplate file) := by
    rintro ⟨template, htemplate, hreads⟩
    rw [Option.mem_def.mp htemplate]
    exact assembleScript_of_not_reads hreads file language tree s.indentWidth
  refine ⟨⟨?_, hok⟩, herror, fun hnone => ?_, fun hts => ?_⟩
  · rintro ⟨text, htext⟩ template htemplate
    by_contra hreads
    rw [herror ⟨template, htemplate, hreads⟩] at htext
    cases htext
  · exact hok fun template htemplate => by simp [hnone] at htemplate
  · refine hok fun template htemplate => ?_
    obtain ⟨stem, hmem⟩ := Settings.mem_templates_of_templateFor? htemplate
    subst hts
    obtain rfl := Option.some.inj hdialect
    exact hs.reads hmem

/-- Settings with a template whose export has a type. -/
def typedTemplate : Settings :=
  { Settings.default with templates := [("terms", "export const Title: string = \"\";\n")] }

/-- A TypeScript file is assembled from it. -/
theorem assemble_new_script_typed :
    typedTemplate.IsValid ∧ Language.ofFileName? "terms.ts" = some .typeScript ∧
    Language.typeScript.dialect? = some ⟨true, false⟩ ∧
    ∃ text, assemble "terms.ts" [("Title", .literal "x")] [] none typedTemplate.assembleOptions
      = .ok text := by
  have hvalid : typedTemplate.IsValid := by decide +kernel
  have hfile : Language.ofFileName? "terms.ts" = some .typeScript := by decide
  exact ⟨hvalid, hfile, rfl,
    (assemble_new_script hvalid hfile rfl [("Title", .literal "x")] []).2.2.2 rfl⟩

/-- But no JavaScript file, since types are none of JavaScript. -/
theorem exists_unassembled_template :
    typedTemplate.IsValid ∧ Language.ofFileName? "terms.js" = some .javaScript ∧
    assemble "terms.js" [("Title", .literal "x")] [] none typedTemplate.assembleOptions
      = .error (.unreadableTemplate "terms.js") := by
  decide +kernel

end LocaleEditor
