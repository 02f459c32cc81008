/-
LocaleEditor.Proofs.Session.Unreadable — exporting over a file that cannot be read.

A target that cannot be read is opened as if nothing were translated. A script
is changed in place, so that whoever assembles it has to read it again and
fails. JSON is written anew, and its present text is not looked at a second
time: what is assembled has nothing of it.

* `Language.readTree_of_rejects` — how the file is opened.
* `assemble_unreadable` — what is assembled from it after any edits.
* `exists_unreadable_replaced` — so JSON that cannot be read is lost.
-/
import LocaleEditor.Proofs.Json.RoundTrip
import LocaleEditor.Proofs.Session.Reopening
import LocaleEditor.Proofs.Settings.Templates

namespace LocaleEditor

/-- The text cannot be read in the language: a script that exports nothing or is none, or JSON that
is no object or is none. -/
def Language.Rejects (language : Language) (text : String) : Prop :=
  match language.dialect? with
  | some d => ¬ d.Reads text
  | none => LooseJson.readTree? text.toList = none

/-- Every language but JSON is one of scripts. -/
theorem Language.exists_dialect {language : Language} (h : language ≠ .json) :
    ∃ d, language.dialect? = some d := by
  cases language with
  | json => exact absurd rfl h
  | _ => exact ⟨_, rfl⟩

theorem Language.readTree_of_rejects {language : Language} {text : String}
    (h : language.Rejects text) : language.readTree text = [] := by
  unfold Rejects at h
  unfold readTree
  cases hdialect : language.dialect? with
  | none =>
    rw [hdialect] at h
    exact congrArg (·.getD []) h
  | some d =>
    rw [hdialect] at h
    dsimp only at h ⊢
    cases hread : Script.readExports d text.toList with
    | ok exports => exact absurd ⟨exports, hread⟩ h
    | error e => rfl

namespace Session

variable {source : LocaleSource} {drafts : DraftStore} {request : SessionRequest}
  {session : Session} {locale text : String} {language : Language}

/-- What is opened over a text that cannot be read: the draft alone. -/
theorem start_unreadable (hopen : start source drafts request = .ok session)
    (htarget : request.target = some locale)
    (htext : source.fileText? locale request.file = .ok (some text))
    (hlanguage : Language.ofFileName? request.file = some language)
    (hrejects : language.Rejects text) :
    session.request = request ∧ session.existing = some text ∧
      session.edit = ((drafts.load? locale request.file).map (Tree.merge [])).getD [] := by
  unfold start at hopen
  cases href : source.fileText? request.reference request.file with
  | error e => simp [hlanguage, href] at hopen
  | ok reference =>
    simp only [hlanguage, href, readTarget, htarget, htext, Except.ok.injEq] at hopen
    subst hopen
    refine ⟨rfl, rfl, ?_⟩
    simp only [openedTree, Option.getD_some, Language.readTree_of_rejects hrejects]
    cases drafts.load? locale request.file <;> rfl

/-- After any edits to a file that cannot be read, a script cannot be assembled, and JSON consists
of the draft and the edits. -/
theorem assemble_unreadable (hopen : start source drafts request = .ok session)
    (htarget : request.target = some locale)
    (htext : source.fileText? locale request.file = .ok (some text))
    (hlanguage : Language.ofFileName? request.file = some language)
    (hrejects : language.Rejects text) (store : DraftStore)
    (edits : List (List String × Option Node)) (options : AssembleOptions) :
    let assembled := (session.setAll store edits).1.assemble options
    (language ≠ .json → assembled = .error (.unreadableTemplate request.file)) ∧
    (language = .json → assembled = .ok (Json.render options.indentWidth
      (edits.foldl (fun t e => t.setAt e.1 e.2)
        (((drafts.load? locale request.file).map (Tree.merge [])).getD []))
      session.reference)) := by
  intro assembled
  obtain ⟨hrequest, hexisting, hedit⟩ :=
    start_unreadable hopen htarget htext hlanguage hrejects
  have hassembled : assembled = LocaleEditor.assemble request.file
      (edits.foldl (fun t e => t.setAt e.1 e.2) session.edit) session.reference (some text)
      options := by
    simp only [assembled, setAll_eq, Session.assemble, hrequest, hexisting]
  refine ⟨fun hscript => ?_, ?_⟩
  · obtain ⟨d, hdialect⟩ := Language.exists_dialect hscript
    unfold Language.Rejects at hrejects
    rw [hdialect] at hrejects
    rw [hassembled, LocaleEditor.assemble, hlanguage]
    simp only [hdialect]
    exact assembleScript_of_not_reads hrejects request.file language _ options.indentWidth
  · rintro rfl
    rw [hassembled, assemble_json hlanguage, hedit]

/-- A script that was cut off is not overwritten by an edit. -/
theorem assemble_unreadable_script :
    let source := LocaleSource.ofTexts [("fr/a.ts", "export default \x7b a: ")]
    let request : SessionRequest := ⟨"a.ts", "en", some "fr"⟩
    ∃ session, start source .empty request = .ok session ∧
      source.fileText? "fr" "a.ts" = .ok (some "export default \x7b a: ") ∧
      Language.typeScript.Rejects "export default \x7b a: " ∧
      (session.setAll .empty [(["a"], some (.literal "x"))]).1.assemble ⟨4, []⟩
        = .error (.unreadableTemplate "a.ts") := by
  intro source request
  have hlanguage : Language.ofFileName? "a.ts" = some .typeScript := by decide
  have htext : source.fileText? "fr" "a.ts" = .ok (some "export default \x7b a: ") := by
    simp only [source, LocaleSource.ofTexts]
    exact congrArg Except.ok (by decide)
  have href : source.fileText? "en" "a.ts" = .ok none := by
    simp only [source, LocaleSource.ofTexts]
    exact congrArg Except.ok (by decide)
  have hrejects : Language.typeScript.Rejects "export default \x7b a: " := by
    show ¬ Dialect.Reads ⟨true, false⟩ "export default \x7b a: "
    decide +kernel
  have hopen : start source .empty request = .ok ⟨request,
      Language.typeScript.readTree Language.typeScript.emptyDocument,
      openedTree .typeScript .empty "a.ts" (some "export default \x7b a: ") (some "fr"),
      some "export default \x7b a: "⟩ := by
    simp only [start, request, hlanguage, href, readTarget, htext, Option.getD_none]
  exact ⟨_, hopen, htext, hrejects,
    (assemble_unreadable hopen rfl htext hlanguage hrejects .empty _ ⟨4, []⟩).1 (by decide)⟩

/-- The French file with its last brace missing. -/
def cutText : String := "\x7b\"a\":\"x\",\"b\":\"y\""

theorem rejects_cutText : Language.json.Rejects cutText := by
  have htokens : LooseJson.tokens? cutText.toList = some [.openBrace, .string ['a'], .colon,
      .string ['x'], .comma, .string ['b'], .colon, .string ['y']] := by
    decide +kernel
  show LooseJson.readTree? cutText.toList = none
  rw [LooseJson.readTree?, LooseJson.parse?, htokens]
  rfl

/-- JSON that cannot be read is overwritten. -/
theorem exists_unreadable_replaced :
    ¬ ∀ (source : LocaleSource) (drafts : DraftStore) (request : SessionRequest)
        (session : Session) (locale text : String) (language : Language),
      start source drafts request = .ok session → request.target = some locale →
      source.fileText? locale request.file = .ok (some text) →
      Language.ofFileName? request.file = some language → language.Rejects text →
      ∀ store edits options, ∃ e, (session.setAll store edits).1.assemble options = .error e := by
  intro h
  have hlanguage : Language.ofFileName? "a.json" = some .json := by decide
  have htext : (LocaleSource.ofTexts [("fr/a.json", cutText)]).fileText? "fr" "a.json"
      = .ok (some cutText) := congrArg Except.ok (by decide)
  have href : (LocaleSource.ofTexts [("fr/a.json", cutText)]).fileText? "en" "a.json"
      = .ok none := congrArg Except.ok (by decide)
  have hopen : start (.ofTexts [("fr/a.json", cutText)]) .empty frenchRequest
      = .ok ⟨frenchRequest, [], [], some cutText⟩ := by
    simp only [start, frenchRequest, hlanguage, href, readTarget, htext, openedTree,
      Option.getD_none, Option.getD_some, readTree_emptyDocument,
      Language.readTree_of_rejects rejects_cutText, DraftStore.load?, DraftStore.empty,
      List.lookup_nil]
  obtain ⟨e, herror⟩ := h _ _ _ _ "fr" cutText .json hopen rfl htext hlanguage rejects_cutText
    .empty [] ⟨4, []⟩
  have hwritten : ((Session.mk frenchRequest [] [] (some cutText)).setAll .empty []).1.assemble
      ⟨4, []⟩ = .ok (Json.render 4 [] []) :=
    assemble_json hlanguage [] [] (some cutText) ⟨4, []⟩
  rw [hwritten] at herror
  cases herror

end Session

end LocaleEditor
