/-
LocaleEditor.Proofs.Workbench.LastDrafts — a draft is what was last written for its file.

All drafts lie in one store, under one text made of the locale and the file.
Names of files may hold slashes; as long as names of locales do not, the text
tells which locale and which file it is for (`fileKey_inj`), and what is
written for one file is seen under no other.

* `Step.write?` — what a step writes, said without the store.
* `load?_after` — the step; `Plain.after` — what has to stay true for it.
* `load?_eq_last` — every draft that is found is the last one that was
  written, and as many drafts are counted as can be found.
-/
import LocaleEditor.Proofs.Workbench.Invariants
import LocaleEditor.Proofs.Session.Reopening
import Mathlib.Data.Set.Card

namespace LocaleEditor

/-! ## 1. Keys -/

/-- The name of a locale has no slash in it. -/
def PlainLocale (locale : String) : Prop := '/' ∉ locale.toList

instance (locale : String) : Decidable (PlainLocale locale) :=
  inferInstanceAs (Decidable ('/' ∉ locale.toList))

theorem append_cons_inj {a b r s : List Char} (ha : '/' ∉ a) (hb : '/' ∉ b)
    (h : a ++ '/' :: r = b ++ '/' :: s) : a = b ∧ r = s := by
  induction a generalizing b with
  | nil =>
    cases b with
    | nil => exact ⟨rfl, (List.cons.inj h).2⟩
    | cons c b => exact absurd (List.mem_cons.mpr (.inl (List.cons.inj h).1)) hb
  | cons c a ih =>
    cases b with
    | nil => exact absurd (List.mem_cons.mpr (.inl (List.cons.inj h).1.symm)) ha
    | cons d b =>
      obtain ⟨rfl, htail⟩ := List.cons.inj h
      obtain ⟨rfl, rfl⟩ := ih (fun hm => ha (List.mem_cons_of_mem _ hm))
        (fun hm => hb (List.mem_cons_of_mem _ hm)) htail
      exact ⟨rfl, rfl⟩

/-- The first slash of a key ends the name of the locale. -/
theorem fileKey_inj {locale locale' file file' : String} (h : PlainLocale locale)
    (h' : PlainLocale locale') :
    fileKey locale file = fileKey locale' file' ↔ locale = locale' ∧ file = file' := by
  refine ⟨fun heq => ?_, fun ⟨hl, hf⟩ => hl ▸ hf ▸ rfl⟩
  have hlists := congrArg String.toList heq
  simp only [fileKey, String.toList_append, List.append_assoc] at hlists
  obtain ⟨hl, hf⟩ := append_cons_inj h h' hlists
  exact ⟨String.toList_injective hl, String.toList_injective hf⟩

namespace DraftStore

variable {s : DraftStore} {tree : Tree} {locale file other : String} {key : String}

/-! ## 2. The store -/

theorem lookup_dropKey_of_ne (h : key ≠ other) (drafts : List (String × Tree)) :
    (dropKey key drafts).lookup other = drafts.lookup other := by
  induction drafts with
  | nil => rfl
  | cons d r ih =>
    obtain ⟨k, t⟩ := d
    rw [List.lookup_cons, ← ih]
    by_cases hk : k = key
    · have hne : (other == k) = false := by simpa [hk] using Ne.symm h
      rw [dropKey, List.filter_cons_of_neg (by simpa using hk), hne]
      rfl
    · rw [dropKey, List.filter_cons_of_pos (by simpa using hk), List.lookup_cons]
      rfl

/-- What is kept under other keys does not change. -/
theorem load?_clear_of_ne {locale' file' : String}
    (h : fileKey locale file ≠ fileKey locale' file') :
    (s.clear locale file).load? locale' file' = s.load? locale' file' :=
  lookup_dropKey_of_ne h s.drafts

theorem load?_save_of_ne {locale' file' : String}
    (h : fileKey locale file ≠ fileKey locale' file') :
    (s.save tree locale file).load? locale' file' = s.load? locale' file' := by
  have hne : (fileKey locale' file' == fileKey locale file) = false := by simpa using Ne.symm h
  simpa [load?, save, List.lookup_cons, hne] using lookup_dropKey_of_ne h s.drafts

theorem load?_persist_of_ne {locale' file' : String}
    (h : fileKey locale file ≠ fileKey locale' file') :
    (s.persist tree locale file).load? locale' file' = s.load? locale' file' := by
  unfold persist
  split
  · exact load?_clear_of_ne h
  · exact load?_save_of_ne h

/-- Every key is that of a file in a locale without a slash in its name. -/
def Plain (s : DraftStore) : Prop :=
  ∀ d ∈ s.drafts, ∃ locale file, PlainLocale locale ∧ d.1 = fileKey locale file

theorem Plain.save (h : s.Plain) (hlocale : PlainLocale locale) :
    (s.save tree locale file).Plain :=
  forall_save h ⟨locale, file, hlocale, rfl⟩

theorem Plain.persist (h : s.Plain) (hlocale : PlainLocale locale) :
    (s.persist tree locale file).Plain :=
  forall_persist h ⟨locale, file, hlocale, rfl⟩

/-- The files that have a draft. -/
def held (s : DraftStore) : Set (String × String) :=
  {p | PlainLocale p.1 ∧ (s.load? p.1 p.2).isSome}

/-- There is one draft for each of them. -/
theorem encard_held (h : s.Plain) : s.held.encard = s.size := by
  -- files and keys correspond
  have himage : (fun p : String × String => fileKey p.1 p.2) '' s.held
      = ((s.drafts.map Prod.fst).toFinset : Set String) := by
    ext k
    simp only [Set.mem_image, List.coe_toFinset, Set.mem_ofPred_eq]
    constructor
    · rintro ⟨p, ⟨-, hload⟩, rfl⟩
      obtain ⟨t, ht⟩ := Option.isSome_iff_exists.mp hload
      by_contra hmem
      rw [load?, lookup_eq_none_of_notMem hmem] at ht
      cases ht
    · intro hk
      obtain ⟨d, hd, rfl⟩ := List.mem_map.mp hk
      obtain ⟨locale, file, hlocale, hkey⟩ := h d hd
      refine ⟨(locale, file), ⟨hlocale, ?_⟩, hkey.symm⟩
      rw [load?, ← hkey, List.lookup_isSome_iff]
      exact ⟨d, hd, by simp⟩
  have hinj : Set.InjOn (fun p : String × String => fileKey p.1 p.2) s.held := by
    rintro ⟨l, f⟩ hp ⟨l', f'⟩ hq heq
    obtain ⟨rfl, rfl⟩ := (fileKey_inj hp.1 hq.1).mp heq
    rfl
  rw [← hinj.encard_image, himage, Set.encard_coe_eq_coe_finsetCard,
    List.toFinset_card_of_nodup s.distinct, List.length_map]
  rfl

end DraftStore

namespace Workbench

/-! ## 3. What steps write -/

/-- A draft that is written for a file of a locale, or that the file has none any more. -/
structure Write where
  locale : String
  file : String
  draft : Option Tree

/-- What becomes the draft of a tree: nothing if nothing in it is translated. -/
def kept (t : Tree) : Option Tree := if Tree.isBlank t then none else some t

/-- What a step writes. An edit writes the tree that it leaves in its session, if that has a
target. -/
def Step.write? (w : Workbench) : Step → Option Write
  | .save tree locale file => some ⟨locale, file, some tree⟩
  | .persist tree locale file => some ⟨locale, file, kept tree⟩
  | .clear locale file => some ⟨locale, file, none⟩
  | .set i path node =>
    w.sessions[i]?.bind fun session => session.request.target.map fun locale =>
      ⟨locale, session.request.file, kept (session.edit.setAt path node)⟩
  | _ => none

/-- All that is written by steps in a row, in order. -/
def writes (w : Workbench) : List Step → List Write
  | [] => []
  | step :: steps => (step.write? w).toList ++ (w.after step).writes steps

/-- The draft that was last written for a file. -/
def lastDraft? (locale file : String) (written : List Write) : Option Tree :=
  (written.filter fun x => x.locale = locale ∧ x.file = file).getLast?.bind Write.draft

variable {w : Workbench} {locale file : String}

theorem run_concat (steps : List Step) (step : Step) :
    w.run (steps ++ [step]) = (w.run steps).after step := by
  simp [run]

theorem writes_concat (steps : List Step) (step : Step) :
    w.writes (steps ++ [step]) = w.writes steps ++ (step.write? (w.run steps)).toList := by
  induction steps generalizing w with
  | nil => simp [writes, run]
  | cons s steps ih => simp [writes, ih, run]

theorem lastDraft?_concat (written : List Write) (x : Write) :
    lastDraft? locale file (written ++ [x])
      = if x.locale = locale ∧ x.file = file then x.draft else lastDraft? locale file written := by
  unfold lastDraft?
  rw [List.filter_append]
  by_cases hx : x.locale = locale ∧ x.file = file
  · simp [hx]
  · simp [hx]

/-! ## 4. Steps -/

/-- The locale whose draft the step reads or writes has no slash in its name. -/
def Step.Plain : Step → Prop
  | .load locale _ => PlainLocale locale
  | .save _ locale _ => PlainLocale locale
  | .persist _ locale _ => PlainLocale locale
  | .clear locale _ => PlainLocale locale
  | .start _ request => ∀ locale ∈ request.target, PlainLocale locale
  | _ => True

/-- No target and no key is of a locale with a slash in its name. -/
structure Plain (w : Workbench) : Prop where
  target : ∀ s ∈ w.sessions, ∀ locale ∈ s.request.target, PlainLocale locale
  drafts : w.drafts.Plain

theorem plain_empty : Plain empty where
  target _ hs := absurd hs List.not_mem_nil
  drafts _ hd := absurd hd List.not_mem_nil

/-- An edit in a session with a target. -/
theorem after_set {session : Session} {i : Nat} {path : List String} {node : Option Node}
    (hsession : w.sessions[i]? = some session) (htarget : session.request.target = some locale) :
    w.after (.set i path node)
      = ⟨w.sessions.set i { session with edit := session.edit.setAt path node },
          w.drafts.persist (session.edit.setAt path node) locale session.request.file⟩ := by
  simp [after, hsession, Session.set, htarget]

/-- An edit in a session without a target. -/
theorem after_set_none {session : Session} {i : Nat} {path : List String} {node : Option Node}
    (hsession : w.sessions[i]? = some session) (htarget : session.request.target = none) :
    w.after (.set i path node)
      = { w with
          sessions := w.sessions.set i { session with edit := session.edit.setAt path node } } := by
  simp [after, hsession, Session.set, htarget]

theorem Plain.set {session : Session} {i : Nat} {path : List String} {node : Option Node}
    (h : w.Plain) (hsession : w.sessions[i]? = some session) :
    (w.after (.set i path node)).Plain := by
  have hmem : session ∈ w.sessions := List.mem_of_getElem? hsession
  have htargets : ∀ s ∈ w.sessions.set i { session with edit := session.edit.setAt path node },
      ∀ locale ∈ s.request.target, PlainLocale locale :=
    forall_mem_set h.target i (h.target session hmem)
  cases htarget : session.request.target with
  | none =>
    rw [after_set_none hsession htarget]
    exact ⟨htargets, h.drafts⟩
  | some locale =>
    rw [after_set hsession htarget]
    exact ⟨htargets, h.drafts.persist (h.target session hmem locale htarget)⟩

theorem Plain.after {step : Step} (h : w.Plain) (hstep : step.Plain) : (w.after step).Plain := by
  cases step with
  | save tree locale file => exact { h with drafts := h.drafts.save hstep }
  | persist tree locale file => exact { h with drafts := h.drafts.persist hstep }
  | clear locale file => exact { h with drafts := DraftStore.forall_clear h.drafts locale file }
  | start source request =>
    unfold Workbench.after
    dsimp only
    split
    · next session hstart =>
      have htarget : ∀ locale ∈ session.request.target, PlainLocale locale := by
        rw [Session.start_request hstart]
        exact hstep
      exact { h with target := forall_mem_concat h.target htarget }
    · exact h
  | set i path node =>
    cases hsession : w.sessions[i]? with
    | none => simpa [Workbench.after, hsession] using h
    | some session => exact h.set hsession
  | _ => exact h

theorem Plain.run {steps : List Step} (h : w.Plain) (hsteps : ∀ step ∈ steps, step.Plain) :
    (w.run steps).Plain :=
  run_induction (fun _ _ hw hstep => hw.after hstep) h hsteps

/-- A step that writes nothing leaves all drafts as they are. -/
theorem drafts_after_of_none {step : Step} (h : step.write? w = none) :
    (w.after step).drafts = w.drafts := by
  cases step with
  | save | persist | clear => cases h
  | load | events | assemble => rfl
  | start source request =>
    unfold after
    dsimp only
    split <;> rfl
  | set i path node =>
    cases hsession : w.sessions[i]? with
    | none => simp [after, hsession]
    | some session =>
      cases htarget : session.request.target with
      | none => rw [after_set_none hsession htarget]
      | some locale => simp [Step.write?, hsession, htarget] at h

/-- What a step leaves as the draft of a file: what it writes if that is for the file, and
otherwise what was there. -/
theorem load?_after (step : Step) (hw : w.Plain) (hstep : step.Plain)
    (hlocale : PlainLocale locale) (file : String) :
    (w.after step).drafts.load? locale file = match step.write? w with
      | some x =>
        if x.locale = locale ∧ x.file = file then x.draft else w.drafts.load? locale file
      | none => w.drafts.load? locale file := by
  have persist : ∀ (tree : Tree) (locale' file' : String), PlainLocale locale' →
      (w.drafts.persist tree locale' file').load? locale file
        = if locale' = locale ∧ file' = file then kept tree else w.drafts.load? locale file := by
    intro tree locale' file' hplain
    split
    · next h =>
      obtain ⟨rfl, rfl⟩ := h
      exact w.drafts.load?_persist locale' file' tree
    · next h =>
      exact DraftStore.load?_persist_of_ne fun heq => h ((fileKey_inj hplain hlocale).mp heq)
  cases step with
  | save tree locale' file' =>
    dsimp only [Step.write?, after]
    split
    · next h =>
      obtain ⟨rfl, rfl⟩ := h
      exact w.drafts.load?_save locale' file' tree
    · next h => exact DraftStore.load?_save_of_ne fun heq => h ((fileKey_inj hstep hlocale).mp heq)
  | persist tree locale' file' => exact persist tree locale' file' hstep
  | clear locale' file' =>
    dsimp only [Step.write?, after]
    split
    · next h =>
      obtain ⟨rfl, rfl⟩ := h
      exact w.drafts.load?_clear locale' file'
    · next h => exact DraftStore.load?_clear_of_ne fun heq => h ((fileKey_inj hstep hlocale).mp heq)
  | set i path node =>
    cases hwrite : Step.write? w (.set i path node) with
    | none => rw [drafts_after_of_none hwrite]
    | some x =>
      obtain ⟨session, hsession, hx⟩ := Option.bind_eq_some_iff.mp hwrite
      obtain ⟨target, htarget, rfl⟩ := Option.map_eq_some_iff.mp hx
      rw [after_set hsession htarget]
      exact persist _ target _ (hw.target session (List.mem_of_getElem? hsession) target htarget)
  | load | start | events | assemble => rw [drafts_after_of_none rfl]; rfl

/-! ## 5. Runs -/

/-- After steps in a row, what was last written is what is found. -/
theorem load?_run {steps : List Step} (hsteps : ∀ step ∈ steps, step.Plain)
    (hlocale : PlainLocale locale) (file : String) :
    (empty.run steps).drafts.load? locale file
      = lastDraft? locale file (empty.writes steps) := by
  induction steps using List.reverseRecOn with
  | nil => rfl
  | append_singleton steps step ih =>
    have hbefore : ∀ s ∈ steps, s.Plain := fun s hs => hsteps s (List.mem_append_left _ hs)
    have hstep : step.Plain := hsteps step (List.mem_append_right _ List.mem_cons_self)
    rw [run_concat, writes_concat, load?_after step (plain_empty.run hbefore) hstep hlocale,
      ih hbefore]
    cases step.write? (empty.run steps) with
    | none => simp
    | some x => exact (lastDraft?_concat _ x).symm

/-- However sessions and drafts are used, as long as no locale has a slash in its name: the draft
of a file is what was last written for it, by saving it, by keeping a tree that is not blank or by
an edit that left one, and there is none where nothing was written or the last thing was to clear
it. There are as many drafts as files that have one. An edit in a session with a target makes the
edited tree the draft of that target, or clears it if the tree is blank, and changes no other
draft. No other step than these writes: not opening, whether or not it succeeds, not showing or
assembling, and not an edit in a session without a target. -/
theorem load?_eq_last (steps : List Step) (hsteps : ∀ step ∈ steps, step.Plain) :
    let w := empty.run steps
    (∀ locale file, PlainLocale locale →
      w.drafts.load? locale file = lastDraft? locale file (empty.writes steps)) ∧
    {p : String × String | PlainLocale p.1 ∧ (w.drafts.load? p.1 p.2).isSome}.encard
      = w.drafts.size ∧
    (∀ i path node session locale, w.sessions[i]? = some session →
      session.request.target = some locale → ∃ edited,
        (w.after (.set i path node)).sessions[i]? = some edited ∧
        edited = { session with edit := session.edit.setAt path node } ∧
        ∀ locale' file', PlainLocale locale' →
          (w.after (.set i path node)).drafts.load? locale' file'
            = if locale' = locale ∧ file' = session.request.file then
                if Tree.isBlank edited.edit then none else some edited.edit
              else w.drafts.load? locale' file') ∧
    (∀ i path node session, w.sessions[i]? = some session → session.request.target = none →
      (w.after (.set i path node)).drafts = w.drafts) ∧
    (∀ source request, (w.after (.start source request)).drafts = w.drafts) ∧
    ∀ i hideTranslated options, (w.after (.events i hideTranslated)).drafts = w.drafts ∧
      (w.after (.assemble i options)).drafts = w.drafts := by
  intro w
  have hw : w.Plain := plain_empty.run hsteps
  refine ⟨fun locale file hlocale => load?_run hsteps hlocale file,
    DraftStore.encard_held hw.drafts, ?_, ?_, fun source request => ?_,
    fun i hideTranslated options => ⟨rfl, rfl⟩⟩
  · intro i path node session locale hsession htarget
    refine ⟨_, ?_, rfl, fun locale' file' hlocale' => ?_⟩
    · rw [after_set hsession htarget]
      exact List.getElem?_set_self (List.getElem?_eq_some_iff.mp hsession).1
    · have hload := load?_after (.set i path node) hw trivial hlocale' file'
      simp only [Step.write?, hsession, htarget, Option.bind_some, Option.map_some] at hload
      rw [hload]
      simp only [eq_comm, kept]
  · intro i path node session hsession htarget
    rw [after_set_none hsession htarget]
  · exact drafts_after_of_none rfl

/-- A file is opened and a text is deleted in it, while other drafts come and go. -/
def mixedSteps : List Step := [
  .start (.ofTexts [("fr/a.json", Session.frenchText)]) Session.frenchRequest,
  .save [("a", .literal "y")] "de" "a.json",
  .save [("a", .literal "x")] "fr" "b/a.json",
  .set 0 ["b"] none,
  .clear "fr" "b/a.json"]

theorem after_start_french :
    empty.after (.start (.ofTexts [("fr/a.json", Session.frenchText)]) Session.frenchRequest)
      = ⟨[Session.frenchOpened], .empty⟩ := by
  have hstart := Session.start_french
  simp only [after, empty, hstart, List.nil_append]

/-- The edit is the draft of its file, and each other file has its own draft or none. -/
theorem load?_eq_last_mixed :
    (∀ step ∈ mixedSteps, step.Plain) ∧
    (empty.run mixedSteps).drafts.load? "fr" "a.json" = some [("a", .literal "x")] ∧
    (empty.run mixedSteps).drafts.load? "de" "a.json" = some [("a", .literal "y")] ∧
    (empty.run mixedSteps).drafts.load? "fr" "b/a.json" = none := by
  have hfr : PlainLocale "fr" := by decide
  have hde : PlainLocale "de" := by decide
  have hsteps : ∀ step ∈ mixedSteps, step.Plain := by
    simp [mixedSteps, Step.Plain, Session.frenchRequest, hfr, hde]
  have hwrites : empty.writes mixedSteps = [⟨"de", "a.json", some [("a", .literal "y")]⟩,
      ⟨"fr", "b/a.json", some [("a", .literal "x")]⟩, ⟨"fr", "a.json", some [("a", .literal "x")]⟩,
      ⟨"fr", "b/a.json", none⟩] := by
    rw [mixedSteps, writes, after_start_french]
    rfl
  have hlast := (load?_eq_last mixedSteps hsteps).1
  refine ⟨hsteps, ?_, ?_, ?_⟩
  · rw [hlast "fr" "a.json" hfr, hwrites]
    rfl
  · rw [hlast "de" "a.json" hde, hwrites]
    rfl
  · rw [hlast "fr" "b/a.json" hfr, hwrites]
    rfl

end Workbench

end LocaleEditor
