/-
LocaleEditor.Proofs.Session.Reopening — a file that is opened again after edits.

The session keeps its whole tree as the draft after each edit, and opening the
file again lays that draft over what the file says. Two things can make the
tree come back changed, both of them meant: a tree with nothing translated in
it leaves no draft, so the file is shown as it is, and a merge never removes
what the file has, so an entry that was deleted comes back.

* `start_again` — what opening again shows, for any store.
* `setAll_eq`, `load?_setAll` — the step of one edit, and a run of edits.
* `reopen` — when the tree comes back as it was left, and what is shown if not.
-/
import LocaleEditor.Session
import LocaleEditor.Proofs.LocaleFile
import LocaleEditor.Proofs.Tree.Overlay

namespace LocaleEditor

open LocaleEditor.Tree

/-! ## 1. Drafts that are kept -/

namespace DraftStore

variable (s : DraftStore) (locale file : String)

theorem lookup_eq_none_of_notMem {key : String} {drafts : List (String × Tree)}
    (h : key ∉ drafts.map Prod.fst) : drafts.lookup key = none :=
  List.lookup_eq_none_iff.mpr fun d hd => by
    simpa using fun heq : key = d.1 => h (heq ▸ List.mem_map_of_mem hd)

theorem load?_clear : (s.clear locale file).load? locale file = none :=
  lookup_eq_none_of_notMem (notMem_dropKey _ _)

theorem load?_save (tree : Tree) : (s.save tree locale file).load? locale file = some tree := by
  simp [load?, save]

/-- A tree is found again unless nothing in it is translated. -/
theorem load?_persist (tree : Tree) : (s.persist tree locale file).load? locale file
    = if Tree.isBlank tree then none else some tree := by
  unfold persist
  split
  · exact s.load?_clear locale file
  · exact s.load?_save locale file tree

end DraftStore

namespace Session

/-! ## 2. Opening -/

/-- What the target's text says, before any draft. -/
def fileTree (s : Session) : Tree :=
  match Language.ofFileName? s.request.file with
  | some language => language.readTree (s.existing.getD language.emptyDocument)
  | none => []

theorem fileTree_unique (s : Session) : s.fileTree.Unique := by
  unfold fileTree
  split
  · exact Language.readTree_unique _ _
  · exact unique_nil

/-- The tree that a draft of the target gives. -/
def treeOver (s : Session) (locale : String) (drafts : DraftStore) : Tree :=
  match drafts.load? locale s.request.file with
  | some draft => s.fileTree.merge draft
  | none => s.fileTree

variable {source : LocaleSource} {drafts store : DraftStore} {request : SessionRequest}
  {session edited : Session} {locale : String}

theorem start_request (h : start source drafts request = .ok session) :
    session.request = request := by
  unfold start at h
  split at h
  · cases h
  split at h
  · cases h
  split at h
  · cases h
  · exact Except.ok.inj h ▸ rfl

/-- Opening the same file again differs in nothing but the draft. -/
theorem start_again (h : start source drafts request = .ok session)
    (htarget : request.target = some locale) (store : DraftStore) :
    start source store request = .ok { session with edit := session.treeOver locale store } := by
  unfold start at h ⊢
  cases hlanguage : Language.ofFileName? request.file with
  | none => simp [hlanguage] at h
  | some language =>
    cases href : source.fileText? request.reference request.file with
    | error e => simp [hlanguage, href] at h
    | ok reference =>
      cases htext : readTarget source request.file request.target with
      | error e => simp [hlanguage, href, htext] at h
      | ok existing =>
        simp only [hlanguage, href, htext, Except.ok.injEq] at h
        subst h
        cases hload : store.load? locale request.file <;>
          simp [htarget, openedTree, treeOver, fileTree, hlanguage, hload]

/-- An opened tree has all that the file says, in its order. -/
theorem covers_treeOver (s : Session) (locale : String) (drafts : DraftStore) :
    (s.treeOver locale drafts).Covers s.fileTree := by
  unfold treeOver
  split
  · exact covers_merge s.fileTree_unique _
  · exact covers_self s.fileTree_unique

/-! ## 3. Edits -/

/-- Sets or removes nodes one after another. -/
def setAll (s : Session) (drafts : DraftStore) :
    List (List String × Option Node) → Session × DraftStore
  | [] => (s, drafts)
  | (path, node) :: r =>
    let (s', drafts') := s.set path node drafts
    s'.setAll drafts' r

/-- Edits change nothing of a session but its tree. -/
theorem setAll_eq (edits : List (List String × Option Node)) (s : Session) (drafts : DraftStore) :
    (s.setAll drafts edits).1
      = { s with edit := edits.foldl (fun t e => t.setAt e.1 e.2) s.edit } := by
  induction edits generalizing s drafts with
  | nil => rfl
  | cons e r ih => exact ih (s.set e.1 e.2 drafts).1 (s.set e.1 e.2 drafts).2

/-- After each edit the draft is the tree of the session, and there is none if nothing in the tree
is translated. -/
theorem load?_set (s : Session) (path : List String) (node : Option Node) (drafts : DraftStore)
    (htarget : s.request.target = some locale) :
    (s.set path node drafts).2.load? locale s.request.file
      = if Tree.isBlank (s.set path node drafts).1.edit then none
        else some (s.set path node drafts).1.edit := by
  simp only [set, htarget]
  exact drafts.load?_persist locale s.request.file _

/-- So it is after a run of edits. -/
theorem load?_setAll (edits : List (List String × Option Node)) (s : Session) (drafts : DraftStore)
    (htarget : s.request.target = some locale) (hedits : edits ≠ []) :
    (s.setAll drafts edits).2.load? locale s.request.file
      = if Tree.isBlank (s.setAll drafts edits).1.edit then none
        else some (s.setAll drafts edits).1.edit := by
  induction edits generalizing s drafts with
  | nil => exact absurd rfl hedits
  | cons e r ih =>
    cases r with
    | nil => exact s.load?_set e.1 e.2 drafts htarget
    | cons e' r =>
      exact ih (s.set e.1 e.2 drafts).1 (s.set e.1 e.2 drafts).2 htarget (List.cons_ne_nil _ _)

/-- An edit that puts a node with content of its own at a path. -/
def Fills (edit : List String × Option Node) : Prop :=
  edit.1 ≠ [] ∧ ∃ n, edit.2 = some n ∧ n.isBlank = false ∧ n.entries? = none

/-- Edits that only fill keep all that the file says. -/
theorem covers_foldl {fresh : Tree} (edits : List (List String × Option Node))
    (hfills : ∀ e ∈ edits, Fills e) {t : Tree} (ht : t.Covers fresh) :
    (edits.foldl (fun t e => t.setAt e.1 e.2) t).Covers fresh := by
  induction edits generalizing t with
  | nil => exact ht
  | cons e r ih =>
    obtain ⟨hpath, n, hn, hblank, hleaf⟩ := hfills e List.mem_cons_self
    refine ih (fun e' he' => hfills e' (List.mem_cons_of_mem _ he')) ?_
    have hstep := ht.setAt hblank hleaf hpath
    rwa [← hn] at hstep

/-! ## 4. Opening again after edits -/

/-- Opening a file again, after edits were made and kept as drafts, shows the file's own tree if
nothing is translated any more, and otherwise the file's tree with the edited one laid over it; all
else is as it was. The edited tree is back exactly if it kept what the file says: without
translations if it is the file's tree, and otherwise if wherever both trees hold an object, its
keys begin with those of the file. Edits that only fill entries always keep it. -/
theorem reopen (hopen : start source drafts request = .ok session)
    (htarget : request.target = some locale) (edits : List (List String × Option Node))
    (hedits : edits ≠ []) (hset : session.setAll drafts edits = (edited, store)) :
    ∃ reopened, start source store request = .ok reopened ∧
      reopened = { session with edit := reopened.edit } ∧
      reopened.edit = (if Tree.isBlank edited.edit then session.fileTree
        else session.fileTree.merge edited.edit) ∧
      (reopened.edit = edited.edit ↔ if Tree.isBlank edited.edit
        then edited.edit = session.fileTree else edited.edit.Covers session.fileTree) ∧
      ((∀ e ∈ edits, Fills e) → Tree.isBlank edited.edit = false →
        reopened.edit = edited.edit) := by
  have htarget' : session.request.target = some locale := by rw [start_request hopen, htarget]
  have hdraft := load?_setAll edits session drafts htarget' hedits
  rw [hset] at hdraft
  have hedit : edited.edit = edits.foldl (fun t e => t.setAt e.1 e.2) session.edit := by
    have heq := setAll_eq edits session drafts
    rw [hset] at heq
    exact congrArg Session.edit heq
  -- the draft that was left decides what is shown
  have hshown : session.treeOver locale store = if Tree.isBlank edited.edit then session.fileTree
      else session.fileTree.merge edited.edit := by
    unfold treeOver
    rw [hdraft]
    split <;> rename_i h <;> split at h <;> simp_all
  have hback : session.treeOver locale store = edited.edit ↔ if Tree.isBlank edited.edit
      then edited.edit = session.fileTree else edited.edit.Covers session.fileTree := by
    rw [hshown]
    split
    · exact eq_comm
    · exact merge_eq_self_iff session.fileTree_unique
  refine ⟨_, start_again hopen htarget store, rfl, hshown, hback, fun hfills hblank => ?_⟩
  refine hback.mpr ?_
  rw [hblank, if_neg Bool.false_ne_true, hedit]
  have hopened : session.edit = session.treeOver locale drafts := by
    have hagain := hopen.symm.trans (start_again hopen htarget drafts)
    exact congrArg Session.edit (Except.ok.inj hagain)
  exact covers_foldl edits hfills (hopened ▸ session.covers_treeOver locale drafts)

/-- A French file with two texts. -/
def frenchText : String := "\x7b\"a\":\"x\",\"b\":\"y\"\x7d"

def frenchRequest : SessionRequest := ⟨"a.json", "en", some "fr"⟩

/-- The French file as it is opened; there is no English one. -/
def frenchOpened : Session :=
  ⟨frenchRequest, [], [("a", .literal "x"), ("b", .literal "y")], some frenchText⟩

theorem readTree_frenchText :
    Language.json.readTree frenchText = [("a", .literal "x"), ("b", .literal "y")] := by
  have htokens : LooseJson.tokens? frenchText.toList = some [.openBrace, .string ['a'], .colon,
      .string ['x'], .comma, .string ['b'], .colon, .string ['y'], .closeBrace] := by
    decide +kernel
  rw [Language.readTree, Language.dialect?, LooseJson.readTree?, LooseJson.parse?, htokens]
  rfl

theorem readTree_emptyDocument : Language.json.readTree Language.json.emptyDocument = [] := by
  have htokens : LooseJson.tokens? (Language.json.emptyDocument).toList
      = some [.openBrace, .closeBrace] := by
    decide +kernel
  rw [Language.readTree, Language.dialect?, LooseJson.readTree?, LooseJson.parse?, htokens]
  rfl

theorem start_french : start (.ofTexts [("fr/a.json", frenchText)]) .empty frenchRequest
    = .ok frenchOpened := by
  have hlanguage : Language.ofFileName? "a.json" = some .json := by decide
  have href : [("fr/a.json", frenchText)].lookup (fileKey "en" "a.json") = none := by decide
  have htext : [("fr/a.json", frenchText)].lookup (fileKey "fr" "a.json") = some frenchText := by
    decide
  simp only [start, hlanguage, readTarget, LocaleSource.ofTexts, openedTree, frenchRequest, href,
    htext, Option.getD_some, Option.getD_none, readTree_frenchText, readTree_emptyDocument,
    DraftStore.load?, DraftStore.empty, List.lookup_nil, frenchOpened]

/-- A text that was added is there again. -/
theorem reopen_french : ∃ reopened,
    start (.ofTexts [("fr/a.json", frenchText)])
      (frenchOpened.setAll .empty [(["c"], some (.literal "z"))]).2 frenchRequest = .ok reopened ∧
    reopened.edit = [("a", .literal "x"), ("b", .literal "y"), ("c", .literal "z")] := by
  obtain ⟨reopened, hstart, -, -, -, hfills⟩ := reopen start_french rfl
    [(["c"], some (.literal "z"))] (List.cons_ne_nil _ _) rfl
  refine ⟨reopened, hstart, hfills ?_ (by decide)⟩
  rintro e (_ | ⟨_, ⟨⟩⟩)
  exact ⟨List.cons_ne_nil _ _, .literal "z", rfl, by decide, rfl⟩

/-- A text that was deleted is there again as well, so not every tree comes back. -/
theorem exists_changed_by_reopening :
    ¬ ∀ (source : LocaleSource) (drafts : DraftStore) (request : SessionRequest)
        (session : Session) (locale : String) (edits : List (List String × Option Node)),
      start source drafts request = .ok session → request.target = some locale → edits ≠ [] →
      ∃ reopened, start source (session.setAll drafts edits).2 request = .ok reopened ∧
        reopened.edit = (session.setAll drafts edits).1.edit := by
  intro h
  have htarget : frenchRequest.target = some "fr" := rfl
  obtain ⟨reopened, hstart, hedit⟩ := h _ _ _ _ "fr" [(["b"], none)] start_french htarget
    (List.cons_ne_nil _ _)
  have hshown : frenchOpened.treeOver "fr" (frenchOpened.setAll .empty [(["b"], none)]).2
      = [("a", .literal "x"), ("b", .literal "y")] := by
    have hlanguage : Language.ofFileName? "a.json" = some .json := by decide
    have hblank : Tree.isBlank (frenchOpened.setAll .empty [(["b"], none)]).1.edit = false := by
      decide
    have hdraft := load?_setAll [(["b"], none)] frenchOpened .empty htarget
      (List.cons_ne_nil _ _)
    rw [hblank] at hdraft
    have hfile : frenchOpened.fileTree = [("a", .literal "x"), ("b", .literal "y")] := by
      simp only [fileTree, frenchOpened, frenchRequest, hlanguage, Option.getD_some,
        readTree_frenchText]
    rw [treeOver, hdraft, hfile]
    rfl
  have hstart' := start_again start_french htarget
    (frenchOpened.setAll .empty [(["b"], none)]).2
  rw [hstart'] at hstart
  have heq := congrArg Session.edit (Except.ok.inj hstart)
  rw [hedit, hshown] at heq
  have hlength := congrArg List.length heq
  exact absurd hlength (by decide)

end Session

end LocaleEditor
