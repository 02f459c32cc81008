/-
LocaleEditor.Proofs.Workbench.UniqueKeys — no tree that is reached repeats a key.

Trees come from files, from drafts and from edits. Files give trees without
repeated keys whatever they hold; edits and merges keep keys unique. What is
given from outside, that is the nodes that are set and the trees that are
saved, has to come without repeated keys.

* `Unique.after` — the step; `Unique.run` — any number of them.
* `keys_unique` — every tree that is read, and every tree that is reached.
-/
import LocaleEditor.Proofs.Workbench.Invariants
import LocaleEditor.Proofs.Tree.Unique
import LocaleEditor.Proofs.Session.Reopening

namespace LocaleEditor

open LocaleEditor.Tree

/-! ## 1. Drafts -/

namespace DraftStore

/-- No draft repeats a key. -/
def Unique (s : DraftStore) : Prop := ∀ d ∈ s.drafts, d.2.Unique

variable {s : DraftStore} {tree : Tree} {locale file : String}

theorem mem_of_load? (h : s.load? locale file = some tree) :
    (fileKey locale file, tree) ∈ s.drafts := by
  obtain ⟨before, after, hdrafts, -⟩ := List.lookup_eq_some_iff.mp h
  rw [hdrafts]
  exact List.mem_append_right _ List.mem_cons_self

theorem unique_empty : Unique empty := fun _ hd => absurd hd List.not_mem_nil

end DraftStore

/-! ## 2. Sessions -/

namespace Session

variable {source : LocaleSource} {drafts : DraftStore} {request : SessionRequest}
  {session : Session}

theorem openedTree_unique (language : Language) (hdrafts : drafts.Unique) (file : String)
    (text target : Option String) : (openedTree language drafts file text target).Unique := by
  unfold openedTree
  split
  · exact unique_nil
  · dsimp only
    split
    · next draft hload =>
      exact (Language.readTree_unique _ _).merge (hdrafts _ (DraftStore.mem_of_load? hload))
    · exact Language.readTree_unique _ _

/-- Both trees of a session that is opened. -/
theorem start_unique (h : start source drafts request = .ok session) (hdrafts : drafts.Unique) :
    session.reference.Unique ∧ session.edit.Unique := by
  unfold start at h
  split at h
  · cases h
  split at h
  · cases h
  split at h
  · cases h
  · obtain rfl := Except.ok.inj h
    exact ⟨Language.readTree_unique _ _, openedTree_unique _ hdrafts _ _ _⟩

end Session

namespace Workbench

/-! ## 3. Steps -/

/-- What the step brings in from outside repeats no key. -/
def Step.Unique : Step → Prop
  | .save tree _ _ => tree.Unique
  | .persist tree _ _ => tree.Unique
  | .set _ _ node => ∀ n ∈ node, n.Unique
  | _ => True

/-- No tree of a session and no draft repeats a key. -/
structure Unique (w : Workbench) : Prop where
  reference : ∀ s ∈ w.sessions, s.reference.Unique
  edit : ∀ s ∈ w.sessions, s.edit.Unique
  drafts : w.drafts.Unique

variable {w : Workbench}

theorem unique_empty : Unique empty where
  reference _ hs := absurd hs List.not_mem_nil
  edit _ hs := absurd hs List.not_mem_nil
  drafts := DraftStore.unique_empty

theorem Unique.addSession {session : Session} (h : w.Unique)
    (hsession : session.reference.Unique ∧ session.edit.Unique) :
    Unique { w with sessions := w.sessions ++ [session] } where
  reference := forall_mem_concat h.reference hsession.1
  edit := forall_mem_concat h.edit hsession.2
  drafts := h.drafts

theorem Unique.set {session : Session} {i : Nat} {path : List String} {node : Option Node}
    (h : w.Unique) (hsession : session ∈ w.sessions) (hnode : ∀ n ∈ node, n.Unique) :
    Unique ⟨w.sessions.set i (session.set path node w.drafts).1,
      (session.set path node w.drafts).2⟩ := by
  have hedit : (session.edit.setAt path node).Unique := (h.edit session hsession).setAt path hnode
  refine ⟨forall_mem_set h.reference i (h.reference session hsession),
    forall_mem_set h.edit i hedit, ?_⟩
  unfold Session.set
  dsimp only
  split
  · exact DraftStore.forall_persist h.drafts hedit
  · exact h.drafts

/-- A step keeps all keys unique. -/
theorem Unique.after {step : Step} (h : w.Unique) (hstep : step.Unique) :
    (w.after step).Unique := by
  cases step with
  | save tree locale file => exact { h with drafts := DraftStore.forall_save h.drafts hstep }
  | persist tree locale file => exact { h with drafts := DraftStore.forall_persist h.drafts hstep }
  | clear locale file => exact { h with drafts := DraftStore.forall_clear h.drafts locale file }
  | start source request =>
    unfold Workbench.after
    dsimp only
    split
    · next hstart => exact h.addSession (Session.start_unique hstart h.drafts)
    · exact h
  | set i path node =>
    unfold Workbench.after
    dsimp only
    split
    · next hsession => exact h.set (List.mem_of_getElem? hsession) hstep
    · exact h
  | _ => exact h

/-- So do steps in a row. -/
theorem Unique.run {steps : List Step} (h : w.Unique) (hsteps : ∀ step ∈ steps, step.Unique) :
    (w.run steps).Unique :=
  run_induction (fun _ _ hw hstep => hw.after hstep) h hsteps

/-! ## 4. All trees -/

/-- No tree that is read from a file repeats a key, whatever the file holds. And if no node that is
set and no tree that is saved repeats one, neither does any reference tree, any edited tree or any
draft at any time. -/
theorem keys_unique :
    (∀ file text : String, (readLocaleFile file text).Unique) ∧
    ∀ steps : List Step, (∀ step ∈ steps, step.Unique) → ∀ reached, reached <+: steps →
      (empty.run reached).Unique := by
  refine ⟨fun file text => ?_, fun steps hsteps reached hreached => ?_⟩
  · unfold readLocaleFile
    split
    · exact Language.readTree_unique _ _
    · exact unique_nil
  · exact unique_empty.run fun step hstep => hsteps step (hreached.subset hstep)

/-- A draft, a file opened over it, and an edit below an object that is made for it. -/
def draftedSteps : List Step := [
  .save [("a", .object [("b", .literal "x")])] "fr" "a.json",
  .start (.ofTexts [("fr/a.json", Session.frenchText)]) Session.frenchRequest,
  .set 0 ["c", "d"] (some (.literal "z"))]

theorem keys_unique_drafted :
    (∀ step ∈ draftedSteps, step.Unique) ∧ (empty.run draftedSteps).Unique := by
  have hsteps : ∀ step ∈ draftedSteps, step.Unique := by
    simp [draftedSteps, Step.Unique, Tree.Unique, Tree.UniqueBelow, Tree.keys, Node.Unique]
  exact ⟨hsteps, keys_unique.2 draftedSteps hsteps draftedSteps List.prefix_rfl⟩

end Workbench

end LocaleEditor
