/-
LocaleEditor.Proofs.Workbench.Invariants — what steps in a row preserve.

An invariant of the workbench is one of its sessions and one of its drafts.
Sessions come at the end or take the place of one that there was, and drafts
come by `save` alone. What every step preserves, steps in a row do
(`run_induction`).
-/
import LocaleEditor.Workbench

namespace LocaleEditor

namespace DraftStore

variable {s : DraftStore} {P : String × Tree → Prop} {tree : Tree} {locale file : String}

theorem forall_clear (h : ∀ d ∈ s.drafts, P d) (locale file : String) :
    ∀ d ∈ (s.clear locale file).drafts, P d :=
  fun d hd => h d (List.mem_filter.mp hd).1

theorem forall_save (h : ∀ d ∈ s.drafts, P d) (hdraft : P (fileKey locale file, tree)) :
    ∀ d ∈ (s.save tree locale file).drafts, P d :=
  List.forall_mem_cons.mpr ⟨hdraft, forall_clear h locale file⟩

theorem forall_persist (h : ∀ d ∈ s.drafts, P d) (hdraft : P (fileKey locale file, tree)) :
    ∀ d ∈ (s.persist tree locale file).drafts, P d := by
  unfold persist
  split
  · exact forall_clear h locale file
  · exact forall_save h hdraft

end DraftStore

namespace Workbench

theorem forall_mem_concat {P : Session → Prop} {sessions : List Session} {session : Session}
    (h : ∀ s ∈ sessions, P s) (hsession : P session) : ∀ s ∈ sessions ++ [session], P s :=
  List.forall_mem_append.mpr ⟨h, List.forall_mem_singleton.mpr hsession⟩

theorem forall_mem_set {P : Session → Prop} {sessions : List Session} {session : Session}
    (h : ∀ s ∈ sessions, P s) (i : Nat) (hsession : P session) :
    ∀ s ∈ sessions.set i session, P s := by
  intro s hs
  rcases List.mem_or_eq_of_mem_set hs with hs | rfl
  · exact h s hs
  · exact hsession

/-- What every step of a kind preserves holds after any number of them. -/
theorem run_induction {I : Workbench → Prop} {J : Step → Prop}
    (hstep : ∀ w step, I w → J step → I (w.after step)) {w : Workbench} (hw : I w)
    {steps : List Step} (hsteps : ∀ step ∈ steps, J step) : I (w.run steps) := by
  induction steps generalizing w with
  | nil => exact hw
  | cons step steps ih =>
    obtain ⟨hfirst, hrest⟩ := List.forall_mem_cons.mp hsteps
    exact ih (hstep w step hw hfirst) hrest

end Workbench

end LocaleEditor
