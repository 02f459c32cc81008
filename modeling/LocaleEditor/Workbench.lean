/-
LocaleEditor.Workbench — files that are open side by side.

Sessions that are open at the same time share one store of drafts, and
drafts may also be written without a session. A workbench is what there
is between two calls, and a step is one call.
-/
import LocaleEditor.Session

namespace LocaleEditor

/-- The sessions in the order in which they were opened, and the drafts that they share. -/
structure Workbench where
  sessions : List Session
  drafts : DraftStore

namespace Workbench

/-- Nothing is open, and there are no drafts. -/
def empty : Workbench := ⟨[], .empty⟩

/-- What can be done. A session is told by its number, counted from 0. -/
inductive Step where
  | load (locale file : String)
  | save (tree : Tree) (locale file : String)
  | persist (tree : Tree) (locale file : String)
  | clear (locale file : String)
  | start (source : LocaleSource) (request : SessionRequest)
  | set (session : Nat) (path : List String) (node : Option Node)
  | events (session : Nat) (hideTranslated : Bool)
  | assemble (session : Nat) (options : AssembleOptions)

/-- The workbench after a step. A file that cannot be opened opens no session, and a step in a
session that there is not does nothing. -/
def after (w : Workbench) : Step → Workbench
  | .load _ _ => w
  | .save tree locale file => { w with drafts := w.drafts.save tree locale file }
  | .persist tree locale file => { w with drafts := w.drafts.persist tree locale file }
  | .clear locale file => { w with drafts := w.drafts.clear locale file }
  | .start source request =>
    match Session.start source w.drafts request with
    | .ok session => { w with sessions := w.sessions ++ [session] }
    | .error _ => w
  | .set i path node =>
    match w.sessions[i]? with
    | some session =>
      let (session', drafts) := session.set path node w.drafts
      ⟨w.sessions.set i session', drafts⟩
    | none => w
  | .events _ _ => w
  | .assemble _ _ => w

/-- The workbench after steps in a row. -/
def run (w : Workbench) (steps : List Step) : Workbench := steps.foldl after w

end Workbench

end LocaleEditor
