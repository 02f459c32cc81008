/-
LocaleEditor.Draft.Store — drafts that are kept.

A store holds at most one draft for each file of each locale. A draft in
which nothing is translated is not worth keeping: `persist` clears it.
-/
import LocaleEditor.Locales.Source
import LocaleEditor.Tree.Blank

namespace LocaleEditor

/-- Drafts by key. -/
structure DraftStore where
  drafts : List (String × Tree)
  /-- No key has two drafts. -/
  distinct : (drafts.map Prod.fst).Nodup

namespace DraftStore

/-- The store without drafts. -/
def empty : DraftStore := ⟨[], List.nodup_nil⟩

/-- The draft of a file. -/
def load? (s : DraftStore) (locale file : String) : Option Tree :=
  s.drafts.lookup (fileKey locale file)

/-- All drafts but that of a key. -/
def dropKey (key : String) (drafts : List (String × Tree)) : List (String × Tree) :=
  drafts.filter fun d => d.1 ≠ key

theorem dropKey_nodup {drafts : List (String × Tree)} (key : String)
    (h : (drafts.map Prod.fst).Nodup) : ((dropKey key drafts).map Prod.fst).Nodup :=
  h.sublist (List.filter_sublist.map Prod.fst)

theorem notMem_dropKey (key : String) (drafts : List (String × Tree)) :
    key ∉ (dropKey key drafts).map Prod.fst := by
  simp [dropKey]

/-- Forgets the draft of a file. -/
def clear (s : DraftStore) (locale file : String) : DraftStore :=
  ⟨dropKey (fileKey locale file) s.drafts, dropKey_nodup _ s.distinct⟩

/-- Keeps a tree as the draft of a file, in place of an earlier one. -/
def save (s : DraftStore) (tree : Tree) (locale file : String) : DraftStore :=
  let key := fileKey locale file
  ⟨(key, tree) :: dropKey key s.drafts,
    List.nodup_cons.2 ⟨notMem_dropKey key s.drafts, dropKey_nodup key s.distinct⟩⟩

/-- Keeps a tree as the draft of a file if anything in it is translated; otherwise the file has no
draft any more. -/
def persist (s : DraftStore) (tree : Tree) (locale file : String) : DraftStore :=
  if Tree.isBlank tree then s.clear locale file else s.save tree locale file

/-- The number of drafts. -/
def size (s : DraftStore) : Nat := s.drafts.length

def isEmpty (s : DraftStore) : Bool := s.drafts.isEmpty

end DraftStore

end LocaleEditor
