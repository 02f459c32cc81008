/-
LocaleEditor.Proofs.Files.Writing — what writing to a disk changes.

A file is told by the names that lead to it from the top. Writing a text puts
one file there, and making folders puts none, so that every other file keeps its
bytes, and every path that could be followed before leads to the same entry.

* `fileAt?_putAt_of_ne`, `entryAt?_putAt_self` — an entry is seen where it was
  put, and no file is seen or missed elsewhere.
* `follow_put` — paths lead where they led.
* `written_of_writeText` — a text that was written is read again.
* `sameFiles_of_makeFolder` — a folder that was made holds no files.
-/
import LocaleEditor.Files.Disk

namespace LocaleEditor.Files

/-! ## 1. Entries below an entry -/

/-- The entry that names lead to from an entry. -/
def Entry.at? : Entry → List String → Option Entry
  | e, [] => some e
  | .folder entries, name :: rest =>
    match entries.lookup name with
    | some e => e.at? rest
    | none => none
  | .file _, _ :: _ => none

/-- The bytes of an entry that is a file. -/
def Entry.bytes? : Entry → Option ByteArray
  | .file bytes => some bytes
  | .folder _ => none

/-- The bytes of the file that names lead to. -/
def fileAt? (entries : List (String × Entry)) (names : List String) : Option ByteArray :=
  (entryAt? entries names).bind Entry.bytes?

variable {entries top inner : List (String × Entry)} {entry : Entry} {name key : String}
  {names other rest : List String}

@[simp] theorem entryAt?_nil (entries : List (String × Entry)) :
    entryAt? entries [] = some (.folder entries) := by
  rw [entryAt?]

theorem entryAt?_cons (entries : List (String × Entry)) (name : String) (rest : List String) :
    entryAt? entries (name :: rest) = (entries.lookup name).bind (·.at? rest) := by
  rw [entryAt?]
  cases entries.lookup name with
  | none => rfl
  | some e =>
    cases e with
    | file bytes => cases rest <;> rfl
    | folder inner =>
      dsimp only
      cases rest with
      | nil => rw [entryAt?_nil]; rfl
      | cons n rest => rw [entryAt?_cons, Option.bind_some, Entry.at?]; cases inner.lookup n <;> rfl

theorem Entry.at?_folder (entries : List (String × Entry)) (names : List String) :
    (Entry.folder entries).at? names = entryAt? entries names := by
  cases names with
  | nil => rw [entryAt?_nil]; rfl
  | cons n rest => rw [entryAt?_cons, Entry.at?]; cases entries.lookup n <;> rfl

/-- No folder is below a file. -/
theorem Entry.at?_file_ne {bytes : ByteArray} (names : List String) :
    (Entry.file bytes).at? names ≠ some (.folder entries) := by
  cases names <;> simp [Entry.at?]

theorem entryAt?_concat (entries : List (String × Entry)) (names : List String) (name : String) :
    entryAt? entries (names ++ [name]) = (entryAt? entries names).bind (·.at? [name]) := by
  induction names generalizing entries with
  | nil => rw [List.nil_append, entryAt?_nil, Option.bind_some, Entry.at?_folder]
  | cons first names ih =>
    rw [List.cons_append, entryAt?_cons, entryAt?_cons, Option.bind_assoc]
    congr 1
    funext e
    cases e with
    | file bytes => cases names <;> rfl
    | folder inner => rw [Entry.at?_folder, Entry.at?_folder, ih]

theorem fileAt?_cons (entries : List (String × Entry)) (name : String) (rest : List String) :
    fileAt? entries (name :: rest)
      = (entries.lookup name).bind fun e => (e.at? rest).bind Entry.bytes? := by
  rw [fileAt?, entryAt?_cons, Option.bind_assoc]

@[simp] theorem entryAt?_nothing (name : String) (rest : List String) :
    entryAt? [] (name :: rest) = none := rfl

@[simp] theorem fileAt?_nothing (names : List String) : fileAt? [] names = none := by
  cases names <;> simp [fileAt?, Entry.bytes?]

/-! ## 2. Putting an entry -/

namespace Disk

theorem lookup_cons_eq (n : String) (e : Entry) (r : List (String × Entry)) (key : String) :
    List.lookup key ((n, e) :: r) = if key = n then some e else List.lookup key r := by
  by_cases h : key = n
  · simp [h]
  · simp [List.lookup_cons, h, beq_false_of_ne h]

theorem lookup_putEntry (entry : Entry) (name key : String) (entries : List (String × Entry)) :
    (putEntry entry name entries).lookup key
      = if key = name then some entry else entries.lookup key := by
  induction entries with
  | nil => rw [putEntry, lookup_cons_eq]
  | cons p r ih =>
    obtain ⟨n, e⟩ := p
    rw [putEntry]
    split
    · next h => subst h; simp only [lookup_cons_eq]; split <;> rfl
    · next h =>
      rw [lookup_cons_eq, ih, lookup_cons_eq]
      by_cases hn : key = n
      · subst hn; simp [h]
      · simp [hn]

/-- What is under the first name once an entry was put where names lead from there. -/
def putBelow (entry : Entry) : List String → Option Entry → Entry
  | [], _ => entry
  | n :: r, some (.folder inner) => .folder (putAt entry (n :: r) inner)
  | _ :: _, some (.file bytes) => .file bytes
  | n :: r, none => .folder (putAt entry (n :: r) [])

/-- Only the first name is affected. -/
theorem lookup_putAt (entry : Entry) (name : String) (rest : List String)
    (top : List (String × Entry)) (key : String) :
    (putAt entry (name :: rest) top).lookup key
      = if key = name then some (putBelow entry rest (top.lookup name)) else top.lookup key := by
  cases rest with
  | nil => rw [putAt, lookup_putEntry]; rfl
  | cons next rest =>
    rw [putAt]
    · cases hfound : top.lookup name with
      | none => exact lookup_putEntry _ name key top
      | some e =>
        cases e with
        | folder inner => exact lookup_putEntry _ name key top
        | file bytes =>
          show top.lookup key = if key = name then some (.file bytes) else top.lookup key
          split
          · next h => rw [h, hfound]
          · rfl
    · exact List.cons_ne_nil _ _

/-- Putting an entry that holds no files changes no file elsewhere, unless it takes the place of a
folder. -/
theorem fileAt?_putAt_of_ne (hentry : ∀ n r, entry.at? (n :: r) = none) :
    ∀ {names other : List String} {top : List (String × Entry)},
      (∀ inner, entryAt? top names ≠ some (.folder inner)) → other ≠ names →
      fileAt? (putAt entry names top) other = fileAt? top other
  | [], _, _, _, _ => by rw [putAt]
  | _ :: _, [], _, _, _ => by simp [fileAt?, Entry.bytes?]
  | name :: rest, key :: others, top, hfolder, hne => by
    rw [fileAt?_cons, lookup_putAt, fileAt?_cons]
    by_cases hkey : key = name
    · subst hkey
      rw [if_pos rfl, Option.bind_some]
      have hothers : others ≠ rest := fun h => hne (by rw [h])
      rw [entryAt?_cons] at hfolder
      generalize top.lookup key = found at hfolder ⊢
      cases rest with
      | nil =>
        -- the entry takes the place of a file, or of nothing
        obtain ⟨n, r, rfl⟩ := List.exists_cons_of_ne_nil hothers
        rw [putBelow, hentry]
        match found with
        | none => rfl
        | some (.file bytes) => rfl
        | some (.folder inner) => exact absurd rfl (hfolder inner)
      | cons n r =>
        match found with
        | none =>
          rw [putBelow, Entry.at?_folder]
          exact (fileAt?_putAt_of_ne hentry (by simp) hothers).trans (fileAt?_nothing others)
        | some (.file bytes) => rfl
        | some (.folder inner) =>
          rw [putBelow, Option.bind_some, Entry.at?_folder, Entry.at?_folder]
          refine fileAt?_putAt_of_ne hentry (fun es h => hfolder es ?_) hothers
          rw [Option.bind_some, Entry.at?_folder, h]
    · rw [if_neg hkey]

/-- An entry is found where it was put, if its folder is there. -/
theorem entryAt?_putAt_self (entry : Entry) (name : String) : ∀ {names : List String}
    {top entries : List (String × Entry)}, entryAt? top names = some (.folder entries) →
      entryAt? (putAt entry (names ++ [name]) top) (names ++ [name]) = some entry
  | [], top, _, _ => by
    rw [List.nil_append, entryAt?_cons, lookup_putAt, if_pos rfl]
    rfl
  | first :: names, top, entries, h => by
    rw [List.cons_append, entryAt?_cons, lookup_putAt, if_pos rfl, Option.bind_some]
    rw [entryAt?_cons] at h
    generalize top.lookup first = found at h ⊢
    obtain ⟨n, r, hrest⟩ := List.exists_cons_of_ne_nil (List.append_ne_nil_of_right_ne_nil names
      (List.cons_ne_nil name []))
    match found with
    | some (.folder inner) =>
      rw [hrest, putBelow, Entry.at?_folder, ← hrest]
      exact entryAt?_putAt_self entry name (by rwa [Option.bind_some, Entry.at?_folder] at h)
    | some (.file bytes) => exact absurd h (Entry.at?_file_ne names)

/-- Folders stay, with everything that is in them, unless an entry is put in place of one. -/
theorem exists_folder_putAt (entry : Entry) : ∀ {names other : List String}
    {top entries : List (String × Entry)},
      (∀ inner, entryAt? top names ≠ some (.folder inner)) →
      entryAt? top other = some (.folder entries) →
      ∃ after, entryAt? (putAt entry names top) other = some (.folder after) ∧
        ∀ key, (entries.lookup key).isSome → (after.lookup key).isSome
  | [], _, top, entries, _, h => ⟨entries, by rwa [putAt], fun _ => id⟩
  | name :: rest, [], top, entries, _, h => by
    obtain rfl : top = entries := by simpa using h
    refine ⟨putAt entry (name :: rest) top, entryAt?_nil _, fun key hkey => ?_⟩
    rw [lookup_putAt]
    split
    · rfl
    · exact hkey
  | name :: rest, key :: others, top, entries, hfolder, h => by
    rw [entryAt?_cons] at h
    rw [entryAt?_cons, lookup_putAt]
    by_cases hkey : key = name
    · subst hkey
      rw [if_pos rfl, Option.bind_some]
      rw [entryAt?_cons] at hfolder
      generalize top.lookup key = found at h hfolder ⊢
      match rest, found with
      | _, some (.file bytes) => exact absurd h (Entry.at?_file_ne others)
      | [], some (.folder inner) => exact absurd rfl (hfolder inner)
      | n :: r, some (.folder inner) =>
        simp only [Option.bind_some, Entry.at?_folder] at h hfolder
        rw [putBelow, Entry.at?_folder]
        exact exists_folder_putAt entry hfolder h
    · rw [if_neg hkey]
      exact ⟨entries, h, fun _ => id⟩

/-! ## 3. Following paths -/

/-- The bytes of the file with these names from the top. -/
def file? (d : Disk) (names : List String) : Option ByteArray := fileAt? d.top names

/-- Both disks have the same files. -/
def SameFiles (d d' : Disk) : Prop := ∀ names, d'.file? names = d.file? names

/-- The second disk has the text in the file at the path, and otherwise the files of the first. -/
def Written (d d' : Disk) (path text : String) : Prop :=
  d'.readText path = .ok text ∧
    ∃ names, d'.resolve path = .ok names ∧ d'.file? names = some text.toUTF8 ∧
      ∀ other, other ≠ names → d'.file? other = d.file? other

variable {d : Disk}

theorem follow_append (d : Disk) (steps more names : List String) :
    d.follow (steps ++ more) names = (d.follow steps names).bind (d.follow more) := by
  induction steps generalizing names with
  | nil => rfl
  | cons step steps ih =>
    rw [List.cons_append, follow, follow]
    cases d.entry? names with
    | none => rfl
    | some e =>
      cases e with
      | file bytes => rfl
      | folder entries =>
        dsimp only
        split
        · exact ih names
        split
        · exact ih names.dropLast
        split
        · rfl
        split
        · exact ih (names ++ [step])
        · rfl

/-- Paths lead where they led before an entry was put somewhere. -/
theorem follow_put (entry : Entry) {place : List String}
    (hfolder : ∀ inner, d.entry? place ≠ some (.folder inner)) {steps names leads : List String}
    (h : d.follow steps names = .ok leads) : (d.put place entry).follow steps names = .ok leads := by
  induction steps generalizing names with
  | nil => exact h
  | cons step steps ih =>
    rw [follow] at h ⊢
    cases hentry : d.entry? names with
    | none => rw [hentry] at h; cases h
    | some e =>
      rw [hentry] at h
      cases e with
      | file bytes => cases h
      | folder entries =>
        obtain ⟨after, hafter, hkeys⟩ := exists_folder_putAt entry hfolder hentry
        have hput : Disk.entry? (d.put place entry) names = some (.folder after) := hafter
        rw [hput]
        dsimp only at h ⊢
        split at h
        · rw [if_pos ‹_›]; exact ih h
        rw [if_neg ‹_›]
        split at h
        · rw [if_pos ‹_›]; exact ih h
        rw [if_neg ‹_›]
        split at h
        · cases h
        rw [if_neg ‹_›]
        split at h
        · rw [if_pos (hkeys step ‹_›)]; exact ih h
        · cases h

/-! ## 4. Writing a text -/

theorem fromUTF8?_toUTF8 (text : String) : String.fromUTF8? text.toUTF8 = some text :=
  dif_pos text.isValidUTF8

/-- Steps that do not end in an empty one end in the last that is not empty. -/
theorem eq_append_of_dropWhile {all before : List String} {name : String}
    (hdrop : all.reverse.dropWhile (· = "") = name :: before) (hlast : all.getLast? ≠ some "") :
    all = before.reverse ++ [name] ∧ name ≠ "" := by
  cases hreverse : all.reverse with
  | nil => simp [hreverse] at hdrop
  | cons last r =>
    have hne : last ≠ "" := by
      rintro rfl
      exact hlast (by rw [List.getLast?_eq_head?_reverse, hreverse]; rfl)
    rw [hreverse, List.dropWhile_cons_of_neg (by simpa using hne)] at hdrop
    obtain ⟨rfl, rfl⟩ := List.cons.inj hdrop
    exact ⟨List.reverse_eq_cons_iff.mp hreverse, hne⟩

/-- A text is written into a folder that is there, under the last step of its path. -/
theorem exists_steps_of_target {path : String} {names : List String} {name : String}
    (h : d.target path = .ok (names, name)) :
    checkPath path = .ok () ∧ ∃ before entries, steps path = before ++ [name] ∧
      d.follow before (d.start path) = .ok names ∧ d.entry? names = some (.folder entries) ∧
      name ≠ "" ∧ name ≠ "." ∧ name ≠ ".." ∧ ¬ longestName < name.utf8ByteSize := by
  unfold target at h
  cases hcheck : checkPath path with
  | error e => rw [hcheck] at h; cases h
  | ok u =>
    rw [hcheck] at h
    simp only [Except.bind] at h
    refine ⟨rfl, ?_⟩
    split at h
    · cases h
    next last before hdrop =>
    split at h
    · cases h
    next names' hfollow =>
    split at h
    · next entries hentry =>
      split at h
      · cases h
      next hdots =>
      split at h
      · cases h
      next hsize =>
      obtain ⟨rfl, rfl⟩ := Prod.mk.inj (Except.ok.inj h)
      simp only [not_or] at hdots
      obtain ⟨hsteps, hne⟩ := eq_append_of_dropWhile hdrop hdots.1
      exact ⟨before.reverse, entries, hsteps, hfollow, hentry, hne, hdots.2.1, hdots.2.2, hsize⟩
    · cases h

/-- Once an entry is put where a text is to be written, the path leads there. -/
theorem resolve_put {path : String} {names : List String} {name : String} (entry : Entry)
    (h : d.target path = .ok (names, name))
    (hfolder : ∀ inner, d.entry? (names ++ [name]) ≠ some (.folder inner)) :
    (d.put (names ++ [name]) entry).resolve path = .ok (names ++ [name]) := by
  obtain ⟨hcheck, before, entries, hsteps, hfollow, hentry, hne, hdot, hdots, hsize⟩ :=
    exists_steps_of_target h
  obtain ⟨after, hafter, -⟩ := exists_folder_putAt entry hfolder hentry
  have hput : Disk.entry? (d.put (names ++ [name]) entry) names = some (.folder after) := hafter
  have hlookup : (after.lookup name).isSome := by
    have hself := entryAt?_putAt_self entry name hentry
    rw [entryAt?_concat, hafter, Option.bind_some, Entry.at?] at hself
    cases hfound : after.lookup name with
    | none => rw [hfound] at hself; cases hself
    | some e => rfl
  have hlast : (d.put (names ++ [name]) entry).follow [name] names = .ok (names ++ [name]) := by
    simp only [follow, hput, hne, hdot, hdots, hsize, hlookup, or_self, if_false, if_true]
  rw [resolve, hcheck, hsteps]
  show (d.put (names ++ [name]) entry).follow (before ++ [name]) (d.start path) = _
  rw [follow_append, follow_put entry hfolder hfollow]
  exact hlast

/-- A text that was written is what the path then leads to, and no other file has changed. -/
theorem written_of_writeText {d' : Disk} {path text : String}
    (h : d.writeText path text = .ok d') : d.Written d' path text := by
  unfold writeText at h
  split at h
  · cases h
  next names name htarget =>
  have hfolder : ∀ inner, d.entry? (names ++ [name]) ≠ some (.folder inner) := by
    intro inner hinner
    rw [hinner] at h
    cases h
  obtain rfl : d.put (names ++ [name]) (.file text.toUTF8) = d' := by
    split at h
    · cases h
    · exact Except.ok.inj h
  obtain ⟨-, -, entries, -, -, hentry, -⟩ := exists_steps_of_target htarget
  have hresolve := resolve_put (.file text.toUTF8) htarget hfolder
  have hself : Disk.entry? (d.put (names ++ [name]) (.file text.toUTF8)) (names ++ [name])
      = some (.file text.toUTF8) := entryAt?_putAt_self _ name hentry
  refine ⟨?_, names ++ [name], hresolve, ?_, fun other hother => ?_⟩
  · simp only [readText, hresolve, hself, fromUTF8?_toUTF8]
  · rw [file?, fileAt?, show entryAt? _ _ = _ from hself]
    rfl
  · exact fileAt?_putAt_of_ne (fun _ _ => rfl) hfolder hother

/-- Of the disk before, only the files count. -/
theorem Written.of_sameFiles {d' d'' : Disk} {path text : String} (h : d'.Written d'' path text)
    (hsame : d.SameFiles d') : d.Written d'' path text := by
  obtain ⟨hread, names, hresolve, hself, hother⟩ := h
  exact ⟨hread, names, hresolve, hself, fun other hne => (hother other hne).trans (hsame other)⟩

/-! ## 5. Making folders -/

/-- A folder that is put where nothing is leads to no file. -/
theorem fileAt?_putAt_folder : ∀ {names : List String} {top : List (String × Entry)},
    entryAt? top names = none → fileAt? (putAt (.folder []) names top) names = none
  | [], _, h => by simp at h
  | name :: rest, top, h => by
    rw [entryAt?_cons] at h
    rw [fileAt?_cons, lookup_putAt, if_pos rfl, Option.bind_some]
    generalize top.lookup name = found at h ⊢
    match rest, found with
    | [], _ => rfl
    | n :: r, some (.file bytes) => rfl
    | n :: r, some (.folder inner) =>
      rw [Option.bind_some, Entry.at?_folder] at h
      rw [putBelow, Entry.at?_folder]
      exact fileAt?_putAt_folder h
    | n :: r, none =>
      rw [putBelow, Entry.at?_folder]
      exact fileAt?_putAt_folder (entryAt?_nothing n r)

theorem sameFiles_put_folder {names : List String} (h : d.entry? names = none) :
    d.SameFiles (d.put names (.folder [])) := by
  intro other
  by_cases hother : other = names
  · subst hother
    have hnone : d.file? other = none := by
      rw [file?, fileAt?, show entryAt? d.top other = none from h]
      rfl
    rw [hnone]
    exact fileAt?_putAt_folder h
  · have hfolder : ∀ inner, entryAt? d.top names ≠ some (.folder inner) := by
      intro inner hinner
      cases hinner.symm.trans h
    exact fileAt?_putAt_of_ne (fun _ _ => rfl) hfolder hother

theorem sameFiles_makeAlong {components : List Component} {d d' : Disk} {names : List String}
    (h : d.makeAlong components names = .ok d') : d.SameFiles d' := by
  induction components generalizing d names with
  | nil => exact Except.ok.inj h ▸ fun _ => rfl
  | cons c rest ih =>
    cases c with
    | root => exact ih h
    | here => exact ih h
    | up => exact ih h
    | name n =>
      rw [makeAlong] at h
      split at h
      · cases h
      split at h
      · exact ih h
      · cases h
      · next hnone => exact fun other => (ih h other).trans (sameFiles_put_folder hnone other)

theorem sameFiles_of_makeFolder {d' : Disk} {path : String} (h : d.makeFolder path = .ok d') :
    d.SameFiles d' := by
  unfold makeFolder at h
  cases hcheck : checkPath path with
  | error e => rw [hcheck] at h; cases h
  | ok u => rw [hcheck] at h; exact sameFiles_makeAlong h

end Disk

end LocaleEditor.Files
