/-
LocaleEditor.Proofs.CommandLine.AllOrNothing — assembling a file is all or nothing.

Many things can fail before a text is assembled: the settings, the width that
takes the place of theirs, the pattern, the choice of a file, the draft, and
the files themselves. Nothing is written before all of that has succeeded, and
writing the text is the last that can fail; so a run leaves either that text,
where it was asked for, or nothing.

* `run_eq_ok` — when an invocation succeeds: a text is assembled and delivered.
* `configuration_eq_ok` — the settings that it is assembled with, and their
  width (`effectiveWidth?_of_configuration`).
* `delivers_of_deliver` — a text that is delivered is all that changes.
* `assemble_all_or_nothing` — what a run leaves, and when.
-/
import LocaleEditor.CommandLine.Run
import LocaleEditor.Proofs.Files.Writing
import LocaleEditor.Proofs.Settings.InForce

namespace LocaleEditor.CommandLine

open LocaleEditor.Files

variable {α β ε ε' : Type} {disk start after : Disk} {i : Invocation} {o : SessionOptions}
  {output : Option String} {width : Option Nat} {c : Configuration} {product : Product}
  {text : String}

theorem bind_eq_ok {x : Except ε α} {f : α → Except ε β} {b : β} :
    (x >>= f) = .ok b ↔ ∃ a, x = .ok a ∧ f a = .ok b := by
  cases x <;> simp [bind, Except.bind]

theorem mapError_eq_ok {x : Except ε α} {f : ε → ε'} {a : α} :
    x.mapError f = .ok a ↔ x = .ok a := by
  cases x with
  | ok b =>
    show Except.ok b = .ok a ↔ Except.ok b = .ok a
    rw [Except.ok.injEq, Except.ok.injEq]
  | error e => exact ⟨fun h => (nomatch h), fun h => (nomatch h)⟩

theorem toOption_eq_some {x : Except ε α} {a : α} : x.toOption = some a ↔ x = .ok a := by
  cases x <;> simp [Except.toOption]

/-! ## 1. The text -/

/-- The invocation opens the file that is asked for, and assembles the text. -/
def Invocation.Assembles (i : Invocation) (disk : Disk) (o : SessionOptions) (text : String) :
    Prop :=
  ∃ c folder session, i.configuration disk = .ok c ∧ c.localeFolder = .ok folder ∧
    openSession c folder disk o = .ok session ∧
    session.assemble c.settings.assembleOptions = .ok text

/-- An invocation that assembles a file succeeds if there is a text and it can be delivered. -/
theorem run_eq_ok (hcommand : i.command = .assemble o output width) :
    i.run disk = .ok product ↔
      ∃ text, i.Assembles disk o text ∧ deliver disk text output = .ok product := by
  simp only [Invocation.run, hcommand, Command.run, bind_eq_ok, mapError_eq_ok]
  constructor
  · rintro ⟨c, hc, folder, hfolder, session, hopen, text, htext, hdeliver⟩
    exact ⟨text, ⟨c, folder, session, hc, hfolder, hopen, htext⟩, hdeliver⟩
  · rintro ⟨text, ⟨c, folder, session, hc, hfolder, hopen, htext⟩, hdeliver⟩
    exact ⟨c, hc, folder, hfolder, session, hopen, text, htext, hdeliver⟩

/-! ## 2. The width -/

/-- The width for the indentation: the one among the options, or else the one that is set. -/
def effectiveWidth? (disk : Disk) (workspace : String) (width : Option Nat) : Option Nat :=
  width <|> (Configuration.readSettings disk workspace).toOption.map (·.indentWidth)

/-- A file is assembled with the settings of the workspace, if they are valid, and if they still
are with the width among the options. -/
theorem configuration_eq_ok (hcommand : i.command = .assemble o output width) :
    i.configuration disk = .ok c ↔
      ∃ s, Configuration.readSettings disk i.workspace = .ok s ∧ s.IsValid ∧ c.settings.IsValid ∧
        c = ⟨{ s with indentWidth := width.getD s.indentWidth }, some i.workspace⟩ := by
  unfold Invocation.configuration
  cases hload : Configuration.load disk (some i.workspace) with
  | error e =>
    refine ⟨fun h => (nomatch h), ?_⟩
    rintro ⟨s, hread, hs, -, -⟩
    have hfound : Configuration.found disk (some i.workspace) = .ok s := hread
    rw [Configuration.load_eq_ok.mpr ⟨s, hfound, hs, rfl⟩] at hload
    cases hload
  | ok loaded =>
    obtain ⟨s, hfound, hs, rfl⟩ := Configuration.load_eq_ok.mp hload
    have hread : Configuration.readSettings disk i.workspace = .ok s := hfound
    simp only [hcommand, hread, Except.ok.injEq, exists_eq_left', hs, true_and]
    cases width with
    | none =>
      constructor
      · intro h
        obtain rfl := Except.ok.inj h
        exact ⟨hs, rfl⟩
      · rintro ⟨-, rfl⟩
        rfl
    | some w =>
      rw [mapError_eq_ok, Configuration.update_eq_ok]
      constructor
      · rintro ⟨hvalid, rfl⟩
        exact ⟨hvalid, rfl⟩
      · rintro ⟨hvalid, rfl⟩
        exact ⟨hvalid, rfl⟩

/-- The width that a file is assembled with is in the range. -/
theorem effectiveWidth?_of_configuration (hcommand : i.command = .assemble o output width)
    (hc : i.configuration disk = .ok c) :
    effectiveWidth? disk i.workspace width = some c.settings.indentWidth ∧
      1 ≤ c.settings.indentWidth ∧ c.settings.indentWidth ≤ 16 := by
  obtain ⟨s, hread, -, hvalid, rfl⟩ := (configuration_eq_ok hcommand).mp hc
  refine ⟨?_, hvalid.indentWidth⟩
  rw [effectiveWidth?, hread]
  cases width <;> rfl

/-! ## 3. What is left -/

namespace Outcome

/-- The text is where it was asked for, and no other file has changed: printed, or in the file
at the path. -/
def Delivers (left : Outcome) (disk : Disk) (text : String) : Option String → Prop
  | none => left.output = text ∧ left.written = none ∧ disk.SameFiles left.disk
  | some path =>
    left.output = "" ∧ left.written = some (path, text) ∧ disk.Written left.disk path text

/-- Nothing is printed, and no file has changed. -/
def LeavesNothing (left : Outcome) (disk : Disk) : Prop :=
  left.output = "" ∧ left.written = none ∧ disk.SameFiles left.disk

end Outcome

theorem deliver_printed : deliver disk text none = .ok product ↔ product = .printed text := by
  simp [deliver, eq_comm]

theorem deliver_written {path : String} : deliver disk text (some path) = .ok product ↔
    ∃ after, disk.writeText path text = .ok after ∧ product = .written path text after := by
  rw [deliver]
  cases disk.writeText path text <;> simp [eq_comm]

/-- A text can be delivered unless it cannot be written. -/
theorem exists_deliver : (∃ product, deliver disk text output = .ok product) ↔
    ∀ path ∈ output, ∃ after, disk.writeText path text = .ok after := by
  cases output with
  | none => simp [deliver_printed]
  | some path =>
    simp only [deliver_written, Option.mem_some_iff, forall_eq']
    exact ⟨fun ⟨_, after, hwrite, _⟩ => ⟨after, hwrite⟩, fun ⟨after, hwrite⟩ => ⟨_, after, hwrite, rfl⟩⟩

/-- A folder for logs is no file. -/
theorem sameFiles_of_withLogFolder {logs : Option String} (h : withLogFolder disk logs = .ok start) :
    disk.SameFiles start := by
  cases logs with
  | none => exact Except.ok.inj h ▸ fun _ => rfl
  | some path => exact Disk.sameFiles_of_makeFolder h

/-- An invocation that fails leaves nothing. -/
theorem outcome_of_error {e : CommandError} (hstart : withLogFolder disk i.logFolder = .ok start)
    (hrun : i.run start = .error e) :
    (i.outcome disk).exitCode = 1 ∧ (i.outcome disk).LeavesNothing disk := by
  have houtcome : i.outcome disk = ⟨1, "", e.report, none, start⟩ := by
    simp only [Invocation.outcome, hstart, hrun]
  rw [houtcome]
  exact ⟨rfl, rfl, rfl, sameFiles_of_withLogFolder hstart⟩

/-- What an invocation delivers is all that it leaves. -/
theorem outcome_of_deliver (hstart : withLogFolder disk i.logFolder = .ok start)
    (hrun : i.run start = .ok product) (hdeliver : deliver start text output = .ok product) :
    (i.outcome disk).exitCode = 0 ∧ (i.outcome disk).Delivers disk text output := by
  have hsame := sameFiles_of_withLogFolder hstart
  cases output with
  | none =>
    obtain rfl := deliver_printed.mp hdeliver
    have houtcome : i.outcome disk = ⟨0, text, "", none, start⟩ := by
      simp only [Invocation.outcome, hstart, hrun]
    rw [houtcome]
    exact ⟨rfl, rfl, rfl, hsame⟩
  | some path =>
    obtain ⟨after, hwrite, rfl⟩ := deliver_written.mp hdeliver
    have houtcome : i.outcome disk = ⟨0, "", "", some (path, text), after⟩ := by
      simp only [Invocation.outcome, hstart, hrun]
    rw [houtcome]
    exact ⟨rfl, rfl, rfl, (Disk.written_of_writeText hwrite).of_sameFiles hsame⟩

/-! ## 4. Runs -/

/-- A run that assembles a file either leaves the text, where it was asked for, or nothing. It
leaves the text exactly if there is one and it can be written; with a width that is not in the
range there is none. -/
theorem assemble_all_or_nothing {arguments : List String}
    (hread : readArguments arguments = .ok (.run i))
    (hcommand : i.command = .assemble o output width)
    (hstart : withLogFolder disk i.logFolder = .ok start) :
    let left := run disk arguments
    ((left.exitCode = 0 ∧ ∃ text, i.Assembles start o text ∧ left.Delivers disk text output) ∨
      (left.exitCode = 1 ∧ left.LeavesNothing disk)) ∧
    (left.exitCode = 0 ↔ ∃ text, i.Assembles start o text ∧
      ∀ path ∈ output, ∃ after, start.writeText path text = .ok after) ∧
    (∀ w, effectiveWidth? start i.workspace width = some w → ¬ (1 ≤ w ∧ w ≤ 16) →
      left.exitCode = 1 ∧ left.LeavesNothing disk) := by
  intro left
  have hleft : left = i.outcome disk := by simp only [left, run, hread]
  rw [hleft]
  cases hrun : i.run start with
  | error e =>
    have hnothing := outcome_of_error hstart hrun
    refine ⟨.inr hnothing, ?_, fun _ _ _ => hnothing⟩
    rw [hnothing.1]
    refine iff_of_false (by decide) ?_
    rintro ⟨text, hassembles, hwrite⟩
    obtain ⟨product, hdeliver⟩ := exists_deliver.mpr hwrite
    have hok := (run_eq_ok hcommand).mpr ⟨text, hassembles, hdeliver⟩
    rw [hrun] at hok
    cases hok
  | ok product =>
    obtain ⟨text, hassembles, hdeliver⟩ := (run_eq_ok hcommand).mp hrun
    obtain ⟨hexit, hdelivers⟩ := outcome_of_deliver hstart hrun hdeliver
    refine ⟨.inl ⟨hexit, text, hassembles, hdelivers⟩, iff_of_true hexit
      ⟨text, hassembles, exists_deliver.mp ⟨product, hdeliver⟩⟩, fun w hwidth hrange => ?_⟩
    obtain ⟨c, -, -, hc, -⟩ := hassembles
    obtain ⟨hwidth', hin⟩ := effectiveWidth?_of_configuration hcommand hc
    obtain rfl := Option.some.inj (hwidth.symm.trans hwidth')
    exact absurd hin hrange

/-- A workspace with an English and a French file. -/
def bilingual : Disk where
  top := [("locales", .folder [
    ("en", .folder [("a.json", .file "\x7b\"a\": \"x\", \"b\": \"y\"\x7d".toUTF8)]),
    ("fr", .folder [("a.json", .file "\x7b\"a\": \"z\"\x7d".toUTF8)])])]
  here := []

/-- The French file is overwritten, and the English one is not touched; when the width is not in
the range, neither is. -/
theorem assemble_all_or_nothing_bilingual :
    let path := "locales/fr/a.json"
    let overwriting := run bilingual ["export", "a.json", "--to", "fr", "--output", path]
    let unindented :=
      run bilingual ["export", "a.json", "--to", "fr", "--output", path, "--indent-width", "0"]
    (overwriting.exitCode = 0 ∧
      ∃ text, overwriting.written = some (path, text) ∧
        bilingual.Written overwriting.disk path text) ∧
    (unindented.exitCode = 1 ∧ bilingual.SameFiles unindented.disk) := by
  intro path overwriting unindented
  let options : SessionOptions := ⟨some "a.json", "fr", none, none⟩
  have hexit : overwriting.exitCode = 0 := by decide +kernel
  have hread : readArguments ["export", "a.json", "--to", "fr", "--output", path]
      = .ok (.run ⟨".", none, .assemble options (some path) none⟩) :=
    toOption_eq_some.mp (by decide +kernel)
  have hread' : readArguments
      ["export", "a.json", "--to", "fr", "--output", path, "--indent-width", "0"]
      = .ok (.run ⟨".", none, .assemble options (some path) (some 0)⟩) :=
    toOption_eq_some.mp (by decide +kernel)
  obtain ⟨hleft, -⟩ := assemble_all_or_nothing hread rfl
    (show withLogFolder bilingual none = .ok bilingual from rfl)
  obtain ⟨-, -, hwidth⟩ := assemble_all_or_nothing hread' rfl
    (show withLogFolder bilingual none = .ok bilingual from rfl)
  obtain ⟨hexit', -, -, hsame⟩ := hwidth 0 rfl (by decide)
  rcases hleft with ⟨-, text, -, -, hwritten, hdisk⟩ | ⟨hone, -⟩
  · exact ⟨⟨hexit, text, hwritten, hdisk⟩, hexit', hsame⟩
  · exact absurd (hexit.symm.trans hone) (by decide)

end LocaleEditor.CommandLine
