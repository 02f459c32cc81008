import LocaleEditor.Main
import LocaleEditor.Tree.Path
import LocaleEditor.Proofs.Json.RoundTrip
import LocaleEditor.Proofs.Script.NormalForm
import LocaleEditor.Proofs.Tree.Fill
import LocaleEditor.Proofs.LocaleFile
import LocaleEditor.Proofs.Session.Reopening
import LocaleEditor.Proofs.Script.Running
import LocaleEditor.Proofs.Script.Texts
import LocaleEditor.Proofs.Text.Reindented
import LocaleEditor.Proofs.Text.Dedented
import LocaleEditor.Proofs.Text.Spellings
import LocaleEditor.Proofs.Script.Outlines
import LocaleEditor.Proofs.Script.Functions
import LocaleEditor.Proofs.Script.Signatures
import LocaleEditor.Proofs.Script.Literals
import LocaleEditor.Proofs.Workbench.UniqueKeys
import LocaleEditor.Proofs.Workbench.LastDrafts
import LocaleEditor.Proofs.Settings.Templates
import LocaleEditor.Proofs.Draft.RoundTrip
import LocaleEditor.Proofs.Tree.Absent
import LocaleEditor.Proofs.Settings.InForce
import LocaleEditor.Proofs.CommandLine.AllOrNothing
import LocaleEditor.Proofs.Session.Unreadable
import LocaleEditor.Proofs.Tree.Effect
import LocaleEditor.Proofs.Tree.Coverage
import LocaleEditor.Proofs.Tree.Hiding
import LocaleEditor.Proofs.Tree.Merged
import LocaleEditor.Proofs.Tree.SingleEdit
import LocaleEditor.Proofs.Tree.Nesting
import LocaleEditor.Proofs.Locales.Confined
import LocaleEditor.Proofs.Script.BlockLines
