/-
LocaleEditor.CommandLine.Usage — how the program is called.
-/
import LocaleEditor.CommandLine.Arguments

namespace LocaleEditor.CommandLine

/-- The name of the program. -/
def programName : String := "js-i18n-translator"

/-- What the program says of its version. -/
def versionText : String := programName ++ " 0.1.0\n"

/-- What each command does. -/
def CommandName.purpose : CommandName → String
  | .locales => "List locales and their files"
  | .status => "Show which keys of a file are translated"
  | .assemble => "Assemble the translated file"
  | .help => "Print this message or the help of the given subcommand(s)"

/-- What follows the program's name when a command is called. -/
def CommandName.form : CommandName → String
  | .locales => "locales [OPTIONS]"
  | .status => "status [OPTIONS] --to <TO> [FILE]"
  | .assemble => "export [OPTIONS] --to <TO> [FILE]"
  | .help => "help [COMMAND]..."

/-- A text filled up with blanks. -/
def padded (width : Nat) (text : String) : String := text.pushn ' ' (width - text.length)

/-- What a value of an option is called. -/
def KnownOption.valueName (o : KnownOption) : String :=
  if o.kind.takesValue then
    " <" ++ String.ofList (o.name.toList.map fun c => if c = '-' then '_' else c.toUpper) ++ ">"
  else ""

/-- An option as it is written. -/
def KnownOption.form (o : KnownOption) : String :=
  let letter :=
    match o.letter with
    | some c => "-" ++ c.toString ++ ", "
    | none => "    "
  letter ++ "--" ++ o.name ++ o.valueName

/-- The lines about commands and options. -/
def usageLines : Option CommandName → List String
  | none =>
    ["Translate JavaScript/TypeScript/JSON locale files", "",
      "Usage: " ++ programName ++ " [OPTIONS] <COMMAND>", "", "Commands:"]
      ++ commandNames.map (fun c => "  " ++ padded 9 c.1 ++ c.2.purpose)
      ++ ["", "Options:"] ++ frontOptions.map fun o => "  " ++ o.form
  | some name =>
    [name.purpose, "", "Usage: " ++ programName ++ " " ++ name.form, "", "Options:"]
      ++ name.options.map fun o => "  " ++ o.form

/-- How a command is called, or all of them are. -/
def usage (topic : Option CommandName) : String := "\n".intercalate (usageLines topic) ++ "\n"

/-- What is said of arguments that are refused. -/
def ArgumentError.report (e : ArgumentError) : String :=
  "error: " ++ e.message ++ "\n\nFor more information, try '--help'.\n"

end LocaleEditor.CommandLine
