/-
LocaleEditor.CommandLine.Arguments — what the arguments ask for.

The first word is the command. The options of every command may stand
before it or after it; where one stands at both places the later counts.
-/
import LocaleEditor.CommandLine.Options

namespace LocaleEditor.CommandLine

/-! ## 1. Requests -/

/-- The file to open, its locales, and the draft to lay over it. -/
structure SessionOptions where
  file : Option String
  target : String
  reference : Option String
  draft : Option String
  deriving DecidableEq, Repr

/-- What can be done. -/
inductive Command where
  /-- List the locales and their files. -/
  | locales
  /-- List the entries of a file; `all` those that are translated, too. -/
  | status (session : SessionOptions) (all : Bool)
  /-- Assemble a file. -/
  | assemble (session : SessionOptions) (output : Option String) (indentWidth : Option Nat)
  deriving DecidableEq, Repr

/-- A command for a workspace. -/
structure Invocation where
  workspace : String
  logFolder : Option String
  command : Command
  deriving DecidableEq, Repr

/-- The names of commands. -/
inductive CommandName where
  | locales
  | status
  | assemble
  | help
  deriving DecidableEq, Repr

/-- What is asked for. -/
inductive Request where
  | run (invocation : Invocation)
  /-- How to use a command, or all of them. -/
  | help (topic : Option CommandName)
  | version
  deriving DecidableEq, Repr

/-! ## 2. Commands and their options -/

/-- The commands by their names. -/
def commandNames : List (String × CommandName) :=
  [("locales", .locales), ("status", .status), ("export", .assemble), ("help", .help)]

/-- The options of every command. -/
def globalOptions : List KnownOption :=
  [⟨"workspace", none, .path⟩, ⟨"log-dir", none, .path⟩, ⟨"help", some 'h', .help⟩]

/-- The options before the command. -/
def frontOptions : List KnownOption := globalOptions ++ [⟨"version", some 'V', .version⟩]

/-- The options of commands that open a file. -/
def sessionOptions : List KnownOption :=
  [⟨"to", none, .text⟩, ⟨"from", none, .text⟩, ⟨"draft", none, .path⟩]

namespace CommandName

/-- The options after the command. -/
def options : CommandName → List KnownOption
  | .status => globalOptions ++ sessionOptions ++ [⟨"all", some 'a', .flag⟩]
  | .assemble =>
    globalOptions ++ sessionOptions
      ++ [⟨"output", some 'o', .path⟩, ⟨"indent-width", none, .count⟩]
  | _ => globalOptions

/-- How many words may follow the command. -/
def wordLimit : CommandName → Nat
  | .status => 1
  | .assemble => 1
  | _ => 0

end CommandName

/-! ## 3. Reading arguments -/

/-- What the options say about the file to open. -/
def sessionOf (p : Progress) : Except ArgumentError SessionOptions :=
  match p.value? "to" with
  | none => .error (.missingOption "to")
  | some target => .ok ⟨p.words.head?, target, p.value? "from", p.value? "draft"⟩

/-- The request of a command with its options. `help` has been dealt with before. -/
def commandOf (p : Progress) : CommandName → Except ArgumentError Command
  | .status => (sessionOf p).map fun s => .status s (p.has "all")
  | .assemble =>
    (sessionOf p).map fun s =>
      .assemble s (p.value? "output") ((p.value? "indent-width").bind count?)
  | _ => .ok .locales

/-- The workspace where none is named. -/
def defaultWorkspace : String := "."

/-- The invocation of a command, with the options before and after it. -/
def invocationOf (front after : Progress) (name : CommandName) :
    Except ArgumentError Invocation :=
  (commandOf after name).map fun command => {
    workspace := (after.value? "workspace" <|> front.value? "workspace").getD defaultWorkspace
    logFolder := after.value? "log-dir" <|> front.value? "log-dir"
    command }

/-- Help on the command that a word names. -/
def helpOn : List String → Except ArgumentError Request
  | [] => .ok (.help none)
  | name :: more =>
    match commandNames.lookup name, more with
    | none, _ => .error (.unknownCommand name)
    | some topic, [] => .ok (.help (some topic))
    | some _, other :: _ => .error (.unknownCommand other)

/-- What a stop amounts to within a command, or before any. -/
def stopped (topic : Option CommandName) : Stop → Except ArgumentError Request
  | .refused e => .error e
  | .help => .ok (.help topic)
  | .version => .ok .version

/-- Reads the arguments after the name of a command. -/
def readCommand (front : Progress) (name : CommandName) (arguments : List String) :
    Except ArgumentError Request :=
  match Progress.start.readAll name.options name.wordLimit arguments with
  | .error stop => stopped (some name) stop
  | .ok after => (invocationOf front after name).map .run

/-- What arguments ask for. -/
def readArguments (arguments : List String) : Except ArgumentError Request :=
  match Progress.start.readToWord frontOptions arguments with
  | .error stop => stopped none stop
  | .ok (_, none) => .error .noCommand
  | .ok (front, some (word, rest)) =>
    match commandNames.lookup word with
    | none => .error (.unknownCommand word)
    | some .help => helpOn rest
    | some name => readCommand front name rest

end LocaleEditor.CommandLine
