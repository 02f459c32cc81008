/-
LocaleEditor.CommandLine.Options — options among arguments.

An argument that begins with two dashes names an option, one that begins
with a single dash has a letter for each. A value is attached, after `=`
or right after the letter, or it is the next argument, which then must
not begin with a dash. Two dashes alone end the options. All other
arguments are words.

Arguments are read from the left, and the first one that is wrong
decides; an option that asks for help or for the version ends the
reading.
-/
namespace LocaleEditor.CommandLine

/-! ## 1. Options -/

/-- What an option is for. -/
inductive OptionKind where
  /-- Is there or not. -/
  | flag
  /-- Takes any text. -/
  | text
  /-- Takes a path. -/
  | path
  /-- Takes a number. -/
  | count
  | help
  | version
  deriving DecidableEq, Repr

/-- An option with its name and the letter it may have. -/
structure KnownOption where
  name : String
  letter : Option Char
  kind : OptionKind
  deriving DecidableEq, Repr

/-- The number from which on a number is too great. -/
def countLimit : Nat := Nat.pow 2 64

/-- The number that digits stand for, after a plus sign or without one. -/
def count? (value : String) : Option Nat :=
  let digits :=
    match value.toList with
    | '+' :: r => r
    | r => r
  if digits.isEmpty || !digits.all Char.isDigit then none
  else
    let n := digits.foldl (fun n c => n * 10 + (c.toNat - '0'.toNat)) 0
    if n < countLimit then some n else none

namespace OptionKind

def takesValue : OptionKind → Bool
  | .text => true
  | .path => true
  | .count => true
  | _ => false

/-- Whether a value will do. -/
def accepts : OptionKind → String → Bool
  | .path, value => !value.isEmpty
  | .count, value => (count? value).isSome
  | _, _ => true

end OptionKind

/-! ## 2. Refusals -/

/-- Why arguments are refused. -/
inductive ArgumentError where
  | noCommand
  | unknownCommand (name : String)
  | unknownOption (argument : String)
  | unexpected (argument : String)
  | missingValue (option : String)
  | unneededValue (option : String)
  | invalidValue (option value : String)
  | repeated (option : String)
  | missingOption (option : String)
  deriving DecidableEq, Repr

def ArgumentError.message : ArgumentError → String
  | .noCommand => "a command is required"
  | .unknownCommand name => "unrecognized command '" ++ name ++ "'"
  | .unknownOption argument => "unexpected argument '" ++ argument ++ "' found"
  | .unexpected argument => "unexpected argument '" ++ argument ++ "' found"
  | .missingValue option => "a value is required for '--" ++ option ++ "' but none was supplied"
  | .unneededValue option => "'--" ++ option ++ "' takes no value"
  | .invalidValue option value => "invalid value '" ++ value ++ "' for '--" ++ option ++ "'"
  | .repeated option => "'--" ++ option ++ "' cannot be used multiple times"
  | .missingOption option => "'--" ++ option ++ "' is required"

/-- What ends the reading of arguments. -/
inductive Stop where
  | refused (error : ArgumentError)
  | help
  | version
  deriving DecidableEq, Repr

/-! ## 3. Reading -/

/-- The options that were given, with their values; those without have the empty one. -/
abbrev Given := List (String × String)

/-- What was read of the arguments: the options, the words with the last one first, an option that
waits for its value, and whether only words can follow. -/
structure Progress where
  given : Given
  words : List String
  waiting : Option KnownOption
  wordsOnly : Bool
  deriving DecidableEq, Repr

/-- Nothing is read yet. -/
def Progress.start : Progress := ⟨[], [], none, false⟩

namespace Progress

/-- Notes an option. -/
def note (p : Progress) (o : KnownOption) (value : String) : Except Stop Progress :=
  match o.kind with
  | .help => .error .help
  | .version => .error .version
  | kind =>
    if (p.given.lookup o.name).isSome then .error (.refused (.repeated o.name))
    else if kind.accepts value then
      .ok { p with given := (o.name, value) :: p.given, waiting := none }
    else .error (.refused (.invalidValue o.name value))

/-- Reads a name, with its value where one is attached. -/
def readName (known : List KnownOption) (p : Progress) (argument : String) :
    Except Stop Progress :=
  let body := argument.toList.drop 2
  let name := String.ofList (body.takeWhile (· ≠ '='))
  match known.find? (·.name = name) with
  | none => .error (.refused (.unknownOption argument))
  | some o =>
    match body.dropWhile (· ≠ '=') with
    | _ :: value =>
      if o.kind.takesValue then p.note o (String.ofList value)
      else .error (.refused (.unneededValue name))
    | [] => if o.kind.takesValue then .ok { p with waiting := some o } else p.note o ""

/-- Reads letters, with the value of the last one where one is attached. -/
def readLetters (known : List KnownOption) (argument : String) :
    Progress → List Char → Except Stop Progress
  | p, [] => .ok p
  | p, c :: cs =>
    match known.find? (·.letter = some c) with
    | none => .error (.refused (.unknownOption argument))
    | some o =>
      if o.kind.takesValue then
        match cs with
        | [] => .ok { p with waiting := some o }
        | '=' :: value => p.note o (String.ofList value)
        | value => p.note o (String.ofList value)
      else
        match p.note o "" with
        | .error stop => .error stop
        | .ok p' => readLetters known argument p' cs

/-- Notes a word, of which there may be as many as given. -/
def word (limit : Nat) (p : Progress) (argument : String) : Except Stop Progress :=
  if p.words.length < limit then .ok { p with words := argument :: p.words }
  else .error (.refused (.unexpected argument))

/-- Whether an argument is no option. -/
def isWord (argument : String) : Bool := !argument.startsWith "-" || argument = "-"

/-- Reads an argument. -/
def step (known : List KnownOption) (limit : Nat) (p : Progress) (argument : String) :
    Except Stop Progress :=
  match p.waiting with
  | some o =>
    if isWord argument then p.note o argument else .error (.refused (.missingValue o.name))
  | none =>
    if p.wordsOnly || isWord argument then p.word limit argument
    else if argument = "--" then .ok { p with wordsOnly := true }
    else if argument.startsWith "--" then p.readName known argument
    else readLetters known argument p (argument.toList.drop 1)

/-- What was read when no argument is left. -/
def finish (p : Progress) : Except Stop Progress :=
  match p.waiting with
  | some o => .error (.refused (.missingValue o.name))
  | none => .ok p

/-- Reads all arguments. -/
def readAll (known : List KnownOption) (limit : Nat) (p : Progress) (arguments : List String) :
    Except Stop Progress := do
  let p' ← arguments.foldlM (step known limit) p
  p'.finish

/-- Reads arguments up to the first word; that word and what follows it. -/
def readToWord (known : List KnownOption) :
    Progress → List String → Except Stop (Progress × Option (String × List String))
  | p, [] => p.finish.map (·, none)
  | p, argument :: rest =>
    if p.waiting.isNone && !p.wordsOnly && isWord argument then .ok (p, some (argument, rest))
    else
      match p.step known 0 argument with
      | .error stop => .error stop
      | .ok p' => readToWord known p' rest

/-- The value of an option. -/
def value? (p : Progress) (option : String) : Option String := p.given.lookup option

/-- Whether an option was given. -/
def has (p : Progress) (option : String) : Bool := (p.value? option).isSome

end Progress

end LocaleEditor.CommandLine
