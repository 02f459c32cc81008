/-
LocaleEditor.Files.Path — paths and their parts.

A path is read as its components: an absolute path begins with the
root, repeated slashes count once, and `.` matters only at the very
start. Everything else is a name, save `..`. `isPlain` is the test that
keeps a path inside the folder it is joined to.
-/
namespace LocaleEditor.Files

/-- One step of a path. -/
inductive Component where
  | root
  | here
  | up
  | name (text : String)
  deriving DecidableEq, Repr

/-- The parts of `s` between slashes. -/
def splitSlashes : List Char → List (List Char)
  | [] => [[]]
  | '/' :: r => [] :: splitSlashes r
  | c :: r =>
    match splitSlashes r with
    | [] => [[c]]
    | p :: ps => (c :: p) :: ps

/-- A part between slashes that is not the first. -/
def laterComponent? : List Char → Option Component
  | [] => none
  | ['.'] => none
  | ['.', '.'] => some .up
  | part => some (.name (String.ofList part))

/-- The part before the first slash. -/
def firstComponent? : List Char → Option Component
  | ['.'] => some .here
  | part => laterComponent? part

/-- The components of a path. -/
def components (path : String) : List Component :=
  match splitSlashes path.toList with
  | [] => []
  | first :: rest =>
    let later := rest.filterMap laterComponent?
    if first.isEmpty && !rest.isEmpty then .root :: later
    else (firstComponent? first).toList ++ later

/-- Whether a component is a name. -/
def Component.isName : Component → Bool
  | .name _ => true
  | _ => false

/-- At least one component, and nothing but names. -/
def isPlain (path : String) : Bool :=
  let cs := components path
  !cs.isEmpty && cs.all Component.isName

/-- The names among the components of a path. -/
def names (path : String) : List String :=
  (components path).filterMap fun
    | .name n => some n
    | _ => none

/-- The last component, when it is a name. -/
def fileName? (path : String) : Option String :=
  match (components path).getLast? with
  | some (.name n) => some n
  | _ => none

/-- What comes before and after the last dot of a name. A dot that begins the name does not
divide it. -/
def splitExtension (name : String) : String × Option String :=
  let reversed := name.toList.reverse
  let ext := reversed.takeWhile (· != '.')
  match reversed.dropWhile (· != '.') with
  | '.' :: stem =>
    if stem.isEmpty then (name, none)
    else (String.ofList stem.reverse, some (String.ofList ext.reverse))
  | _ => (name, none)

/-- The name of the file without its extension. -/
def fileStem? (path : String) : Option String :=
  (fileName? path).map fun n => (splitExtension n).1

/-- The extension of the file. -/
def extension? (path : String) : Option String :=
  (fileName? path).bind fun n => (splitExtension n).2

/-- The text of `child` below `parent`; an absolute `child` stands alone. -/
def join (parent child : String) : String :=
  if child.startsWith "/" then child
  else if parent.isEmpty || parent.endsWith "/" then parent ++ child
  else parent ++ "/" ++ child

end LocaleEditor.Files
