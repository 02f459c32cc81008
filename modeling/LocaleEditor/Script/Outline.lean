/-
LocaleEditor.Script.Outline — what is kept of a script that was read.

Only a few kinds of expression can become translations; all others are
`other`. The core of an expression is what is left of it without
parentheses and type assertions. Of the statements only exports are
kept.
-/
import LocaleEditor.Tree.Basic
import LocaleEditor.Script.Reader

namespace LocaleEditor.Script

/-- A string, a template or a name. A template is `substituted` when it has a part `${…}`. -/
inductive Atom where
  | string (inner : List Char)
  | template (inner : List Char) (substituted : Bool)
  | name (word : String)
  deriving DecidableEq, Repr

/-- The elements of an array, when all of them are strings, templates and names. -/
abbrev Elements := Option (List Atom)

/-- What a parameter binds. -/
inductive Binder where
  /-- A plain name. -/
  | name (word : String)
  /-- A name that is one pattern with its default value, as where there are no types. -/
  | assigned (word : String)
  /-- The parts of its argument. -/
  | pattern
  /-- All remaining arguments. -/
  | rest
  /-- What is read like a name and is none, such as `this`. -/
  | other
  deriving DecidableEq, Repr

/-- A parameter as it is written. -/
structure Parameter where
  binder : Binder
  /-- The text of its type, if it has one. -/
  type : Option String
  /-- It has a default value. -/
  default : Bool
  deriving DecidableEq, Repr

/-- What is written in front of the body of a function. -/
structure Signature where
  async : Bool
  parameters : List Parameter
  deriving DecidableEq, Repr

/-- The body of a function: a block, or the expression that it returns. Of the expression its text
is kept and, where it is one, the atom or array at its core. -/
inductive FunctionBody where
  | block (extent : Extent)
  | returned (core : Option (Atom ⊕ List Atom)) (text : List Char)
  deriving Repr

/-- The core of an expression. -/
inductive Expr where
  | atom (a : Atom)
  | array (elements : Elements)
  | undefined
  /-- Only the members that give a value for a key written as a word or a string. -/
  | object (members : List (String × Expr))
  | function (signature : Signature) (body : FunctionBody)
  | other
  deriving Repr

/-- What is kept of a parameter: its name and type, if it binds a plain name. -/
def Parameter.param (p : Parameter) : Param :=
  match p.binder with
  | .name w => ⟨w, p.type.getD Param.untyped⟩
  | _ => .placeholder

/-- What is kept of the parameters of a function. -/
def Signature.params (s : Signature) : List Param := s.parameters.map Parameter.param

/-- An expression as it was read. -/
structure Value where
  /-- The number of characters left at its first one. -/
  start : Nat
  core : Expr
  /-- Where the core stands. -/
  extent : Extent
  /-- Nothing is around the core. -/
  bare : Bool
  /-- It could be assigned to. -/
  target : Bool
  deriving Repr

/-- An expression of another kind, from `start` to where `rest` is left. -/
def Value.plain (start : Nat) (rest : List Char) (target : Bool) : Value :=
  ⟨start, .other, ⟨start, rest.length⟩, true, target⟩

/-- An expression of which `core` is all, from `start` to where `rest` is left. -/
def Value.whole (start : Nat) (core : Expr) (rest : List Char) (target : Bool) : Value :=
  ⟨start, core, ⟨start, rest.length⟩, true, target⟩

/-- Something exported under a name: its value, or for a function the whole declaration. -/
structure Binding where
  name : String
  extent : Extent
  core : Expr
  deriving Repr

/-- What is written for an exported name. -/
inductive ExportKind where
  | initializer
  | function
  deriving DecidableEq, Repr

/-- A statement. -/
inductive Statement where
  /-- The value that is exported by default. -/
  | exportDefault (value : Value)
  | exportNamed (kind : ExportKind) (bindings : List Binding)
  | labelled
  | other
  deriving Repr

end LocaleEditor.Script
