/-
LocaleEditor.Script.Reader — reading a text piece by piece.

A reader takes what is left of a text. Either it reads a piece and
leaves the rest, or it is stuck, and then it tells how much of the text
was left at that point. Of two readers that are both stuck,
the one that came further speaks.

Readers that repeat stop after as many rounds as characters are left;
since every round reads at least one character, that is never too few.
-/
namespace LocaleEditor.Script

/-! ## 1. Outcomes -/

/-- What comes of reading a piece. -/
inductive Outcome (α : Type) where
  /-- The piece, and the text after it. -/
  | done (value : α) (rest : List Char)
  /-- Reading cannot go on where this many characters are left. -/
  | stuck (left : Nat)
  deriving Repr

/-- Reads a piece from the front of a text. -/
def Reader (α : Type) : Type := List Char → Outcome α

namespace Reader

/-! ## 2. Readers from readers -/

instance : Monad Reader where
  pure a := fun s => .done a s
  bind p f := fun s =>
    match p s with
    | .done a rest => f a rest
    | .stuck left => .stuck left

/-- Reads nothing and is stuck. -/
def fail {α : Type} : Reader α := fun s => .stuck s.length

/-- Tries `p`, and `q` on the same text when `p` is stuck. -/
def either {α : Type} (p q : Reader α) : Reader α := fun s =>
  match p s with
  | .done a rest => .done a rest
  | .stuck n =>
    match q s with
    | .done a rest => .done a rest
    | .stuck m => .stuck (min n m)

instance {α : Type} : OrElse (Reader α) := ⟨fun p q => either p (q ())⟩

/-- Tries `p` and reads nothing when it is stuck. -/
def option {α : Type} (p : Reader α) : Reader (Option α) := fun s =>
  match p s with
  | .done a rest => .done (some a) rest
  | .stuck _ => .done none s

/-- The text that is left. -/
def left : Reader (List Char) := fun s => .done s s

/-- Goes on with another text. -/
def goTo (s : List Char) : Reader Unit := fun _ => .done () s

/-- Whether `p` can be read here; reads nothing. -/
def sees {α : Type} (p : Reader α) : Reader Bool := fun s =>
  match p s with
  | .done _ _ => .done true s
  | .stuck _ => .done false s

/-- Reads `p` until the text that is left satisfies `stop`, for at most as many rounds as given. -/
def repeatWithin {α : Type} (stop : List Char → Bool) (p : Reader α) : Nat → Reader (List α)
  | 0 => fail
  | n + 1 => fun s =>
    if stop s then .done [] s
    else
      match p s with
      | .stuck m => .stuck m
      | .done a rest =>
        match repeatWithin stop p n rest with
        | .stuck m => .stuck m
        | .done as rest' => .done (a :: as) rest'

/-- Reads `p` until the text that is left satisfies `stop`. -/
def repeatUntil {α : Type} (stop : List Char → Bool) (p : Reader α) : Reader (List α) := fun s =>
  repeatWithin stop p (s.length + 1) s

/-- Lets `p` change a value as long as it can, for at most as many rounds as given. -/
def extendWithin {α : Type} (p : α → Reader α) : Nat → α → Reader α
  | 0, a => pure a
  | n + 1, a => fun s =>
    match p a s with
    | .stuck _ => .done a s
    | .done a' rest => if rest.length < s.length then extendWithin p n a' rest else .done a s

/-- Lets `p` change a value as long as it can. -/
def extend {α : Type} (p : α → Reader α) (a : α) : Reader α := fun s =>
  extendWithin p (s.length + 1) a s

end Reader

/-! ## 3. What was read -/

/-- What was read of `s` when `rest` is left. -/
def consumed (s rest : List Char) : List Char := s.take (s.length - rest.length)

/-- A piece of the text by the number of characters left at its first character and after its last
one. -/
structure Extent where
  left : Nat
  right : Nat
  deriving DecidableEq, Repr

end LocaleEditor.Script
