/-
LocaleEditor.Glob.Pattern — which paths a pattern matches.

Paths are matched byte by byte. `Token.rests` gives what can be left of
a path after a token; a pattern matches a path when nothing can be left
of it. Where slashes separate, `?`, `*` and nothing else stop at one.
-/
import LocaleEditor.Glob.Token

namespace LocaleEditor.Glob

/-! ## 1. Bytes -/

/-- The bytes of a text. -/
def bytesOf (s : String) : List UInt8 := s.toList.flatMap String.utf8EncodeChar

def slash : UInt8 := 47

/-- The ranges of bytes that a range of characters covers. Beyond ASCII the bytes that write a
character count one by one. -/
def byteRanges : Char × Char → List (UInt8 × UInt8)
  | (a, b) =>
    let as := String.utf8EncodeChar a
    let bs := String.utf8EncodeChar b
    let single (xs : List UInt8) : List (UInt8 × UInt8) := xs.map fun x => (x, x)
    if a = b then single as
    else
      match as.getLast?, bs.head? with
      | some first, some last => single as.dropLast ++ (first, last) :: single (bs.drop 1)
      | _, _ => []

/-- Whether a byte belongs to a class. -/
def inClass (ranges : List (Char × Char)) (x : UInt8) : Bool :=
  (ranges.flatMap byteRanges).any fun (first, last) => first ≤ x && x ≤ last

/-! ## 2. What is left -/

/-- All that can be left when bytes that satisfy `p` are taken away. -/
def tailsWhile (p : UInt8 → Bool) : List UInt8 → List (List UInt8)
  | [] => [[]]
  | x :: r => (x :: r) :: if p x then tailsWhile p r else []

/-- What is left after each slash. -/
def afterSlashes : List UInt8 → List (List UInt8)
  | [] => []
  | x :: r => if x = slash then r :: afterSlashes r else afterSlashes r

/-- What is left when `bytes` are in front. -/
def afterBytes : List UInt8 → List UInt8 → List (List UInt8)
  | [], s => [s]
  | x :: xs, y :: s => if x = y then afterBytes xs s else []
  | _ :: _, [] => []

/-- What is left after one byte that satisfies `p`. -/
def afterOne (p : UInt8 → Bool) : List UInt8 → List (List UInt8)
  | [] => []
  | x :: r => if p x then [r] else []

/-- Whether `?` and `*` take a byte. -/
def isTaken (separated : Bool) (x : UInt8) : Bool := !separated || x ≠ slash

mutual

/-- What can be left after a token. -/
def Token.rests (separated : Bool) : Token → List UInt8 → List (List UInt8)
  | .letter c, s => afterBytes (String.utf8EncodeChar c) s
  | .one, s => afterOne (isTaken separated) s
  | .any, s => tailsWhile (isTaken separated) s
  | .foldersBefore, s => s :: afterSlashes s
  | .inside, s => (afterOne (· = slash) s).flatMap (tailsWhile fun _ => true)
  | .foldersBetween, s => (afterOne (· = slash) s).flatMap fun r => r :: afterSlashes r
  | .oneOf negated ranges, s => afterOne (fun x => inClass ranges x != negated) s
  | .alternatives branches, s => if branches.isEmpty then [s] else restsOfAny separated branches s

/-- What can be left after tokens of what was left before. -/
def restsOfAll (separated : Bool) : List Token → List (List UInt8) → List (List UInt8)
  | [], ss => ss
  | t :: ts, ss => restsOfAll separated ts (ss.flatMap fun s => t.rests separated s).eraseDups

/-- What can be left after one of several branches. -/
def restsOfAny (separated : Bool) : List (List Token) → List UInt8 → List (List UInt8)
  | [], _ => []
  | b :: bs, s => restsOfAll separated b [s] ++ restsOfAny separated bs s

end

/-! ## 3. Patterns -/

/-- A pattern for paths. -/
structure Pattern where
  tokens : List Token
  /-- Whether `?` and `*` stop at slashes. -/
  separated : Bool
  deriving Repr

namespace Pattern

/-- Whether the pattern is two stars and nothing else. -/
def isEverything (g : Pattern) : Bool :=
  match g.tokens with
  | [.foldersBefore] => true
  | _ => false

/-- Whether a path is one of those that the pattern describes. -/
def isMatch (g : Pattern) (path : String) : Bool :=
  g.isEverything || (restsOfAll g.separated g.tokens [bytesOf path]).any List.isEmpty

/-- The pattern for the files of a locale: `*` takes slashes too. -/
def ofText (pattern : String) : Except PatternError Pattern :=
  (parse false pattern).map fun tokens => ⟨tokens, false⟩

end Pattern

end LocaleEditor.Glob
