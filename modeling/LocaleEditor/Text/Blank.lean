/-
LocaleEditor.Text.Blank — white space.

A text counts as blank when it holds nothing but characters with the
Unicode property White_Space; trimming removes such characters at both
ends. Core's `Char.isWhitespace` knows the ASCII ones only and is
contained in this class (`isBlank_of_isWhitespace`).
-/
namespace LocaleEditor.Text

/-- The characters with the Unicode property White_Space. -/
def isBlank (c : Char) : Bool :=
  let n := c.toNat
  (9 ≤ n && n ≤ 13) || n == 0x20 || n == 0x85 || n == 0xA0 || n == 0x1680
    || (0x2000 ≤ n && n ≤ 0x200A) || n == 0x2028 || n == 0x2029 || n == 0x202F
    || n == 0x205F || n == 0x3000

/-- Core's white space is blank. -/
theorem isBlank_of_isWhitespace {c : Char} (h : c.isWhitespace = true) : isBlank c = true := by
  simp only [Char.isWhitespace, Bool.or_eq_true, decide_eq_true_eq] at h
  rcases h with ((h | h) | h) | h <;> subst h <;> rfl

/-- Nothing but white space. -/
def allBlank (s : List Char) : Bool := s.all isBlank

/-- The text from its first character that is not blank. -/
def trimLeft (s : List Char) : List Char := s.dropWhile isBlank

/-- Removes from the end of `s` every character that satisfies `p`, up to the first that does
not. -/
def dropRightWhile (p : Char → Bool) : List Char → List Char
  | [] => []
  | c :: r =>
    match dropRightWhile p r with
    | [] => if p c then [] else [c]
    | kept => c :: kept

/-- The empty text and a text of white space are blank. -/
def isBlankString (s : String) : Bool := allBlank s.toList

end LocaleEditor.Text
