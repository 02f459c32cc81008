/-
LocaleEditor.Proofs.Text.Spellings — the escapes of a literal, one after another.

A `Spelling` is one way to write a character inside a literal, or nothing: the
character itself, an escape, a line break that is escaped. It has the text that
is written (`Spelling.text`) and what this stands for (`Spelling.value`). Hexadecimal
digits are given by their value and their case, so that what a number means does
not depend on how it is read.

Two spellings end only where what follows does not go on with them: `\0` before a
digit is another escape, and a carriage return takes the line feed after it along
(`Spelling.EndsBefore`). All others end where they end, whatever follows, and this
is the step that `unescape` takes (`unescapeFrom_text`). So it decodes every text
that is spelled (`unescape_flatMap_text`).
-/
import LocaleEditor.Proofs.Text.Quoted
import Mathlib.Data.Nat.Digits.Lemmas

namespace LocaleEditor.Text

/-! ## 1. Spellings -/

/-- A hexadecimal digit: its value, and whether it is written in upper case. -/
structure HexDigit where
  value : Fin 16
  upper : Bool
  deriving DecidableEq, Repr

/-- The digit as it is written. Digits below ten have no case. -/
def HexDigit.char (d : HexDigit) : Char :=
  if d.upper then (hexChar d.value).toUpper else hexChar d.value

/-- The number that digits write, the first of which counts most. -/
def hexValue (ds : List HexDigit) : Nat := Nat.ofDigits 16 (ds.map fun d => d.value.val).reverse

/-- Four hexadecimal digits. -/
structure CodeUnit where
  first : HexDigit
  second : HexDigit
  third : HexDigit
  fourth : HexDigit
  deriving DecidableEq, Repr

namespace CodeUnit

def digits (u : CodeUnit) : List HexDigit := [u.first, u.second, u.third, u.fourth]

def text (u : CodeUnit) : List Char := u.digits.map HexDigit.char

def value (u : CodeUnit) : Nat := hexValue u.digits

def IsHigh (u : CodeUnit) : Prop := 0xD800 ≤ u.value ∧ u.value < 0xDC00

def IsLow (u : CodeUnit) : Prop := 0xDC00 ≤ u.value ∧ u.value < 0xE000

instance (u : CodeUnit) : Decidable u.IsHigh := inferInstanceAs (Decidable (_ ∧ _))

instance (u : CodeUnit) : Decidable u.IsLow := inferInstanceAs (Decidable (_ ∧ _))

/-- The code point past the four-digit ones that a high and a low code unit write together. -/
def join (high low : CodeUnit) : Nat :=
  0x10000 + (high.value - 0xD800) * 0x400 + (low.value - 0xDC00)

end CodeUnit

/-- The letters that write control characters. -/
inductive ControlLetter where
  | n
  | t
  | r
  | b
  | f
  | v
  deriving DecidableEq, Repr

def ControlLetter.letter : ControlLetter → Char
  | .n => 'n'
  | .t => 't'
  | .r => 'r'
  | .b => 'b'
  | .f => 'f'
  | .v => 'v'

/-- The control character that a letter writes. -/
def ControlLetter.char : ControlLetter → Char
  | .n => '\n'
  | .t => '\t'
  | .r => '\r'
  | .b => '\x08'
  | .f => '\x0c'
  | .v => '\x0b'

/-- The ends of a line over which a literal goes on. -/
inductive LineBreak where
  | lineFeed
  | carriageReturn
  | carriageReturnLineFeed
  | lineSeparator
  | paragraphSeparator
  deriving DecidableEq, Repr

def LineBreak.text : LineBreak → List Char
  | .lineFeed => ['\n']
  | .carriageReturn => ['\r']
  | .carriageReturnLineFeed => ['\r', '\n']
  | .lineSeparator => ['\u2028']
  | .paragraphSeparator => ['\u2029']

/-- The characters that do not stand for themselves after a backslash. -/
def escapedLetters : List Char :=
  ['n', 't', 'r', 'b', 'f', 'v', '0', 'x', 'u', '\n', '\r', '\u2028', '\u2029']

/-- A character as it is written in a literal, or a line break that is not part of it. -/
inductive Spelling where
  /-- A character without a backslash. -/
  | plain (c : Char) (h : c ≠ '\\')
  /-- A letter for a control character. -/
  | control (k : ControlLetter)
  /-- A zero for the null character. -/
  | null
  /-- A code point by two digits. -/
  | byte (first second : HexDigit)
  /-- A code point by four digits. -/
  | unit (u : CodeUnit) (h : ¬ u.IsHigh ∧ ¬ u.IsLow)
  /-- A code point by the two halves of a surrogate pair. -/
  | pair (high low : CodeUnit) (hhigh : high.IsHigh) (hlow : low.IsLow)
  /-- A code point by any number of digits between braces, leading zeros among them. -/
  | codePoint (digits : List HexDigit) (hne : digits ≠ []) (h : (hexValue digits).isValidChar)
  /-- A line break that stands for nothing. -/
  | continuation (b : LineBreak)
  /-- A character with a backslash that it does not need, or the backslash itself. -/
  | itself (c : Char) (h : c ∉ escapedLetters)

namespace Spelling

/-- The text that is written. -/
def text : Spelling → List Char
  | plain c _ => [c]
  | control k => ['\\', k.letter]
  | null => ['\\', '0']
  | byte first second => ['\\', 'x', first.char, second.char]
  | unit u _ => '\\' :: 'u' :: u.text
  | pair high low _ _ => '\\' :: 'u' :: (high.text ++ '\\' :: 'u' :: low.text)
  | codePoint digits _ _ => '\\' :: 'u' :: '{' :: (digits.map HexDigit.char ++ ['}'])
  | continuation b => '\\' :: b.text
  | itself c _ => ['\\', c]

/-- What the text stands for. -/
def value : Spelling → List Char
  | plain c _ => [c]
  | control k => [k.char]
  | null => ['\x00']
  | byte first second => [Char.ofNat (hexValue [first, second])]
  | unit u _ => [Char.ofNat u.value]
  | pair high low _ _ => [Char.ofNat (high.join low)]
  | codePoint digits _ _ => [Char.ofNat (hexValue digits)]
  | continuation _ => []
  | itself c _ => [c]

/-- Whether `rest` does not go on with the spelling. -/
def EndsBefore (rest : List Char) : Spelling → Prop
  | null => ∀ c ∈ rest.head?, c.isDigit = false
  | continuation .carriageReturn => rest.head? ≠ some '\n'
  | _ => True

instance (rest : List Char) : (s : Spelling) → Decidable (s.EndsBefore rest)
  | null =>
    show Decidable (∀ c ∈ rest.head?, c.isDigit = false) from rest.head?.decidableForallMem
  | continuation .carriageReturn => inferInstanceAs (Decidable (rest.head? ≠ some '\n'))
  | continuation .lineFeed | continuation .carriageReturnLineFeed
  | continuation .lineSeparator | continuation .paragraphSeparator => isTrue trivial
  | plain _ _ | control _ | byte _ _ | unit _ _ | pair _ _ _ _ | codePoint _ _ _ | itself _ _ =>
    isTrue trivial

end Spelling

/-- Spellings of which none is gone on with by the next one. -/
def Separate : List Spelling → Prop
  | [] => True
  | s :: ss => s.EndsBefore (ss.flatMap Spelling.text) ∧ Separate ss

instance decidableSeparate : DecidablePred Separate
  | [] => isTrue trivial
  | s :: ss =>
    have := decidableSeparate ss
    inferInstanceAs (Decidable (s.EndsBefore (ss.flatMap Spelling.text) ∧ Separate ss))

/-! ## 2. Hexadecimal numbers -/

theorem HexDigit.hexDigit?_char (d : HexDigit) : hexDigit? d.char = some d.value.val := by
  obtain ⟨value, upper⟩ := d
  revert value upper
  decide

/-- A hexadecimal digit is no brace. -/
theorem HexDigit.char_ne_brace (d : HexDigit) : d.char ≠ '{' ∧ d.char ≠ '}' := by
  constructor <;>
  · intro h
    have hd := d.hexDigit?_char
    rw [h] at hd
    cases hd

theorem hexFrom_map_char (acc : Nat) (ds : List HexDigit) :
    hexFrom acc (ds.map HexDigit.char) = some (acc * 16 ^ ds.length + hexValue ds) := by
  induction ds generalizing acc with
  | nil => simp [hexFrom, hexValue]
  | cons d ds ih =>
    have hvalue : hexValue (d :: ds) = hexValue ds + 16 ^ ds.length * d.value.val := by
      simp [hexValue, Nat.ofDigits_append]
    simp only [List.map_cons, hexFrom, d.hexDigit?_char, ih, hvalue, List.length_cons]
    congr 1
    ring

theorem hexValue_lt (ds : List HexDigit) : hexValue ds < 16 ^ ds.length := by
  have h := Nat.ofDigits_lt_base_pow_length (b := 16) (l := (ds.map fun d => d.value.val).reverse)
    (by decide) (by simp)
  simpa [hexValue] using h

theorem hex?_map_char {ds : List HexDigit} (h : ds ≠ []) :
    hex? (ds.map HexDigit.char) = some (hexValue ds) := by
  cases ds with
  | nil => exact absurd rfl h
  | cons d ds =>
    have hfrom := hexFrom_map_char 0 (d :: ds)
    rw [Nat.zero_mul, Nat.zero_add] at hfrom
    exact hfrom

theorem hexPrefix?_append (ds : List HexDigit) (h : ds ≠ []) (r : List Char) :
    hexPrefix? ds.length (ds.map HexDigit.char ++ r) = some (hexValue ds) := by
  have hlength : ds.length ≤ (ds.map HexDigit.char ++ r).length := by simp
  have htake : (ds.map HexDigit.char ++ r).take ds.length = ds.map HexDigit.char := by simp
  rw [hexPrefix?, if_pos hlength, htake, hex?_map_char h]

theorem scalar?_of_isValidChar {n : Nat} (h : n.isValidChar) : scalar? n = some (Char.ofNat n) := by
  have hn : (Char.ofNat n).toNat = n := by
    rw [Char.ofNat, dif_pos h]
    rfl
  rw [← scalar?_toNat, hn]


/-! ## 3. Unicode escapes -/

/-- Two halves of a pair write a code point past the four-digit ones. -/
theorem isValidChar_joinSurrogates {high low : Nat} (hhigh : isHighSurrogate high = true)
    (hlow : isLowSurrogate low = true) : (joinSurrogates high low).isValidChar := by
  simp only [isHighSurrogate, isLowSurrogate, Bool.and_eq_true, decide_eq_true_eq] at hhigh hlow
  unfold joinSurrogates
  exact Or.inr (by omega)

namespace CodeUnit

theorem value_lt (u : CodeUnit) : u.value < 0x10000 := by
  simpa [value, digits] using hexValue_lt u.digits

theorem hexPrefix?_text (u : CodeUnit) (r : List Char) :
    hexPrefix? 4 (u.text ++ r) = some u.value :=
  hexPrefix?_append u.digits (List.cons_ne_nil _ _) r

/-- A code unit that is no half of a pair is a character. -/
theorem isValidChar_value {u : CodeUnit} (h : ¬ u.IsHigh ∧ ¬ u.IsLow) : u.value.isValidChar := by
  have hlt := u.value_lt
  simp only [IsHigh, IsLow] at h
  simp only [Nat.isValidChar]
  omega

theorem isHighSurrogate_iff (u : CodeUnit) : isHighSurrogate u.value = true ↔ u.IsHigh := by
  simp [isHighSurrogate, IsHigh]

theorem isLowSurrogate_iff (u : CodeUnit) : isLowSurrogate u.value = true ↔ u.IsLow := by
  simp [isLowSurrogate, IsLow]

/-- Two halves of a pair write a character. -/
theorem isValidChar_join {high low : CodeUnit} (hhigh : high.IsHigh) (hlow : low.IsLow) :
    (high.join low).isValidChar :=
  isValidChar_joinSurrogates (high.isHighSurrogate_iff.mpr hhigh) (low.isLowSurrogate_iff.mpr hlow)

theorem lowSurrogate?_text {low : CodeUnit} (h : low.IsLow) (r : List Char) :
    lowSurrogate? ('\\' :: 'u' :: (low.text ++ r)) = some low.value := by
  simp [lowSurrogate?, low.hexPrefix?_text, low.isLowSurrogate_iff.mpr h]

/-- Four digits do not begin with the brace that digits of any number stand in. -/
theorem text_append_ne_brace (u : CodeUnit) (r s : List Char) : u.text ++ r ≠ '{' :: s := fun h =>
  u.first.char_ne_brace.1 (List.cons.inj h).1

theorem unicodeEscape?_unit {u : CodeUnit} (h : ¬ u.IsHigh ∧ ¬ u.IsLow) (r : List Char) :
    unicodeEscape? (u.text ++ r) = some (Char.ofNat u.value, 4) := by
  have hhigh : isHighSurrogate u.value = false := by
    rw [← Bool.not_eq_true, u.isHighSurrogate_iff]
    exact h.1
  rw [unicodeEscape?.eq_2 _ (u.text_append_ne_brace r), u.hexPrefix?_text]
  simp only [hhigh, scalar?_of_isValidChar (isValidChar_value h), Option.map_some]

theorem unicodeEscape?_pair {high low : CodeUnit} (hhigh : high.IsHigh) (hlow : low.IsLow)
    (r : List Char) :
    unicodeEscape? (high.text ++ '\\' :: 'u' :: (low.text ++ r))
      = some (Char.ofNat (high.join low), 10) := by
  have hjoin : joinSurrogates high.value low.value = high.join low := rfl
  have hdrop (s : List Char) : (high.text ++ s).drop 4 = s := rfl
  rw [unicodeEscape?.eq_2 _ (high.text_append_ne_brace _), high.hexPrefix?_text, hdrop]
  simp only [high.isHighSurrogate_iff.mpr hhigh, lowSurrogate?_text hlow, hjoin,
    scalar?_of_isValidChar (isValidChar_join hhigh hlow), Option.map_some]

end CodeUnit

theorem unicodeEscape?_codePoint {ds : List HexDigit} (hne : ds ≠ [])
    (h : (hexValue ds).isValidChar) (r : List Char) :
    unicodeEscape? ('{' :: (ds.map HexDigit.char ++ '}' :: r)) =
      some (Char.ofNat (hexValue ds), ds.length + 2) := by
  have hdigits : (ds.map HexDigit.char ++ '}' :: r).takeWhile (· != '}')
      = ds.map HexDigit.char := by
    rw [List.takeWhile_append_of_pos, List.takeWhile_cons_of_neg (by simp), List.append_nil]
    intro c hc
    obtain ⟨d, -, rfl⟩ := List.mem_map.mp hc
    simpa using d.char_ne_brace.2
  have hlength : (ds.map HexDigit.char).length < (ds.map HexDigit.char ++ '}' :: r).length := by
    simp
  rw [unicodeEscape?, hdigits]
  rw [if_pos hlength, hex?_map_char hne, Option.bind_some, scalar?_of_isValidChar h,
    Option.map_some, List.length_map]

/-! ## 4. One spelling and then the next -/

/-- The characters that belong to an escape are passed over. -/
theorem unescapeFrom_append (s r : List Char) : unescapeFrom s.length (s ++ r) = unescapeFrom 0 r := by
  induction s with
  | nil => rfl
  | cons c s ih => exact ih

theorem unescapeFrom_plain {c : Char} (h : c ≠ '\\') (r : List Char) :
    unescapeFrom 0 (c :: r) = c :: unescapeFrom 0 r := by
  simp [unescapeFrom.eq_def 0 (c :: r), h]

/-- An escape stands for its value, and what follows is read after it. -/
theorem unescapeFrom_escape (e : Char) (tail : List Char) {r value : List Char}
    (h : escapeValue e (tail ++ r) = (value, tail.length)) :
    unescapeFrom 0 ('\\' :: e :: (tail ++ r)) = value ++ unescapeFrom 0 r := by
  simp only [unescapeFrom, if_true, h, unescapeFrom_append]

theorem escapeValue_control (k : ControlLetter) (r : List Char) :
    escapeValue k.letter r = ([k.char], 0) := by
  cases k <;> rfl

theorem escapeValue_null {r : List Char} (h : ∀ c ∈ r.head?, c.isDigit = false) :
    escapeValue '0' r = (['\x00'], 0) := by
  have hdigit : startsWithDigit r = false := by
    cases r with
    | nil => rfl
    | cons c r => exact h c rfl
  simp [escapeValue, hdigit]

theorem escapeValue_byte (first second : HexDigit) (r : List Char) :
    escapeValue 'x' (first.char :: second.char :: r)
      = ([Char.ofNat (hexValue [first, second])], 2) := by
  have hread : hexPrefix? 2 (first.char :: second.char :: r) = some (hexValue [first, second]) :=
    hexPrefix?_append [first, second] (List.cons_ne_nil _ _) r
  have hlt : hexValue [first, second] < 0x100 := hexValue_lt [first, second]
  have hvalid : (hexValue [first, second]).isValidChar := Or.inl (by omega)
  simp [escapeValue, hread, scalar?_of_isValidChar hvalid]

theorem escapeValue_unicode {r : List Char} {c : Char} {n : Nat}
    (h : unicodeEscape? r = some (c, n)) : escapeValue 'u' r = ([c], n) := by
  simp [escapeValue, h]

theorem escapeValue_itself {c : Char} (h : c ∉ escapedLetters) (r : List Char) :
    escapeValue c r = ([c], 0) := by
  unfold escapeValue
  split <;> first | rfl | exact absurd (by decide) h

/-- An escaped line break stands for nothing. -/
theorem unescapeFrom_continuation {b : LineBreak} {r : List Char}
    (h : (Spelling.continuation b).EndsBefore r) :
    unescapeFrom 0 ('\\' :: (b.text ++ r)) = unescapeFrom 0 r := by
  cases b with
  | lineFeed => exact unescapeFrom_escape '\n' [] rfl
  | carriageReturn =>
    have hfeed : escapeValue '\r' r = ([], 0) := if_neg h
    exact unescapeFrom_escape '\r' [] hfeed
  | carriageReturnLineFeed => exact unescapeFrom_escape '\r' ['\n'] rfl
  | lineSeparator => exact unescapeFrom_escape '\u2028' [] rfl
  | paragraphSeparator => exact unescapeFrom_escape '\u2029' [] rfl

/-- The text of a spelling is read as its value, and what follows is read after it. -/
theorem unescapeFrom_text {s : Spelling} {r : List Char} (h : s.EndsBefore r) :
    unescapeFrom 0 (s.text ++ r) = s.value ++ unescapeFrom 0 r := by
  cases s with
  | plain c hc => exact unescapeFrom_plain hc r
  | control k => exact unescapeFrom_escape k.letter [] (escapeValue_control k r)
  | null => exact unescapeFrom_escape '0' [] (escapeValue_null h)
  | byte first second =>
    exact unescapeFrom_escape 'x' [first.char, second.char] (escapeValue_byte first second r)
  | unit u hu =>
    exact unescapeFrom_escape 'u' u.text (escapeValue_unicode (CodeUnit.unicodeEscape?_unit hu r))
  | pair high low hhigh hlow =>
    have hpair := CodeUnit.unicodeEscape?_pair hhigh hlow r
    rw [← List.cons_append, ← List.cons_append, ← List.append_assoc] at hpair
    exact unescapeFrom_escape 'u' (high.text ++ '\\' :: 'u' :: low.text) (escapeValue_unicode hpair)
  | codePoint ds hne hds =>
    refine unescapeFrom_escape 'u' ('{' :: (ds.map HexDigit.char ++ ['}']))
      (escapeValue_unicode ?_)
    simpa using unicodeEscape?_codePoint hne hds r
  | continuation b => exact unescapeFrom_continuation h
  | itself c hc => exact unescapeFrom_escape c [] (escapeValue_itself hc r)

/-! ## 5. Spelled texts -/

/-- A text that is spelled stands for what its spellings stand for, one after another. -/
theorem unescape_flatMap_text {ss : List Spelling} (h : Separate ss) :
    unescape (ss.flatMap Spelling.text) = ss.flatMap Spelling.value := by
  rw [unescape]
  induction ss with
  | nil => rfl
  | cons s ss ih =>
    obtain ⟨hs, hss⟩ := h
    rw [List.flatMap_cons, List.flatMap_cons, unescapeFrom_text hs, ih hss]

/-- Spellings of every kind. The first could be gone on with by a digit, and the first line break by
a line feed. -/
def mixedSpellings : List Spelling :=
  let digit (n : Fin 16) : HexDigit := ⟨n, false⟩
  let capital (n : Fin 16) : HexDigit := ⟨n, true⟩
  [.null, .plain 'a' (by decide), .byte (capital 14) (digit 9),
    .unit ⟨digit 2, digit 0, digit 10, capital 12⟩ (by decide),
    .pair ⟨capital 13, digit 8, digit 3, capital 13⟩ ⟨capital 13, digit 14, digit 0, digit 0⟩
      (by decide) (by decide),
    .codePoint [digit 0, digit 0, digit 0, digit 1, capital 15, digit 6, digit 0, digit 0]
      (by decide) (by decide),
    .continuation .carriageReturn, .continuation .lineFeed,
    .continuation .carriageReturnLineFeed,
    .itself '1' (by decide), .itself '\\' (by decide), .control .n]

theorem unescape_flatMap_text_mixedSpellings :
    Separate mixedSpellings ∧
    mixedSpellings.flatMap Spelling.text
      = "\\0a\\xE9\\u20aC\\uD83D\\uDe00\\u\x7b0001F600\x7d\\\r\\\n\\\r\n\\1\\\\\\n".toList ∧
    unescape (mixedSpellings.flatMap Spelling.text) = "\x00aé€😀😀1\\\n".toList := by
  have h : Separate mixedSpellings := by decide
  exact ⟨h, by decide, (unescape_flatMap_text h).trans (by decide)⟩

end LocaleEditor.Text
