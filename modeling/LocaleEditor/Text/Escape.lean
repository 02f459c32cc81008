/-
LocaleEditor.Text.Escape — what the escapes of a string or template literal stand for.

`unescape` reads the text between the delimiters. A backslash and the
character after it form an escape (`escapeValue`), which may take in
further characters. An escape of an unknown letter stands for that
letter, and a numeric escape that is not well formed loses only its
backslash.
-/
namespace LocaleEditor.Text

/-! ## 1. Hexadecimal numbers -/

/-- The value of a hexadecimal digit of either case. -/
def hexDigit? (c : Char) : Option Nat :=
  let n := c.toNat
  if '0' ≤ c ∧ c ≤ '9' then some (n - '0'.toNat)
  else if 'a' ≤ c ∧ c ≤ 'f' then some (n - 'a'.toNat + 10)
  else if 'A' ≤ c ∧ c ≤ 'F' then some (n - 'A'.toNat + 10)
  else none

/-- The number that `digits` writes when `acc` was read before them. -/
def hexFrom (acc : Nat) : List Char → Option Nat
  | [] => some acc
  | c :: r =>
    match hexDigit? c with
    | some d => hexFrom (acc * 16 + d) r
    | none => none

/-- The number written by at least one hexadecimal digit and nothing else. -/
def hex? : List Char → Option Nat
  | [] => none
  | digits => hexFrom 0 digits

/-- The number written by the first `n` characters. -/
def hexPrefix? (n : Nat) (s : List Char) : Option Nat :=
  if n ≤ s.length then hex? (s.take n) else none

/-- The character with code point `n`; surrogates and numbers past the last one are none. -/
def scalar? (n : Nat) : Option Char :=
  if h : n.isValidChar then some ⟨n.toUInt32, by
    have hlt : n < 4294967296 := by
      rcases h with h | h <;> omega
    show UInt32.isValidChar _
    simpa [UInt32.isValidChar, Nat.toUInt32, UInt32.toNat_ofNat, Nat.mod_eq_of_lt hlt] using h⟩
  else none

/-! ## 2. One escape -/

def isHighSurrogate (n : Nat) : Bool := 0xD800 ≤ n && n < 0xDC00

def isLowSurrogate (n : Nat) : Bool := 0xDC00 ≤ n && n < 0xE000

/-- The code point that a high and a low surrogate write together. -/
def joinSurrogates (high low : Nat) : Nat :=
  0x10000 + (high - 0xD800) * 0x400 + (low - 0xDC00)

/-- The low surrogate that an escape at the start of `s` writes. -/
def lowSurrogate? : List Char → Option Nat
  | '\\' :: 'u' :: r =>
    match hexPrefix? 4 r with
    | some n => if isLowSurrogate n then some n else none
    | none => none
  | _ => none

/-- The character written after `\u`, and how many characters write it. Two escapes that write a
surrogate pair are one character. -/
def unicodeEscape? : List Char → Option (Char × Nat)
  | '{' :: r =>
    let digits := r.takeWhile (· != '}')
    if digits.length < r.length then
      (hex? digits).bind fun n => (scalar? n).map (·, digits.length + 2)
    else none
  | s =>
    match hexPrefix? 4 s with
    | none => none
    | some n =>
      match isHighSurrogate n, lowSurrogate? (s.drop 4) with
      | true, some low => (scalar? (joinSurrogates n low)).map (·, 10)
      | _, _ => (scalar? n).map (·, 4)

/-- Whether a decimal digit comes next. -/
def startsWithDigit : List Char → Bool
  | c :: _ => c.isDigit
  | [] => false

/-- What a backslash before `c` stands for when `rest` follows, and how much of `rest` belongs to
the escape. -/
def escapeValue (c : Char) (rest : List Char) : List Char × Nat :=
  match c with
  | 'n' => (['\n'], 0)
  | 't' => (['\t'], 0)
  | 'r' => (['\r'], 0)
  | 'b' => (['\x08'], 0)
  | 'f' => (['\x0c'], 0)
  | 'v' => (['\x0b'], 0)
  | '0' => if startsWithDigit rest then (['0'], 0) else (['\x00'], 0)
  | 'x' =>
    match (hexPrefix? 2 rest).bind scalar? with
    | some v => ([v], 2)
    | none => (['x'], 0)
  | 'u' =>
    match unicodeEscape? rest with
    | some (v, n) => ([v], n)
    | none => (['u'], 0)
  | '\r' => if rest.head? = some '\n' then ([], 1) else ([], 0)
  | '\n' => ([], 0)
  | '\u2028' => ([], 0)
  | '\u2029' => ([], 0)
  | other => ([other], 0)

/-! ## 3. The whole text -/

/-- `unescape`, after passing over the `skip` characters that belong to the last escape. -/
def unescapeFrom (skip : Nat) : List Char → List Char
  | [] => []
  | c :: r =>
    match skip with
    | k + 1 => unescapeFrom k r
    | 0 =>
      if c = '\\' then
        match r with
        | [] => ['\\']
        | e :: r' =>
          let (value, n) := escapeValue e r'
          value ++ unescapeFrom n r'
      else c :: unescapeFrom 0 r

/-- The text that the inside of a string or template literal stands for. -/
def unescape (s : List Char) : List Char := unescapeFrom 0 s

end LocaleEditor.Text
