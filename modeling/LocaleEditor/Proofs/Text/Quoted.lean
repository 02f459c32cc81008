/-
LocaleEditor.Proofs.Text.Quoted — what the escapes of a quoted text write.

Control characters are written by four hexadecimal digits. `hexPrefix?_hexChar`
reads the two digits that `quoteChar` writes for them, and `scalar?_toNat`
gives the character back. `unescape_flatMap_quoteChar` says that the escapes of
a whole text stand for the text.
-/
import LocaleEditor.Text.Escape
import LocaleEditor.Text.Quoted

namespace LocaleEditor.Text

theorem hexDigit?_hexChar : ∀ n < 16, hexDigit? (hexChar n) = some n := by
  decide

/-- The four digits of a number below 256. -/
theorem hexPrefix?_hexChar {n : Nat} (h : n < 256) (r : List Char) :
    hexPrefix? 4 ('0' :: '0' :: hexChar (n / 16) :: hexChar (n % 16) :: r) = some n := by
  have hhigh := hexDigit?_hexChar (n / 16) (by omega)
  have hlow := hexDigit?_hexChar (n % 16) (by omega)
  have hzero : hexDigit? '0' = some 0 := by decide
  simp only [hexPrefix?, List.length_cons, List.take, hex?, hexFrom, hzero, hhigh, hlow]
  simp
  omega

theorem scalar?_toNat (c : Char) : scalar? c.toNat = some c := by
  have hvalid : c.toNat.isValidChar := c.valid
  unfold scalar?
  rw [dif_pos hvalid]
  exact congrArg some (Char.ext UInt32.ofNat_toNat)

theorem unicodeEscape?_control {c : Char} (h : c.toNat < 0x20) (r : List Char) :
    unicodeEscape? ('0' :: '0' :: hexChar (c.toNat / 16) :: hexChar (c.toNat % 16) :: r)
      = some (c, 4) := by
  have hhigh : isHighSurrogate c.toNat = false := by
    simp only [isHighSurrogate, Bool.and_eq_false_iff, decide_eq_false_iff_not]
    omega
  simp [unicodeEscape?, hexPrefix?_hexChar (show c.toNat < 256 by omega), hhigh, scalar?_toNat]

theorem unescapeFrom_quoteChar (c : Char) (r : List Char) :
    unescapeFrom 0 (quoteChar c ++ r) = c :: unescapeFrom 0 r := by
  unfold quoteChar
  split
  · simp [unescapeFrom, escapeValue]
  · simp [unescapeFrom, escapeValue]
  · simp [unescapeFrom, escapeValue]
  · simp [unescapeFrom, escapeValue]
  · simp [unescapeFrom, escapeValue]
  · simp [unescapeFrom, escapeValue]
  · simp [unescapeFrom, escapeValue]
  · rename_i hback _ _ _ _ _
    split
    · rename_i hlow
      simp [unescapeFrom, escapeValue, unicodeEscape?_control hlow]
    · rw [List.singleton_append, unescapeFrom.eq_def]
      simp only [if_neg hback]

/-- The escapes that a text is quoted with stand for the text. -/
theorem unescape_flatMap_quoteChar (s : List Char) : unescape (s.flatMap quoteChar) = s := by
  have from' : ∀ r : List Char, unescapeFrom 0 (s.flatMap quoteChar ++ r) = s ++ unescapeFrom 0 r := by
    intro r
    induction s with
    | nil => rfl
    | cons c s ih => rw [List.flatMap_cons, List.append_assoc, unescapeFrom_quoteChar, ih]; rfl
  simpa [unescape, unescapeFrom] using from' []

end LocaleEditor.Text
