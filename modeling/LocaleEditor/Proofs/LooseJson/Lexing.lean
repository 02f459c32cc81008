/-
LocaleEditor.Proofs.LooseJson.Lexing — the tokens of printed JSON.

`Lexes chunk ts` says that a piece of text is read as the tokens `ts`, whatever
follows it. White space lexes to nothing, a sign of punctuation to its token,
and a quoted text to one string token (`Lexes.quote`). Pieces that lex can be
put one after another (`Lexes.append`).

No side condition on what follows is needed: of all tokens that printed JSON
has, none can be made longer by the next character.
-/
import LocaleEditor.LooseJson.Token
import LocaleEditor.Proofs.Text.Quoted

namespace LocaleEditor.LooseJson

open LocaleEditor.Text

/-! ## 1. Quoted texts -/

theorem unicodeEscape?_control {c : Char} (h : c.toNat < 0x20) (r : List Char) :
    unicodeEscape? ('0' :: '0' :: hexChar (c.toNat / 16) :: hexChar (c.toNat % 16) :: r)
      = some (c, 4) := by
  have hhigh : isHighSurrogate c.toNat = false := by
    simp only [isHighSurrogate, Bool.and_eq_false_iff, decide_eq_false_iff_not]
    omega
  simp [unicodeEscape?, hexPrefix?_hexChar (show c.toNat < 256 by omega), hhigh, scalar?_toNat]

/-- A character between quotes is read back from the way it is written. -/
theorem stringRest?_quoteChar (c : Char) (r : List Char) :
    stringRest? '"' 0 (quoteChar c ++ r)
      = (stringRest? '"' 0 r).map fun (value, rest) => (c :: value, rest) := by
  unfold quoteChar
  split
  · simp [stringRest?, simpleEscape?]
  · simp [stringRest?, simpleEscape?]
  · simp [stringRest?, simpleEscape?]
  · simp [stringRest?, simpleEscape?]
  · simp [stringRest?, simpleEscape?]
  · simp [stringRest?, simpleEscape?]
  · simp [stringRest?, simpleEscape?]
  · rename_i hquote hback _ _ _ _ _
    split
    · rename_i hlow
      simp [stringRest?, unicodeEscape?_control hlow]
    · rw [List.singleton_append, stringRest?.eq_def]
      simp only [if_neg hquote, if_neg hback]

theorem stringRest?_quoted (s r : List Char) :
    stringRest? '"' 0 (s.flatMap quoteChar ++ '"' :: r) = some (s, r) := by
  induction s with
  | nil => simp [stringRest?]
  | cons c s ih => simp [stringRest?_quoteChar, ih]

/-! ## 2. Pieces that lex -/

/-- The piece is read as these tokens, whatever follows. -/
def Lexes (chunk : List Char) (ts : List Token) : Prop :=
  ∀ n rest, chunk.length + rest.length ≤ n →
    ∃ m, rest.length ≤ m ∧ tokensWithin? n (chunk ++ rest) = (tokensWithin? m rest).map (ts ++ ·)

theorem Lexes.nil : Lexes [] [] := by
  intro n rest h
  exact ⟨n, by simpa using h, by simp⟩

theorem Lexes.append {a b : List Char} {ts us : List Token} (ha : Lexes a ts) (hb : Lexes b us) :
    Lexes (a ++ b) (ts ++ us) := by
  intro n rest h
  obtain ⟨m, hm, hn⟩ := ha n (b ++ rest) (by simp at h ⊢; omega)
  obtain ⟨k, hk, hmk⟩ := hb m rest (by simpa using hm)
  refine ⟨k, hk, ?_⟩
  rw [List.append_assoc, hn, hmk, Option.map_map]
  simp [Function.comp_def]

theorem tokensWithin?_nil (n : Nat) : tokensWithin? n [] = some [] := by
  cases n <;> rfl

-- opening `next?` here would only try its many characters
attribute [local irreducible] next? in
theorem tokensWithin?_succ (n : Nat) (c : Char) (r : List Char) :
    tokensWithin? (n + 1) (c :: r) = match next? c r with
      | none => none
      | some (none, rest) => tokensWithin? n rest
      | some (some t, rest) => (tokensWithin? n rest).map (t :: ·) := rfl

theorem tokensWithin?_cons {n : Nat} {c : Char} {r rest : List Char} {t : Option Token}
    (h : next? c r = some (t, rest)) :
    tokensWithin? (n + 1) (c :: r) = (tokensWithin? n rest).map (t.toList ++ ·) := by
  rw [tokensWithin?_succ, h]
  cases t <;> simp

/-- A token that is read in one round. -/
theorem Lexes.of_next? {c : Char} {chunk : List Char} {t : Token}
    (h : ∀ rest, next? c (chunk ++ rest) = some (some t, rest)) : Lexes (c :: chunk) [t] := by
  intro n rest hn
  obtain ⟨n, rfl⟩ := Nat.exists_eq_add_of_le' (show 1 ≤ n by simp at hn; omega)
  exact ⟨n, by simp at hn; omega, tokensWithin?_cons (h rest)⟩

theorem Lexes.blank {c : Char} (h : isBlank c = true) : Lexes [c] [] := by
  intro n rest hn
  obtain ⟨n, rfl⟩ := Nat.exists_eq_add_of_le' (show 1 ≤ n by simp at hn; omega)
  have hnext : next? c rest = some (none, rest) := by
    unfold next?
    rw [if_pos h]
  exact ⟨n, by simp at hn; omega, by simpa using tokensWithin?_cons hnext⟩

theorem Lexes.spaces (n : Nat) : Lexes (List.replicate n ' ') [] := by
  induction n with
  | zero => exact .nil
  | succ n ih => exact Lexes.append (.blank (by decide)) ih

theorem Lexes.newline (n : Nat) : Lexes ('\n' :: List.replicate n ' ') [] :=
  Lexes.append (.blank (by decide)) (.spaces n)

theorem Lexes.openBrace : Lexes ['\x7b'] [.openBrace] := .of_next? fun _ => rfl

theorem Lexes.closeBrace : Lexes ['\x7d'] [.closeBrace] := .of_next? fun _ => rfl

theorem Lexes.openBracket : Lexes ['['] [.openBracket] := .of_next? fun _ => rfl

theorem Lexes.closeBracket : Lexes [']'] [.closeBracket] := .of_next? fun _ => rfl

theorem Lexes.comma : Lexes [','] [.comma] := .of_next? fun _ => rfl

theorem Lexes.colon : Lexes [':'] [.colon] := .of_next? fun _ => rfl

theorem Lexes.quote (s : List Char) : Lexes (quote s) [.string s] := by
  refine .of_next? fun rest => ?_
  show (stringRest? '"' 0 (s.flatMap quoteChar ++ ['"'] ++ rest)).map _ = _
  rw [List.append_assoc, List.singleton_append, stringRest?_quoted]
  rfl

/-- The whole text has the tokens of its piece. -/
theorem Lexes.tokens? {s : List Char} {ts : List Token} (h : Lexes s ts) : tokens? s = some ts := by
  obtain ⟨m, -, hm⟩ := h s.length [] (by simp)
  rw [List.append_nil] at hm
  rw [LooseJson.tokens?, hm]
  simp [tokensWithin?_nil]

end LocaleEditor.LooseJson
