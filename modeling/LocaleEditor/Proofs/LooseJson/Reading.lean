/-
LocaleEditor.Proofs.LooseJson.Reading — printed JSON values are read back.

`ReadsAs text v` says that a text lexes to tokens that are read as the value
`v`, with something after them or not. A quoted text reads as a string, and
`Json.bracketed` turns parts that read as values into the text of an array or,
after their quoted keys, of an object.

A token list is at least as long as the reading of it is deep, so its length
serves as the number of levels everywhere.
-/
import LocaleEditor.Json.Printer
import LocaleEditor.LooseJson.Value
import LocaleEditor.Proofs.LooseJson.Lexing
import Mathlib.Tactic.Choose

namespace LocaleEditor.LooseJson

open LocaleEditor.Text

/-! ## 1. Tokens that read as a value -/

/-- The tokens read as the value, whatever follows. -/
def TokensOf (ts : List Token) (v : Value) : Prop :=
  ∀ n rest, ts.length ≤ n → readValue? n (ts ++ rest) = some (v, rest)

theorem TokensOf.string (s : List Char) : TokensOf [.string s] (.string s) := by
  intro n rest h
  obtain ⟨n, rfl⟩ := Nat.exists_eq_add_of_le' h
  rfl

/-- The tokens of a value begin with one that no closing bracket is. -/
theorem TokensOf.cons {ts : List Token} {v : Value} (h : TokensOf ts v) :
    ∃ t r, ts = t :: r ∧ t ≠ .closeBracket := by
  cases ts with
  | nil => simpa [readValue?] using h 0 [] (Nat.le_refl _)
  | cons t r =>
    refine ⟨t, r, rfl, fun ht => ?_⟩
    subst ht
    simpa [readValue?] using h (r.length + 1) [] (by simp)

/-- Token lists with a comma between two of them. -/
def listed : List (List Token) → List Token
  | [] => []
  | ts :: rest => ts ++ rest.flatMap (.comma :: ·)

theorem afterComma_flatMap {close : Token} (hc : close ≠ .comma) (tss : List (List Token))
    (rest : List Token) :
    afterComma (tss.flatMap (.comma :: ·) ++ close :: rest) = listed tss ++ close :: rest := by
  cases tss with
  | nil => cases close <;> simp_all [afterComma, listed]
  | cons ts tss => simp [afterComma, listed]

theorem length_listed_le (tss : List (List Token)) :
    (listed tss).length ≤ (tss.flatMap (Token.comma :: ·)).length := by
  cases tss <;> simp [listed]

/-! ## 2. Arrays and objects -/

theorem readElements?_listed (parts : List (List Token × Value))
    (h : ∀ p ∈ parts, TokensOf p.1 p.2) (rest : List Token) :
    ∀ n, (listed (parts.map (·.1))).length + 1 ≤ n →
      readElements? n (listed (parts.map (·.1)) ++ .closeBracket :: rest)
        = some (parts.map (·.2), rest) := by
  induction parts with
  | nil =>
    intro n hn
    obtain ⟨n, rfl⟩ := Nat.exists_eq_add_of_le' hn
    rfl
  | cons p parts ih =>
    intro n hn
    obtain ⟨ts, v⟩ := p
    have hv : TokensOf ts v := h (ts, v) (by simp)
    obtain ⟨t, r, rfl, ht⟩ := hv.cons
    have hlen := length_listed_le (parts.map (·.1))
    simp only [List.map_cons, listed, List.length_append, List.length_cons] at hn
    obtain ⟨n, rfl⟩ := Nat.exists_eq_add_of_le' (show 1 ≤ n by omega)
    have hread := hv n ((parts.map (·.1)).flatMap (.comma :: ·) ++ .closeBracket :: rest)
      (by simp; omega)
    simp only [List.map_cons, listed, List.append_assoc, List.cons_append] at hread ⊢
    rw [readElements?]
    · rw [hread]
      simp only [afterComma_flatMap (show Token.closeBracket ≠ .comma by decide)]
      rw [ih (fun p hp => h p (by simp [hp])) n (by omega)]
      rfl
    · intro r' hr'
      rw [List.cons.injEq] at hr'
      exact ht hr'.1

theorem TokensOf.array (parts : List (List Token × Value))
    (h : ∀ p ∈ parts, TokensOf p.1 p.2) :
    TokensOf (.openBracket :: listed (parts.map (·.1)) ++ [.closeBracket])
      (.array (parts.map (·.2))) := by
  intro n rest hn
  simp only [List.length_append, List.length_cons] at hn
  obtain ⟨n, rfl⟩ := Nat.exists_eq_add_of_le' (show 1 ≤ n by omega)
  simp only [List.cons_append, List.append_assoc, List.nil_append]
  rw [readValue?, readElements?_listed parts h rest n (by simpa using hn)]
  rfl

/-- The tokens of a member, given its key and what its value is. -/
def member (p : List Char × List Token × Value) : List Token := .string p.1 :: .colon :: p.2.1

theorem readMembers?_listed (parts : List (List Char × List Token × Value))
    (h : ∀ p ∈ parts, TokensOf p.2.1 p.2.2) (rest : List Token) :
    ∀ n, (listed (parts.map member)).length + 1 ≤ n →
      readMembers? n (listed (parts.map member) ++ .closeBrace :: rest)
        = some (parts.map fun p => (p.1, p.2.2), rest) := by
  induction parts with
  | nil =>
    intro n hn
    obtain ⟨n, rfl⟩ := Nat.exists_eq_add_of_le' hn
    rfl
  | cons p parts ih =>
    intro n hn
    obtain ⟨key, ts, v⟩ := p
    have hv : TokensOf ts v := h (key, ts, v) (by simp)
    have hlen := length_listed_le (parts.map member)
    have hmember : member (key, ts, v) = .string key :: .colon :: ts := rfl
    simp only [List.map_cons, listed, hmember, List.length_append, List.length_cons] at hn
    obtain ⟨n, rfl⟩ := Nat.exists_eq_add_of_le' (show 1 ≤ n by omega)
    have hread := hv n ((parts.map member).flatMap (.comma :: ·) ++ .closeBrace :: rest) (by omega)
    simp only [List.map_cons, listed, hmember, List.append_assoc, List.cons_append]
    rw [readMembers?]
    · simp only [Token.key?, hread]
      rw [afterComma_flatMap (show Token.closeBrace ≠ .comma by decide),
        ih (fun p hp => h p (by simp [hp])) n (by omega)]
      rfl
    · exact fun hkey => nomatch hkey

theorem TokensOf.object (parts : List (List Char × List Token × Value))
    (h : ∀ p ∈ parts, TokensOf p.2.1 p.2.2) :
    TokensOf (.openBrace :: listed (parts.map member) ++ [.closeBrace])
      (.object (parts.map fun p => (p.1, p.2.2))) := by
  intro n rest hn
  simp only [List.length_append, List.length_cons] at hn
  obtain ⟨n, rfl⟩ := Nat.exists_eq_add_of_le' (show 1 ≤ n by omega)
  simp only [List.cons_append, List.append_assoc, List.nil_append]
  rw [readValue?, readMembers?_listed parts h rest n (by simpa using hn)]
  rfl

/-! ## 3. Texts that read as a value -/

/-- The text is read as the value. -/
def ReadsAs (text : List Char) (v : Value) : Prop := ∃ ts, Lexes text ts ∧ TokensOf ts v

theorem ReadsAs.quote (s : List Char) : ReadsAs (Text.quote s) (.string s) :=
  ⟨_, .quote s, .string s⟩

/-- Parts on lines of their own lex one after another, with a comma between two of them. -/
theorem Lexes.bracketed {opening closing : Char} {o c : Token} (indentWidth level : Nat)
    (ho : Lexes [opening] [o]) (hc : Lexes [closing] [c]) (parts : List (List Char × List Token))
    (h : ∀ p ∈ parts, Lexes p.1 p.2) :
    Lexes (Json.bracketed indentWidth level opening closing (parts.map (·.1)))
      (o :: listed (parts.map (·.2)) ++ [c]) := by
  cases parts with
  | nil => exact ho.append hc
  | cons first rest =>
    have hrest : Lexes ((rest.map (·.1)).flatMap fun p =>
        ',' :: ('\n' :: List.replicate (indentWidth * (level + 1)) ' ') ++ p)
        ((rest.map (·.2)).flatMap (.comma :: ·)) := by
      have hmem : ∀ p ∈ rest, Lexes p.1 p.2 := fun p hp => h p (by simp [hp])
      clear h
      induction rest with
      | nil => exact .nil
      | cons p rest ih =>
        have hp := (Lexes.comma.append (.newline (indentWidth * (level + 1)))).append
          (hmem p (by simp))
        simpa using hp.append (ih fun q hq => hmem q (by simp [hq]))
    have hfirst := (ho.append (.newline (indentWidth * (level + 1)))).append (h first (by simp))
    have hclose := (Lexes.newline (indentWidth * level)).append hc
    simpa [Json.bracketed, listed] using (hfirst.append hrest).append hclose

theorem ReadsAs.array (indentWidth level : Nat) (parts : List (List Char × Value))
    (h : ∀ p ∈ parts, ReadsAs p.1 p.2) :
    ReadsAs (Json.bracketed indentWidth level '[' ']' (parts.map (·.1)))
      (.array (parts.map (·.2))) := by
  choose! ts hts using h
  have hlex := Lexes.bracketed indentWidth level .openBracket .closeBracket
    (parts.map fun p => (p.1, ts p)) (List.forall_mem_map.mpr fun p hp => (hts p hp).1)
  have hread := TokensOf.array (parts.map fun p => (ts p, p.2))
    (List.forall_mem_map.mpr fun p hp => (hts p hp).2)
  simp only [List.map_map, Function.comp_def] at hlex hread
  exact ⟨_, hlex, hread⟩

/-- A member as it is written. -/
def memberText (key text : List Char) : List Char := Text.quote key ++ [':', ' '] ++ text

theorem ReadsAs.object (indentWidth level : Nat) (parts : List (List Char × List Char × Value))
    (h : ∀ p ∈ parts, ReadsAs p.2.1 p.2.2) :
    ReadsAs (Json.bracketed indentWidth level '\x7b' '\x7d'
        (parts.map fun p => memberText p.1 p.2.1))
      (.object (parts.map fun p => (p.1, p.2.2))) := by
  choose! ts hts using h
  have hmember : ∀ p ∈ parts, Lexes (memberText p.1 p.2.1) (member (p.1, ts p, p.2.2)) := by
    intro p hp
    have hcolon : Lexes [':', ' '] [.colon] := Lexes.colon.append (.spaces 1)
    exact ((Lexes.quote p.1).append hcolon).append (hts p hp).1
  have hlex := Lexes.bracketed indentWidth level .openBrace .closeBrace
    (parts.map fun p => (memberText p.1 p.2.1, member (p.1, ts p, p.2.2)))
    (List.forall_mem_map.mpr hmember)
  have hread := TokensOf.object (parts.map fun p => (p.1, ts p, p.2.2))
    (List.forall_mem_map.mpr fun p hp => (hts p hp).2)
  simp only [List.map_map, Function.comp_def] at hlex hread
  exact ⟨_, hlex, hread⟩

/-- A text that ends with a line feed holds the value. -/
theorem ReadsAs.parse? {text : List Char} {v : Value} (h : ReadsAs text v) :
    parse? (text ++ ['\n']) = some v := by
  obtain ⟨ts, hlex, hts⟩ := h
  have hline : Lexes (text ++ ['\n']) ts := by simpa using hlex.append (.newline 0)
  have hread := hts (2 * ts.length + 2) [] (by omega)
  rw [List.append_nil] at hread
  simp [LooseJson.parse?, hline.tokens?, hread]

end LocaleEditor.LooseJson
