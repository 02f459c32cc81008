/-
LocaleEditor.Proofs.Script.Words — keys without quotes are words.

A key is written without quotes if it consists of letters, numbers and two
signs. The reader of words goes by what they do not contain instead:
punctuation and white space. So each letter and number, of every script, has
to be outside those (`isWordPart_of_isLetterOrNumeral`), and then a word ends
exactly where such a key does (`wordLength_plainKey`).
-/
import LocaleEditor.Script.Printer
import LocaleEditor.Script.Token

namespace LocaleEditor.Script

open LocaleEditor.Text

/-! ## 1. Characters -/

/-- The code points of white space. -/
def spaceCodes : List Nat :=
  [0x09, 0x0a, 0x0b, 0x0c, 0x0d, 0x20, 0x85, 0xa0, 0x1680, 0x2000, 0x2001, 0x2002, 0x2003, 0x2004,
    0x2005, 0x2006, 0x2007, 0x2008, 0x2009, 0x200a, 0x200b, 0x2028, 0x2029, 0x202f, 0x205f, 0x2060,
    0x3000, 0xfeff]

theorem mem_spaceCodes {c : Char} (h : isSpace c = true) : c.toNat ∈ spaceCodes := by
  simp only [isSpace, isBlank, Bool.or_eq_true, Bool.and_eq_true, decide_eq_true_eq, beq_iff_eq]
    at h
  simp only [spaceCodes, List.mem_cons, List.not_mem_nil, or_false]
  rcases h with ((h | rfl) | rfl) | rfl
  · omega
  · decide
  · decide
  · decide

/-- Beyond ASCII there is no white space among letters and numbers. -/
theorem inRanges_of_mem_spaceCodes : ∀ n ∈ spaceCodes, 0x80 ≤ n →
    inRanges n letterRanges = false ∧ inRanges n numeralRanges = false := by
  decide +kernel

theorem isWordPart_ascii : ∀ n < 0x80, isLetterOrNumeral (Char.ofNat n) = true →
    isWordPart (Char.ofNat n) = true := by
  decide +kernel

theorem isWordStart_ascii : ∀ n < 0x80, isLetter (Char.ofNat n) = true →
    (Char.ofNat n).isDigit = false := by
  decide +kernel

theorem punctuation_ascii : ∀ c ∈ punctuation, c.toNat < 0x80 := by
  have hall : punctuation.all (fun c => decide (c.toNat < 0x80)) = true := by decide
  exact fun c hc => of_decide_eq_true (List.all_eq_true.mp hall c hc)

/-- Every letter and number may stand in a word. -/
theorem isWordPart_of_isLetterOrNumeral {c : Char} (h : isLetterOrNumeral c = true) :
    isWordPart c = true := by
  by_cases hascii : c.toNat < 0x80
  · have hword := isWordPart_ascii c.toNat hascii
    rw [Char.ofNat_toNat] at hword
    exact hword h
  · have hspace : isSpace c = false := by
      refine Bool.eq_false_iff.mpr fun hs => ?_
      obtain ⟨hl, hn⟩ := inRanges_of_mem_spaceCodes _ (mem_spaceCodes hs) (by omega)
      simp [isLetterOrNumeral, isLetter, isNumeral, hascii, hl, hn] at h
    have hpunctuation : c ∉ punctuation := fun hp => hascii (punctuation_ascii c hp)
    have hcontrol : 0x1f < c.toNat := by omega
    simp [isWordPart, hspace, hpunctuation, hcontrol]

/-- A letter is no digit. -/
theorem isDigit_of_isLetter {c : Char} (h : isLetter c = true) : c.isDigit = false := by
  by_cases hascii : c.toNat < 0x80
  · have hdigit := isWordStart_ascii c.toNat hascii
    rw [Char.ofNat_toNat] at hdigit
    exact hdigit h
  · refine Bool.eq_false_iff.mpr fun hd => hascii ?_
    simp only [Char.isDigit, Bool.and_eq_true, decide_eq_true_eq] at hd
    have hle := UInt32.le_iff_toNat_le.mp hd.2
    have hnine : '9'.val.toNat = 57 := rfl
    have hval : c.toNat = c.val.toNat := rfl
    omega

/-! ## 2. Keys -/

/-- A key that is written without quotes begins like a word and goes on like one. -/
theorem wordParts_of_isPlainKey {key : List Char} (h : isPlainKey key = true) :
    ∃ c r, key = c :: r ∧ isWordStart c = true ∧ ∀ a ∈ key, isWordPart a = true := by
  cases key with
  | nil => cases h
  | cons c r =>
    have hunderscore : isWordPart '_' = true := by decide
    have hdollar : isWordPart '$' = true := by decide
    simp only [isPlainKey, Bool.and_eq_true, Bool.or_eq_true, beq_iff_eq, List.all_eq_true] at h
    obtain ⟨hc, hr⟩ := h
    have hpart : isWordPart c = true := by
      rcases hc with (hc | rfl) | rfl
      · exact isWordPart_of_isLetterOrNumeral (by simp [isLetterOrNumeral, hc])
      · exact hunderscore
      · exact hdollar
    have hdigit : c.isDigit = false := by
      rcases hc with (hc | rfl) | rfl
      · exact isDigit_of_isLetter hc
      · rfl
      · rfl
    refine ⟨c, r, rfl, by simp [isWordStart, hpart, hdigit], fun a ha => ?_⟩
    rcases List.mem_cons.mp ha with rfl | ha
    · exact hpart
    · rcases hr a ha with (ha | rfl) | rfl
      · exact isWordPart_of_isLetterOrNumeral ha
      · exact hunderscore
      · exact hdollar

/-- Parts of a word are read up to a sign that is none. -/
theorem wordLengthFrom_append {w r : List Char} {c : Char} (hw : ∀ a ∈ w, isWordPart a = true)
    (hc : isWordPart c = false) (hescape : c ≠ '\\') :
    wordLengthFrom 0 (w ++ c :: r) = w.length := by
  induction w with
  | nil =>
    have hunicode : unicodeLength (c :: r) = 0 := by
      unfold unicodeLength
      split <;> simp_all
    rw [List.nil_append, wordLengthFrom]
    simp [hc, hunicode]
  | cons a w ih =>
    have ha : isWordPart a = true := hw a List.mem_cons_self
    rw [List.cons_append, wordLengthFrom]
    simp only [ha, if_true, ih fun b hb => hw b (List.mem_cons_of_mem _ hb), List.length_cons]

/-- A word that begins with no digit ends before a sign that is no part of one. -/
theorem wordLength_append {w r : List Char} {c : Char} (hw : ∀ a ∈ w, isWordPart a = true)
    (hstart : ∀ a ∈ w.head?, a.isDigit = false) (hc : isWordPart c = false) (hescape : c ≠ '\\') :
    wordLength (w ++ c :: r) = w.length := by
  have hfrom := wordLengthFrom_append (r := r) hw hc hescape
  cases w with
  | nil =>
    rw [List.nil_append, wordLength]
    split
    · rfl
    · exact hfrom
  | cons a w =>
    rw [List.cons_append, wordLength, hstart a rfl]
    exact hfrom

/-! ## 3. Words that stand alone -/

/-- All of the text is one word. -/
def IsWord (w : List Char) : Prop := w ≠ [] ∧ wordLength w = w.length

instance (w : List Char) : Decidable (IsWord w) := inferInstanceAs (Decidable (_ ∧ _))

/-- What comes next is no part of a word. -/
def EndsWord (r : List Char) : Prop := ∀ c ∈ r.head?, isWordPart c = false ∧ c ≠ '\\'

theorem hexRun_append (s t : List Char) :
    hexRun s ≤ hexRun (s ++ t) ∧ (hexRun s < s.length → hexRun (s ++ t) = hexRun s) := by
  unfold hexRun
  rw [List.takeWhile_append]
  split
  · next h =>
    rw [h, List.length_append]
    exact ⟨Nat.le_add_right _ _, fun hlt => absurd hlt (Nat.lt_irrefl _)⟩
  · exact ⟨Nat.le_refl _, fun _ => rfl⟩

/-- An escape takes no more than there is, and what comes after it does not matter. -/
theorem unicodeLength_append {s : List Char} {n : Nat} (h : unicodeLength s = n + 1)
    (t : List Char) : n + 1 ≤ s.length ∧ unicodeLength (s ++ t) = n + 1 := by
  unfold unicodeLength at h
  split at h
  · next r =>
    dsimp only at h
    split at h
    · next hclose =>
      rw [Bool.and_eq_true, decide_eq_true_eq, beq_iff_eq] at hclose
      have hlt : hexRun r < r.length := by
        refine Nat.lt_of_not_le fun hle => ?_
        rw [List.drop_eq_nil_of_le hle] at hclose
        cases hclose.2
      have hrun := (hexRun_append r t).2 hlt
      have hhead : ((r ++ t).drop (hexRun r)).head? = some '\x7d' := by
        rw [List.drop_append_of_le_length (Nat.le_of_lt hlt)]
        cases hd : r.drop (hexRun r) with
        | nil => rw [hd] at hclose; cases hclose.2
        | cons c u => rw [hd] at hclose; exact hclose.2
      refine ⟨by simp only [List.length_cons]; omega, ?_⟩
      simp [unicodeLength, hrun, hhead, hclose.1, h]
    · cases h
  · next r hbrace =>
    split at h
    · next hfour =>
      have hle : hexRun r ≤ r.length := (List.takeWhile_prefix _).length_le
      have hrun := (hexRun_append r t).1
      refine ⟨by simp only [List.length_cons]; omega, ?_⟩
      rw [← h]
      cases r with
      | nil => cases hfour
      | cons c r =>
        have hc : c ≠ '\x7b' := by
          rintro rfl
          exact hbrace r rfl
        have hfour' : 4 ≤ hexRun (c :: (r ++ t)) := Nat.le_trans hfour hrun
        simp only [List.cons_append]
        unfold unicodeLength
        split
        · next heq => exact absurd (List.cons.inj (List.cons.inj (List.cons.inj heq).2).2).1 hc
        · next heq =>
          obtain rfl := (List.cons.inj (List.cons.inj heq).2).2
          rw [if_pos hfour']
        · next hne => exact absurd rfl (hne _)
    · cases h
  · cases h

theorem wordLengthFrom_eq_append {w r : List Char} {skip : Nat} (hr : EndsWord r)
    (hskip : skip ≤ w.length) (h : wordLengthFrom skip w = w.length) :
    wordLengthFrom skip (w ++ r) = w.length := by
  induction w generalizing skip with
  | nil =>
    obtain rfl : skip = 0 := Nat.le_zero.mp hskip
    cases r with
    | nil => rfl
    | cons c r =>
      obtain ⟨hc, hescape⟩ := hr c rfl
      exact wordLengthFrom_append (w := []) (fun _ h => absurd h List.not_mem_nil) hc hescape
  | cons a w ih =>
    cases skip with
    | succ k =>
      rw [wordLengthFrom] at h
      rw [List.cons_append, wordLengthFrom]
      exact congrArg (· + 1) (ih (Nat.le_of_succ_le_succ hskip) (Nat.succ.inj h))
    | zero =>
      rw [wordLengthFrom] at h
      rw [List.cons_append, wordLengthFrom]
      split at h
      · next ha =>
        rw [if_pos ha]
        exact congrArg (· + 1) (ih (Nat.zero_le _) (Nat.succ.inj h))
      · next ha =>
        rw [if_neg ha]
        split at h
        · cases h
        · next n hunicode =>
          obtain ⟨hle, happend⟩ := unicodeLength_append hunicode r
          rw [← List.cons_append, happend]
          exact congrArg (· + 1) (ih (Nat.le_of_succ_le_succ hle) (Nat.succ.inj h))

/-- A word that stands alone is read up to what is no part of one. -/
theorem IsWord.wordLength_append {w r : List Char} (hw : IsWord w) (hr : EndsWord r) :
    wordLength (w ++ r) = w.length := by
  obtain ⟨hne, hlength⟩ := hw
  cases w with
  | nil => exact absurd rfl hne
  | cons c w =>
    rw [wordLength] at hlength
    rw [List.cons_append, wordLength]
    split at hlength
    · cases hlength
    · next hdigit =>
      rw [if_neg hdigit]
      exact wordLengthFrom_eq_append hr (Nat.zero_le _) hlength

/-- A word begins with a letter or an escape. -/
theorem IsWord.head {w : List Char} (hw : IsWord w) :
    ∃ c r, w = c :: r ∧ (isWordStart c = true ∨ c = '\\') := by
  obtain ⟨hne, hlength⟩ := hw
  cases w with
  | nil => exact absurd rfl hne
  | cons c r =>
    refine ⟨c, r, rfl, ?_⟩
    rw [wordLength] at hlength
    split at hlength
    · cases hlength
    · next hdigit =>
      rw [wordLengthFrom] at hlength
      split at hlength
      · next hpart => exact .inl (by simp [isWordStart, hpart, hdigit])
      · refine .inr (Decidable.byContradiction fun hescape => ?_)
        have hunicode : unicodeLength (c :: r) = 0 := by
          unfold unicodeLength
          split <;> simp_all
        rw [hunicode] at hlength
        cases hlength

/-- The word in front of a colon is the key there. -/
theorem wordLength_plainKey {key : List Char} (h : isPlainKey key = true) (r : List Char) :
    wordLength (key ++ ':' :: r) = key.length := by
  obtain ⟨c, k, rfl, hstart, hparts⟩ := wordParts_of_isPlainKey h
  refine wordLength_append hparts (fun a ha => ?_) (by decide) (by decide)
  obtain rfl := Option.some.inj ha
  simp only [isWordStart, Bool.and_eq_true, Bool.not_eq_true'] at hstart
  exact hstart.2

/-- No word begins with a sign of punctuation other than a backslash. -/
theorem wordLength_punctuation {c : Char} (hc : isWordPart c = false) (hescape : c ≠ '\\')
    (r : List Char) : wordLength (c :: r) = 0 :=
  wordLength_append (w := []) (fun _ h => absurd h List.not_mem_nil) (fun _ h => nomatch h) hc
    hescape

end LocaleEditor.Script
