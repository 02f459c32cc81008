/-
LocaleEditor.Proofs.Script.Indented — text with more spaces at the beginnings of its lines.

`Indented kept s s'` says that `s'` is `s` with spaces put in after some of its line
breaks. This module treats the pieces that are measured by characters, such as
words, numbers, strings and comments: each has the same length in both texts, or
it goes over line breaks and then what is left after it is indented likewise.

A block is printed with the indentation of the place where it is printed, so
what was read once is read again with other spaces at the beginnings of its
lines. That the second reading ends where the first did is what the modules on
steady readers show, and it begins here, with the characters.

## How the proofs go

* Most pieces end with the line at the latest. A function that does not look
  beyond the first line break (`OfLine`) cannot tell the two texts apart
  (`OfLine.eq`), and after as many characters as it counts the rests are
  indented likewise (`OfLine.drop`). So for a word, a number or a regular
  expression two facts are enough: it is `OfLine`, and no longer than the text.
* Strings, templates and block comments go over line breaks. They need not be of
  the same length in both texts, but either both of them end or neither does
  (`SameEnd`).
* White space may be longer in one text, and what is left after it begins with
  the same character in both (`SameFront`).

## Why the last characters are counted

The two texts end alike, from the end of the block on: there `Indented` allows no
spaces (`kept`). So a rest that is no longer than that is the same text twice
(`Indented.eq_of_length_le`). This is how it is known where the block ends.
-/
import LocaleEditor.Script.Element

namespace LocaleEditor.Script

open LocaleEditor.Text

variable {kept : Nat} {s s' t : List Char} {c : Char} {β : Type}

/-! ## 1. Spaces after line breaks

The relation, and how it is taken apart: by one character (`Indented.exists_cons`),
by a prefix on the first line (`Indented.exists_append`), or at the end of the
line (`Indented.cut`). After a line break spaces may stand in the second text
that are not in the first, so what is known of the rests there is only
`AfterBreak`, until white space has been passed over. -/

/-- `s'` is `s` with spaces put in after some of its line breaks, but not within the last `kept`
characters. -/
class inductive Indented (kept : outParam Nat) : List Char → List Char → Prop
  | same {s : List Char} (hs : s.length ≤ kept) : Indented kept s s
  | char {s s' : List Char} (c : Char) (hs : kept ≤ s.length) (h : Indented kept s s') :
      Indented kept (c :: s) (c :: s')
  | line {s s' : List Char} (n : Nat) (hs : kept ≤ s.length) (h : Indented kept s s') :
      Indented kept ('\n' :: s) ('\n' :: (List.replicate n ' ' ++ s'))

/-- The same from right after a line break on, where spaces may have been put in. -/
inductive AfterBreak (kept : Nat) (s : List Char) : List Char → Prop
  | here {s' : List Char} (h : Indented kept s s') : AfterBreak kept s s'
  | space {s' : List Char} (h : AfterBreak kept s s') : AfterBreak kept s (' ' :: s')

/-- The last characters are the same. -/
theorem Indented.eq_of_length_le (h : Indented kept s s') (hs : s.length ≤ kept) : s' = s := by
  cases h with
  | same => rfl
  | char c hle => exact absurd (Nat.lt_of_lt_of_le hs hle) (Nat.lt_irrefl _)
  | line n hle => exact absurd (Nat.lt_of_lt_of_le hs hle) (Nat.lt_irrefl _)

theorem Indented.cons (c : Char) (h : Indented kept s s') : Indented kept (c :: s) (c :: s') := by
  rcases Nat.lt_or_ge s.length kept with hlt | hge
  · rw [h.eq_of_length_le (Nat.le_of_lt hlt)]
    exact .same hlt
  · exact .char c hge h

theorem Indented.refl (s : List Char) : Indented kept s s := by
  induction s with
  | nil => exact .same (Nat.zero_le _)
  | cons c r ih => exact ih.cons c

theorem Indented.length_le (h : Indented kept s s') : s.length ≤ s'.length := by
  induction h with
  | same => exact Nat.le_refl _
  | char c _ _ ih => exact Nat.succ_le_succ ih
  | line n _ _ ih =>
    simp only [List.length_cons, List.length_append]
    omega

theorem AfterBreak.replicate (n : Nat) (h : AfterBreak kept s s') :
    AfterBreak kept s (List.replicate n ' ' ++ s') := by
  induction n with
  | zero => exact h
  | succ n ih => exact .space ih

theorem Indented.eq_nil (h : Indented kept [] s') : s' = [] :=
  h.eq_of_length_le (Nat.zero_le _)

/-- The first character is the same, and what comes after it is indented likewise. -/
theorem Indented.exists_cons (h : Indented kept (c :: s) s') :
    ∃ r, s' = c :: r ∧ AfterBreak kept s r ∧ (c ≠ '\n' → Indented kept s r) := by
  -- only after a line break is the weaker relation all there is
  cases h with
  | same => exact ⟨_, rfl, .here (.refl _), fun _ => .refl _⟩
  | char _ _ h => exact ⟨_, rfl, .here h, fun _ => h⟩
  | line n _ h => exact ⟨_, rfl, .replicate n (.here h), fun hc => absurd rfl hc⟩

theorem Indented.head?_eq (h : Indented kept s s') : s.head? = s'.head? := by
  cases h <;> rfl

/-- The same with the first character of the other text given. -/
theorem Indented.exists_cons' {r' : List Char} (h : Indented kept s (c :: r')) :
    ∃ r, s = c :: r ∧ AfterBreak kept r r' ∧ (c ≠ '\n' → Indented kept r r') := by
  cases h with
  | same => exact ⟨_, rfl, .here (.refl _), fun _ => .refl _⟩
  | char _ _ h => exact ⟨_, rfl, .here h, fun _ => h⟩
  | line n _ h => exact ⟨_, rfl, .replicate n (.here h), fun hc => absurd rfl hc⟩

/-- What both texts begin with on their first line can be left out. -/
theorem Indented.exists_append {p : List Char} (hp : '\n' ∉ p) {r : List Char}
    (h : Indented kept (p ++ r) s') : ∃ r', s' = p ++ r' ∧ Indented kept r r' := by
  induction p generalizing s' with
  | nil => exact ⟨s', rfl, h⟩
  | cons c p ih =>
    obtain ⟨t, rfl, -, ht⟩ := h.exists_cons
    have hc : c ≠ '\n' := fun hc => hp (hc ▸ List.mem_cons_self)
    obtain ⟨r', rfl, hr⟩ := ih (fun hmem => hp (List.mem_cons_of_mem _ hmem)) (ht hc)
    exact ⟨r', rfl, hr⟩

theorem Indented.exists_append' {p : List Char} (hp : '\n' ∉ p) {r' : List Char}
    (h : Indented kept s (p ++ r')) : ∃ r, s = p ++ r ∧ Indented kept r r' := by
  induction p generalizing s with
  | nil => exact ⟨s, rfl, h⟩
  | cons c p ih =>
    obtain ⟨t, rfl, -, ht⟩ := h.exists_cons'
    have hc : c ≠ '\n' := fun hc => hp (hc ▸ List.mem_cons_self)
    obtain ⟨r, rfl, hr⟩ := ih (fun hmem => hp (List.mem_cons_of_mem _ hmem)) (ht hc)
    exact ⟨r, rfl, hr⟩

/-- Both texts begin with the characters, or neither does. -/
theorem Indented.begins {p : List Char} (hp : '\n' ∉ p) (h : Indented kept s s') :
    (∃ r r', s = p ++ r ∧ s' = p ++ r' ∧ Indented kept r r') ∨
    (∀ r, s ≠ p ++ r) ∧ ∀ r', s' ≠ p ++ r' := by
  by_cases hs : ∃ r, s = p ++ r
  · obtain ⟨r, rfl⟩ := hs
    obtain ⟨r', rfl, hr⟩ := h.exists_append hp
    exact .inl ⟨r, r', rfl, rfl, hr⟩
  · refine .inr ⟨fun r hr => hs ⟨r, hr⟩, ?_⟩
    rintro r' rfl
    obtain ⟨r, rfl, -⟩ := h.exists_append' hp
    exact hs ⟨r, rfl⟩

theorem Indented.first {c : Char} (hc : c ≠ '\n') (h : Indented kept s s') :
    (∃ r r', s = c :: r ∧ s' = c :: r' ∧ Indented kept r r') ∨
    (∀ r, s ≠ c :: r) ∧ ∀ r', s' ≠ c :: r' :=
  h.begins (p := [c]) (by simpa using hc.symm)

/-- The texts are the same up to the end of the line. -/
theorem Indented.cut (h : Indented kept s s') : ∃ x t t', s = x ++ t ∧ s' = x ++ t' ∧ '\n' ∉ x ∧
    Indented kept t t' ∧ (t = [] ∧ t' = [] ∨ ∃ y y', t = '\n' :: y ∧ t' = '\n' :: y') := by
  induction s generalizing s' with
  | nil =>
    rw [h.eq_nil]
    exact ⟨[], [], [], rfl, rfl, List.not_mem_nil, .refl _, .inl ⟨rfl, rfl⟩⟩
  | cons c r ih =>
    obtain ⟨r', rfl, -, hr⟩ := h.exists_cons
    by_cases hc : c = '\n'
    · subst hc
      exact ⟨[], _, _, rfl, rfl, List.not_mem_nil, h, .inr ⟨_, _, rfl, rfl⟩⟩
    · obtain ⟨x, t, t', rfl, rfl, hx, ht, hend⟩ := ih (hr hc)
      refine ⟨c :: x, t, t', rfl, rfl, fun hmem => ?_, ht, hend⟩
      rcases List.mem_cons.mp hmem with heq | hmem
      · exact hc heq.symm
      · exact hx hmem

/-- Text in front of both, where it is the same. -/
theorem Indented.append (x : List Char) (h : Indented kept s s') :
    Indented kept (x ++ s) (x ++ s') := by
  induction x with
  | nil => exact h
  | cons c x ih => exact ih.cons c

/-- White space is passed over up to the same character. -/
theorem AfterBreak.dropWhile {p : Char → Bool} (hspace : p ' ' = true) (hline : p '\n' = true)
    (h : AfterBreak kept s s') : Indented kept (s.dropWhile p) (s'.dropWhile p) := by
  -- along the first text, and for each of its characters along the spaces in front of the other
  induction s generalizing s' with
  | nil =>
    induction h with
    | here h =>
      rw [h.eq_nil]
      exact .refl _
    | space _ ih =>
      rw [List.dropWhile_cons_of_pos hspace]
      exact ih
  | cons c r ihr =>
    induction h with
    | here h =>
      obtain ⟨r', rfl, hafter, hr⟩ := h.exists_cons
      cases hc : p c with
      | true =>
        rw [List.dropWhile_cons_of_pos hc, List.dropWhile_cons_of_pos hc]
        exact ihr hafter
      | false =>
        have hne : c ≠ '\n' := by rintro rfl; rw [hline] at hc; cases hc
        rw [List.dropWhile_cons_of_neg (by simp [hc]), List.dropWhile_cons_of_neg (by simp [hc])]
        exact (hr hne).cons c
    | space _ ih =>
      rw [List.dropWhile_cons_of_pos hspace]
      exact ih

/-! ## 2. Pieces that end with their line

`OfLine F` is stated for every text with a line break in it, so that it can be
proved of a function by its equations alone, with no second text in view. -/

/-- The function does not look beyond the first line break. -/
def OfLine (F : List Char → β) : Prop :=
  ∀ x y, '\n' ∉ x → F (x ++ '\n' :: y) = F x

namespace OfLine

/-- Such a function gives the same for both texts. -/
theorem eq {F : List Char → β} (hF : OfLine F) (h : Indented kept s s') : F s = F s' := by
  obtain ⟨x, t, t', rfl, rfl, hx, -, ⟨rfl, rfl⟩ | ⟨y, y', rfl, rfl⟩⟩ := h.cut
  · rfl
  · rw [hF x y hx, hF x y' hx]

/-- Some characters of a piece that ends with its line, or all of them. -/
theorem drop {F : List Char → Nat} (hF : OfLine F) (hle : ∀ s, F s ≤ s.length)
    (h : Indented kept s s') {k : Nat} (hk : k ≤ F s) : Indented kept (s.drop k) (s'.drop k) := by
  obtain ⟨x, t, t', rfl, rfl, hx, ht, ⟨rfl, rfl⟩ | ⟨y, y', rfl, rfl⟩⟩ := h.cut
  · exact .refl _
  · rw [hF x y hx] at hk
    have hk := Nat.le_trans hk (hle x)
    rw [List.drop_append_of_le_length hk, List.drop_append_of_le_length hk]
    exact .append _ ht

/-- The characters that are counted are the same. -/
theorem take {F : List Char → Nat} (hF : OfLine F) (hle : ∀ s, F s ≤ s.length)
    (h : Indented kept s s') : s.take (F s) = s'.take (F s') := by
  obtain ⟨x, t, t', rfl, rfl, hx, ht, ⟨rfl, rfl⟩ | ⟨y, y', rfl, rfl⟩⟩ := h.cut
  · rfl
  · rw [hF x y hx, hF x y' hx, List.take_append_of_le_length (hle x),
      List.take_append_of_le_length (hle x)]

theorem takeWhile {p : Char → Bool} (hp : p '\n' = false) : OfLine (List.takeWhile p) := by
  intro x y _
  induction x with
  | nil => simp [hp]
  | cons c x ih => simp_all [List.takeWhile_cons]

theorem isPrefixOf {t : List Char} (ht : '\n' ∉ t) : OfLine t.isPrefixOf := by
  intro x y _
  induction t generalizing x with
  | nil => simp
  | cons a t ih =>
    have ha : a ≠ '\n' := fun h => ht (h ▸ List.mem_cons_self)
    cases x with
    | nil => simp [List.isPrefixOf, ha]
    | cons c x => simp_all [List.isPrefixOf]

end OfLine

theorem notMem_drop {x : List Char} (hx : '\n' ∉ x) (n : Nat) : '\n' ∉ x.drop n :=
  fun h => hx (List.mem_of_mem_drop h)

theorem lineRest_le (s : List Char) : lineRest s ≤ s.length :=
  (List.takeWhile_prefix _).length_le

theorem ofLine_lineRest : OfLine lineRest := fun x y hx => by
  unfold lineRest
  rw [OfLine.takeWhile (by decide) x y hx]

theorem hexRun_le (s : List Char) : hexRun s ≤ s.length := (List.takeWhile_prefix _).length_le

theorem ofLine_hexRun : OfLine hexRun := fun x y hx => by
  unfold hexRun
  rw [OfLine.takeWhile (by decide) x y hx]

theorem unicodeLength_le (s : List Char) : unicodeLength s ≤ s.length := by
  unfold unicodeLength
  split
  · next r =>
    have hle := hexRun_le r
    dsimp only
    split
    · next h =>
      simp only [Bool.and_eq_true, beq_iff_eq] at h
      have hdrop : (r.drop (hexRun r)).length ≠ 0 := by
        intro h0
        rw [List.eq_nil_of_length_eq_zero h0] at h
        cases h.2
      rw [List.length_drop] at hdrop
      simp only [List.length_cons]
      omega
    · exact Nat.zero_le _
  · next r _ =>
    have hle := hexRun_le r
    split
    · simp only [List.length_cons]
      omega
    · exact Nat.zero_le _
  · exact Nat.zero_le _

/-- Nor does it look beyond the line whether a certain character comes after the piece. -/
theorem OfLine.head?_drop {F : List Char → Nat} {o : Char} (ho : o ≠ '\n') (hF : OfLine F)
    (hle : ∀ s, F s ≤ s.length) {x : List Char} (y : List Char) (hx : '\n' ∉ x) :
    (((x ++ '\n' :: y).drop (F (x ++ '\n' :: y))).head? == some o)
      = ((x.drop (F x)).head? == some o) := by
  rw [hF x y hx, List.drop_append_of_le_length (hle x)]
  cases x.drop (F x) with
  | nil => simp [ho.symm]
  | cons c r => rfl

theorem ofLine_unicodeLength : OfLine unicodeLength := by
  intro x y hx
  -- the line may end anywhere within the `\u{` that the escape begins with
  match x with
  | [] => rfl
  | [a] =>
    unfold unicodeLength
    split <;> simp_all
  | a :: b :: x =>
    have hx' : '\n' ∉ x := by simp_all
    have hrun := ofLine_hexRun x y hx'
    by_cases ha : a = '\\' ∧ b = 'u'
    · obtain ⟨rfl, rfl⟩ := ha
      match x with
      | [] =>
        have hrun : hexRun ('\n' :: y) = 0 := hrun
        simp [unicodeLength, hrun, show hexRun [] = 0 from rfl]
      | c :: x =>
        by_cases hc : c = '{'
        · subst hc
          have hx' : '\n' ∉ x := by simp_all
          have hhead := ofLine_hexRun.head?_drop (o := '}') (by decide) hexRun_le y hx'
          have hrun := ofLine_hexRun x y hx'
          simp only [List.cons_append, unicodeLength, hrun] at hhead ⊢
          rw [hhead]
        · simp only [List.cons_append] at hrun
          simp [unicodeLength, hc, hrun]
    · have hne : ∀ r, unicodeLength (a :: b :: r) = 0 := fun r => by
        unfold unicodeLength
        split <;> simp_all
      rw [List.cons_append, List.cons_append, hne, hne]

/-! ## 3. Words, numbers and regular expressions

For each function that measures one of these there is a bound (`…_le`) and the
fact that it does not look beyond the line (`ofLine_…`). Those that call
themselves with a number of characters to skip are treated with that number
general. -/

theorem wordLengthFrom_le (k : Nat) (s : List Char) : wordLengthFrom k s ≤ s.length := by
  induction s generalizing k with
  | nil => exact Nat.le_refl _
  | cons c r ih =>
    have hr : ∀ k, wordLengthFrom k r + 1 ≤ (c :: r).length := fun k => Nat.succ_le_succ (ih k)
    cases k with
    | succ k => exact hr k
    | zero =>
      unfold wordLengthFrom
      dsimp only
      split
      · exact hr 0
      · split
        · exact Nat.zero_le _
        · exact hr _

theorem wordLength_le (s : List Char) : wordLength s ≤ s.length := by
  cases s with
  | nil => exact Nat.le_refl _
  | cons c r =>
    unfold wordLength
    dsimp only
    split
    · exact Nat.zero_le _
    · exact wordLengthFrom_le 0 _

/-- With `k` characters still to be skipped, which are on the line. -/
theorem wordLengthFrom_line (k : Nat) (x y : List Char) (hx : '\n' ∉ x) (hk : k ≤ x.length) :
    wordLengthFrom k (x ++ '\n' :: y) = wordLengthFrom k x := by
  induction x generalizing k with
  | nil =>
    obtain rfl : k = 0 := Nat.le_zero.mp hk
    have hpart : isWordPart '\n' = false := by decide
    simp [wordLengthFrom, hpart, unicodeLength]
  | cons c x ih =>
    have hx' : '\n' ∉ x := fun h => hx (List.mem_cons_of_mem _ h)
    cases k with
    | succ k => exact congrArg (· + 1) (ih k hx' (Nat.le_of_succ_le_succ hk))
    | zero =>
      have hescape : unicodeLength (c :: (x ++ '\n' :: y)) = unicodeLength (c :: x) :=
        ofLine_unicodeLength (c :: x) y hx
      have hle := unicodeLength_le (c :: x)
      rw [List.cons_append]
      unfold wordLengthFrom
      dsimp only
      rw [hescape, ih 0 hx' (Nat.zero_le _)]
      split
      · rfl
      · split
        · rfl
        · next n hn =>
          -- an escape is skipped, and it is within the line
          rw [hn] at hle
          rw [ih n hx' (Nat.le_of_succ_le_succ hle)]

theorem ofLine_wordLength : OfLine wordLength := by
  intro x y hx
  cases x with
  | nil =>
    have hpart : isWordPart '\n' = false := by decide
    simp [wordLength, wordLengthFrom, hpart, unicodeLength]
  | cons c x =>
    have hfrom := wordLengthFrom_line 0 (c :: x) y hx (Nat.zero_le _)
    rw [List.cons_append] at hfrom ⊢
    unfold wordLength
    dsimp only
    rw [hfrom]

theorem patternLength?_lt {inClass escaped : Bool} {n : Nat}
    (h : patternLength? inClass escaped s = some n) : n < s.length := by
  induction s generalizing inClass escaped n with
  | nil => cases h
  | cons c r ih =>
    have hr : ∀ {inClass escaped} {n : Nat},
        (patternLength? inClass escaped r).map (· + 1) = some n → n < (c :: r).length := by
      intro inClass escaped n h
      obtain ⟨k, hk, rfl⟩ := Option.map_eq_some_iff.mp h
      exact Nat.succ_lt_succ (ih hk)
    unfold patternLength? at h
    split at h
    · cases h
    split at h
    · exact hr h
    split at h
    · exact hr h
    split at h
    · exact hr h
    split at h
    · obtain rfl := Option.some.inj h
      exact Nat.succ_pos _
    · exact hr h

theorem ofLine_patternLength? (inClass escaped : Bool) :
    OfLine (patternLength? inClass escaped) := by
  intro x y hx
  induction x generalizing inClass escaped with
  | nil => rfl
  | cons c x ih =>
    have ih := fun i e => ih i e fun h => hx (List.mem_cons_of_mem _ h)
    rw [List.cons_append]
    unfold patternLength?
    simp only [ih]

theorem regexLength?_le {n : Nat} (h : regexLength? s = some n) : n ≤ s.length := by
  unfold regexLength? at h
  split at h
  · next r =>
    split at h
    · next k hk =>
      obtain rfl := Option.some.inj h
      have hlt := patternLength?_lt hk
      have hflags : ((r.drop (k + 2)).takeWhile fun c => 'a' ≤ c && c ≤ 'z').length
          ≤ (r.drop (k + 2)).length := (List.takeWhile_prefix _).length_le
      rw [List.length_drop] at hflags
      simp only [List.length_cons]
      omega
    · cases h
  · cases h

theorem ofLine_regexLength? : OfLine regexLength? := by
  intro x y hx
  match x with
  | [] => rfl
  | c :: x =>
    by_cases hc : c = '/'
    · subst hc
      have hx' : '\n' ∉ x := fun h => hx (List.mem_cons_of_mem _ h)
      simp only [List.cons_append, regexLength?, ofLine_patternLength? false false x y hx']
      split
      · next n hn =>
        have hlt := patternLength?_lt hn
        rw [List.drop_append_of_le_length (by omega),
          OfLine.takeWhile (by decide) _ y (notMem_drop hx' _)]
      · rfl
    · have hne : ∀ r, regexLength? (c :: r) = none := fun r => by
        unfold regexLength?
        split <;> simp_all
      rw [List.cons_append, hne, hne]

section Numbers

/-! Numbers are taken apart first: those that name their base, and those in base
ten, with a fraction and an exponent. `numberLength` is these parts put together
(`numberLength_eq`). -/

variable {digit : Char → Bool}

theorem digitRun_le (s : List Char) : digitRun digit s ≤ s.length := by
  induction s with
  | nil => exact Nat.le_refl _
  | cons c r ih =>
    have hr : digitRun digit r + 1 ≤ (c :: r).length := Nat.succ_le_succ ih
    unfold digitRun
    split
    · split
      · split
        · exact hr
        · exact Nat.succ_le_succ (Nat.zero_le _)
      · exact hr
    · split
      · split
        · split
          · exact hr
          · exact Nat.zero_le _
        · exact Nat.zero_le _
      · exact Nat.zero_le _

theorem ofLine_digitRun (hline : digit '\n' = false) (hbar : digit '_' = false) :
    OfLine (digitRun digit) := by
  intro x y hx
  induction x with
  | nil => simp [digitRun, hline]
  | cons c x ih =>
    have ih := ih fun h => hx (List.mem_cons_of_mem _ h)
    match x with
    | [] =>
      rw [List.nil_append] at ih
      simp [digitRun, hline]
    | [a] =>
      -- a bar between digits needs the digit after it, which is not the line break
      by_cases ha : a = '_'
      · subst ha
        simp [digitRun, hline, hbar]
      · simp only [List.cons_append, List.nil_append] at ih ⊢
        unfold digitRun
        simp [ih, ha]
    | a :: b :: x =>
      simp only [List.cons_append] at ih ⊢
      unfold digitRun
      split
      · split
        · simp_all
        · simp_all
      · simp [ih]

theorem digitsLength_le (digit : Char → Bool) (s : List Char) :
    digitsLength digit s ≤ s.length := by
  unfold digitsLength
  split
  · split
    · exact digitRun_le _
    · exact Nat.zero_le _
  · exact Nat.zero_le _

theorem ofLine_digitsLength (digit : Char → Bool) (hline : digit '\n' = false)
    (hbar : digit '_' = false) : OfLine (digitsLength digit) := by
  intro x y hx
  cases x with
  | nil => simp [digitsLength, hline]
  | cons c x =>
    have hrun := ofLine_digitRun hline hbar (c :: x) y hx
    rw [List.cons_append] at hrun ⊢
    unfold digitsLength
    dsimp only
    rw [hrun]

theorem head?_line {o : Char} (ho : o ≠ '\n') (x y : List Char) :
    ((x ++ '\n' :: y).head? == some o) = (x.head? == some o) := by
  cases x with
  | nil => simp [ho.symm]
  | cons c x => rfl

theorem exponentLength_le (s : List Char) : exponentLength s ≤ s.length := by
  unfold exponentLength
  split
  · next c r =>
    split
    · generalize hsign : (if r.head? == some '-' || r.head? == some '+' then 1 else 0) = sign
      have hle := digitsLength_le Char.isDigit (r.drop sign)
      dsimp only
      split
      · exact Nat.zero_le _
      · next n hn =>
        rw [hn, List.length_drop] at hle
        simp only [List.length_cons]
        omega
    · exact Nat.zero_le _
  · exact Nat.zero_le _

theorem ofLine_exponentLength : OfLine exponentLength := by
  intro x y hx
  cases x with
  | nil => simp [exponentLength]
  | cons c x =>
    have hx' : '\n' ∉ x := fun h => hx (List.mem_cons_of_mem _ h)
    have hdigits := ofLine_digitsLength Char.isDigit (by decide) (by decide)
    rw [List.cons_append]
    unfold exponentLength
    dsimp only
    rw [head?_line (by decide), head?_line (by decide)]
    split
    · generalize hsign : (if x.head? == some '-' || x.head? == some '+' then 1 else 0) = sign
      have hle : sign ≤ x.length := by
        subst hsign
        cases x with
        | nil => exact Nat.le_refl _
        | cons a x => split <;> simp
      rw [List.drop_append_of_le_length hle, hdigits _ y (notMem_drop hx' _)]
    · rfl

/-- The length of a number with two characters in front that name its base. -/
def radixLength (digit : Char → Bool) (s : List Char) : Nat :=
  match digitsLength digit (s.drop 2) with
  | 0 => 0
  | n + 1 => n + 3 + (if (s.drop (n + 3)).head? == some 'n' then 1 else 0)

/-- The length of a number that names its base, 0 if there is none. -/
def prefixedLength (s : List Char) : Nat :=
  match s with
  | '0' :: 'x' :: _ => radixLength (fun c => (hexDigit? c).isSome) s
  | '0' :: 'X' :: _ => radixLength (fun c => (hexDigit? c).isSome) s
  | '0' :: 'b' :: _ => radixLength (fun c => c == '0' || c == '1') s
  | '0' :: 'B' :: _ => radixLength (fun c => c == '0' || c == '1') s
  | '0' :: 'o' :: _ => radixLength isOctal s
  | '0' :: 'O' :: _ => radixLength isOctal s
  | _ => 0

/-- The length of a number in base ten, 0 if there is none. -/
def decimalLength (s : List Char) : Nat :=
  match s with
  | '.' :: r =>
    match digitsLength Char.isDigit r with
    | 0 => 0
    | n + 1 => n + 2 + exponentLength (r.drop (n + 1))
  | _ =>
    match digitsLength Char.isDigit s with
    | 0 => 0
    | n + 1 =>
      match s.drop (n + 1) with
      | 'n' :: _ => n + 2
      | '.' :: r =>
        let f := digitsLength Char.isDigit r
        n + 2 + f + exponentLength (r.drop f)
      | r => n + 1 + exponentLength r

theorem numberLength_eq (s : List Char) :
    numberLength s = if prefixedLength s != 0 then prefixedLength s else decimalLength s := by
  unfold numberLength prefixedLength decimalLength radixLength
  rfl

theorem radixLength_line (hline : digit '\n' = false) (hbar : digit '_' = false) (a b : Char)
    {x : List Char} (hx : '\n' ∉ x) (y : List Char) :
    radixLength digit (a :: b :: (x ++ '\n' :: y)) = radixLength digit (a :: b :: x) := by
  have hdigits := ofLine_digitsLength digit hline hbar x y hx
  have hle := digitsLength_le digit x
  unfold radixLength
  simp only [List.drop_succ_cons, List.drop_zero, hdigits]
  split
  · rfl
  · next n hn =>
    rw [List.drop_append_of_le_length (by omega), head?_line (by decide)]

theorem radixLength_le {a b : Char} {x : List Char} :
    radixLength digit (a :: b :: x) ≤ (a :: b :: x).length := by
  have hle := digitsLength_le digit x
  unfold radixLength
  simp only [List.drop_succ_cons, List.drop_zero]
  split
  · exact Nat.zero_le _
  · next n hn =>
    simp only [List.length_cons]
    split
    · next h =>
      have hdrop : (x.drop (n + 1)).length ≠ 0 := by
        intro h0
        rw [List.eq_nil_of_length_eq_zero h0] at h
        cases h
      rw [List.length_drop] at hdrop
      omega
    · omega

theorem prefixedLength_le (s : List Char) : prefixedLength s ≤ s.length := by
  unfold prefixedLength
  split <;> first | exact radixLength_le | exact Nat.zero_le _

theorem ofLine_prefixedLength : OfLine prefixedLength := by
  intro x y hx
  match x with
  | [] => rfl
  | [a] =>
    unfold prefixedLength
    split <;> simp_all
  | a :: b :: x =>
    have hx' : '\n' ∉ x := by simp_all
    rw [List.cons_append, List.cons_append]
    by_cases hab : a = '0' ∧ b ∈ ['x', 'X', 'b', 'B', 'o', 'O']
    · obtain ⟨rfl, hb⟩ := hab
      simp only [List.mem_cons, List.not_mem_nil, or_false] at hb
      rcases hb with rfl | rfl | rfl | rfl | rfl | rfl <;>
        exact radixLength_line (by decide) (by decide) _ _ hx' y
    · have hne : ∀ r, prefixedLength (a :: b :: r) = 0 := fun r => by
        unfold prefixedLength
        split <;> simp_all
      rw [hne, hne]

theorem decimalLength_le (s : List Char) : decimalLength s ≤ s.length := by
  unfold decimalLength
  split
  · next r =>
    have hle := digitsLength_le Char.isDigit r
    split
    · exact Nat.zero_le _
    · next n hn =>
      have hexponent := exponentLength_le (r.drop (n + 1))
      rw [List.length_drop] at hexponent
      simp only [List.length_cons]
      omega
  · have hle := digitsLength_le Char.isDigit s
    split
    · exact Nat.zero_le _
    · next n hn =>
      have hlength := List.length_drop (i := n + 1) (l := s)
      split
      · next r hr =>
        rw [hr, List.length_cons] at hlength
        omega
      · next r hr =>
        have hfraction := digitsLength_le Char.isDigit r
        have hexponent := exponentLength_le (r.drop (digitsLength Char.isDigit r))
        rw [List.length_drop] at hexponent
        rw [hr, List.length_cons] at hlength
        dsimp only
        omega
      · next r hr _ =>
        have hexponent := exponentLength_le (s.drop (n + 1))
        omega

theorem ofLine_decimalLength : OfLine decimalLength := by
  intro x y hx
  have hdigits := ofLine_digitsLength Char.isDigit (by decide) (by decide)
  cases x with
  | nil => simp [decimalLength, digitsLength]
  | cons c x =>
    have hx' : '\n' ∉ x := fun h => hx (List.mem_cons_of_mem _ h)
    by_cases hc : c = '.'
    · subst hc
      have hle := digitsLength_le Char.isDigit x
      simp only [List.cons_append, decimalLength, hdigits x y hx']
      split
      · rfl
      · next n hn =>
        rw [List.drop_append_of_le_length (by omega), ofLine_exponentLength _ y (notMem_drop hx' _)]
    · -- without a point in front; what comes after the digits decides
      have hwhole : ∀ r, decimalLength (c :: r) = match digitsLength Char.isDigit (c :: r) with
          | 0 => 0
          | n + 1 =>
            match (c :: r).drop (n + 1) with
            | 'n' :: _ => n + 2
            | '.' :: r =>
              let f := digitsLength Char.isDigit r
              n + 2 + f + exponentLength (r.drop f)
            | r => n + 1 + exponentLength r := fun r => by
        unfold decimalLength
        split
        · simp_all
        · rfl
      have hrun := hdigits (c :: x) y hx
      have hle := digitsLength_le Char.isDigit (c :: x)
      rw [List.cons_append] at hrun ⊢
      rw [hwhole, hwhole, hrun]
      split
      · rfl
      · next n hn =>
        have hle' : n ≤ x.length := by
          simp only [List.length_cons] at hle
          omega
        have hdrop : (c :: (x ++ '\n' :: y)).drop (n + 1) = (c :: x).drop (n + 1) ++ '\n' :: y :=
          List.drop_append_of_le_length hle'
        have hrest := notMem_drop hx (n + 1)
        rw [hdrop]
        generalize (c :: x).drop (n + 1) = z at hrest ⊢
        cases z with
        | nil => simp [exponentLength]
        | cons a z =>
          have hz : '\n' ∉ z := fun h => hrest (List.mem_cons_of_mem _ h)
          have hfraction := digitsLength_le Char.isDigit z
          have hexponent := ofLine_exponentLength (a :: z) y hrest
          have hexponent' : exponentLength ((z ++ '\n' :: y).drop (digitsLength Char.isDigit z))
              = exponentLength (z.drop (digitsLength Char.isDigit z)) := by
            rw [List.drop_append_of_le_length hfraction,
              ofLine_exponentLength _ y (notMem_drop hz _)]
          have hz := hdigits z y hz
          rw [List.cons_append] at hexponent ⊢
          split <;> simp_all

theorem numberLength_le (s : List Char) : numberLength s ≤ s.length := by
  rw [numberLength_eq]
  split
  · exact prefixedLength_le s
  · exact decimalLength_le s

theorem ofLine_numberLength : OfLine numberLength := by
  intro x y hx
  rw [numberLength_eq, numberLength_eq, ofLine_prefixedLength x y hx,
    ofLine_decimalLength x y hx]

end Numbers

/-! ## 4. Escapes and strings

An escape may end with a line break, which is then part of the string, so a
string may go over lines. Spaces after such a line break are characters of the
string in one text and not in the other: its end is the same, its length is
not. -/

/-- Octal digits of an escape. -/
def octalRun (s : List Char) : Nat := ((s.take 3).takeWhile isOctal).length

theorem octalRun_le (s : List Char) : octalRun s ≤ s.length := by
  have hrun : octalRun s ≤ (s.take 3).length := (List.takeWhile_prefix _).length_le
  rw [List.length_take] at hrun
  omega

theorem ofLine_octalRun : OfLine octalRun := by
  intro x y hx
  unfold octalRun
  rw [List.take_append]
  cases h : 3 - x.length with
  | zero => rw [List.take_zero, List.append_nil]
  | succ n =>
    rw [List.take_succ_cons,
      OfLine.takeWhile (by decide) _ _ fun hmem => hx (List.mem_of_mem_take hmem)]

theorem escapeLength_eq_octal {r : List Char} (hu : c ≠ 'u') (hx : c ≠ 'x')
    (hc : isOctal c = true) : escapeLength ('\\' :: c :: r) = octalRun (c :: r) + 1 := by
  simp [escapeLength, octalRun, hu, hx, hc]

theorem escapeLength_eq_zero (h : ∀ c r, s ≠ '\\' :: c :: r) : escapeLength s = 0 := by
  unfold escapeLength
  split
  · exact absurd rfl (h _ _)
  · rfl

/-- An escape is as long as before; a line break may come last in it. -/
theorem Indented.escape (h : Indented kept s s') : escapeLength s = escapeLength s' ∧
    AfterBreak kept (s.drop (escapeLength s)) (s'.drop (escapeLength s)) := by
  rcases h.first (c := '\\') (by decide) with ⟨t, t', rfl, rfl, ht⟩ | ⟨hnone, hnone'⟩
  · cases t with
    | nil =>
      rw [ht.eq_nil]
      exact ⟨rfl, .here (.refl _)⟩
    | cons c r => ?_
    obtain ⟨r', rfl, hafter, hindented⟩ := ht.exists_cons
    by_cases hline : c = '\n'
    · -- a backslash before the line break
      subst hline
      have htwo : ∀ r, escapeLength ('\\' :: '\n' :: r) = 2 := fun r => by
        simp [escapeLength, show isOctal '\n' = false by decide]
      rw [htwo]
      exact ⟨(htwo r').symm, hafter⟩
    have hr := hindented hline
    by_cases hu : c = 'u'
    · subst hu
      have heq : ∀ r, escapeLength ('\\' :: 'u' :: r) = unicodeLength ('\\' :: 'u' :: r) :=
        fun r => rfl
      refine ⟨ofLine_unicodeLength.eq h, .here ?_⟩
      exact ofLine_unicodeLength.drop unicodeLength_le h (Nat.le_refl _)
    by_cases hx : c = 'x'
    · subst hx
      have heq : ∀ r, escapeLength ('\\' :: 'x' :: r) = if 2 ≤ hexRun r then 4 else 0 :=
        fun r => rfl
      rw [heq, heq, ← ofLine_hexRun.eq hr]
      refine ⟨rfl, .here ?_⟩
      split
      · next hrun => exact ofLine_hexRun.drop hexRun_le hr hrun
      · exact h
    cases hoctal : isOctal c with
    | true =>
      rw [escapeLength_eq_octal hu hx hoctal, escapeLength_eq_octal hu hx hoctal,
        ofLine_octalRun.eq ht]
      refine ⟨rfl, .here ?_⟩
      rw [← ofLine_octalRun.eq ht]
      exact ofLine_octalRun.drop octalRun_le ht (Nat.le_refl _)
    | false =>
      have hother : ∀ r, escapeLength ('\\' :: c :: r) = if c == '\x00' then 0
          else if (c == '\r' || c == '?') &&
            (r.head? == some '\n' || r.head? == some '\u2028' || r.head? == some '\u2029') then 3
          else 2 := fun r => by simp [escapeLength, hu, hx, hoctal]
      rw [hother, hother, hr.head?_eq]
      -- one or two characters after the backslash, of which the second may be a line break
      refine ⟨rfl, ?_⟩
      split
      · exact .here h
      split
      · cases r with
        | nil =>
          rw [hr.eq_nil]
          exact .here (.refl _)
        | cons a r =>
          obtain ⟨t, rfl, ht, -⟩ := hr.exists_cons
          exact ht
      · exact .here hr
  · rw [escapeLength_eq_zero fun c r => hnone (c :: r),
      escapeLength_eq_zero fun c r => hnone' (c :: r)]
    exact ⟨rfl, .here h⟩

/-- Either neither of two pieces has an end, or what comes after them is indented likewise. -/
inductive SameEnd (kept : Nat) (s s' : List Char) : Option Nat → Option Nat → Prop
  | none : SameEnd kept s s' none none
  | some {n n' : Nat} (h : Indented kept (s.drop n) (s'.drop n')) :
      SameEnd kept s s' (some n) (some n')

namespace SameEnd

variable {o o' : Option Nat}

/-- A space more in front of the second text. -/
theorem space (h : SameEnd kept s s' o o') : SameEnd kept s (' ' :: s') o (o'.map (· + 1)) := by
  cases h with
  | none => exact .none
  | some h => exact .some h

/-- Lengths counted from further in front. -/
theorem add (s s' : List Char) (k : Nat) (h : SameEnd kept (s.drop k) (s'.drop k) o o') :
    SameEnd kept s s' (o.map (· + k)) (o'.map (· + k)) := by
  cases h with
  | none => exact .none
  | some h =>
    refine .some ?_
    rwa [List.drop_drop, List.drop_drop, Nat.add_comm k, Nat.add_comm k] at h

/-- The end after a character and an escape of `k + 1` characters that begins with it. -/
theorem afterEscape (c : Char) (k : Nat)
    (h : SameEnd kept (s.drop k) (s'.drop k) (o.map (· + 1)) (o'.map (· + 1))) :
    SameEnd kept (c :: s) (c :: s') (((o.map (· + k)).map (· + 1)).map (· + 1))
      (((o'.map (· + k)).map (· + 1)).map (· + 1)) := by
  have hall := add (c :: s) (c :: s') (k + 1) h
  have hadd : ((· + (k + 1)) ∘ (· + 1) : Nat → Nat) = (· + 1) ∘ (· + 1) ∘ (· + k) := by
    funext i
    simp only [Function.comp_apply]
    omega
  rw [Option.map_map, Option.map_map, hadd] at hall
  simpa only [Option.map_map] using hall

end SameEnd

/-- Skipping first, and measuring what is left. -/
theorem stringLength?_skip (q : Char) (k : Nat) (s : List Char) :
    stringLength? q k s = (stringLength? q 0 (s.drop k)).map (· + k) := by
  induction s generalizing k with
  | nil => simp [stringLength?]
  | cons c r ih =>
    cases k with
    | zero => simp
    | succ k =>
      rw [stringLength?, ih, List.drop_succ_cons, Option.map_map]
      rfl

/-- A string ends at the same quote. -/
theorem AfterBreak.string {q : Char} (hq : q ≠ '\n') (hspace : q ≠ ' ') (h : AfterBreak kept s s') :
    SameEnd kept s s' ((stringLength? q 0 s).map (· + 1)) ((stringLength? q 0 s').map (· + 1)) := by
  -- an escape takes several characters at once, so the induction is on the length of the text
  induction hn : s.length using Nat.strongRecOn generalizing s s' with
  | ind n ihn =>
    induction h with
    | @space s' _ ih =>
      have hcons : stringLength? q 0 (' ' :: s') = (stringLength? q 0 s').map (· + 1) := by
        simp [stringLength?, hspace.symm]
      rw [hcons]
      exact ih.space
    | here h =>
      cases s with
      | nil =>
        rw [h.eq_nil]
        exact .none
      | cons c r =>
        rw [List.length_cons] at hn
        obtain ⟨r', rfl, hafter, hr⟩ := h.exists_cons
        unfold stringLength?
        dsimp only
        split
        · next hc =>
          obtain rfl := beq_iff_eq.mp hc
          exact .some (hr hq)
        split
        · next hc =>
          obtain rfl := beq_iff_eq.mp hc
          obtain ⟨hescape, hrest⟩ := h.escape
          rw [← hescape]
          split
          · exact .none
          · next k hk =>
            -- `k` more characters of the escape after the backslash
            rw [hk] at hrest
            have hdrop := ihn (r.drop k).length (by rw [List.length_drop]; omega) hrest rfl
            rw [stringLength?_skip q k r, stringLength?_skip q k r']
            exact hdrop.afterEscape _ k
        split
        · exact .none
        · exact SameEnd.add (c :: r) (c :: r') 1 (ihn r.length (by omega) hafter rfl)

/-! ## 5. White space and comments

`trivia` is what every reader begins with. In both texts it stops before the same
character, or at the end (`SameFront`), so from there on `Indented` holds again,
also where only `AfterBreak` was known before. -/

/-- A block comment ends at the same place. -/
theorem AfterBreak.blockRest (h : AfterBreak kept s s') :
    SameEnd kept s s' (blockRest? s) (blockRest? s') := by
  induction s generalizing s' with
  | nil =>
    induction h with
    | here h =>
      rw [h.eq_nil]
      exact .none
    | space _ ih => exact ih.space
  | cons c r ihr =>
    induction h with
    | space _ ih => exact ih.space
    | here h =>
      rcases h.begins (p := ['*', '/']) (by decide) with ⟨t, t', hs, rfl, ht⟩ | ⟨hne, hne'⟩
      · rw [hs]
        exact .some ht
      · -- the comment goes on in both texts
        obtain ⟨r', rfl, hafter, -⟩ := h.exists_cons
        rw [blockRest?.eq_3 _ _ fun t hc ht => hne t (by rw [hc, ht]; rfl),
          blockRest?.eq_3 _ _ fun t hc ht => hne' t (by rw [hc, ht]; rfl)]
        exact SameEnd.add (c :: r) (c :: r') 1 (ihr hafter)

theorem commentLength_eq_zero {html : Bool} (hline : ∀ r, s ≠ ['/', '/'] ++ r)
    (hblock : ∀ r, s ≠ ['/', '*'] ++ r) (hopen : ∀ r, s ≠ ['<', '!', '-', '-'] ++ r)
    (hclose : ∀ r, s ≠ ['-', '-', '>'] ++ r) : commentLength html s = 0 := by
  unfold commentLength
  split
  · exact absurd rfl (hline _)
  · exact absurd rfl (hblock _)
  · exact absurd rfl (hopen _)
  · exact absurd rfl (hclose _)
  · rfl

/-- Either no comment begins here, or what comes after it is indented likewise. -/
theorem Indented.comment (html : Bool) (h : Indented kept s s') :
    commentLength html s = 0 ∧ commentLength html s' = 0 ∨
    ∃ n n', commentLength html s = n + 1 ∧ commentLength html s' = n' + 1 ∧
      Indented kept (s.drop (n + 1)) (s'.drop (n' + 1)) := by
  -- a comment that ends with its line
  have ofLine {r r' : List Char} (hr : Indented kept r r') : lineRest r' = lineRest r ∧
      Indented kept (r.drop (lineRest r)) (r'.drop (lineRest r)) :=
    ⟨(ofLine_lineRest.eq hr).symm, ofLine_lineRest.drop lineRest_le hr (Nat.le_refl _)⟩
  rcases h.begins (p := ['/', '/']) (by decide) with ⟨r, r', rfl, rfl, hr⟩ | ⟨hline, hline'⟩
  · obtain ⟨heq, hr⟩ := ofLine hr
    exact .inr ⟨_, _, rfl, congrArg (· + 2) heq, hr⟩
  rcases h.begins (p := ['/', '*']) (by decide) with ⟨r, r', rfl, rfl, hr⟩ | ⟨hblock, hblock'⟩
  · have hrest := AfterBreak.blockRest (.here hr)
    have hlength : ∀ r, commentLength html (['/', '*'] ++ r)
        = ((blockRest? r).map (· + 2)).getD 0 := by
      intro r
      cases hn : blockRest? r <;> simp [commentLength, hn]
    rw [hlength, hlength]
    cases hn : blockRest? r with
    | none =>
      rw [hn] at hrest
      cases hn' : blockRest? r' with
      | none => exact .inl ⟨rfl, rfl⟩
      | some n' => rw [hn'] at hrest; cases hrest
    | some n =>
      rw [hn] at hrest
      cases hn' : blockRest? r' with
      | none => rw [hn'] at hrest; cases hrest
      | some n' =>
        rw [hn'] at hrest
        cases hrest with
        | some hrest => exact .inr ⟨n + 1, n' + 1, rfl, rfl, hrest⟩
  rcases h.begins (p := ['<', '!', '-', '-']) (by decide) with
    ⟨r, r', rfl, rfl, hr⟩ | ⟨hopen, hopen'⟩
  · obtain ⟨heq, hr⟩ := ofLine hr
    cases html with
    | false => exact .inl ⟨rfl, rfl⟩
    | true => exact .inr ⟨_, _, rfl, congrArg (· + 4) heq, hr⟩
  rcases h.begins (p := ['-', '-', '>']) (by decide) with
    ⟨r, r', rfl, rfl, hr⟩ | ⟨hclose, hclose'⟩
  · obtain ⟨heq, hr⟩ := ofLine hr
    cases html with
    | false => exact .inl ⟨rfl, rfl⟩
    | true => exact .inr ⟨_, _, rfl, congrArg (· + 3) heq, hr⟩
  · exact .inl ⟨commentLength_eq_zero hline hblock hopen hclose,
      commentLength_eq_zero hline' hblock' hopen' hclose'⟩

theorem triviaFrom_eq (html : Bool) (k : Nat) (s : List Char) :
    triviaFrom html k s = trivia html (s.drop k) := by
  induction s generalizing k with
  | nil => cases k <;> rfl
  | cons c r ih =>
    cases k with
    | zero => rfl
    | succ k => exact ih k

/-- Both texts are at their end, or begin with the same character, which is no white space. -/
inductive SameFront (kept : Nat) : List Char → List Char → Prop
  | nil : SameFront kept [] []
  | cons {s s' : List Char} (c : Char) (hc : isSpace c = false) (h : Indented kept s s') :
      SameFront kept (c :: s) (c :: s')

theorem SameFront.indented (h : SameFront kept s s') : Indented kept s s' := by
  cases h with
  | nil => exact .refl _
  | cons c _ h => exact h.cons c

/-- White space and comments are passed over up to the same character. -/
theorem AfterBreak.trivia (html : Bool) (h : AfterBreak kept s s') :
    SameFront kept (trivia html s) (trivia html s') := by
  induction hn : s.length using Nat.strongRecOn generalizing s s' with
  | ind n ihn =>
    induction h with
    | space _ ih => exact ih
    | here h =>
      cases s with
      | nil =>
        rw [h.eq_nil]
        exact .nil
      | cons c r =>
        rw [List.length_cons] at hn
        obtain ⟨r', rfl, hafter, hr⟩ := h.exists_cons
        have hcomment := h.comment html
        -- a blank, no comment, or a comment that is passed over at once
        cases hc : isSpace c with
        | true =>
          have hspace : ∀ r, Script.trivia html (c :: r) = Script.trivia html r := fun r => by
            simp [Script.trivia, triviaFrom, hc]
          rw [hspace, hspace]
          exact ihn r.length (by omega) hafter rfl
        | false =>
          rcases hcomment with ⟨hzero, hzero'⟩ | ⟨n, n', hn₁, hn₂, hrest⟩
          · have hnone : ∀ r, commentLength html (c :: r) = 0 →
                Script.trivia html (c :: r) = c :: r := fun r hr => by
              simp [Script.trivia, triviaFrom, hc, hr]
            rw [hnone r hzero, hnone r' hzero']
            have hne : c ≠ '\n' := by
              rintro rfl
              cases hc
            -- so the first character is no line break, and what follows it is indented likewise
            exact .cons c hc (hr hne)
          · have hsome : ∀ r k, commentLength html (c :: r) = k + 1 →
                Script.trivia html (c :: r) = Script.trivia html (r.drop k) := fun r k hr => by
              rw [← triviaFrom_eq]
              simp [Script.trivia, triviaFrom, hc, hr]
            rw [hsome r n hn₁, hsome r' n' hn₂]
            exact ihn (r.drop n).length (by rw [List.length_drop]; omega) (.here hrest) rfl

theorem Indented.trivia (html : Bool) (h : Indented kept s s') :
    SameFront kept (trivia html s) (trivia html s') :=
  AfterBreak.trivia html (.here h)

/-! ## 6. Text between tags

Attributes of tags are strings without escapes, with references to characters in
them; these end with their line like a word does. -/

theorem OfLine.length_takeWhile {p : Char → Bool} (hp : p '\n' = false) :
    OfLine fun s => (s.takeWhile p).length := fun x y hx =>
  congrArg List.length (OfLine.takeWhile hp x y hx)

theorem referenceLength_le (s : List Char) : referenceLength s ≤ s.length := by
  have closed {k : Nat} {r : List Char} {b : Bool} (hk : k ≤ r.length)
      (h : (b && (r.drop k).head? == some ';') = true) : k < r.length := by
    simp only [Bool.and_eq_true, beq_iff_eq] at h
    rcases Nat.lt_or_eq_of_le hk with hlt | heq
    · exact hlt
    · rw [heq, List.drop_length] at h
      cases h.2
  unfold referenceLength
  split
  · next x r =>
    split
    · dsimp only
      split
      · next h =>
        have hlt := closed (hexRun_le r) h
        simp only [List.length_cons]
        omega
      · exact Nat.zero_le _
    · dsimp only
      split
      · next h =>
        have hlt := closed (List.takeWhile_prefix _).length_le h
        simp only [List.length_cons] at hlt ⊢
        omega
      · exact Nat.zero_le _
  · next r _ =>
    dsimp only
    split
    · next h =>
      have hlt := closed (List.takeWhile_prefix _).length_le h
      simp only [List.length_cons]
      omega
    · exact Nat.zero_le _
  · exact Nat.zero_le _

theorem ofLine_referenceLength : OfLine referenceLength := by
  intro x y hx
  have run {p : Char → Bool} (hp : p '\n' = false) {x : List Char} (hx : '\n' ∉ x) :
      ((x ++ '\n' :: y).takeWhile p).length = (x.takeWhile p).length ∧
      (((x ++ '\n' :: y).drop (x.takeWhile p).length).head? == some ';')
        = ((x.drop (x.takeWhile p).length).head? == some ';') := by
    have hlength : ((x ++ '\n' :: y).takeWhile p).length = (x.takeWhile p).length :=
      OfLine.length_takeWhile hp x y hx
    have hhead := (OfLine.length_takeWhile hp).head?_drop (o := ';') (by decide)
      (fun s => (List.takeWhile_prefix p).length_le) y hx
    rw [hlength] at hhead
    exact ⟨hlength, hhead⟩
  -- a reference by name, or a number sign with nothing after it
  have named {x : List Char} (hx : '\n' ∉ x) (hne : ∀ a r, x ≠ '#' :: a :: r)
      (hne' : ∀ a r, x ++ '\n' :: y ≠ '#' :: a :: r) :
      referenceLength ('&' :: (x ++ '\n' :: y)) = referenceLength ('&' :: x) := by
    obtain ⟨hlength, hhead⟩ := run (p := Char.isAlpha) (by decide) hx
    rw [referenceLength.eq_2 _ hne', referenceLength.eq_2 _ hne, hlength, hhead]
  match x with
  | [] => rfl
  | c :: x =>
    by_cases hc : c = '&'
    · subst hc
      have hx : '\n' ∉ x := fun h => hx (List.mem_cons_of_mem _ h)
      rw [List.cons_append]
      match x with
      | [] => exact named hx (by simp) (by simp)
      | [a] =>
        by_cases ha : a = '#'
        · subst ha
          simp [referenceLength]
        · exact named hx (by simp) (by simp [ha])
      | a :: b :: x =>
        by_cases ha : a = '#'
        · subst ha
          have hx : '\n' ∉ b :: x := fun h => hx (List.mem_cons_of_mem _ h)
          have hx' : '\n' ∉ x := fun h => hx (List.mem_cons_of_mem _ h)
          obtain ⟨hhex, hhexHead⟩ := run (p := fun c => (hexDigit? c).isSome) (by decide) hx'
          obtain ⟨hdecimal, hdecimalHead⟩ := run (p := Char.isDigit) (by decide) hx
          simp only [List.cons_append] at hdecimal hdecimalHead ⊢
          rw [referenceLength.eq_1, referenceLength.eq_1]
          unfold hexRun
          dsimp only
          rw [hhex, hhexHead, hdecimal, hdecimalHead]
        · exact named hx (by simp [ha]) (by simp [ha])
    · have hne : ∀ r, referenceLength (c :: r) = 0 := fun r => by
        unfold referenceLength
        split <;> simp_all
      rw [List.cons_append, hne, hne]

/-- Skipping first, and measuring what is left. -/
theorem attributeLength?_skip (q : Char) (k : Nat) (s : List Char) :
    attributeLength? q k s = (attributeLength? q 0 (s.drop k)).map (· + k) := by
  induction s generalizing k with
  | nil => simp [attributeLength?]
  | cons c r ih =>
    cases k with
    | zero => simp
    | succ k =>
      rw [attributeLength?, ih, List.drop_succ_cons, Option.map_map]
      rfl

/-- The text of an attribute ends at the same quote. -/
theorem AfterBreak.attribute {q : Char} (hq : q ≠ '\n') (hspace : q ≠ ' ')
    (h : AfterBreak kept s s') : SameEnd kept s s' ((attributeLength? q 0 s).map (· + 1))
      ((attributeLength? q 0 s').map (· + 1)) := by
  induction hn : s.length using Nat.strongRecOn generalizing s s' with
  | ind n ihn =>
    induction h with
    | @space s' _ ih =>
      have hcons : attributeLength? q 0 (' ' :: s') = (attributeLength? q 0 s').map (· + 1) := by
        simp [attributeLength?, hspace.symm]
      rw [hcons]
      exact ih.space
    | here h =>
      cases s with
      | nil =>
        rw [h.eq_nil]
        exact .none
      | cons c r =>
        rw [List.length_cons] at hn
        obtain ⟨r', rfl, hafter, hr⟩ := h.exists_cons
        have next : SameEnd kept (c :: r) (c :: r')
            (((attributeLength? q 0 r).map (· + 1)).map (· + 1))
            (((attributeLength? q 0 r').map (· + 1)).map (· + 1)) :=
          SameEnd.add (c :: r) (c :: r') 1 (ihn r.length (by omega) hafter rfl)
        have hreference := ofLine_referenceLength.eq h
        unfold attributeLength?
        dsimp only
        split
        · next hc =>
          obtain rfl := beq_iff_eq.mp hc
          exact .some (hr hq)
        split
        · next hc =>
          obtain rfl := beq_iff_eq.mp hc
          have hr := hr (by decide)
          rw [← hreference]
          split
          · next k hk =>
            have hrest : Indented kept (('&' :: r).drop (k + 1)) (('&' :: r').drop (k + 1)) :=
              ofLine_referenceLength.drop referenceLength_le h (Nat.le_of_eq hk.symm)
            have hdrop := ihn (r.drop k).length (by rw [List.length_drop]; omega) (.here hrest) rfl
            rw [attributeLength?_skip q k r, attributeLength?_skip q k r']
            exact hdrop.afterEscape _ k
          -- a mark that begins no reference, after which no character may be left
          · cases r with
            | nil =>
              rw [hr.eq_nil]
              exact .none
            | cons a r =>
              obtain ⟨t, rfl, -, -⟩ := hr.exists_cons
              dsimp only
              split
              · exact .none
              · exact next
        · exact next

end LocaleEditor.Script
