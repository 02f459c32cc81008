/-
LocaleEditor.Proofs.Text.Reindented — code that is indented anew.

`Relined` says that two lists of lines are the same but for the indentation of
the lines that start in code, as far as backticks tell; taking indentation away
and indenting are both of this kind. `Reindents` says the same of two texts,
character by character, so that it can be cut where a literal begins or ends
(`Reindents.cut`).

A `Division` of a text tells what in it are literals and what is code between
them. Where the backticks tell of every line that it starts inside a literal when
it does (`Division.Tracked`), a text that is indented anew can be divided into
the same literals, and the code between them has the same lines but for their
indentation (`Division.exists_of_reindents`).
-/
import LocaleEditor.Proofs.Text.Lines

namespace LocaleEditor.Text

open Script (indentLines)

/-! ## 1. Indentation -/

theorem trimLeft_of_allBlank {l : List Char} (h : allBlank l = true) : trimLeft l = [] := by
  induction l with
  | nil => rfl
  | cons c r ih =>
    rw [allBlank, List.all_cons, Bool.and_eq_true_iff] at h
    rw [trimLeft, List.dropWhile_cons_of_pos h.1]
    exact ih h.2

theorem trimLeft_append_of_allBlank {indent : List Char} (h : allBlank indent = true)
    (l : List Char) : trimLeft (indent ++ l) = trimLeft l :=
  List.dropWhile_append_of_pos (List.all_eq_true.mp h)

/-- A line is its indentation and the rest. -/
theorem exists_indent (l : List Char) :
    ∃ indent, allBlank indent = true ∧ l = indent ++ trimLeft l :=
  ⟨l.takeWhile isBlank, List.all_takeWhile, List.takeWhile_append_dropWhile.symm⟩

theorem isBlank_of_isIndent {c : Char} (h : isIndent c = true) : isBlank c = true := by
  rw [isIndent, Bool.or_eq_true_iff, beq_iff_eq, beq_iff_eq] at h
  rcases h with rfl | rfl <;> decide

theorem trimLeft_stripIndent (width : Nat) (l : List Char) :
    trimLeft (stripIndent width l) = trimLeft l := by
  induction l generalizing width with
  | nil => rw [stripIndent_nil]
  | cons c r ih =>
    cases width with
    | zero => rfl
    | succ n =>
      rw [stripIndent]
      split
      · next hc =>
        rw [ih, trimLeft, trimLeft, List.dropWhile_cons_of_pos (isBlank_of_isIndent hc)]
      · rfl

/-- Indentation holds no backtick. -/
theorem insideAfter_trimLeft (inside : Bool) (l : List Char) :
    insideAfter inside (trimLeft l) = insideAfter inside l := by
  obtain ⟨indent, hblank, hl⟩ := exists_indent l
  conv => rhs; rw [hl]
  rw [insideAfter_append_of_plain (plain_of_allBlank hblank)]

/-! ## 2. Lines indented anew -/

/-- A line after which nothing has changed but, if it starts in code, its indentation. -/
def SameLine (inside : Bool) (l l' : List Char) : Prop :=
  if inside then l' = l else trimLeft l' = trimLeft l

/-- Lines that are the same but for the indentation of those that start in code. -/
def Relined (inside : Bool) : List (List Char) → List (List Char) → Prop
  | [], [] => True
  | l :: ls, l' :: ls' => SameLine inside l l' ∧ Relined (insideAfter inside l) ls ls'
  | _, _ => False

theorem SameLine.insideAfter_eq {inside : Bool} {l l' : List Char} (h : SameLine inside l l') :
    insideAfter inside l' = insideAfter inside l := by
  cases inside with
  | true => exact congrArg _ h
  | false =>
    have htrim : trimLeft l' = trimLeft l := h
    rw [← insideAfter_trimLeft false l', htrim, insideAfter_trimLeft]

theorem SameLine.trans {inside : Bool} {l l' l'' : List Char} (h : SameLine inside l l')
    (h' : SameLine inside l' l'') : SameLine inside l l'' := by
  cases inside <;> exact Eq.trans h' h

theorem Relined.trans {inside : Bool} {ls ls' ls'' : List (List Char)} (h : Relined inside ls ls')
    (h' : Relined inside ls' ls'') : Relined inside ls ls'' := by
  induction ls generalizing inside ls' ls'' with
  | nil =>
    cases ls' with
    | nil => exact h'
    | cons l' ls' => exact h.elim
  | cons l ls ih =>
    cases ls' with
    | nil => exact h.elim
    | cons l' ls' =>
      cases ls'' with
      | nil => exact h'.elim
      | cons l'' ls'' =>
        refine ⟨h.1.trans h'.1, ih h.2 ?_⟩
        rw [← h.1.insideAfter_eq]
        exact h'.2

/-- Lines that are changed one by one. -/
theorem relined_map_marked {f : Bool → List Char → List Char}
    (hf : ∀ inside l, SameLine inside l (f inside l)) (inside : Bool) (ls : List (List Char)) :
    Relined inside ls ((marked inside ls).map fun (b, l) => f b l) := by
  induction ls generalizing inside with
  | nil => trivial
  | cons l ls ih => exact ⟨hf inside l, ih _⟩

theorem relined_dedentLines (width : Nat) (ls : List (List Char)) :
    Relined false ls (dedentLines width ls) := by
  cases ls with
  | nil => trivial
  | cons first rest =>
    refine ⟨rfl, relined_map_marked
      (f := fun inside l => if inside then l else stripIndent width l) (fun inside l => ?_) _ _⟩
    cases inside with
    | true => rfl
    | false => exact trimLeft_stripIndent width l

theorem relined_indentLines (width : Nat) (ls : List (List Char)) :
    Relined false ls (indentLines (List.replicate width ' ') ls) := by
  refine relined_map_marked (f := indentLine (List.replicate width ' ')) (fun inside l => ?_) _ _
  cases inside with
  | true => rfl
  | false =>
    show trimLeft (if allBlank l then [] else List.replicate width ' ' ++ l) = trimLeft l
    split
    · next h => rw [trimLeft_of_allBlank h]; rfl
    · exact trimLeft_append_of_allBlank (allBlank_replicate width) l

theorem allBlank_trimLeft (l : List Char) : allBlank (trimLeft l) = allBlank l := by
  obtain ⟨indent, hblank, hl⟩ := exists_indent l
  conv => rhs; rw [hl, allBlank, List.all_append, ← allBlank, hblank, Bool.true_and]
  rfl

/-- Lines that are indented anew are blank or not as before. -/
theorem Relined.allBlank_eq {inside : Bool} {ls ls' : List (List Char)}
    (h : Relined inside ls ls') : ls'.all allBlank = ls.all allBlank := by
  induction ls generalizing inside ls' with
  | nil =>
    cases ls' with
    | nil => rfl
    | cons l' ls' => exact h.elim
  | cons l ls ih =>
    cases ls' with
    | nil => exact h.elim
    | cons l' ls' =>
      have hline : allBlank l' = allBlank l := by
        cases inside with
        | true => exact congrArg _ h.1
        | false =>
          have htrim : trimLeft l' = trimLeft l := h.1
          rw [← allBlank_trimLeft, htrim, allBlank_trimLeft]
      rw [List.all_cons, List.all_cons, hline, ih h.2]

theorem SameLine.append {inside : Bool} {l l' : List Char} (h : SameLine inside l l')
    (last : List Char) : SameLine inside (l ++ last) (l' ++ last) := by
  cases inside with
  | true => exact congrArg (· ++ last) h
  | false =>
    have htrim : l'.dropWhile isBlank = l.dropWhile isBlank := h
    show (l' ++ last).dropWhile isBlank = (l ++ last).dropWhile isBlank
    rw [List.dropWhile_append, List.dropWhile_append, htrim]

/-- More text at the end of the last line. -/
theorem Relined.append {inside : Bool} {ls ls' : List (List Char)} (h : Relined inside ls ls')
    (hls : ∀ l ∈ ls, '\n' ∉ l) (hls' : ∀ l ∈ ls', '\n' ∉ l) (hne : ls ≠ []) {last : List Char}
    (hlast : '\n' ∉ last) :
    Relined inside (lines (unlines ls ++ last)) (lines (unlines ls' ++ last)) := by
  have notMem {l : List Char} (h : '\n' ∉ l) : '\n' ∉ l ++ last := by
    rw [List.mem_append, not_or]
    exact ⟨h, hlast⟩
  induction ls generalizing inside ls' with
  | nil => exact absurd rfl hne
  | cons l ls ih =>
    cases ls' with
    | nil => exact h.elim
    | cons l' ls' =>
      have hl := hls l List.mem_cons_self
      have hl' := hls' l' List.mem_cons_self
      cases ls with
      | nil =>
        cases ls' with
        | nil =>
          rw [unlines, unlines, lines_of_notMem (notMem hl), lines_of_notMem (notMem hl')]
          exact ⟨h.1.append last, trivial⟩
        | cons m' ls' => exact h.2.elim
      | cons m ls =>
        cases ls' with
        | nil => exact h.2.elim
        | cons m' ls' =>
          have hrest := ih h.2 (fun l hl => hls l (List.mem_cons_of_mem _ hl))
            (fun l hl => hls' l (List.mem_cons_of_mem _ hl)) (List.cons_ne_nil m ls)
          rw [unlines_cons_cons, unlines_cons_cons, List.append_assoc, List.append_assoc,
            List.cons_append, List.cons_append, lines_append_feed, lines_append_feed,
            lines_of_notMem hl, lines_of_notMem hl']
          exact ⟨h.1, hrest⟩

/-! ## 3. Texts indented anew -/

/-- Whether a line that begins after `s` starts inside a template literal, as far as backticks
tell. -/
def endsInside (s : List Char) : Bool := (lines s).foldl insideAfter false

theorem endsInside_append_line (s : List Char) {l : List Char} (h : '\n' ∉ l) :
    endsInside (s ++ '\n' :: l) = insideAfter (endsInside s) l := by
  rw [endsInside, lines_append_feed, lines_of_notMem h, List.foldl_append]
  rfl

/-- Code in front of the first line that has neither backticks nor backslashes does not count. -/
theorem endsInside_append_of_plain {plain : List Char} (h : ∀ c ∈ plain, c ≠ '`' ∧ c ≠ '\\')
    (hfeed : '\n' ∉ plain) (s : List Char) : endsInside (plain ++ s) = endsInside s := by
  cases hs : lines s with
  | nil => exact absurd hs (lines_ne_nil s)
  | cons l ls =>
    rw [endsInside, endsInside, lines_append_of_notMem hfeed hs, hs, List.foldl_cons,
      List.foldl_cons, insideAfter_append_of_plain h]

/-- `Reindents before t t'` says that `t'` is the text `t`, which stands after `before`, but for the
indentation of lines that start in code. -/
inductive Reindents : List Char → List Char → List Char → Prop
  | nil {before} : Reindents before [] []
  | char {before t t' c} : c ≠ '\n' → Reindents (before ++ [c]) t t' →
      Reindents before (c :: t) (c :: t')
  | literalLine {before t t'} : endsInside before = true → Reindents (before ++ ['\n']) t t' →
      Reindents before ('\n' :: t) ('\n' :: t')
  | codeLine {before t t' indent indent'} : endsInside before = false →
      allBlank indent = true → '\n' ∉ indent → allBlank indent' = true → '\n' ∉ indent' →
      Reindents (before ++ '\n' :: indent) t t' →
      Reindents before ('\n' :: indent ++ t) ('\n' :: indent' ++ t')

namespace Reindents

variable {before s t t' : List Char}

theorem append_left {l : List Char} (hl : '\n' ∉ l) (h : Reindents (before ++ l) t t') :
    Reindents before (l ++ t) (l ++ t') := by
  induction l generalizing before with
  | nil => rwa [List.append_nil] at h
  | cons c l ih =>
    obtain ⟨hc, hl⟩ := List.ne_and_not_mem_of_not_mem_cons hl
    exact .char hc.symm (ih hl (by rwa [List.append_assoc, List.singleton_append]))

/-- One more line in front. -/
theorem line {l l' : List Char} (hsame : SameLine (endsInside before) l l') (hl : '\n' ∉ l)
    (hl' : '\n' ∉ l') (h : Reindents (before ++ '\n' :: l) t t') :
    Reindents before ('\n' :: (l ++ t)) ('\n' :: (l' ++ t')) := by
  cases hinside : endsInside before with
  | true =>
    rw [hinside] at hsame
    obtain rfl : l' = l := hsame
    exact .literalLine hinside (append_left hl (by rwa [List.append_assoc, List.singleton_append]))
  | false =>
    rw [hinside] at hsame
    have hsame : trimLeft l' = trimLeft l := hsame
    obtain ⟨indent, hblank, hindent⟩ := exists_indent l
    obtain ⟨indent', hblank', hindent'⟩ := exists_indent l'
    rw [hsame] at hindent'
    rw [hindent, List.mem_append, not_or] at hl
    rw [hindent', List.mem_append, not_or] at hl'
    rw [hindent, hindent', List.append_assoc, List.append_assoc]
    refine .codeLine hinside hblank hl.1 hblank' hl'.1 (append_left hl.2 ?_)
    rwa [List.append_assoc, List.cons_append, ← hindent]

/-- Lines that are indented anew make a text that is indented anew. -/
theorem of_relined {ls ls' : List (List Char)} (h : Relined (endsInside before) ls ls')
    (hne : ls ≠ []) (hls : ∀ l ∈ ls, '\n' ∉ l) (hls' : ∀ l ∈ ls', '\n' ∉ l) :
    Reindents before ('\n' :: unlines ls) ('\n' :: unlines ls') := by
  induction ls generalizing before ls' with
  | nil => exact absurd rfl hne
  | cons l ls ih =>
    cases ls' with
    | nil => exact h.elim
    | cons l' ls' =>
      have hl := hls l List.mem_cons_self
      have hl' := hls' l' List.mem_cons_self
      have hrest := h.2
      rw [← endsInside_append_line _ hl] at hrest
      have ih := fun hne => ih hrest hne (fun m hm => hls m (List.mem_cons_of_mem _ hm))
        (fun m hm => hls' m (List.mem_cons_of_mem _ hm))
      cases ls with
      | nil =>
        cases ls' with
        | nil => simpa [unlines] using line h.1 hl hl' .nil
        | cons m' ls' => exact h.2.elim
      | cons m ls =>
        cases ls' with
        | nil => exact h.2.elim
        | cons m' ls' => exact line h.1 hl hl' (ih (List.cons_ne_nil m ls))

/-- A text that is indented anew can be cut, unless the cut goes through the indentation of a
line. -/
theorem cut (h : Reindents before (s ++ t) t')
    (hcut : ∀ u v, s = u ++ '\n' :: v → allBlank v = true → ∀ c ∈ t.head?, isBlank c = false) :
    ∃ s' r', t' = s' ++ r' ∧ Reindents before s s' ∧ Reindents (before ++ s) t r' := by
  have start {before whole t' : List Char} (h : Reindents before whole t') (hst : t = whole) :
      ∃ s' r', t' = s' ++ r' ∧ Reindents before [] s' ∧ Reindents (before ++ []) t r' :=
    ⟨[], t', rfl, .nil, by rwa [List.append_nil, hst]⟩
  generalize hst : s ++ t = whole at h
  induction h generalizing s with
  | nil =>
    obtain ⟨rfl, rfl⟩ := List.append_eq_nil_iff.mp hst
    exact start .nil rfl
  | @char before r r' c hc hr ih =>
    cases s with
    | nil => exact start (.char hc hr) hst
    | cons a s =>
      obtain ⟨rfl, rfl⟩ := List.cons.inj hst
      obtain ⟨s', t', rfl, hs, ht⟩ := ih (fun u v hs => hcut (a :: u) v (congrArg (a :: ·) hs)) rfl
      refine ⟨a :: s', t', rfl, .char hc hs, ?_⟩
      rwa [List.append_assoc, List.singleton_append] at ht
  | @literalLine before r r' hinside hr ih =>
    cases s with
    | nil => exact start (.literalLine hinside hr) hst
    | cons a s =>
      obtain ⟨rfl, rfl⟩ := List.cons.inj hst
      obtain ⟨s', t', rfl, hs, ht⟩ :=
        ih (fun u v hs => hcut ('\n' :: u) v (congrArg ('\n' :: ·) hs)) rfl
      refine ⟨'\n' :: s', t', rfl, .literalLine hinside hs, ?_⟩
      rwa [List.append_assoc, List.singleton_append] at ht
  | @codeLine before r r' indent indent' hinside hblank hfeed hblank' hfeed' hr ih =>
    cases s with
    | nil => exact start (.codeLine hinside hblank hfeed hblank' hfeed' hr) hst
    | cons a s =>
      obtain ⟨rfl, hrest⟩ := List.cons.inj hst
      -- the indentation is all in front of the cut
      obtain ⟨u, rfl, rfl⟩ : ∃ u, s = indent ++ u ∧ r = u ++ t := by
        rcases List.append_eq_append_iff.mp hrest with ⟨u, rfl, rfl⟩ | h
        · cases u with
          | nil => exact ⟨[], by simp, rfl⟩
          | cons c u =>
            have hblank := List.all_eq_true.mp hblank
            have hs : allBlank s = true :=
              List.all_eq_true.mpr fun c hc => hblank c (List.mem_append_left _ hc)
            have hc := hcut [] s rfl hs c rfl
            rw [hblank c (List.mem_append_right _ List.mem_cons_self)] at hc
            cases hc
        · exact h
      obtain ⟨s', t', rfl, hs, ht⟩ := ih
        (fun v w hu => hcut ('\n' :: indent ++ v) w (by rw [hu]; simp)) rfl
      refine ⟨'\n' :: indent' ++ s', t', (List.append_assoc _ _ _).symm,
        .codeLine hinside hblank hfeed hblank' hfeed' hs, ?_⟩
      rwa [List.append_assoc, List.cons_append] at ht

end Reindents

/-- Whether every line of `s`, but its first, starts inside a template literal as far as backticks
tell, where `before` is in front of `s`. -/
def insideThroughout (before : List Char) : List Char → Bool
  | [] => true
  | c :: r => (c != '\n' || endsInside before) && insideThroughout (before ++ [c]) r

namespace Reindents

variable {before s t t' : List Char}

/-- Lines that start inside a template literal stay as they are. -/
theorem eq_of_insideThroughout (h : Reindents before t t')
    (hinside : insideThroughout before t = true) : t' = t := by
  induction h with
  | nil => rfl
  | char hc hr ih =>
    rw [insideThroughout, Bool.and_eq_true_iff] at hinside
    rw [ih hinside.2]
  | literalLine hends hr ih =>
    rw [insideThroughout, Bool.and_eq_true_iff] at hinside
    rw [ih hinside.2]
  | codeLine hends =>
    rw [List.cons_append, insideThroughout, hends, Bool.and_eq_true_iff] at hinside
    exact absurd hinside.1 (by decide)

/-- The first line stays as it is, and the others are the same but for their indentation. -/
theorem lines_eq (h : Reindents before t t') : ∃ l ls ls', lines t = l :: ls ∧
    lines t' = l :: ls' ∧ ls'.map trimLeft = ls.map trimLeft := by
  induction h with
  | nil => exact ⟨[], [], [], rfl, rfl, rfl⟩
  | @char before r r' c hc hr ih =>
    obtain ⟨l, ls, ls', hl, hl', htrim⟩ := ih
    obtain ⟨m, ms, hm, hcons⟩ := lines_cons hc r
    obtain ⟨m', ms', hm', hcons'⟩ := lines_cons hc r'
    rw [hl] at hm
    rw [hl'] at hm'
    obtain ⟨rfl, rfl⟩ := List.cons.inj hm
    obtain ⟨rfl, rfl⟩ := List.cons.inj hm'
    exact ⟨_, _, _, hcons, hcons', htrim⟩
  | literalLine hends hr ih =>
    obtain ⟨l, ls, ls', hl, hl', htrim⟩ := ih
    exact ⟨[], l :: ls, l :: ls', by rw [lines, hl], by rw [lines, hl'], by simp [htrim]⟩
  | @codeLine before r r' indent indent' hends hblank hfeed hblank' hfeed' hr ih =>
    obtain ⟨l, ls, ls', hl, hl', htrim⟩ := ih
    refine ⟨[], (indent ++ l) :: ls, (indent' ++ l) :: ls', ?_, ?_, ?_⟩
    · rw [List.cons_append, lines, lines_append_of_notMem hfeed hl]
    · rw [List.cons_append, lines, lines_append_of_notMem hfeed' hl']
    · rw [List.map_cons, List.map_cons, trimLeft_append_of_allBlank hblank,
        trimLeft_append_of_allBlank hblank', htrim]

end Reindents

/-- Only where template literals end matters to the lines after. -/
theorem insideThroughout_congr {before before' : List Char}
    (h : ∀ s, endsInside (before ++ s) = endsInside (before' ++ s)) (s : List Char) :
    insideThroughout before s = insideThroughout before' s := by
  induction s generalizing before before' with
  | nil => rfl
  | cons c r ih =>
    have hhere := h []
    rw [List.append_nil, List.append_nil] at hhere
    have hnext : ∀ s, endsInside (before ++ [c] ++ s) = endsInside (before' ++ [c] ++ s) := by
      intro s
      rw [List.append_assoc, List.append_assoc]
      exact h _
    rw [insideThroughout, insideThroughout, hhere, ih hnext]

/-! ## 4. Code and literals -/

/-- What strings and templates are quoted with. -/
inductive QuoteMark where
  | double
  | single
  | backtick
  deriving DecidableEq, Repr

def QuoteMark.char : QuoteMark → Char
  | .double => '"'
  | .single => '\''
  | .backtick => '`'

/-- A string or template. -/
structure Literal where
  mark : QuoteMark
  inside : List Char
  deriving DecidableEq, Repr

/-- A literal as it is written. -/
def Literal.text (l : Literal) : List Char := l.mark.char :: (l.inside ++ [l.mark.char])

theorem QuoteMark.isBlank_char (m : QuoteMark) : isBlank m.char = false := by
  cases m <;> decide

/-- A literal does not end in a line of white space. -/
theorem Literal.not_allBlank_of_text_eq (l : Literal) {u v : List Char}
    (h : l.text = u ++ '\n' :: v) : ¬ allBlank v = true := by
  intro hv
  have hlast := congrArg List.getLast? h
  rw [Literal.text, ← List.cons_append, List.getLast?_concat, List.getLast?_append,
    List.getLast?_cons, Option.some_or] at hlast
  have hmark := l.mark.isBlank_char
  rw [Option.some.inj hlast] at hmark
  cases hend : v.getLast? with
  | none =>
    rw [hend] at hmark
    cases hmark
  | some c =>
    rw [hend, Option.getD_some, List.all_eq_true.mp hv c (List.mem_of_getLast? hend)] at hmark
    cases hmark

/-- A text divided into code and the literals in it. -/
inductive Division where
  | code (text : List Char)
  | literal (before : List Char) (l : Literal) (rest : Division)
  deriving DecidableEq, Repr

/-- The lines of a piece of code without their indentation. -/
def codeLines (s : List Char) : List (List Char) := (lines s).map trimLeft

namespace Division

/-- The text that is divided. -/
def text : Division → List Char
  | .code text => text
  | .literal before l rest => before ++ l.text ++ rest.text

/-- The literals in their order. -/
def literals : Division → List Literal
  | .code _ => []
  | .literal _ l rest => l :: rest.literals

/-- The code before, between and after the literals. -/
def codes : Division → List (List Char)
  | .code text => [text]
  | .literal before _ rest => before :: rest.codes

/-- Whether backticks tell of every line that starts inside a literal that it does. -/
def trackedAfter (before : List Char) : Division → Bool
  | .code _ => true
  | .literal piece l rest =>
    insideThroughout (before ++ piece) l.text && rest.trackedAfter (before ++ piece ++ l.text)

/-- `trackedAfter` for a text that has nothing in front. -/
def Tracked (d : Division) : Prop := d.trackedAfter [] = true

instance (d : Division) : Decidable d.Tracked := inferInstanceAs (Decidable (_ = true))

/-- With more code in front and at the end. -/
def enclosed (first last : List Char) : Division → Division
  | .code text => .code (first ++ text ++ last)
  | .literal before l rest => .literal (first ++ before) l (rest.enclosed [] last)

variable {d d' : Division}

theorem text_enclosed (first last : List Char) (d : Division) :
    (d.enclosed first last).text = first ++ d.text ++ last := by
  induction d generalizing first with
  | code text => rfl
  | literal before l rest ih => simp only [enclosed, text, ih, List.append_assoc, List.nil_append]

theorem literals_enclosed (first last : List Char) (d : Division) :
    (d.enclosed first last).literals = d.literals := by
  induction d generalizing first with
  | code text => rfl
  | literal before l rest ih => simp only [enclosed, literals, ih]

theorem enclosed_enclosed (first first' last last' : List Char) (d : Division) :
    (d.enclosed first last).enclosed first' last'
      = d.enclosed (first' ++ first) (last ++ last') := by
  induction d generalizing first first' with
  | code text => simp only [enclosed, List.append_assoc]
  | literal before l rest ih =>
    simp only [enclosed, ih, List.append_assoc, List.append_nil]

theorem trackedAfter_congr {before before' : List Char}
    (h : ∀ s, endsInside (before ++ s) = endsInside (before' ++ s)) (d : Division) :
    d.trackedAfter before = d.trackedAfter before' := by
  induction d generalizing before before' with
  | code text => rfl
  | literal piece l rest ih =>
    have hafter (t s : List Char) :
        endsInside (before ++ t ++ s) = endsInside (before' ++ t ++ s) := by
      rw [List.append_assoc, List.append_assoc]
      exact h _
    rw [trackedAfter, trackedAfter, insideThroughout_congr (hafter piece),
      List.append_assoc before, List.append_assoc before', ih (hafter (piece ++ l.text))]

/-- More code at the end makes no difference to the lines before, and neither does code in front
after which templates end as without it. -/
theorem trackedAfter_enclosed {first : List Char}
    (h : ∀ s, endsInside (first ++ s) = endsInside s) (last : List Char) (d : Division) :
    (d.enclosed first last).trackedAfter [] = d.trackedAfter [] := by
  have atEnd (before : List Char) (d : Division) :
      (d.enclosed [] last).trackedAfter before = d.trackedAfter before := by
    induction d generalizing before with
    | code text => rfl
    | literal piece l rest ih => rw [enclosed, trackedAfter, ih, List.nil_append, trackedAfter]
  cases d with
  | code text => rfl
  | literal piece l rest =>
    have hafter (t s : List Char) :
        endsInside (first ++ t ++ s) = endsInside (t ++ s) := by
      rw [List.append_assoc]
      exact h _
    rw [enclosed, trackedAfter, trackedAfter, atEnd, List.nil_append, List.nil_append,
      insideThroughout_congr (hafter piece), List.append_assoc first,
      trackedAfter_congr (hafter (piece ++ l.text))]

/-- A text with a literal is not blank. -/
theorem literals_eq_nil_of_allBlank (h : allBlank d.text = true) : d.literals = [] := by
  cases d with
  | code text => rfl
  | literal before l rest =>
    have hmark : l.mark.char ∈ (literal before l rest).text := by simp [text, Literal.text]
    have hblank := List.all_eq_true.mp h _ hmark
    rw [QuoteMark.isBlank_char] at hblank
    cases hblank

/-- A text that is indented anew can be divided into the same literals, and the code between them
is the same but for its indentation. -/
theorem exists_of_reindents {before t' : List Char} (h : Reindents before d.text t')
    (htracked : d.trackedAfter before = true) :
    ∃ d' : Division, d'.text = t' ∧ d'.literals = d.literals ∧
      d'.codes.map codeLines = d.codes.map codeLines := by
  have same {before s s' : List Char} (h : Reindents before s s') : codeLines s' = codeLines s := by
    obtain ⟨l, ls, ls', hl, hl', htrim⟩ := h.lines_eq
    rw [codeLines, codeLines, hl, hl', List.map_cons, List.map_cons, htrim]
  induction d generalizing before t' with
  | code text => exact ⟨.code t', rfl, rfl, congrArg (fun s => [s]) (same h)⟩
  | literal piece l rest ih =>
    rw [trackedAfter, Bool.and_eq_true_iff] at htracked
    rw [text, List.append_assoc] at h
    -- there is a quote after the first cut and in front of the second
    obtain ⟨piece', t', rfl, hpiece, h⟩ := h.cut fun u v hu hv c hc => by
      obtain rfl : l.mark.char = c := Option.some.inj hc
      exact l.mark.isBlank_char
    obtain ⟨l', rest', rfl, hl, hrest⟩ := h.cut fun u v hu hv c hc =>
      absurd hv (l.not_allBlank_of_text_eq hu)
    obtain rfl := hl.eq_of_insideThroughout htracked.1
    obtain ⟨d', rfl, hliterals, hcodes⟩ := ih hrest htracked.2
    refine ⟨.literal piece' l d', by simp [text], ?_, ?_⟩
    · rw [literals, literals, hliterals]
    · rw [codes, codes, List.map_cons, List.map_cons, hcodes, same hpiece]

/-- One more line after a text and after one that has the same literals and the same code but for
its indentation. -/
theorem codes_enclosed_line {last last' : List Char} (hliterals : d'.literals = d.literals)
    (hcodes : d'.codes.map codeLines = d.codes.map codeLines)
    (hlast : codeLines last' = codeLines last) :
    (d'.enclosed [] ('\n' :: last')).codes.map codeLines
      = (d.enclosed [] ('\n' :: last)).codes.map codeLines := by
  have line (s last : List Char) :
      codeLines (s ++ '\n' :: last) = codeLines s ++ codeLines last := by
    rw [codeLines, lines_append_feed, List.map_append, codeLines, codeLines]
  induction d generalizing d' with
  | code text =>
    cases d' with
    | literal before l rest => cases hliterals
    | code text' =>
      have htext : codeLines text' = codeLines text := (List.cons.inj hcodes).1
      simp only [enclosed, codes, List.map_cons, List.map_nil, List.nil_append, line, htext, hlast]
  | literal before l rest ih =>
    cases d' with
    | code text' => cases hliterals
    | literal before' l' rest' =>
      obtain ⟨hbefore, hrest⟩ := List.cons.inj hcodes
      have hih := ih (List.cons.inj hliterals).2 hrest
      simp only [enclosed, codes, List.map_cons, List.nil_append, hbefore, hih]

end Division

end LocaleEditor.Text
