/-
LocaleEditor.Proofs.Text.Dedented — how indentation is taken from a text.

Taking indentation from a line leaves its backticks alone, so the same lines start
inside a template literal before and after (`marked_dedent`). From this the rest
follows line by line: the indentation that the lines share becomes smaller by what
is taken (`continuationIndent_dedent`), and to take it twice is to take the sum
(`dedent_dedent`).

`dedent_keeps_layout` says what is left of each line when as much is taken as
`continuationIndent` measures. Measuring and taking go over the lines apart from
each other and agree on those that have a say: each of them has at least the
indentation that is taken (`continuationIndent_le`). A blank line, which has no say,
may have less.
-/
import LocaleEditor.Proofs.Text.Reindented

namespace LocaleEditor.Text

/-! ## 1. One line -/

theorem notMem_stripIndent {l : List Char} (h : '\n' ∉ l) (width : Nat) :
    '\n' ∉ stripIndent width l := by
  induction l generalizing width with
  | nil => rwa [stripIndent_nil]
  | cons c r ih =>
    cases width with
    | zero => exact h
    | succ n =>
      rw [stripIndent]
      split
      · exact ih (List.not_mem_of_not_mem_cons h) n
      · exact h

theorem stripIndent_zero (l : List Char) : stripIndent 0 l = l := by
  cases l <;> rfl

theorem stripIndent_stripIndent (a b : Nat) (l : List Char) :
    stripIndent b (stripIndent a l) = stripIndent (a + b) l := by
  induction l generalizing a with
  | nil => simp only [stripIndent_nil]
  | cons c r ih =>
    cases a with
    | zero => rw [stripIndent_zero, Nat.zero_add]
    | succ n =>
      rw [Nat.succ_add, stripIndent, stripIndent]
      split
      · exact ih n
      · next hc =>
        cases b with
        | zero => exact stripIndent_zero _
        | succ m => rw [stripIndent, if_neg hc]

theorem indentOf_cons (c : Char) (r : List Char) :
    indentOf (c :: r) = if isIndent c then indentOf r + 1 else 0 := by
  rw [indentOf, List.takeWhile_cons]
  split <;> rfl

theorem indentOf_stripIndent (width : Nat) (l : List Char) :
    indentOf (stripIndent width l) = indentOf l - width := by
  induction l generalizing width with
  | nil => rw [stripIndent_nil]; exact (Nat.zero_sub width).symm
  | cons c r ih =>
    cases width with
    | zero => rfl
    | succ n =>
      rw [stripIndent, indentOf_cons]
      split
      · rw [ih, Nat.add_sub_add_right]
      · next hc => rw [indentOf_cons, if_neg hc, Nat.zero_sub]

/-- A line that has the indentation loses all of it. -/
theorem exists_eq_append_stripIndent {width : Nat} {l : List Char} (h : width ≤ indentOf l) :
    ∃ indent, l = indent ++ stripIndent width l ∧ indent.length = width ∧
      ∀ c ∈ indent, isIndent c = true := by
  induction l generalizing width with
  | nil =>
    obtain rfl : width = 0 := Nat.le_zero.mp h
    exact ⟨[], rfl, rfl, by simp⟩
  | cons c r ih =>
    cases width with
    | zero => exact ⟨[], rfl, rfl, by simp⟩
    | succ n =>
      rw [indentOf_cons] at h
      split at h
      · next hc =>
        obtain ⟨indent, hr, hlength, hindent⟩ := ih (Nat.le_of_succ_le_succ h)
        refine ⟨c :: indent, ?_, congrArg (· + 1) hlength, List.forall_mem_cons.mpr ⟨hc, hindent⟩⟩
        rw [stripIndent, if_pos hc, List.cons_append, ← hr]
      · exact absurd h (Nat.not_succ_le_zero n)

theorem allBlank_stripIndent (width : Nat) (l : List Char) :
    allBlank (stripIndent width l) = allBlank l := by
  rw [← allBlank_trimLeft, trimLeft_stripIndent, allBlank_trimLeft]

theorem insideAfter_stripIndent (width : Nat) (inside : Bool) (l : List Char) :
    insideAfter inside (stripIndent width l) = insideAfter inside l := by
  rw [← insideAfter_trimLeft, trimLeft_stripIndent, insideAfter_trimLeft]

/-! ## 2. The least of some numbers -/

theorem least_le {n : Nat} {ns : List Nat} (h : n ∈ ns) : least ns ≤ n := by
  have hmin : least ns = ns.min?.getD 0 := by
    cases ns with
    | nil => rfl
    | cons m ns => rw [List.min?_cons']; rfl
  rw [hmin]
  exact List.min?_getD_le_of_mem h

theorem least_map_sub (ns : List Nat) (width : Nat) :
    least (ns.map (· - width)) = least ns - width := by
  cases ns with
  | nil => exact (Nat.zero_sub width).symm
  | cons n ns =>
    rw [List.map_cons, least, least, List.foldl_map]
    exact List.foldl_hom (· - width) fun m k => Nat.sub_min_sub_right m k width

/-! ## 3. All lines -/

theorem exists_lines (s : List Char) : ∃ first rest, lines s = first :: rest :=
  List.exists_cons_of_ne_nil (lines_ne_nil s)

theorem notMem_of_mem_dedentLines {width : Nat} {ls : List (List Char)} (h : ∀ l ∈ ls, '\n' ∉ l)
    {l : List Char} (hl : l ∈ dedentLines width ls) : '\n' ∉ l := by
  cases ls with
  | nil => cases hl
  | cons first rest =>
    rcases List.mem_cons.mp hl with rfl | hl
    · exact h _ List.mem_cons_self
    · obtain ⟨⟨inside, m⟩, hm, rfl⟩ := List.mem_map.mp hl
      have hm' : '\n' ∉ m := h m (List.mem_cons_of_mem _ (mem_of_mem_marked hm))
      dsimp only
      split
      · exact hm'
      · exact notMem_stripIndent hm' width

/-- A line after the first, as it is left. -/
def dedentLine (width : Nat) (inside : Bool) (l : List Char) : List Char :=
  if inside then l else stripIndent width l

theorem dedentLine_dedentLine (a b : Nat) (inside : Bool) (l : List Char) :
    dedentLine b inside (dedentLine a inside l) = dedentLine (a + b) inside l := by
  cases inside with
  | true => rfl
  | false => exact stripIndent_stripIndent a b l

theorem dedentLines_cons (width : Nat) (first : List Char) (rest : List (List Char)) :
    dedentLines width (first :: rest) = first ::
      (marked (insideAfter false first) rest).map fun (b, l) => dedentLine width b l := rfl

theorem lines_dedent (width : Nat) (s : List Char) :
    lines (dedent width s) = dedentLines width (lines s) := by
  refine lines_unlines ?_ fun _ => notMem_of_mem_dedentLines fun _ => notMem_of_mem_lines
  obtain ⟨first, rest, hlines⟩ := exists_lines s
  rw [hlines]
  exact List.cons_ne_nil _ _

/-- Taking indentation from lines leaves the marks as they are. -/
theorem marked_dedentLine (width : Nat) (inside : Bool) (ls : List (List Char)) :
    marked inside ((marked inside ls).map fun (b, l) => dedentLine width b l)
      = (marked inside ls).map fun (b, l) => (b, dedentLine width b l) := by
  refine marked_map (dedentLine width) (fun b l => ?_) inside ls
  cases b with
  | true => rfl
  | false => exact insideAfter_stripIndent width false l

theorem length_marked (inside : Bool) (ls : List (List Char)) :
    (marked inside ls).length = ls.length := by
  rw [← List.length_map Prod.snd, map_snd_marked]

/-- The same lines start inside a template literal before and after. -/
theorem marked_dedent (width : Nat) (s : List Char) :
    (marked false (lines (dedent width s))).map Prod.fst
      = (marked false (lines s)).map Prod.fst := by
  obtain ⟨first, rest, hlines⟩ := exists_lines s
  rw [lines_dedent, hlines, dedentLines_cons, marked, marked, marked_dedentLine, List.map_cons,
    List.map_cons, List.map_map]
  rfl

theorem dedent_dedent (a b : Nat) (s : List Char) :
    dedent b (dedent a s) = dedent (a + b) s := by
  obtain ⟨first, rest, hlines⟩ := exists_lines s
  rw [dedent, lines_dedent, dedent, hlines, dedentLines_cons, dedentLines_cons, dedentLines_cons,
    marked_dedentLine, List.map_map]
  refine congrArg (fun ls => unlines (first :: ls)) (List.map_congr_left fun p _ => ?_)
  exact dedentLine_dedentLine a b p.1 p.2

theorem length_lines_dedent (width : Nat) (s : List Char) :
    (lines (dedent width s)).length = (lines s).length := by
  rw [← length_marked false, ← length_marked false (lines s), ← List.length_map Prod.fst,
    marked_dedent, List.length_map]

theorem head?_lines_dedent (width : Nat) (s : List Char) :
    (lines (dedent width s)).head? = (lines s).head? := by
  obtain ⟨first, rest, hlines⟩ := exists_lines s
  rw [lines_dedent, hlines]
  rfl

/-- What is left of each line after the first. -/
theorem getElem?_lines_dedent {s l : List Char} {i : Nat} {inside : Bool}
    (h : (marked false (lines s))[i + 1]? = some (inside, l)) (width : Nat) :
    (lines (dedent width s))[i + 1]? = some (dedentLine width inside l) := by
  obtain ⟨first, rest, hlines⟩ := exists_lines s
  rw [hlines, marked, List.getElem?_cons_succ] at h
  rw [lines_dedent, hlines, dedentLines_cons, List.getElem?_cons_succ, List.getElem?_map, h]
  rfl

/-! ## 4. The indentation that lines share -/

/-- Whether a line has a say in the indentation that all share. -/
def hasSay (line : Bool × List Char) : Bool := !line.1 && !allBlank line.2

theorem continuationIndent_of_lines {s first : List Char} {rest : List (List Char)}
    (h : lines s = first :: rest) :
    continuationIndent s = least (((marked (insideAfter false first) rest).filter hasSay).map
      fun line => indentOf line.2) := by
  rw [continuationIndent, h]
  rfl

/-- The lines share less indentation by as much as is taken from them. -/
theorem continuationIndent_dedent (width : Nat) (s : List Char) :
    continuationIndent (dedent width s) = continuationIndent s - width := by
  obtain ⟨first, rest, hlines⟩ := exists_lines s
  have hdedent := lines_dedent width s
  rw [hlines, dedentLines_cons] at hdedent
  -- the same lines have a say before and after
  have hsay : (hasSay ∘ fun line => (line.1, dedentLine width line.1 line.2)) = hasSay := by
    funext ⟨inside, l⟩
    cases inside with
    | true => rfl
    | false => exact congrArg (true && !·) (allBlank_stripIndent width l)
  rw [continuationIndent_of_lines hdedent, continuationIndent_of_lines hlines, marked_dedentLine,
    ← least_map_sub, List.filter_map, hsay, List.map_map, List.map_map]
  refine congrArg least (List.map_congr_left fun line hline => ?_)
  obtain ⟨inside, l⟩ := line
  cases inside with
  | true => cases (List.mem_filter.mp hline).2
  | false => exact indentOf_stripIndent width l

/-- A line that is not blank and starts in code has the indentation that all share. -/
theorem continuationIndent_le {s l : List Char} {i : Nat}
    (h : (marked false (lines s))[i + 1]? = some (false, l)) (hblank : allBlank l = false) :
    continuationIndent s ≤ indentOf l := by
  obtain ⟨first, rest, hlines⟩ := exists_lines s
  rw [hlines, marked, List.getElem?_cons_succ] at h
  have hsay : hasSay (false, l) = true := by simp [hasSay, hblank]
  rw [continuationIndent_of_lines hlines]
  exact least_le (List.mem_map_of_mem (List.mem_filter.mpr ⟨List.mem_of_getElem? h, hsay⟩))

/-- When a text loses the indentation that its lines share, their number stays the same, and so do
the first line and those that start inside a template literal. Every other line that is not blank
loses exactly that many spaces and tabs, and no shared indentation is left. Whatever is taken, the
same lines start inside a literal, so that taking twice is taking the sum. -/
theorem dedent_keeps_layout (s : List Char) :
    (lines (dedent (continuationIndent s) s)).length = (lines s).length ∧
    (lines (dedent (continuationIndent s) s)).head? = (lines s).head? ∧
    (∀ (i : Nat) (l : List Char), (marked false (lines s))[i]? = some (true, l) →
      (lines (dedent (continuationIndent s) s))[i]? = some l) ∧
    (∀ (i : Nat) (l : List Char), (marked false (lines s))[i + 1]? = some (false, l) →
      allBlank l = false → ∃ indent kept, l = indent ++ kept ∧ indent.length = continuationIndent s ∧
        (∀ c ∈ indent, c = ' ' ∨ c = '\t') ∧
        (lines (dedent (continuationIndent s) s))[i + 1]? = some kept) ∧
    continuationIndent (dedent (continuationIndent s) s) = 0 ∧
    (∀ width, (marked false (lines (dedent width s))).map Prod.fst
      = (marked false (lines s)).map Prod.fst) ∧
    ∀ a b, dedent b (dedent a s) = dedent (a + b) s := by
  refine ⟨length_lines_dedent _ s, head?_lines_dedent _ s, fun i l hl => ?_, fun i l hl hblank => ?_,
    ?_, fun width => marked_dedent width s, fun a b => dedent_dedent a b s⟩
  · cases i with
    | zero =>
      -- the first line starts in code
      obtain ⟨first, rest, hlines⟩ := exists_lines s
      rw [hlines] at hl
      cases hl
    | succ i => exact getElem?_lines_dedent hl _
  · obtain ⟨indent, happend, hlength, hindent⟩ :=
      exists_eq_append_stripIndent (continuationIndent_le hl hblank)
    refine ⟨indent, _, happend, hlength, fun c hc => ?_, getElem?_lines_dedent hl _⟩
    simpa [isIndent] using hindent c hc
  · rw [continuationIndent_dedent, Nat.sub_self]

/-- A call over several lines: one in a template literal, one of white space. -/
def callText : List Char := "f(\n\t  `a\n b`,\n \n\t   c)".toList

/-- The line in the template literal stays as it is, the one before it loses all it has, the blank
one too, and the last keeps one space. -/
theorem dedent_keeps_layout_callText :
    continuationIndent callText = 3 ∧
    ((marked false (lines callText))[2]? = some (true, " b`,".toList) ∧
      (lines (dedent 3 callText))[2]? = some " b`,".toList) ∧
    ((marked false (lines callText))[4]? = some (false, "\t   c)".toList) ∧
      allBlank "\t   c)".toList = false ∧
      ∃ indent kept, "\t   c)".toList = indent ++ kept ∧ indent.length = 3 ∧
        (lines (dedent 3 callText))[4]? = some kept) ∧
    lines (dedent 3 callText)
      = ["f(".toList, "`a".toList, " b`,".toList, [], " c)".toList] ∧
    continuationIndent (dedent 3 callText) = 0 ∧
    dedent 1 (dedent 2 callText) = dedent 3 callText := by
  have hwidth : continuationIndent callText = 3 := by decide
  have hinside : (marked false (lines callText))[2]? = some (true, " b`,".toList) := by decide
  have hcode : (marked false (lines callText))[4]? = some (false, "\t   c)".toList) := by decide
  have hblank : allBlank "\t   c)".toList = false := by decide
  obtain ⟨-, -, hliteral, hlines, hzero, -, htwice⟩ := dedent_keeps_layout callText
  rw [hwidth] at hliteral hlines hzero
  obtain ⟨indent, kept, happend, hlength, -, hkept⟩ := hlines 3 _ hcode hblank
  exact ⟨hwidth, ⟨hinside, hliteral 2 _ hinside⟩,
    ⟨hcode, hblank, indent, kept, happend, hlength, hkept⟩, by decide, hzero, htwice 2 1⟩

end LocaleEditor.Text
