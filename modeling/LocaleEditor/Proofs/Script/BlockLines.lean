/-
LocaleEditor.Proofs.Script.BlockLines — a printed block taken back line by line.

Printing a block and taking its indentation away go through lines and ask of
each whether it starts inside a template literal, the one in the text and the
other in what was printed. They decide alike on every line, whatever quotes and
comments make of the backticks, so that a block is taken back but for the white
space on its blank lines (`dedent_printBlock`).

* `lines_printBlock` — the lines of a block and of its braces.
* `getElem?_indentLines` — lines inside a template literal are not moved.
* `tidied_eq_self_iff` — the texts that have no white space to lose.
-/
import LocaleEditor.Proofs.Script.Blocks

namespace LocaleEditor.Text

open Script (indentLines)

/-! ## 1. Lines that stay as they are -/

/-- A line that starts inside a template literal is printed as it is. -/
theorem getElem?_indentLines {ls : List (List Char)} {l : List Char} {i : Nat}
    (h : (marked false ls)[i]? = some (true, l)) (inner : List Char) :
    (indentLines inner ls)[i]? = some l := by
  rw [indentLines, List.getElem?_map, h]
  rfl

/-- Lines are tidy exactly when those that hold only white space and start in code are empty. -/
theorem tidyLines_eq_self_iff (inside : Bool) (ls : List (List Char)) :
    tidyLines inside ls = ls ↔
      ∀ l, (false, l) ∈ marked inside ls → allBlank l = true → l = [] := by
  conv => lhs; rhs; rw [← map_snd_marked inside ls]
  rw [tidyLines, List.map_inj_left]
  constructor
  · intro h l hl hblank
    have hline := h (false, l) hl
    simpa [hblank] using hline.symm
  · rintro h ⟨inside, l⟩ hl
    cases inside with
    | true => rfl
    | false =>
      show (if allBlank l then [] else l) = l
      split
      · next hblank => exact (h l hl hblank).symm
      · rfl

theorem tidied_eq_self_iff (s : List Char) :
    tidied s = s ↔ ∀ l, (false, l) ∈ marked false (lines s) → allBlank l = true → l = [] := by
  rw [← tidyLines_eq_self_iff]
  constructor
  · intro h
    rw [← lines_tidied, h]
  · intro h
    rw [tidied, h, unlines_lines]

end LocaleEditor.Text

namespace LocaleEditor.Script

open LocaleEditor.Text

/-! ## 2. The lines of a block -/

/-- The lines of a printed block, with a line for each brace. -/
theorem lines_printBlock (style : Style) (level : Nat) {text : List Char}
    (h : allBlank text = false) :
    lines (printBlock style level text) = ['{'] ::
      (indentLines (style.indent (level + 1)) (lines text) ++ [style.indent level ++ ['}']]) := by
  have hprint : printBlock style level text
      = ['{'] ++ '\n' :: (unlines (indentLines (style.indent (level + 1)) (lines text))
        ++ '\n' :: (style.indent level ++ ['}'])) := by
    simp [printBlock, h]
  have hne : indentLines (style.indent (level + 1)) (lines text) ≠ [] := by
    obtain ⟨first, rest, hlines⟩ := List.exists_cons_of_ne_nil (lines_ne_nil text)
    rw [hlines]
    exact List.cons_ne_nil _ _
  have hfeeds : ∀ l ∈ indentLines (style.indent (level + 1)) (lines text), '\n' ∉ l :=
    fun _ => notMem_of_mem_indentLines fun _ => notMem_of_mem_lines
  have hclose : '\n' ∉ style.indent level ++ ['}'] := by simp [Style.indent]
  have hopen : lines ['{'] = [['{']] := rfl
  rw [hprint, lines_append_feed, lines_append_feed, lines_unlines hne hfeeds,
    lines_of_notMem hclose, hopen, List.singleton_append]

/-- A block is taken back as it was, but for lines of white space. What was printed between the
braces, dedented by the indentation of its lines, has the lines of the text, where those that hold
only white space and do not start inside a template literal are empty. The lines that start inside
one are even printed as they are. So the text itself is taken back exactly when it has no line that
starts in code and holds white space and nothing else. -/
theorem dedent_printBlock (style : Style) (level : Nat) {text first : List Char}
    {rest : List (List Char)} (hlines : lines text = first :: rest)
    (hfirst : allBlank first = false) :
    ∃ body, printBlock style level text = ['{', '\n'] ++ style.indent (level + 1) ++ body
        ++ '\n' :: style.indent level ++ ['}'] ∧
      lines (dedent (style.indent (level + 1)).length body)
        = (marked false (lines text)).map (fun (inside, l) =>
            if !inside && allBlank l then [] else l) ∧
      (∀ (i : Nat) l, (marked false (lines text))[i]? = some (true, l) →
        (lines (printBlock style level text))[i + 1]? = some l) ∧
      (dedent (style.indent (level + 1)).length body = text ↔
        ¬ ∃ l, (false, l) ∈ marked false (lines text) ∧ l ≠ [] ∧ allBlank l = true) := by
  obtain ⟨rest', -, hprint, hdedent⟩ := exists_printBlock_lines style level hlines hfirst
  have hwidth : (style.indent (level + 1)).length = style.indentWidth * (level + 1) :=
    List.length_replicate
  rw [hwidth]
  refine ⟨unlines (first :: rest'), hprint, ?_, fun i l hl => ?_, ?_⟩
  · rw [hdedent, lines_tidied, tidyLines]
  · have hline := getElem?_indentLines hl (style.indent (level + 1))
    obtain ⟨hi, -⟩ := List.getElem?_eq_some_iff.mp hline
    rw [lines_printBlock style level (allBlank_eq_false_of_lines hlines hfirst),
      List.getElem?_cons_succ, List.getElem?_append_left hi, hline]
  · rw [hdedent, tidied_eq_self_iff]
    constructor
    · rintro h ⟨l, hl, hne, hblank⟩
      exact hne (h l hl hblank)
    · intro h l hl hblank
      by_contra hne
      exact h ⟨l, hl, hne, hblank⟩

/-- A text with a line of white space in a template literal and another in code. -/
def spacedText : List Char := "let a = `\n \n\tb`;\n\t \nreturn a;".toList

/-- The first of its lines of white space is kept and the second comes back empty. -/
theorem dedent_printBlock_spacedText :
    (lines spacedText = "let a = `".toList :: [[' '], "\tb`;".toList, ['\t', ' '],
      "return a;".toList] ∧ allBlank "let a = `".toList = false) ∧
    ∃ body, printBlock ⟨2, false⟩ 1 spacedText
        = "\x7b\n    ".toList ++ body ++ "\n  \x7d".toList ∧
      lines (dedent 4 body)
        = ["let a = `".toList, [' '], "\tb`;".toList, [], "return a;".toList] ∧
      (lines (printBlock ⟨2, false⟩ 1 spacedText))[2]? = some [' '] ∧
      dedent 4 body ≠ spacedText := by
  have hlines : lines spacedText = "let a = `".toList :: [[' '], "\tb`;".toList, ['\t', ' '],
      "return a;".toList] := rfl
  have hfirst : allBlank "let a = `".toList = false := rfl
  obtain ⟨body, hprint, hbody, hkept, hsame⟩ := dedent_printBlock ⟨2, false⟩ 1 hlines hfirst
  refine ⟨⟨hlines, hfirst⟩, body, ?_, hbody.trans rfl, hkept 1 [' '] rfl, fun h => ?_⟩
  · rw [hprint]
    simp [Style.indent]
  · exact hsame.mp h ⟨['\t', ' '], by decide, by decide, rfl⟩

end LocaleEditor.Script
