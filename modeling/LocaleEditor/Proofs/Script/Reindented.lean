/-
LocaleEditor.Proofs.Script.Reindented — a block is read however far it is indented.

A printed block is the text in braces with spaces in front of its lines, but for
those inside a template literal. No reader sees the spaces, so where the text in
braces is read as a block, whatever follows it, then so is the printed block at
every level (`block_printBlock`).
-/
import LocaleEditor.Proofs.Script.SteadyStatements
import LocaleEditor.Proofs.Script.Blocks

namespace LocaleEditor.Script

open LocaleEditor.Text Reader

variable {kept : Nat} {s s' t : List Char} {d : Dialect} {g : Grammar}

/-! ## 1. Lines that are indented -/

/-- Lines, each with a line break in front of it. -/
def brokenLines (ls : List (List Char)) : List Char := ls.flatMap ('\n' :: ·)

theorem brokenLines_eq {ls : List (List Char)} (h : ls ≠ []) :
    brokenLines ls = '\n' :: unlines ls := by
  induction ls with
  | nil => exact absurd rfl h
  | cons l ls ih =>
    cases ls with
    | nil => simp [brokenLines, unlines]
    | cons m ls =>
      have hrest := ih (List.cons_ne_nil _ _)
      rw [unlines_cons_cons, ← hrest]
      rfl

/-- Lines that are indented, but for those inside a template and those that are empty. -/
theorem Indented.lines (n : Nat) {inside : Bool} {ls : List (List Char)}
    (hls : tidyLines inside ls = ls) (hkept : kept ≤ s.length) (h : Indented kept s s') :
    Indented kept (brokenLines ls ++ s)
      (brokenLines ((marked inside ls).map fun (inside, l) =>
        if inside then l else if allBlank l then [] else List.replicate n ' ' ++ l) ++ s') := by
  induction ls generalizing inside with
  | nil => exact h
  | cons l ls ih =>
    rw [tidyLines_cons] at hls
    obtain ⟨hl, hls⟩ := List.cons.inj hls
    have hrest := (ih hls).append l
    have hlength : kept ≤ (l ++ (brokenLines ls ++ s)).length := by
      simp only [List.length_append]
      omega
    simp only [brokenLines, marked, List.map_cons, List.flatMap_cons, List.cons_append,
      List.append_assoc] at hrest hlength ⊢
    by_cases hinside : inside = true
    · rw [if_pos hinside]
      exact hrest.cons '\n'
    rw [if_neg hinside]
    by_cases hblank : allBlank l = true
    · -- a blank line is empty already
      have hempty : l = [] := by
        rw [← hl, if_pos (by simp [hinside, hblank])]
      rw [if_pos hblank]
      subst hempty
      exact hrest.cons '\n'
    · rw [if_neg hblank, List.append_assoc]
      exact .line n hlength hrest

/-! ## 2. Blocks -/

/-- A text in braces on lines of its own. -/
def inBraces (t : List Char) : List Char := '\x7b' :: '\n' :: (t ++ ['\n', '\x7d'])

/-- Printing the text in braces puts spaces in front of its lines. -/
theorem Indented.printBlock (style : Style) (level : Nat) (htidied : tidied t = t)
    (hblank : allBlank t = false) (r : List Char) :
    Indented r.length (inBraces t ++ r) (printBlock style level t ++ r) := by
  have hls : tidyLines false (Text.lines t) = Text.lines t := by
    rw [← lines_tidied, htidied]
  have hclose : Indented r.length ('\n' :: '\x7d' :: r)
      ('\n' :: (style.indent level ++ '\x7d' :: r)) :=
    .line _ (Nat.le_succ _) (.refl _)
  have hlines := Indented.lines (style.indentWidth * (level + 1)) hls
    (by simp only [List.length_cons]; omega) hclose
  have hbraces : inBraces t ++ r
      = '\x7b' :: (brokenLines (Text.lines t) ++ '\n' :: '\x7d' :: r) := by
    rw [brokenLines_eq (lines_ne_nil t), unlines_lines]
    simp [inBraces]
  have hprinted : Script.printBlock style level t ++ r
      = '\x7b' :: (brokenLines (indentLines (style.indent (level + 1)) (Text.lines t))
        ++ '\n' :: (style.indent level ++ '\x7d' :: r)) := by
    have hne : indentLines (style.indent (level + 1)) (Text.lines t) ≠ [] := by
      cases hlines : Text.lines t with
      | nil => exact absurd hlines (lines_ne_nil t)
      | cons l ls => exact List.cons_ne_nil _ _
    rw [brokenLines_eq hne, Script.printBlock, hblank]
    simp
  rw [hbraces, hprinted]
  exact hlines.cons _

/-- Statements are read up to where the reader is asked to stop. -/
theorem repeatUntil_stops {α : Type} (stop : List Char → Bool) (p : Reader α) (s : List Char) :
    (repeatUntil stop p).Yields s fun _ rest => stop rest = true := by
  have within : ∀ n s, (repeatWithin stop p n).Yields s fun _ rest => stop rest = true := by
    intro n
    induction n with
    | zero => exact fun s => .fail
    | succ n ih =>
      intro s as rest h
      unfold repeatWithin at h
      split at h
      · next hstop =>
        obtain ⟨-, rfl⟩ := Outcome.done.inj h
        exact hstop
      · split at h
        · cases h
        · split at h
          · cases h
          · next hrest =>
            obtain ⟨-, rfl⟩ := Outcome.done.inj h
            exact ih _ _ _ hrest
  exact within _ s

/-- Where the text of a block stands is told by what comes after its two braces. -/
theorem extent_of_block (g : Grammar) (inner : List Char) :
    (block g).Yields ('\x7b' :: inner) fun a rest => a.1 = blockExtent inner ('\x7d' :: rest) := by
  have hopen : sign '\x7b' ('\x7b' :: inner) = .done () inner := rfl
  unfold block
  refine .bind fun _ x hx => ?_
  obtain ⟨-, rfl⟩ := Outcome.done.inj (hopen.symm.trans hx)
  refine .left (.bind (.mono (repeatUntil_stops _ _ _) fun as y hy => ?_))
  refine .bind fun _ z hz => .left (.bind (.goTo (.pure ?_)))
  obtain ⟨-, rfl⟩ := Outcome.done.inj hz
  obtain ⟨r, hr⟩ := List.head?_eq_some_iff.mp (beq_iff_eq.mp hy)
  rw [hr]
  rfl

/-- Where the text in braces is read as a block, it is read so at every level. -/
theorem block_printBlock {n : Nat} (htidied : tidied t = t) (hblank : allBlank t = false)
    {r : List Char} {a : Extent × Bool} (h : block (Grammar.upTo d n) (inBraces t ++ r) = .done a r)
    (style : Style) (level : Nat) : ∃ l, block (Grammar.upTo d n) (printBlock style level t ++ r)
      = .done (blockExtent ((printBlock style level t).drop 1 ++ r) ('\x7d' :: r), l) r := by
  have := grammar_upTo_advances d n
  have := grammar_upTo_steady r.length d n
  have hindented := Indented.printBlock style level htidied hblank r
  obtain ⟨x, hx⟩ : ∃ x, printBlock style level t = '\x7b' :: x := by
    unfold printBlock
    split <;> exact ⟨_, rfl⟩
  rcases Steady.cases (block (Grammar.upTo d n)) (block (Grammar.upTo d n)) hindented with
    ⟨m, m', hp, -⟩ | ⟨b, ⟨e, l⟩, y, y', hp, hp', -, hy⟩
  · rw [h] at hp
    cases hp
  · obtain ⟨rfl, rfl⟩ := Outcome.done.inj (h.symm.trans hp)
    obtain rfl := hy.eq_of_length_le (Nat.le_refl _)
    rw [hx, List.cons_append] at hp' ⊢
    have hextent : e = blockExtent (x ++ y') ('\x7d' :: y') := extent_of_block _ _ _ _ hp'
    rw [hp', hextent]
    exact ⟨l, rfl⟩

/-- Braces with nothing between them are a block. -/
theorem block_braces (g : Grammar) (r : List Char) : block g ('\x7b' :: '\x7d' :: r)
    = .done (blockExtent ('\x7d' :: r) ('\x7d' :: r), false) r := rfl

end LocaleEditor.Script
