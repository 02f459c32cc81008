/-
LocaleEditor.Proofs.Text.Lines — lines that are indented and taken back.

`tidied` empties the lines of a piece of code that hold only white space, except
inside a template literal. A printed block is indented line by line. Taking the
indentation away again gives the tidied lines (`dedentLines_indentLines`), and
printing does not tell the two apart (`indentLines_tidyLines`).
-/
import LocaleEditor.Script.Printer

namespace LocaleEditor.Text

open Script (indentLines)

/-! ## 1. Lines -/

theorem lines_ne_nil (s : List Char) : lines s ≠ [] := by
  fun_cases lines s <;> simp_all

theorem lines_cons {c : Char} (h : c ≠ '\n') (r : List Char) :
    ∃ l ls, lines r = l :: ls ∧ lines (c :: r) = (c :: l) :: ls := by
  cases hr : lines r with
  | nil => exact absurd hr (lines_ne_nil r)
  | cons l ls => exact ⟨l, ls, rfl, by rw [lines.eq_3 _ _ (fun hc => h hc), hr]⟩

/-- No line holds a line feed. -/
theorem notMem_of_mem_lines {s l : List Char} (h : l ∈ lines s) : '\n' ∉ l := by
  induction s generalizing l with
  | nil => simp_all [lines]
  | cons c r ih =>
    by_cases hc : c = '\n'
    · subst hc
      rcases List.mem_cons.mp h with rfl | h
      · exact List.not_mem_nil
      · exact ih h
    · obtain ⟨l', ls, hr, hcons⟩ := lines_cons hc r
      rw [hcons] at h
      rw [hr] at ih
      rcases List.mem_cons.mp h with rfl | h
      · intro hmem
        rcases List.mem_cons.mp hmem with heq | hmem
        · exact hc heq.symm
        · exact ih List.mem_cons_self hmem
      · exact ih (List.mem_cons_of_mem _ h)

theorem unlines_cons_cons (l m : List Char) (ls : List (List Char)) :
    unlines (l :: m :: ls) = l ++ '\n' :: unlines (m :: ls) := rfl

/-- Text in front of the first line is text in front of all of them. -/
theorem unlines_append_cons (before l : List Char) (ls : List (List Char)) :
    unlines ((before ++ l) :: ls) = before ++ unlines (l :: ls) := by
  cases ls with
  | nil => rfl
  | cons m ls => rw [unlines_cons_cons, unlines_cons_cons, List.append_assoc]

theorem unlines_lines (s : List Char) : unlines (lines s) = s := by
  induction s with
  | nil => rfl
  | cons c r ih =>
    by_cases hc : c = '\n'
    · subst hc
      cases hr : lines r with
      | nil => exact absurd hr (lines_ne_nil r)
      | cons l ls => rw [lines, hr, unlines_cons_cons, ← hr, ih]; rfl
    · obtain ⟨l, ls, hr, hcons⟩ := lines_cons hc r
      rw [hr] at ih
      rw [hcons, ← ih]
      cases ls <;> rfl

theorem lines_append_feed (s t : List Char) : lines (s ++ '\n' :: t) = lines s ++ lines t := by
  induction s with
  | nil => rfl
  | cons c r ih =>
    by_cases hc : c = '\n'
    · subst hc
      exact congrArg ([] :: ·) ih
    · obtain ⟨l, ls, hr, hcons⟩ := lines_cons hc r
      obtain ⟨l', ls', hr', hcons'⟩ := lines_cons hc (r ++ '\n' :: t)
      rw [hr, hr', List.cons_append] at ih
      obtain ⟨rfl, rfl⟩ := List.cons.inj ih
      rw [List.cons_append, hcons', hcons, List.cons_append]

/-- Text without a line feed goes in front of the first line. -/
theorem lines_append_of_notMem {l s first : List Char} {rest : List (List Char)} (h : '\n' ∉ l)
    (hs : lines s = first :: rest) : lines (l ++ s) = (l ++ first) :: rest := by
  induction l with
  | nil => exact hs
  | cons c l ih =>
    obtain ⟨hc, hl⟩ := List.ne_and_not_mem_of_not_mem_cons h
    obtain ⟨l', ls', hr, hcons⟩ := lines_cons hc.symm (l ++ s)
    rw [ih hl] at hr
    obtain ⟨rfl, rfl⟩ := List.cons.inj hr
    exact hcons

theorem lines_of_notMem {l : List Char} (h : '\n' ∉ l) : lines l = [l] := by
  simpa using lines_append_of_notMem h (s := []) rfl

/-- The lines of joined lines are those lines. -/
theorem lines_unlines {ls : List (List Char)} (hne : ls ≠ []) (h : ∀ l ∈ ls, '\n' ∉ l) :
    lines (unlines ls) = ls := by
  induction ls with
  | nil => exact absurd rfl hne
  | cons l ls ih =>
    have hl := lines_of_notMem (h l List.mem_cons_self)
    cases ls with
    | nil => exact hl
    | cons m ls =>
      rw [unlines_cons_cons, lines_append_feed, hl,
        ih (List.cons_ne_nil m ls) fun l' hl' => h l' (List.mem_cons_of_mem _ hl')]
      rfl

/-! ## 2. Tidied lines -/

/-- Lines that hold only white space emptied, unless they start inside a template literal. -/
def tidyLines (inside : Bool) (ls : List (List Char)) : List (List Char) :=
  (marked inside ls).map fun (inside, l) => if !inside && allBlank l then [] else l

/-- `tidyLines` on the lines of a text. -/
def tidied (s : List Char) : List Char := unlines (tidyLines false (lines s))

theorem tidyLines_cons (inside : Bool) (l : List Char) (ls : List (List Char)) :
    tidyLines inside (l :: ls)
      = (if !inside && allBlank l then [] else l) :: tidyLines (insideAfter inside l) ls := rfl

theorem allBlank_nil : allBlank [] = true := rfl

/-- Text in front that has neither backticks nor backslashes does not count. -/
theorem insideAfter_append_of_plain {plain : List Char} (h : ∀ c ∈ plain, c ≠ '`' ∧ c ≠ '\\')
    (inside : Bool) (l : List Char) : insideAfter inside (plain ++ l) = insideAfter inside l := by
  have ticks : oddTicks false (plain ++ l) = oddTicks false l := by
    induction plain with
    | nil => rfl
    | cons c r ih =>
      obtain ⟨htick, hslash⟩ := h c List.mem_cons_self
      rw [List.cons_append, oddTicks, beq_false_of_ne htick, beq_false_of_ne hslash]
      exact (Bool.false_xor _).trans (ih fun a ha => h a (List.mem_cons_of_mem _ ha))
  rw [insideAfter, ticks, insideAfter]

theorem plain_of_allBlank {l : List Char} (h : allBlank l = true) :
    ∀ c ∈ l, c ≠ '`' ∧ c ≠ '\\' := by
  intro c hc
  have hblank := List.all_eq_true.mp h c hc
  constructor <;> (rintro rfl; cases hblank)

/-- A blank line begins and ends no template literal. -/
theorem insideAfter_of_allBlank {l : List Char} (h : allBlank l = true) (inside : Bool) :
    insideAfter inside l = inside := by
  have hplain := insideAfter_append_of_plain (plain_of_allBlank h) inside []
  rw [List.append_nil] at hplain
  rw [hplain]
  exact Bool.xor_false _

/-- Changing lines without changing their backticks leaves the marks as they are. -/
theorem marked_map (f : Bool → List Char → List Char)
    (hf : ∀ inside l, insideAfter inside (f inside l) = insideAfter inside l) (inside : Bool)
    (ls : List (List Char)) :
    marked inside ((marked inside ls).map fun (b, l) => f b l)
      = (marked inside ls).map fun (b, l) => (b, f b l) := by
  induction ls generalizing inside with
  | nil => rfl
  | cons l ls ih =>
    rw [marked, List.map_cons, marked, hf, ih]
    rfl

theorem map_snd_marked (inside : Bool) (ls : List (List Char)) :
    (marked inside ls).map Prod.snd = ls := by
  induction ls generalizing inside with
  | nil => rfl
  | cons l ls ih => rw [marked, List.map_cons, ih]

theorem mem_of_mem_marked {inside : Bool} {ls : List (List Char)} {p : Bool × List Char}
    (h : p ∈ marked inside ls) : p.2 ∈ ls :=
  map_snd_marked inside ls ▸ List.mem_map_of_mem h

theorem marked_tidyLines (inside : Bool) (ls : List (List Char)) :
    marked inside (tidyLines inside ls)
      = (marked inside ls).map fun (b, l) => (b, if !b && allBlank l then [] else l) := by
  refine marked_map (fun b l => if !b && allBlank l then [] else l) (fun b l => ?_) inside ls
  split
  · next h =>
    rw [insideAfter_of_allBlank (Bool.and_eq_true_iff.mp h).2, insideAfter_of_allBlank allBlank_nil]
  · rfl

theorem lines_tidied (s : List Char) : lines (tidied s) = tidyLines false (lines s) := by
  refine lines_unlines ?_ fun l hl => ?_
  · cases hs : lines s with
    | nil => exact absurd hs (lines_ne_nil s)
    | cons l ls => exact List.cons_ne_nil _ _
  · obtain ⟨p, hp, rfl⟩ := List.mem_map.mp hl
    dsimp only
    split
    · exact List.not_mem_nil
    · exact notMem_of_mem_lines (mem_of_mem_marked hp)

theorem tidyLines_tidyLines (inside : Bool) (ls : List (List Char)) :
    tidyLines inside (tidyLines inside ls) = tidyLines inside ls := by
  rw [tidyLines, marked_tidyLines, List.map_map]
  refine List.map_congr_left fun p _ => ?_
  obtain ⟨b, l⟩ := p
  cases h : !b && allBlank l with
  | true => simp only [Function.comp_apply, h, if_true, ite_self]
  | false => simp only [Function.comp_apply, h, Bool.false_eq_true, if_false]

theorem tidied_tidied (s : List Char) : tidied (tidied s) = tidied s := by
  rw [tidied, lines_tidied, tidyLines_tidyLines, tidied]

theorem allBlank_unlines (ls : List (List Char)) : allBlank (unlines ls) = ls.all allBlank := by
  induction ls with
  | nil => rfl
  | cons l ls ih =>
    cases ls with
    | nil => simp [unlines]
    | cons m ls =>
      have hfeed : isBlank '\n' = true := by decide
      rw [unlines_cons_cons, List.all_cons, ← ih]
      simp [allBlank, hfeed]

/-- Tidying leaves a blank text blank, and no other. -/
theorem allBlank_tidied (s : List Char) : allBlank (tidied s) = allBlank s := by
  have all : ∀ (ls : List (List Char)) (inside : Bool),
      (tidyLines inside ls).all allBlank = ls.all allBlank := by
    intro ls
    induction ls with
    | nil => exact fun _ => rfl
    | cons l ls ih =>
      intro inside
      rw [tidyLines_cons, List.all_cons, List.all_cons, ih]
      cases hblank : allBlank l <;> cases inside <;> simp [hblank, allBlank_nil]
  rw [tidied, allBlank_unlines, all, ← allBlank_unlines, unlines_lines]

/-- Indenting does not tell a blank line from an empty one. -/
theorem indentLines_tidyLines (inner : List Char) (ls : List (List Char)) :
    indentLines inner (tidyLines false ls) = indentLines inner ls := by
  rw [indentLines, indentLines, marked_tidyLines, List.map_map]
  refine List.map_congr_left fun p _ => ?_
  obtain ⟨inside, l⟩ := p
  cases inside <;> cases hblank : allBlank l <;> simp [hblank, allBlank_nil]

/-! ## 3. Indentation taken back -/

theorem stripIndent_replicate (width : Nat) (l : List Char) :
    stripIndent width (List.replicate width ' ' ++ l) = l := by
  induction width with
  | zero => cases l <;> rfl
  | succ n ih =>
    rw [List.replicate_succ, List.cons_append, stripIndent, if_pos (by decide), ih]

theorem stripIndent_nil (width : Nat) : stripIndent width [] = [] := by
  cases width <;> rfl

theorem allBlank_replicate (width : Nat) : allBlank (List.replicate width ' ') = true :=
  List.all_eq_true.mpr fun _ h => by rw [List.eq_of_mem_replicate h]; decide

theorem notMem_replicate (width : Nat) : '\n' ∉ List.replicate width ' ' := fun h =>
  absurd (List.eq_of_mem_replicate h) (by decide)

/-- One line as it is printed in a block. -/
def indentLine (inner : List Char) (inside : Bool) (l : List Char) : List Char :=
  if inside then l else if allBlank l then [] else inner ++ l

theorem insideAfter_indentLine (width : Nat) (inside : Bool) (l : List Char) :
    insideAfter inside (indentLine (List.replicate width ' ') inside l) = insideAfter inside l := by
  unfold indentLine
  split
  · rfl
  · split
    · next h => rw [insideAfter_of_allBlank allBlank_nil, insideAfter_of_allBlank h]
    · exact insideAfter_append_of_plain (plain_of_allBlank (allBlank_replicate width)) inside l

theorem notMem_of_mem_indentLines {width : Nat} {ls : List (List Char)} (h : ∀ l ∈ ls, '\n' ∉ l)
    {l : List Char} (hl : l ∈ indentLines (List.replicate width ' ') ls) : '\n' ∉ l := by
  obtain ⟨⟨inside, m⟩, hm, rfl⟩ := List.mem_map.mp hl
  have hm' : '\n' ∉ m := h m (mem_of_mem_marked hm)
  dsimp only
  split
  · exact hm'
  · split
    · exact List.not_mem_nil
    · exact fun hmem => (List.mem_append.mp hmem).elim (notMem_replicate width) hm'

/-- Lines that were indented, without the indentation of the first, are dedented to the tidied
lines. -/
theorem dedentLines_indentLines (width : Nat) {first : List Char} (rest : List (List Char))
    (hfirst : allBlank first = false) :
    ∃ rest', indentLines (List.replicate width ' ') (first :: rest)
        = (List.replicate width ' ' ++ first) :: rest' ∧
      dedentLines width (first :: rest') = tidyLines false (first :: rest) := by
  refine ⟨(marked (insideAfter false first) rest).map fun (b, l) =>
    indentLine (List.replicate width ' ') b l, ?_, ?_⟩
  · rw [indentLines, marked, List.map_cons]
    simp only [hfirst]
    rfl
  · rw [dedentLines, marked_map _ (insideAfter_indentLine width), List.map_map, tidyLines_cons,
      hfirst, Bool.and_false, tidyLines]
    refine congrArg (first :: ·) (List.map_congr_left fun p _ => ?_)
    obtain ⟨inside, l⟩ := p
    cases inside with
    | true => rfl
    | false =>
      simp only [Function.comp_apply, indentLine]
      cases hblank : allBlank l with
      | true => exact stripIndent_nil width
      | false => exact stripIndent_replicate width l

end LocaleEditor.Text
