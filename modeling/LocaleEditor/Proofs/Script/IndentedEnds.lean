/-
LocaleEditor.Proofs.Script.IndentedEnds — where statements end does not depend on indentation.

A statement may end at a line break, and whether it does depends on what comes
next after white space and comments. So the search for the end of a statement is
what reads on after a line break, where two texts of which one is indented
further may differ: it passes over the spaces there and finds the same.

Three functions look past line breaks: `passComments?` passes over comments and
says whether a line broke in them, `continues` decides by the first characters
after them, and `end?` goes from comment to comment until the statement ends or
goes on. For each of them the answers on two such texts are the same, and so is
what is left, up to indentation (`SamePass`, `SameEnding`).

The searches count their rounds, and the longer text has more of them. All
lemmas are therefore about any two numbers of rounds that are enough, and the
induction is on the first.
-/
import LocaleEditor.Proofs.Script.Indented
import LocaleEditor.Script.Semicolon
import Mathlib.Data.List.TakeWhile

namespace LocaleEditor.Script

open LocaleEditor.Text

variable {kept : Nat} {s s' : List Char} {d : Dialect} {types operator : Bool}

/-! ## 1. Comments

A comment of one line is passed over as a piece of that line. A block comment may
hold line breaks, and whether it does is part of the answer, since a statement
may end there. -/

theorem length_afterBlock_le (s : List Char) : (afterBlock s).1.length ≤ s.length := by
  fun_induction afterBlock s with
  | case1 => exact Nat.le_refl _
  | case2 r => simp only [List.length_cons]; omega
  | case3 c r _ rest broken hrest ih =>
    rw [hrest] at ih
    exact Nat.le_succ_of_le ih

/-- After a block comment, with the same answer to whether it holds a line break. -/
theorem AfterBreak.afterBlock (h : AfterBreak kept s s') :
    Indented kept (afterBlock s).1 (afterBlock s').1 ∧ (afterBlock s).2 = (afterBlock s').2 := by
  induction s generalizing s' with
  | nil =>
    induction h with
    | here h =>
      rw [h.eq_nil]
      exact ⟨.refl _, rfl⟩
    | @space s' _ ih =>
      have hcons : (Script.afterBlock (' ' :: s')) = Script.afterBlock s' := by
        rw [Script.afterBlock.eq_3 _ _ (by simp)]
        simp
      rw [hcons]
      exact ih
  | cons c r ihr =>
    induction h with
    | @space s' _ ih =>
      have hcons : (Script.afterBlock (' ' :: s')) = Script.afterBlock s' := by
        rw [Script.afterBlock.eq_3 _ _ (by simp)]
        simp
      rw [hcons]
      exact ih
    | here h =>
      rcases h.begins (p := ['*', '/']) (by decide) with ⟨t, t', hs, rfl, ht⟩ | ⟨hne, hne'⟩
      · rw [hs]
        exact ⟨ht, rfl⟩
      · -- the comment goes on in both texts
        obtain ⟨r', rfl, hafter, -⟩ := h.exists_cons
        obtain ⟨hrest, hbroken⟩ := ihr hafter
        rw [Script.afterBlock.eq_3 _ _ fun t hc ht => hne t (by rw [hc, ht]; rfl),
          Script.afterBlock.eq_3 _ _ fun t hc ht => hne' t (by rw [hc, ht]; rfl)]
        exact ⟨hrest, by simp only [hbroken]⟩

/-- Either comments and white space are passed over in neither text, or in both with the same
answer. -/
inductive SamePass (kept : Nat) : Option (List Char × Bool) → Option (List Char × Bool) → Prop
  | none : SamePass kept none none
  | some {s s' : List Char} {broken : Bool} (h : Indented kept s s') :
      SamePass kept (some (s, broken)) (some (s', broken))

/-! The rounds of `passComments?`, by what comes after the white space: a slash of
its own, anything else, a comment of one line, or a block comment. -/

theorem passComments?_slash {all : Bool} {n : Nat} {r : List Char} (h : ∀ t, r ≠ '/' :: t)
    (h' : ∀ t, r ≠ '*' :: t) (hs : s.dropWhile isPlainSpace = '/' :: r) :
    passComments? all (n + 1) s = none := by
  unfold passComments?
  rw [hs]
  split <;> simp_all

theorem passComments?_other {all : Bool} {n : Nat} (h : ∀ t, s.dropWhile isPlainSpace ≠ '/' :: t) :
    passComments? all (n + 1) s = some (s.dropWhile isPlainSpace, true) := by
  unfold passComments?
  split <;> simp_all

theorem passComments?_line {all : Bool} {n : Nat} {r : List Char}
    (hs : s.dropWhile isPlainSpace = '/' :: '/' :: r) :
    passComments? all (n + 1) s = passComments? all n (r.drop (lineRest r)) := by
  rw [passComments?, hs]
  rfl

theorem passComments?_block {all : Bool} {n : Nat} {r : List Char}
    (hs : s.dropWhile isPlainSpace = '/' :: '*' :: r) :
    passComments? all (n + 1) s = if !all && (afterBlock r).1.head? != some '/' then
      some (afterBlock r) else passComments? all n (afterBlock r).1 := by
  rw [passComments?, hs]
  rfl

/-- Comments and white space are passed over alike, in as many rounds as it takes. -/
theorem AfterBreak.passComments (all : Bool) (n n' : Nat) (hn : s.length < 2 * n)
    (hn' : s'.length < 2 * n') (h : AfterBreak kept s s') :
    SamePass kept (passComments? all n s) (passComments? all n' s') := by
  induction n generalizing n' s s' with
  | zero => exact absurd hn (Nat.not_lt_zero _)
  | succ n ih =>
    obtain ⟨n', rfl⟩ : ∃ k, n' = k + 1 := ⟨n' - 1, by omega⟩
    have hrest := h.dropWhile (p := isPlainSpace) (by decide) (by decide)
    have hlength := List.length_dropWhile_le isPlainSpace s
    have hlength' := List.length_dropWhile_le isPlainSpace s'
    rcases hrest.first (c := '/') (by decide) with ⟨r, r', hs, hs', hr⟩ | ⟨hslash, hslash'⟩
    · rw [hs, List.length_cons] at hlength
      rw [hs', List.length_cons] at hlength'
      rcases hr.first (c := '/') (by decide) with ⟨t, t', rfl, rfl, ht⟩ | ⟨hline, hline'⟩
      · rw [List.length_cons] at hlength hlength'
        rw [passComments?_line hs, passComments?_line hs', ← ofLine_lineRest.eq ht]
        -- two characters go with each comment, so half as many rounds are enough
        refine ih _ ?_ ?_ (.here (ofLine_lineRest.drop lineRest_le ht (Nat.le_refl _)))
        · rw [List.length_drop]
          omega
        · rw [List.length_drop]
          omega
      rcases hr.first (c := '*') (by decide) with ⟨t, t', rfl, rfl, ht⟩ | ⟨hblock, hblock'⟩
      · rw [List.length_cons] at hlength hlength'
        obtain ⟨hafter, hbroken⟩ := AfterBreak.afterBlock (.here ht)
        have hle := length_afterBlock_le t
        have hle' := length_afterBlock_le t'
        rw [passComments?_block hs, passComments?_block hs', hafter.head?_eq]
        split
        · have hpair : Script.afterBlock t = ((Script.afterBlock t).1, (Script.afterBlock t').2) := by
            rw [← hbroken]
          rw [hpair]
          exact .some hafter
        · exact ih _ (by omega) (by omega) (.here hafter)
      · rw [passComments?_slash hline hblock hs, passComments?_slash hline' hblock' hs']
        exact .none
    · rw [passComments?_other hslash, passComments?_other hslash']
      exact .some hrest

/-- Where a comment begins, passing over it leaves less. -/
theorem length_lt_of_passComments? {all : Bool} {n : Nat} {rest : List Char} {broken : Bool}
    (h : passComments? all n s = some (rest, broken)) : rest.length ≤ s.length ∧
      (0 < n → ∀ r, s = '/' :: r → rest.length < s.length) := by
  induction n generalizing s with
  | zero =>
    obtain ⟨rfl, -⟩ := Prod.mk.inj (Option.some.inj h)
    exact ⟨Nat.le_refl _, fun hpos => absurd hpos (Nat.not_lt_zero _)⟩
  | succ n ih =>
    have hlength := List.length_dropWhile_le isPlainSpace s
    unfold passComments? at h
    split at h
    · next r hr =>
      have hle := (ih h).1
      rw [List.length_drop] at hle
      rw [hr, List.length_cons, List.length_cons] at hlength
      exact ⟨by omega, fun _ _ _ => by omega⟩
    · next r hr =>
      have hafter := length_afterBlock_le r
      rw [hr, List.length_cons, List.length_cons] at hlength
      dsimp only at h
      split at h
      · obtain ⟨rfl, -⟩ := Prod.mk.inj (Option.some.inj h)
        exact ⟨by omega, fun _ _ _ => by omega⟩
      · have hle := (ih h).1
        exact ⟨by omega, fun _ _ _ => by omega⟩
    · cases h
    · next hother =>
      obtain ⟨rfl, -⟩ := Prod.mk.inj (Option.some.inj h)
      refine ⟨hlength, fun _ r hr => ?_⟩
      subst hr
      exact absurd rfl (hother r)

/-! ## 2. Ends of statements

`continuing` is what `continues` decides by once comments have been passed over.
It looks at the first characters of a line only, at most at the ten of
`instanceof` and the one after them. -/

/-- Whether a text goes on with the statement before it. -/
def continuing (types operator : Bool) : List Char → Bool
  | [] => false
  | '.' :: r => types || !(r.head?.elim false Char.isDigit)
  | '+' :: r => r.head? != some '+'
  | '-' :: r => r.head? != some '-'
  | '!' :: r => r.head? == some '='
  | 'i' :: 'n' :: r =>
    !(r.head?.elim false Char.isAlpha)
      || ("stanceof".toList.isPrefixOf r && !((r.drop 8).head?.elim false Char.isAlpha))
  | c :: _ =>
    "`,:;*%><=?^|&/".toList.contains c || ((c == '(' || c == '[') && (operator || !types))

theorem continues_eq (s : List Char) : continues types operator s =
    match passComments? true (s.length + 1) s with
    | none => true
    | some (rest, _) => continuing types operator rest := rfl

theorem continuing_other {c : Char} {r : List Char} (hdot : c ≠ '.') (hplus : c ≠ '+')
    (hminus : c ≠ '-') (hnot : c ≠ '!') (hin : ∀ t, c = 'i' → r ≠ 'n' :: t) :
    continuing types operator (c :: r) = ("`,:;*%><=?^|&/".toList.contains c ||
      ((c == '(' || c == '[') && (operator || !types))) := by
  unfold continuing
  split <;> simp_all

/-- The same answer for both texts, by their first character. -/
theorem Indented.continuing (h : Indented kept s s') :
    continuing types operator s = continuing types operator s' := by
  cases s with
  | nil => rw [h.eq_nil]
  | cons c r =>
    obtain ⟨r', rfl, -, hindented⟩ := h.exists_cons
    by_cases hline : c = '\n'
    · subst hline
      have hin : ∀ u : List Char, ∀ t, '\n' = 'i' → u ≠ 'n' :: t := fun _ _ hc => nomatch hc
      rw [continuing_other (by decide) (by decide) (by decide) (by decide) (hin r),
        continuing_other (by decide) (by decide) (by decide) (by decide) (hin r')]
    have hr := hindented hline
    have hhead := hr.head?_eq
    by_cases hdot : c = '.'
    · subst hdot
      simp only [Script.continuing, hhead]
    by_cases hplus : c = '+'
    · subst hplus
      simp only [Script.continuing, hhead]
    by_cases hminus : c = '-'
    · subst hminus
      simp only [Script.continuing, hhead]
    by_cases hnot : c = '!'
    · subst hnot
      simp only [Script.continuing, hhead]
    rcases h.begins (p := ['i', 'n']) (by decide) with ⟨t, t', hs, hs', ht⟩ | ⟨hin, hin'⟩
    · simp only [List.cons_append, List.nil_append, List.cons.injEq] at hs hs'
      obtain ⟨rfl, rfl⟩ := hs
      obtain ⟨-, rfl⟩ := hs'
      have hprefix : "stanceof".toList.isPrefixOf t = "stanceof".toList.isPrefixOf t' :=
        (OfLine.isPrefixOf (by decide)).eq ht
      -- the character after the whole word `instanceof`
      have htail : "stanceof".toList.isPrefixOf t = true → (t.drop 8).head? = (t'.drop 8).head? := by
        intro hp
        obtain ⟨u, rfl⟩ := List.isPrefixOf_iff_prefix.mp hp
        obtain ⟨u', rfl, hu⟩ := ht.exists_append (by decide)
        exact hu.head?_eq
      simp only [Script.continuing, ht.head?_eq, ← hprefix]
      cases hp : "stanceof".toList.isPrefixOf t with
      | false => rfl
      | true => rw [htail hp]
    · rw [continuing_other hdot hplus hminus hnot fun t hc ht => hin t (by rw [hc, ht]; rfl),
        continuing_other hdot hplus hminus hnot fun t hc ht => hin' t (by rw [hc, ht]; rfl)]

theorem AfterBreak.continues (h : AfterBreak kept s s') :
    continues types operator s = continues types operator s' := by
  have hpass := h.passComments true (s.length + 1) (s'.length + 1) (by omega) (by omega)
  rw [continues_eq, continues_eq]
  generalize passComments? true (s.length + 1) s = o at hpass ⊢
  generalize passComments? true (s'.length + 1) s' = o' at hpass ⊢
  cases hpass with
  | none => rfl
  | some h => exact h.continuing

theorem endsWithin_other {n : Nat} {c : Char} {r : List Char} (hbrace : c ≠ '\x7d')
    (hslash : c ≠ '/') : endsWithin types operator (n + 1) (c :: r)
      = if c == '\n' || (!types && (c == '\u2028' || c == '\u2029')) then
        !continues types operator r
      else if isPlainSpace c then endsWithin types operator n r else false := by
  rw [endsWithin]
  · exact hbrace
  · exact hslash

/-- Whether the statement ends here, found in any two numbers of rounds that are enough. -/
theorem Indented.endsWithin (types operator : Bool) (n n' : Nat) (hn : s.length < n)
    (hn' : s'.length < n') (h : Indented kept s s') : endsWithin types operator n s = endsWithin types operator n' s' := by
  induction n generalizing n' s s' with
  | zero => exact absurd hn (Nat.not_lt_zero _)
  | succ n ih =>
    obtain ⟨n', rfl⟩ : ∃ k, n' = k + 1 := ⟨n' - 1, by omega⟩
    cases s with
    | nil => rw [h.eq_nil]; rfl
    | cons c r =>
      obtain ⟨r', rfl, hafter, hindented⟩ := h.exists_cons
      simp only [List.length_cons] at hn hn'
      -- a brace, a comment in JavaScript, a line break, or a blank before one of these
      by_cases hbrace : c = '\x7d'
      · subst hbrace
        have hdrop := AfterBreak.dropWhile (p := isPlainSpace) (by decide) (by decide) hafter
        simp only [Script.endsWithin, hdrop.head?_eq]
      by_cases hslash : c = '/'
      · subst hslash
        have hpass := (AfterBreak.here h).passComments false ('/' :: r).length
          ('/' :: r').length (by simp only [List.length_cons]; omega)
          (by simp only [List.length_cons]; omega)
        simp only [Script.endsWithin]
        cases types with
        | true => rfl
        | false =>
          simp only [Bool.false_eq_true, if_false]
          cases hs : passComments? false ('/' :: r).length ('/' :: r) with
          | none =>
            rw [hs] at hpass
            cases hs' : passComments? false ('/' :: r').length ('/' :: r') with
            | none => rfl
            | some p => rw [hs'] at hpass; cases hpass
          | some p =>
            rw [hs] at hpass
            cases hs' : passComments? false ('/' :: r').length ('/' :: r') with
            | none => rw [hs'] at hpass; cases hpass
            | some p' =>
              rw [hs'] at hpass
              cases hpass with
              | @some t t' broken ht =>
                -- the comment that begins here has been passed over, so fewer rounds are enough
                have hlt := (length_lt_of_passComments? hs).2 (Nat.succ_pos _) r rfl
                have hlt' := (length_lt_of_passComments? hs').2 (Nat.succ_pos _) r' rfl
                simp only [List.length_cons] at hlt hlt'
                dsimp only
                rw [ht.head?_eq, ih n' (by omega) (by omega) ht]
      rw [endsWithin_other hbrace hslash, endsWithin_other hbrace hslash, AfterBreak.continues hafter]
      by_cases hline : c = '\n'
      · subst hline
        rfl
      · rw [ih n' (by omega) (by omega) (hindented hline)]

/-- Either statements end in neither text, or in both, and what follows is indented likewise. -/
inductive SameEnding (kept : Nat) : Option (List Char) → Option (List Char) → Prop
  | none : SameEnding kept none none
  | some {s s' : List Char} (h : Indented kept s s') : SameEnding kept (some s) (some s')

theorem length_pos_of_commentLength {html : Bool} {n : Nat} (h : commentLength html s = n + 1) :
    0 < s.length := by
  cases s with
  | nil => cases h
  | cons c r => exact Nat.succ_pos _

/-- Where the statement ends: here, or after the next comment. -/
theorem Indented.endWithin {n n' : Nat} (hn : s.length < n) (hn' : s'.length < n')
    (h : Indented kept s s') :
    SameEnding kept (endWithin? d operator n s) (endWithin? d operator n' s') := by
  induction n generalizing n' s s' with
  | zero => exact absurd hn (Nat.not_lt_zero _)
  | succ n ih =>
    obtain ⟨n', rfl⟩ : ∃ k, n' = k + 1 := ⟨n' - 1, by omega⟩
    have hends := h.endsWithin d.types operator (s.length + 1) (s'.length + 1) (by omega) (by omega)
    have hdrop := AfterBreak.dropWhile (p := isSpace) (by decide) (by decide) (.here h)
    have hlength := List.length_dropWhile_le isSpace s
    have hlength' := List.length_dropWhile_le isSpace s'
    unfold endWithin?
    rw [hends]
    split
    · exact .some h
    · dsimp only
      rcases hdrop.comment false with ⟨hzero, hzero'⟩ | ⟨k, k', hk, hk', hrest⟩
      · rw [hzero, hzero']
        exact .none
      · have hpos := length_pos_of_commentLength hk
        have hpos' := length_pos_of_commentLength hk'
        rw [hk, hk']
        refine ih ?_ ?_ hrest
        · rw [List.length_drop]
          omega
        · rw [List.length_drop]
          omega

/-- Where a statement ends without a semicolon. -/
theorem Indented.ending (d : Dialect) (operator : Bool) (h : Indented kept s s') :
    SameEnding kept (end? d operator s) (end? d operator s') :=
  h.endWithin (Nat.lt_succ_self _) (Nat.lt_succ_self _)

theorem Indented.mayEnd (d : Dialect) (operator : Bool) (h : Indented kept s s') :
    mayEnd d operator s = mayEnd d operator s' := by
  have hending := h.ending d operator
  unfold Script.mayEnd
  generalize end? d operator s = o at hending ⊢
  generalize end? d operator s' = o' at hending ⊢
  cases hending with
  | none => rfl
  | some _ => rfl

end LocaleEditor.Script
