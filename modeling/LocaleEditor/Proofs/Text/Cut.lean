/-
LocaleEditor.Proofs.Text.Cut — texts cut into pieces.

A `Cut` is a text cut at some spans: before each span there is some text, then
the text in it, and after the last one the rest. Its spans are counted in bytes
from the pieces, so they are in order, apart from each other and between
characters by the way they are made; `Cut.fill` puts new texts in their place and
leaves all else where it was.
-/
import LocaleEditor.Text.Span

namespace LocaleEditor.Text

/-! ## 1. Bytes -/

theorem byteLength_append (a b : List Char) : byteLength (a ++ b) = byteLength a + byteLength b := by
  induction a with
  | nil => rw [List.nil_append, byteLength, Nat.zero_add]
  | cons c r ih => rw [List.cons_append, byteLength, byteLength, ih, Nat.add_assoc]

theorem byteLength_pos {s : List Char} (h : s ≠ []) : 0 < byteLength s := by
  cases s with
  | nil => exact absurd rfl h
  | cons c r => exact Nat.add_pos_left c.utf8Size_pos _

/-- A text is cut where one of its parts ends. -/
theorem splitBytes?_append (a b : List Char) : splitBytes? (byteLength a) (a ++ b) = some (a, b) := by
  induction a with
  | nil => rw [byteLength, List.nil_append, splitBytes?]
  | cons c r ih =>
    obtain ⟨n, hn⟩ : ∃ n, byteLength (c :: r) = n + 1 :=
      Nat.exists_eq_add_one.mpr (byteLength_pos (List.cons_ne_nil c r))
    have hsize : c.utf8Size + byteLength r = n + 1 := hn
    have hrest : n + 1 - c.utf8Size = byteLength r := by omega
    rw [hn, List.cons_append, splitBytes?, if_pos (by omega), hrest, ih]
    rfl

/-! ## 2. Cuts -/

/-- A text cut at some spans. -/
structure Cut where
  /-- The text before each span, since the one before, and the text in it. -/
  pieces : List (List Char × List Char)
  /-- The text after the last span. -/
  rest : List Char

/-- The spans of some pieces, of which the first begins at `start`. -/
def spansFrom (start : Nat) : List (List Char × List Char) → List Span
  | [] => []
  | (before, inside) :: ps =>
    let first := start + byteLength before
    ⟨first, first + byteLength inside⟩ :: spansFrom (first + byteLength inside) ps

namespace Cut

/-- The text that was cut. -/
def text (c : Cut) : List Char := (c.pieces.flatMap fun p => p.1 ++ p.2) ++ c.rest

/-- The texts in the spans. -/
def inside (c : Cut) : List (List Char) := c.pieces.map (·.2)

/-- The spans, in bytes of the text. -/
def spans (c : Cut) : List Span := spansFrom 0 c.pieces

/-- The text with other texts in the spans. -/
def fill (c : Cut) (texts : List (List Char)) : List Char :=
  (List.zipWith (fun p new => p.1 ++ new) c.pieces texts).flatten ++ c.rest

end Cut

/-! ## 3. The spans of a cut -/

theorem le_of_mem_spansFrom {start : Nat} {ps : List (List Char × List Char)} {span : Span}
    (h : span ∈ spansFrom start ps) : start ≤ span.start := by
  induction ps generalizing start with
  | nil => cases h
  | cons p ps ih =>
    rcases List.mem_cons.mp h with rfl | h
    · exact Nat.le_add_right _ _
    · have hstart := ih h
      omega

/-- Each span ends before the next one begins. -/
theorem spansFrom_pairwise (start : Nat) (ps : List (List Char × List Char)) :
    (spansFrom start ps).Pairwise fun a b => a.stop ≤ b.start := by
  induction ps generalizing start with
  | nil => exact List.Pairwise.nil
  | cons p ps ih => exact List.pairwise_cons.mpr ⟨fun b hb => le_of_mem_spansFrom hb, ih _⟩

/-- Each span is cut out of the text between two characters. -/
theorem slice?_of_mem_spansFrom {start : Nat} {ps : List (List Char × List Char)} {span : Span}
    (rest : List Char) (h : span ∈ spansFrom start ps) : ∃ before, ∃ p ∈ ps, ∃ after,
      (ps.flatMap fun p => p.1 ++ p.2) ++ rest = before ++ p.2 ++ after ∧
      span = ⟨start + byteLength before, start + byteLength before + byteLength p.2⟩ := by
  induction ps generalizing start with
  | nil => cases h
  | cons p ps ih =>
    rcases List.mem_cons.mp h with rfl | h
    · refine ⟨p.1, p, List.mem_cons_self, (ps.flatMap fun p => p.1 ++ p.2) ++ rest, ?_, rfl⟩
      simp
    · obtain ⟨before, q, hq, after, htext, rfl⟩ := ih h
      refine ⟨p.1 ++ p.2 ++ before, q, List.mem_cons_of_mem _ hq, after, ?_, ?_⟩
      · rw [List.flatMap_cons, List.append_assoc (p.1 ++ p.2), htext]
        simp
      · rw [byteLength_append, byteLength_append]
        simp only [Nat.add_assoc]

namespace Cut

theorem spans_pairwise (c : Cut) : c.spans.Pairwise fun a b => a.stop ≤ b.start :=
  spansFrom_pairwise 0 c.pieces

/-- Each span of a cut is in bounds and can be cut out of the text. -/
theorem slice?_text {c : Cut} {span : Span} (h : span ∈ c.spans) :
    ∃ p ∈ c.pieces, span.slice? c.text = some p.2 ∧
      span.stop = span.start + byteLength p.2 ∧ span.stop ≤ byteLength c.text := by
  obtain ⟨before, p, hp, after, htext, rfl⟩ := slice?_of_mem_spansFrom c.rest h
  have htext : c.text = before ++ (p.2 ++ after) := by rw [text, htext, List.append_assoc]
  refine ⟨p, hp, ?_, rfl, ?_⟩
  · rw [htext]
    simp [Span.slice?, splitBytes?_append]
  · rw [htext, byteLength_append, byteLength_append]
    dsimp only
    omega

end Cut

end LocaleEditor.Text
