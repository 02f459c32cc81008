/-
LocaleEditor.Proofs.Script.Reading — what readers leave of a text.

`Yields p s Q` says that whatever `p` reads at `s` satisfies `Q`; it says
nothing where `p` is stuck. There is one rule for each way to build a reader.

`Shrinks p` says that `p` leaves no more text than it found, and `Advances p`
that it leaves less. Both are classes, so that a reader built from others gets
them by instance search. Only a reader that goes to another text needs a proof
of its own, and that proof follows the reader line by line with the rules.
-/
import LocaleEditor.Script.Grammar

namespace LocaleEditor.Script.Reader

variable {α β : Type} {s t : List Char} {n m : Nat}

/-! ## 1. Steps of readers -/

section Steps

variable {p q : Reader α} {f : α → Reader β} {a : α}

theorem bind_done (h : p s = .done a t) : (p >>= f) s = f a t := by
  simp only [bind, h]

theorem bind_stuck (h : p s = .stuck n) : (p >>= f) s = .stuck n := by
  simp only [bind, h]

theorem either_done (h : p s = .done a t) : (p <|> q) s = .done a t := by
  simp only [HOrElse.hOrElse, OrElse.orElse, either, h]

theorem either_of_stuck (hp : p s = .stuck n) (hq : q s = .done a t) :
    (p <|> q) s = .done a t := by
  simp only [HOrElse.hOrElse, OrElse.orElse, either, hp, hq]

theorem either_stuck (hp : p s = .stuck n) (hq : q s = .stuck m) :
    (p <|> q) s = .stuck (min n m) := by
  simp only [HOrElse.hOrElse, OrElse.orElse, either, hp, hq]

theorem option_stuck (h : p s = .stuck n) : Reader.option p s = .done none s := by
  simp only [Reader.option, h]

theorem extend_stuck {p : α → Reader α} (h : p a s = .stuck n) : extend p a s = .done a s := by
  simp only [extend, extendWithin, h]

/-- More rounds than characters are left make no difference. -/
theorem extendWithin_eq (p : α → Reader α) {n m : Nat} (a : α) (hn : s.length < n)
    (hm : s.length < m) : extendWithin p n a s = extendWithin p m a s := by
  induction n generalizing m a s with
  | zero => exact absurd hn (Nat.not_lt_zero _)
  | succ n ih =>
    obtain ⟨m, rfl⟩ := Nat.exists_eq_add_one.mpr (Nat.zero_lt_of_lt hm)
    simp only [extendWithin]
    cases p a s with
    | stuck k => rfl
    | done b t =>
      dsimp only
      split
      · exact ih b (by omega) (by omega)
      · rfl

theorem extend_done {p : α → Reader α} {b : α} (h : p a s = .done b t) (hlt : t.length < s.length) :
    extend p a s = extend p b t := by
  simp only [extend, extendWithin, h, hlt, if_true]
  exact extendWithin_eq p b hlt (Nat.lt_succ_self _)

end Steps

/-! ## 2. What a reader yields -/

/-- Whatever is read at `s`, and the text after it, satisfy `Q`. -/
def Yields (p : Reader α) (s : List Char) (Q : α → List Char → Prop) : Prop :=
  ∀ a rest, p s = .done a rest → Q a rest

/-- The reader leaves no more text than it found. -/
class Shrinks (p : Reader α) : Prop where
  le : ∀ s, p.Yields s fun _ rest => rest.length ≤ s.length

/-- The reader leaves less text than it found. -/
class Advances (p : Reader α) : Prop where
  lt : ∀ s, p.Yields s fun _ rest => rest.length < s.length

theorem Advances.shrinks {p : Reader α} (h : p.Advances) : p.Shrinks :=
  ⟨fun s a rest hr => Nat.le_of_lt (h.lt s a rest hr)⟩

namespace Yields

variable {p q : Reader α} {f : α → Reader β} {P Q : α → List Char → Prop}
  {R : β → List Char → Prop}

theorem mono (h : p.Yields s P) (hPQ : ∀ a rest, P a rest → Q a rest) : p.Yields s Q :=
  fun a rest hr => hPQ a rest (h a rest hr)

theorem pure {a : α} (h : Q a s) : Yields (Pure.pure a) s Q := by
  intro b rest hr
  obtain ⟨rfl, rfl⟩ := Outcome.done.inj hr
  exact h

theorem fail : Yields (Reader.fail : Reader α) s Q := by
  intro a rest hr
  cases hr

theorem bind (h : p.Yields s fun a rest => (f a).Yields rest R) : (p >>= f).Yields s R := by
  intro b rest hr
  cases hp : p s with
  | done a rest' => exact h a rest' hp b rest ((bind_done hp).symm.trans hr)
  | stuck m => cases (bind_stuck hp).symm.trans hr

/-- A first step of which it matters only that it leaves no more text than it found. -/
theorem after [Shrinks p] (h : ∀ a rest, rest.length ≤ s.length → (f a).Yields rest R) :
    (p >>= f).Yields s R :=
  .bind fun a rest hr => h a rest (Shrinks.le s a rest hr)

/-- A first step of which it matters only that it leaves less text than it found. -/
theorem afterAdvance [Advances p] (h : ∀ a rest, rest.length < s.length → (f a).Yields rest R) :
    (p >>= f).Yields s R :=
  .bind fun a rest hr => h a rest (Advances.lt s a rest hr)

/-- A last step of which it matters only that it leaves no more text than it found. -/
theorem leaves [Shrinks p] (h : s.length ≤ n) : p.Yields s fun _ rest => rest.length ≤ n :=
  fun a rest hr => Nat.le_trans (Shrinks.le s a rest hr) h

theorem left {f : List Char → Reader β} (h : (f s).Yields s R) :
    (Reader.left >>= f).Yields s R := h

theorem goTo {Q : Unit → List Char → Prop} (h : Q () t) : (Reader.goTo t).Yields s Q := by
  intro u rest hr
  obtain ⟨rfl, rfl⟩ := Outcome.done.inj hr
  exact h

theorem either (hp : p.Yields s Q) (hq : q.Yields s Q) : (p <|> q).Yields s Q := by
  intro a rest hr
  cases hps : p s with
  | done b rest' => exact hp a rest (hps.trans ((either_done hps).symm.trans hr))
  | stuck n =>
    cases hqs : q s with
    | done b rest' => exact hq a rest (hqs.trans ((either_of_stuck hps hqs).symm.trans hr))
    | stuck m => cases (either_stuck hps hqs).symm.trans hr

theorem ite {c : Prop} {_ : Decidable c} (hp : p.Yields s Q) (hq : q.Yields s Q) :
    (if c then p else q).Yields s Q := by
  split <;> assumption

theorem option {Q : Option α → List Char → Prop} (hp : p.Yields s fun a rest => Q (some a) rest)
    (hnone : Q none s) : (Reader.option p).Yields s Q := by
  intro o rest hr
  unfold Reader.option at hr
  cases hps : p s with
  | done a rest' =>
    rw [hps] at hr
    obtain ⟨rfl, rfl⟩ := Outcome.done.inj hr
    exact hp a rest' hps
  | stuck m =>
    rw [hps] at hr
    obtain ⟨rfl, rfl⟩ := Outcome.done.inj hr
    exact hnone

/-- What is seen is not read. -/
theorem sees {Q : Bool → List Char → Prop} (h : ∀ b, Q b s) : (Reader.sees p).Yields s Q := by
  intro b rest hr
  unfold Reader.sees at hr
  cases hps : p s <;> rw [hps] at hr <;> obtain ⟨rfl, rfl⟩ := Outcome.done.inj hr <;> exact h _

/-- What holds of a value and is kept by every change holds in the end. -/
theorem extend {p : α → Reader α} {a : α} (ha : Q a s)
    (hp : ∀ a s, Q a s → (p a).Yields s Q) : (Reader.extend p a).Yields s Q := by
  have within : ∀ n a s, Q a s → (extendWithin p n a).Yields s Q := by
    intro n
    induction n with
    | zero => exact fun a s ha => .pure ha
    | succ n ih =>
      intro a s ha b rest hr
      unfold extendWithin at hr
      cases hps : p a s with
      | stuck m =>
        rw [hps] at hr
        obtain ⟨rfl, rfl⟩ := Outcome.done.inj hr
        exact ha
      | done a' rest' =>
        simp only [hps] at hr
        split at hr
        · exact ih a' rest' (hp a s ha a' rest' hps) b rest hr
        · obtain ⟨rfl, rfl⟩ := Outcome.done.inj hr
          exact ha
  exact fun b rest hr => within (s.length + 1) a s ha b rest hr

end Yields

/-- What was read in one of two ways. -/
theorem done_of_ite {c : Prop} {_ : Decidable c} {o o' : Outcome α} {a : α} {rest : List Char}
    {P : Prop} (h : (if c then o else o') = .done a rest) (hc : o = .done a rest → P)
    (hn : o' = .done a rest → P) : P := by
  split at h
  · exact hc h
  · exact hn h

/-! ## 3. Readers from readers -/

instance {a : α} : Shrinks (pure a) := ⟨fun _ => .pure (Nat.le_refl _)⟩

instance : Shrinks (fail : Reader α) := ⟨fun _ => .fail⟩

instance : Advances (fail : Reader α) := ⟨fun _ => .fail⟩

instance {p : Reader α} {f : α → Reader β} [Shrinks p] [∀ a, Shrinks (f a)] : Shrinks (p >>= f) :=
  ⟨fun _ => .after fun _ _ hr => .leaves hr⟩

instance {p : Reader α} {f : α → Reader β} [Advances p] [∀ a, Shrinks (f a)] :
    Advances (p >>= f) :=
  ⟨fun _ => .afterAdvance fun _ _ hr => .mono (.leaves (Nat.le_refl _)) fun _ _ h =>
    Nat.lt_of_le_of_lt h hr⟩

instance {p : Reader α} {f : α → Reader β} [Shrinks p] [∀ a, Advances (f a)] :
    Advances (p >>= f) :=
  ⟨fun _ => .after fun _ _ hr => .mono (Advances.lt _) fun _ _ h => Nat.lt_of_lt_of_le h hr⟩

instance {p : Reader α} {q : Unit → Reader α} [Shrinks p] [∀ u, Shrinks (q u)] :
    Shrinks (HOrElse.hOrElse p q) :=
  ⟨fun s => .either (Shrinks.le s) (Shrinks.le s)⟩

instance {p : Reader α} {q : Unit → Reader α} [Advances p] [∀ u, Advances (q u)] :
    Advances (HOrElse.hOrElse p q) :=
  ⟨fun s => .either (Advances.lt s) (Advances.lt s)⟩

instance {c : Prop} {_ : Decidable c} {p q : Reader α} [Shrinks p] [Shrinks q] :
    Shrinks (if c then p else q) := by
  split <;> assumption

instance {c : Prop} {_ : Decidable c} {p q : Reader α} [Advances p] [Advances q] :
    Advances (if c then p else q) := by
  split <;> assumption

instance {p : Reader α} [Shrinks p] : Shrinks (option p) :=
  ⟨fun s => .option (Shrinks.le s) (Nat.le_refl _)⟩

instance : Shrinks left :=
  ⟨fun s => Yields.left (R := fun _ rest => rest.length ≤ s.length) (.pure (Nat.le_refl _))⟩

instance {p : Reader α} : Shrinks (sees p) :=
  ⟨fun _ => .sees fun _ => Nat.le_refl _⟩

instance {p : α → Reader α} {a : α} [∀ a, Shrinks (p a)] : Shrinks (extend p a) :=
  ⟨fun s => .extend (Nat.le_refl s.length) fun _ _ h => .leaves h⟩

end LocaleEditor.Script.Reader
