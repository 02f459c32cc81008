/-
LocaleEditor.Proofs.Script.Steady — readers that do not see how lines are indented.

`Steady kept p p'` says that `p` on a text and `p'` on the same text, further
indented, are both stuck or both read something, and what is left is indented
likewise. What they read need not be the same, because it may tell how much text
was left; but where reading goes on differently for different results, these
have to agree (`Alike`).

## Why it is a class

There are over a hundred readers in the grammar, and most of them are steady for
no other reason than that they are put together from others. So there is an
instance for each way to put readers together (§3), for each kind of punctuation
(§4) and for lists (§5), and instance search does the rest. Two texts, or two
results, that are compared are handed on as one thing (`Twin`, `Pair`), so that
instance search can carry what is known of them under a binder.

## What has to agree

Whatever is looked at before reading goes on has to be the same in both texts:

* the results that decide something (`Compared`, `Alike`), which are words, the
  answers to questions, whether a value may be assigned to, and whether a
  statement has a label;
* what is asked about the text itself (`Same`), which is its next character or
  word, whether a sign comes next, and whether a statement may end.

Everything else in a result, above all its places in the text, may differ.
-/
import LocaleEditor.Proofs.Script.Reading
import LocaleEditor.Proofs.Script.Shrinking
import LocaleEditor.Proofs.Script.IndentedEnds
import Mathlib.Data.List.Forall2

namespace LocaleEditor.Script

open LocaleEditor.Text

-- the size that instance search counts doubles with each step of a reader
set_option synthInstance.maxSize 1000000

variable {kept : Nat} {s s' : List Char} {α β : Type}

/-! ## 1. Results that agree

`Compared` gives the relation for each type of results, and `Alike` states it of
two results as an instance. Unless a type is named here, its results decide
nothing, and any two of them are alike. -/

/-- What two results have in common when reading goes on alike after them. -/
class Compared (α : Type) where
  alike : α → α → Prop

/-- Most results decide nothing. -/
instance (priority := low) : Compared α := ⟨fun _ _ => True⟩

instance : Compared Bool := ⟨Eq⟩

instance : Compared String := ⟨Eq⟩

/-- Whether a sign or word is there. -/
instance : Compared (Option Unit) := ⟨Eq⟩

instance [Compared α] : Compared (List α) := ⟨List.Forall₂ Compared.alike⟩

instance [Compared α] [Compared β] : Compared (α × β) :=
  ⟨fun a b => Compared.alike a.1 b.1 ∧ Compared.alike a.2 b.2⟩

/-- The text of a piece may have line breaks in it. -/
instance : Compared (List Char) := ⟨fun _ _ => True⟩

/-- Only something that could be assigned to may be followed by an assignment. -/
instance : Compared Value := ⟨fun v v' => v.target = v'.target⟩

/-- A block that begins with a label may be an object. -/
instance : Compared Statement := ⟨fun a a' => a.isLabelled = a'.isLabelled⟩

/-- Reading goes on alike after the two results. -/
class Alike [Compared α] (a a' : α) : Prop where
  alike : Compared.alike a a'

/-- Two results after which reading goes on alike. -/
structure Pair (α : Type) [Compared α] where
  left : α
  right : α
  alike : Compared.alike left right

/-- A text, and the same text further indented. -/
structure Twin (kept : Nat) where
  left : List Char
  right : List Char
  indented : Indented kept left right

/-! Results that are put together from parts are alike if the parts are. -/

instance [Compared α] {t : Pair α} : Alike t.left t.right := ⟨t.alike⟩

instance {t : Twin kept} : Indented kept t.left t.right := t.indented

instance (priority := low) {a a' : α} : Alike a a' := ⟨trivial⟩

instance {w : String} : Alike w w := ⟨rfl⟩

instance {x x' : List Char} : Alike x x' := ⟨trivial⟩

instance [Compared α] : Alike ([] : List α) [] := ⟨.nil⟩

instance [Compared α] {a a' : α} {as as' : List α} [h : Alike a a'] [hs : Alike as as'] :
    Alike (a :: as) (a' :: as') := ⟨.cons h.alike hs.alike⟩

instance [Compared α] {as as' bs bs' : List α} [h : Alike as as'] [hs : Alike bs bs'] :
    Alike (as ++ bs) (as' ++ bs') := ⟨List.rel_append h.alike hs.alike⟩

instance [Compared α] [Compared β] {a a' : α} {b b' : β} [h : Alike a a'] [hb : Alike b b'] :
    Alike (a, b) (a', b') := ⟨⟨h.alike, hb.alike⟩⟩

instance {start start' : Nat} {core core' : Expr} {extent extent' : Extent}
    {bare bare' target : Bool} :
    Alike (⟨start, core, extent, bare, target⟩ : Value)
      ⟨start', core', extent', bare', target⟩ := ⟨rfl⟩

instance {start start' : Nat} {rest rest' : List Char} {target : Bool} :
    Alike (Value.plain start rest target) (Value.plain start' rest' target) := ⟨rfl⟩

instance {start start' : Nat} {core core' : Expr} {rest rest' : List Char} {target : Bool} :
    Alike (Value.whole start core rest target) (Value.whole start' core' rest' target) := ⟨rfl⟩

instance {a : Statement} : Alike a a := ⟨rfl⟩

instance {v v' : Value} : Alike (Statement.exportDefault v) (.exportDefault v') := ⟨rfl⟩

/-! ## 2. Questions about the text

What comes next is the same in both texts. `Same` is equality as a class, so that
a condition is followed through the connectives down to what is asked of the text
or of a result. -/

/-- Two expressions that are equal. -/
class Same {α : Sort*} (a a' : α) : Prop where
  eq : a = a'

instance {α : Sort*} {a : α} : Same a a := ⟨rfl⟩

section Questions

variable {a a' b b' : Bool} {w : String} {c : Char} {t : List Char} {o o' : Option Char}

instance [h : Same a a'] [hb : Same b b'] : Same (a || b) (a' || b') := ⟨by rw [h.eq, hb.eq]⟩

instance [h : Same a a'] [hb : Same b b'] : Same (a && b) (a' && b') := ⟨by rw [h.eq, hb.eq]⟩

instance [h : Same a a'] : Same (!a) (!a') := ⟨by rw [h.eq]⟩

instance [h : Same a a'] : Same (a = true) (a' = true) := ⟨by rw [h.eq]⟩

instance {p p' : Prop} {_ : Decidable p} {_ : Decidable p'} [h : Same p p'] :
    Same (decide p) (decide p') := ⟨by simp only [h.eq]⟩

instance {x x' y : α} [h : Same x x'] : Same (x = y) (x' = y) := ⟨by rw [h.eq]⟩

instance [BEq α] {x x' y : α} [h : Same x x'] : Same (x == y) (x' == y) := ⟨by rw [h.eq]⟩

instance [BEq α] {x x' y : α} [h : Same x x'] : Same (x != y) (x' != y) := ⟨by rw [h.eq]⟩

instance {ws : List String} {x x' : String} [h : Same x x'] :
    Same (ws.contains x) (ws.contains x') := ⟨by rw [h.eq]⟩

instance {d : Dialect} {x x' : String} [h : Same x x'] : Same (isName d x) (isName d x') :=
  ⟨by rw [h.eq]⟩

instance {f : Char → Bool} [h : Same o o'] : Same (o.elim b f) (o'.elim b f) := ⟨by rw [h.eq]⟩

variable [h : Indented kept s s']
include h

instance {html : Bool} : Indented kept (trivia html s) (trivia html s') :=
  (h.trivia html).indented

instance : Same s.head? s'.head? := ⟨h.head?_eq⟩

instance : Same (wordLength s) (wordLength s') := ⟨ofLine_wordLength.eq h⟩

instance : Indented kept (s.drop (wordLength s)) (s'.drop (wordLength s')) := by
  rw [← ofLine_wordLength.eq h]
  exact ofLine_wordLength.drop wordLength_le h (Nat.le_refl _)

instance : Same (nextChar s) (nextChar s') := ⟨(h.trivia false).indented.head?_eq⟩

instance : Same (nextWord s) (nextWord s') :=
  ⟨congrArg String.ofList (ofLine_wordLength.take wordLength_le (h.trivia true).indented)⟩

/-- For every sign that is looked for. -/
theorem same_startsWith (ht : '\n' ∉ t) : startsWith t s = startsWith t s' :=
  (OfLine.isPrefixOf ht).eq (h.trivia false).indented

instance : Same (startsWith ['.', '.', '.'] s) (startsWith ['.', '.', '.'] s') :=
  ⟨same_startsWith (by decide)⟩

instance : Same (startsWith ['=', '>'] s) (startsWith ['=', '>'] s') :=
  ⟨same_startsWith (by decide)⟩

instance : Same (startsWith [c] s) (startsWith [c] s') := by
  have hfront := h.trivia false
  unfold startsWith
  generalize trivia false s = x at hfront ⊢
  generalize trivia false s' = x' at hfront ⊢
  cases hfront <;> exact ⟨rfl⟩

instance {d : Dialect} {operator : Bool} : Same (mayEnd d operator s) (mayEnd d operator s') :=
  ⟨h.mayEnd d operator⟩

end Questions

instance [Compared α] {as as' : List α} [h : Alike as as'] : Same as.isEmpty as'.isEmpty :=
  ⟨by cases h.alike <;> rfl⟩

instance {v v' : Value} [h : Alike v v'] : Same v.target v'.target := ⟨h.alike⟩

instance {as as' : List Statement} [h : Alike as as'] :
    Same (as.head?.elim false Statement.isLabelled) (as'.head?.elim false Statement.isLabelled) :=
  ⟨by
    cases h.alike with
    | nil => rfl
    | cons ha _ => exact ha⟩

instance {b b' : Bool} [h : Same b b'] : Alike b b' := ⟨h.eq⟩

/-! ## 3. Readers from readers

Either both readers fail or neither does, so trying one after the other gives
the same choice in both texts, and so does asking whether one of them would read
something. -/

/-- Both readers are stuck, or both leave texts of which one is further indented. -/
inductive Outcome.Alike [Compared α] (kept : Nat) : Outcome α → Outcome α → Prop
  | done {a a' : α} {r r' : List Char} (ha : Compared.alike a a') (hr : Indented kept r r') :
      Outcome.Alike kept (.done a r) (.done a' r')
  | stuck {n n' : Nat} : Outcome.Alike kept (.stuck n) (.stuck n')

theorem Outcome.Alike.ite [Compared α] {c : Prop} {_ : Decidable c} {o o' u u' : Outcome α}
    (ho : o.Alike kept o') (hu : u.Alike kept u') :
    (if c then o else u).Alike kept (if c then o' else u') := by
  split <;> assumption

/-- The second reader does on a text that is further indented what the first one does. -/
class Steady [Compared α] (kept : Nat) (p p' : Reader α) : Prop where
  alike : ∀ {s s'}, Indented kept s s' → (p s).Alike kept (p' s')

namespace Steady

open Reader

variable [Compared α] [Compared β] {p p' q q' : Reader α} {f f' : α → Reader β}

/-- By what the first readers do. -/
theorem cases (p p' : Reader α) [h : Steady kept p p'] (hs : Indented kept s s') :
    (∃ n n', p s = .stuck n ∧ p' s' = .stuck n') ∨
    ∃ a a' r r', p s = .done a r ∧ p' s' = .done a' r' ∧ Compared.alike a a' ∧ Indented kept r r' := by
  have halike := h.alike hs
  generalize p s = o at halike
  generalize p' s' = o' at halike
  cases halike with
  | done ha hr => exact .inr ⟨_, _, _, _, rfl, rfl, ha, hr⟩
  | stuck => exact .inl ⟨_, _, rfl, rfl⟩

/-- One reader on both texts. -/
theorem self (p : Reader α) [h : Steady kept p p] (hs : Indented kept s s') :
    (p s).Alike kept (p s') := h.alike hs

instance {a a' : α} [h : Alike a a'] : Steady kept (pure a) (pure a') :=
  ⟨fun hs => .done h.alike hs⟩

instance : Steady kept (fail : Reader α) fail := ⟨fun _ => .stuck⟩

/-- One reader after another, which may depend on what the first one has read. -/
theorem bind [Steady kept p p'] (h : ∀ a a', Compared.alike a a' → Steady kept (f a) (f' a')) :
    Steady kept (p >>= f) (p' >>= f') := ⟨fun {s s'} hs => by
  rcases cases p p' hs with ⟨n, n', hp, hp'⟩ | ⟨a, a', r, r', hp, hp', ha, hr⟩
  · rw [bind_stuck hp, bind_stuck hp']
    exact .stuck
  · rw [bind_done hp, bind_done hp']
    exact (h a a' ha).alike hr⟩

instance [Steady kept p p'] [h : ∀ t : Pair α, Steady kept (f t.left) (f' t.right)] :
    Steady kept (p >>= f) (p' >>= f') := bind fun a a' ha => h ⟨a, a', ha⟩

/-- After words that are the same. -/
instance (priority := high) {p p' : Reader String} {f f' : String → Reader β} [Steady kept p p']
    [h : ∀ w, Steady kept (f w) (f' w)] : Steady kept (p >>= f) (p' >>= f') :=
  bind fun w w' (hw : w = w') => hw ▸ h w

instance (priority := high) {p p' : Reader Bool} {f f' : Bool → Reader β} [Steady kept p p']
    [h : ∀ b, Steady kept (f b) (f' b)] : Steady kept (p >>= f) (p' >>= f') :=
  bind fun b b' (hb : b = b') => hb ▸ h b

/-- After a piece that may be missing, there are two ways to go on. -/
instance (priority := high) {p p' : Reader (Option Unit)} {f f' : Option Unit → Reader β}
    [Steady kept p p'] [hnone : Steady kept (f none) (f' none)]
    [hsome : Steady kept (f (some ())) (f' (some ()))] : Steady kept (p >>= f) (p' >>= f') :=
  bind fun o o' (ho : o = o') => by
    subst ho
    cases o with
    | none => exact hnone
    | some _ => exact hsome

/-- After a look at the text that is left. -/
theorem left {f f' : List Char → Reader β}
    (h : ∀ s s', Indented kept s s' → Steady kept (f s) (f' s')) :
    Steady kept (Reader.left >>= f) (Reader.left >>= f') := ⟨fun {s s'} hs => (h s s' hs).alike hs⟩

instance (priority := high) {f f' : List Char → Reader β}
    [h : ∀ t : Twin kept, Steady kept (f t.left) (f' t.right)] :
    Steady kept (Reader.left >>= f) (Reader.left >>= f') := left fun s s' hs => h ⟨s, s', hs⟩

instance [h : Indented kept s s'] : Steady kept (goTo s) (goTo s') := ⟨fun _ => .done trivial h⟩

theorem orElse {q q' : Unit → Reader α} [Steady kept p p'] [h : ∀ u, Steady kept (q u) (q' u)] :
    Steady kept (HOrElse.hOrElse p q) (HOrElse.hOrElse p' q') := ⟨fun {s s'} hs => by
  rcases cases p p' hs with ⟨n, n', hp, hp'⟩ | ⟨a, a', r, r', hp, hp', ha, hr⟩
  · rcases cases (q ()) (q' ()) hs with ⟨m, m', hq, hq'⟩ | ⟨a, a', r, r', hq, hq', ha, hr⟩
    · have hboth := either_stuck (p := p) (q := q ()) hp hq
      have hboth' := either_stuck (p := p') (q := q' ()) hp' hq'
      exact hboth ▸ hboth' ▸ .stuck
    · have hboth := either_of_stuck (p := p) (q := q ()) hp hq
      have hboth' := either_of_stuck (p := p') (q := q' ()) hp' hq'
      exact hboth ▸ hboth' ▸ .done ha hr
  · have hboth := either_done (p := p) (q := q ()) hp
    have hboth' := either_done (p := p') (q := q' ()) hp'
    exact hboth ▸ hboth' ▸ .done ha hr⟩

instance {q q' : Unit → Reader α} [Steady kept p p'] [∀ u, Steady kept (q u) (q' u)] :
    Steady kept (HOrElse.hOrElse p q) (HOrElse.hOrElse p' q') := orElse

instance [Steady kept p p'] [Steady kept q q'] :
    Steady kept (either p q) (either p' q') :=
  inferInstanceAs (Steady kept (p <|> q) (p' <|> q'))

/-- The same branch is taken. -/
theorem ite {c c' : Prop} {_ : Decidable c} {_ : Decidable c'} [h : Same c c']
    (hp : Steady kept p p') (hq : Steady kept q q') :
    Steady kept (if c then p else q) (if c' then p' else q') := by
  have hiff : c ↔ c' := iff_of_eq h.eq
  by_cases hc : c
  · rw [if_pos hc, if_pos (hiff.mp hc)]
    exact hp
  · rw [if_neg hc, if_neg fun hc' => hc (hiff.mpr hc')]
    exact hq

instance {c c' : Prop} {_ : Decidable c} {_ : Decidable c'} [Same c c'] [hp : Steady kept p p']
    [hq : Steady kept q q'] : Steady kept (if c then p else q) (if c' then p' else q') := ite hp hq

instance [Steady kept p p'] : Steady kept (option p) (option p') := ⟨fun {s s'} hs => by
  unfold option
  rcases cases p p' hs with ⟨n, n', hp, hp'⟩ | ⟨a, a', r, r', hp, hp', ha, hr⟩
  · rw [hp, hp']
    exact .done trivial hs
  · rw [hp, hp']
    exact .done trivial hr⟩

instance {p p' : Reader Unit} [Steady kept p p'] : Steady kept (option p) (option p') :=
  ⟨fun {s s'} hs => by
    unfold option
    rcases cases p p' hs with ⟨n, n', hp, hp'⟩ | ⟨a, a', r, r', hp, hp', ha, hr⟩
    · rw [hp, hp']
      exact .done rfl hs
    · rw [hp, hp']
      exact .done rfl hr⟩

instance [Steady kept p p'] : Steady kept (sees p) (sees p') := ⟨fun {s s'} hs => by
  unfold sees
  rcases cases p p' hs with ⟨n, n', hp, hp'⟩ | ⟨a, a', r, r', hp, hp', ha, hr⟩
  · rw [hp, hp']
    exact .done rfl hs
  · rw [hp, hp']
    exact .done rfl hs⟩

/-! A reader that is repeated reads something in each round, so in both texts there are rounds
enough. -/

instance {stop stop' : List Char → Bool} [Advances p] [Advances p'] [Steady kept p p']
    [h : ∀ t : Twin kept, Same (stop t.left) (stop' t.right)] :
    Steady kept (repeatUntil stop p) (repeatUntil stop' p') := by
  -- the second text may be longer, so its number of rounds is another one
  have within : ∀ n n' s s', s.length < n → s'.length < n' → Indented kept s s' →
      (repeatWithin stop p n s).Alike kept (repeatWithin stop' p' n' s') := by
    intro n
    induction n with
    | zero => exact fun n' s s' hn => absurd hn (Nat.not_lt_zero _)
    | succ n ih =>
      intro n' s s' hn hn' hs
      obtain ⟨n', rfl⟩ : ∃ k, n' = k + 1 := ⟨n' - 1, by omega⟩
      unfold repeatWithin
      rw [(h ⟨s, s', hs⟩).eq]
      split
      · exact .done .nil hs
      rcases cases p p' hs with ⟨n, n', hp, hp'⟩ | ⟨a, a', r, r', hp, hp', ha, hr⟩
      · rw [hp, hp']
        exact .stuck
      · have hlt := Advances.lt s _ _ hp
        have hlt' := Advances.lt s' _ _ hp'
        have hrest := ih n' r r' (by omega) (by omega) hr
        rw [hp, hp']
        dsimp only
        generalize repeatWithin stop p n r = o at hrest ⊢
        generalize repeatWithin stop' p' n' r' = o' at hrest ⊢
        cases hrest with
        | stuck => exact .stuck
        | done has hr => exact .done (.cons ha has) hr
  exact ⟨fun {s s'} hs => within _ _ s s' (Nat.lt_succ_self _) (Nat.lt_succ_self _) hs⟩

instance {p p' : α → Reader α} {a a' : α} [∀ a, Advances (p a)] [∀ a, Advances (p' a)]
    [h : ∀ t : Pair α, Steady kept (p t.left) (p' t.right)] [ha : Alike a a'] :
    Steady kept (extend p a) (extend p' a') := by
  have within : ∀ n n' a a' s s', s.length < n → s'.length < n' → Compared.alike a a' →
      Indented kept s s' → (extendWithin p n a s).Alike kept (extendWithin p' n' a' s') := by
    intro n
    induction n with
    | zero => exact fun n' a a' s s' hn => absurd hn (Nat.not_lt_zero _)
    | succ n ih =>
      intro n' a a' s s' hn hn' ha hs
      obtain ⟨n', rfl⟩ : ∃ k, n' = k + 1 := ⟨n' - 1, by omega⟩
      unfold extendWithin
      -- what has been read so far decides what may be added to it
      have := h ⟨a, a', ha⟩
      rcases cases (p a) (p' a') hs with ⟨n, n', hp, hp'⟩ | ⟨b, b', r, r', hp, hp', hb, hr⟩
      · rw [hp, hp']
        exact .done ha hs
      · have hlt := Advances.lt s _ _ hp
        have hlt' := Advances.lt s' _ _ hp'
        rw [hp, hp']
        dsimp only
        rw [if_pos hlt, if_pos hlt']
        exact ih n' b b' r r' (by omega) (by omega) hb hr
  exact ⟨fun {s s'} hs =>
    within _ _ a a' s s' (Nat.lt_succ_self _) (Nat.lt_succ_self _) ha.alike hs⟩

/-! ## 4. Punctuation and words

After white space and comments both texts begin with the same character, if they
do not end there (`SameFront`). A sign or a word lies on one line. -/

instance : Steady kept gap gap := ⟨fun hs => .done trivial (hs.trivia false).indented⟩

instance : Steady kept gapBefore gapBefore :=
  ⟨fun hs => .done trivial (hs.trivia true).indented⟩

/-- What both texts begin with is left out of both. -/
theorem dropPrefix {t : List Char} (ht : '\n' ∉ t) (hs : Indented kept s s')
    (hp : t.isPrefixOf s = true) : Indented kept (s.drop t.length) (s'.drop t.length) := by
  obtain ⟨x, rfl⟩ := List.isPrefixOf_iff_prefix.mp hp
  obtain ⟨x', rfl, hx⟩ := hs.exists_append ht
  rw [List.drop_left, List.drop_left]
  exact hx

/-- After white space what comes next is no white space. -/
theorem afterGap {f f' : List Char → Reader β}
    (h : ∀ s s', SameFront kept s s' → Steady kept (f s) (f' s')) :
    Steady kept (gapBefore >>= fun _ => Reader.left >>= f)
      (gapBefore >>= fun _ => Reader.left >>= f') :=
  ⟨fun hs => (h _ _ (hs.trivia true)).alike (hs.trivia true).indented⟩

theorem symbol {t : List Char} (ht : '\n' ∉ t) : Steady kept (symbol t) (symbol t) :=
  ⟨fun {s s'} hs => by
    have hrest := (hs.trivia false).indented
    have hsame := (OfLine.isPrefixOf ht).eq hrest
    unfold Script.symbol
    dsimp only
    rw [← hsame]
    split
    · next hp => exact .done trivial (dropPrefix ht hrest hp)
    · exact .stuck⟩

theorem symbolUnless {t next : List Char} (ht : '\n' ∉ t) :
    Steady kept (symbolUnless t next) (symbolUnless t next) :=
  ⟨fun {s s'} hs => by
    have hrest := (hs.trivia false).indented
    have hsame := (OfLine.isPrefixOf ht).eq hrest
    unfold Script.symbolUnless
    dsimp only
    cases hp : t.isPrefixOf (trivia false s) with
    | false =>
      rw [← hsame, hp]
      exact .stuck
    | true =>
      have hdrop := dropPrefix ht hrest hp
      rw [← hsame, hp, hdrop.head?_eq]
      split
      · exact .done trivial hdrop
      · exact .stuck⟩

instance : Steady kept (Script.symbol ['.', '.', '.']) (Script.symbol ['.', '.', '.']) :=
  symbol (by decide)

instance : Steady kept (Script.symbol ['<', '/']) (Script.symbol ['<', '/']) := symbol (by decide)

instance : Steady kept (Script.symbol ['/', '>']) (Script.symbol ['/', '>']) := symbol (by decide)

instance : Steady kept arrow arrow := symbol (by decide)

instance : Steady kept equals equals := symbolUnless (by decide)

instance : Steady kept (Script.symbolUnless ['!'] ['=']) (Script.symbolUnless ['!'] ['=']) :=
  symbolUnless (by decide)

/-- No sign is a line break; one that is would never be found, since white space is passed over. -/
instance {c : Char} : Steady kept (sign c) (sign c) := ⟨fun {s s'} hs => by
  have hfront := hs.trivia false
  unfold sign Script.symbol
  generalize trivia false s = t at hfront ⊢
  generalize trivia false s' = t' at hfront ⊢
  cases hfront with
  | nil => exact .stuck
  | cons b _ hrest =>
    simp only [List.isPrefixOf, Bool.and_true]
    split
    · exact .done trivial hrest
    · exact .stuck⟩

instance : Steady kept word word := ⟨fun {s s'} hs => by
  -- equal words are cut off, and what is left is indented likewise
  have hrest := (hs.trivia true).indented
  unfold word
  dsimp only
  rw [← ofLine_wordLength.eq hrest]
  have htake := ofLine_wordLength.take wordLength_le hrest
  have hdrop := ofLine_wordLength.drop wordLength_le hrest (Nat.le_refl _)
  rw [← ofLine_wordLength.eq hrest] at htake
  generalize wordLength (trivia true s) = n at htake hdrop
  cases n with
  | zero => exact .stuck
  | succ n => exact .done (congrArg String.ofList htake) hdrop⟩

instance {k : String} : Steady kept (keyword k) (keyword k) := ⟨fun {s s'} hs => by
  unfold keyword
  rcases cases word word hs with ⟨n, n', hp, hp'⟩ | ⟨w, w', r, r', hp, hp', rfl, hr⟩
  · rw [hp, hp']
    exact .stuck
  · rw [hp, hp']
    dsimp only
    split
    · exact .done trivial hr
    · exact .stuck⟩

/-- A string may go over line breaks with backslashes in front of them. -/
instance : Steady kept stringLiteral stringLiteral := ⟨fun {s s'} hs => by
  have hfront := hs.trivia true
  unfold stringLiteral
  generalize trivia true s = t at hfront ⊢
  generalize trivia true s' = t' at hfront ⊢
  cases hfront with
  | nil => exact .stuck
  | @cons r r' q _ hrest =>
    dsimp only
    split
    · next hq =>
      have hquote : q ≠ '\n' ∧ q ≠ ' ' := by
        constructor <;> rintro rfl <;> exact absurd hq (by decide)
      have hend := AfterBreak.string hquote.1 hquote.2 (.here hrest)
      -- the string ends in both texts or in neither
      generalize stringLength? q 0 r = o at hend ⊢
      generalize stringLength? q 0 r' = o' at hend ⊢
      cases o with
      | none =>
        cases o' with
        | none => exact .stuck
        | some n' => cases hend
      | some n =>
        cases o' with
        | none => cases hend
        | some n' =>
          cases hend with
          | some hend => exact .done trivial hend
    · exact .stuck⟩

instance : Steady kept number number := ⟨fun {s s'} hs => by
  have hrest := (hs.trivia true).indented
  unfold number
  dsimp only
  rw [← ofLine_numberLength.eq hrest]
  have hdrop := ofLine_numberLength.drop numberLength_le hrest (Nat.le_refl _)
  generalize numberLength (trivia true s) = n at hdrop
  cases n with
  | zero => exact .stuck
  | succ n => exact .done trivial hdrop⟩

/-- A statement ends at a line break in both texts or in neither, and there may be a semicolon. -/
instance {d : Dialect} {operator : Bool} :
    Steady kept (semicolon d operator) (semicolon d operator) := ⟨fun {s s'} hs => by
  have hending := hs.ending d operator
  have hfront := hs.trivia false
  unfold semicolon
  generalize end? d operator s = o at hending ⊢
  generalize end? d operator s' = o' at hending ⊢
  cases hending with
  | some h => exact .done trivial h
  | none =>
    generalize trivia false s = t at hfront ⊢
    generalize trivia false s' = t' at hfront ⊢
    cases hfront with
    | nil => exact .stuck
    | @cons r r' c _ hrest =>
      by_cases hc : c = ';'
      · subst hc
        exact .done trivial hrest
      · dsimp only
        split
        · next heq => exact absurd (List.cons.inj heq).1 hc
        · split
          · next heq => exact absurd (List.cons.inj heq).1 hc
          · exact .stuck⟩

/-! ## 5. Lists

There are rounds enough here too: each passes over a comma at least. After an
item both kinds of lists go on in the same way (`afterItem`), so what comes after
an item is compared once for the two of them. -/

variable {close : Char} {item item' : Reader α}

/-- What comes after an item: a comma and the other items, or the end of the list. -/
def afterItem (close : Char) (more : Reader (List α)) (a : α) : Reader (List α) := fun s =>
  match trivia false s with
  | ',' :: r =>
    match more r with
    | .done as rest => .done (a :: as) rest
    | .stuck m => .stuck m
  | c :: r => if c == close then .done [a] r else .stuck s.length
  | [] => .stuck 0

omit [Compared α] in
theorem looseListWithin_succ (n : Nat) (s : List Char) :
    looseListWithin close item (n + 1) s =
      match trivia true s with
      | [] => .stuck 0
      | c :: r =>
        if c == close then .done [] r
        else if c == ',' then looseListWithin close item n r
        else
          match item s with
          | .stuck m => .stuck m
          | .done a rest => afterItem close (looseListWithin close item n) a rest := rfl

omit [Compared α] in
theorem strictListWithin_succ (n : Nat) (s : List Char) :
    strictListWithin close item (n + 1) s =
      if nextChar s == some close then .done [] ((trivia false s).drop 1)
      else
        match item s with
        | .stuck m => .stuck m
        | .done a rest => afterItem close (strictListWithin close item n) a rest := rfl

section AfterItem

variable {more more' : Reader (List α)} {a a' : α} {r : List Char}

omit [Compared α] in
theorem afterItem_comma (h : trivia false s = ',' :: r) : afterItem close more a s =
    match more r with
    | .done as rest => .done (a :: as) rest
    | .stuck m => .stuck m := by
  rw [afterItem, h]
  rfl

omit [Compared α] in
theorem afterItem_other {c : Char} (h : trivia false s = c :: r) (hc : c ≠ ',') :
    afterItem close more a s = if c == close then .done [a] r else .stuck s.length := by
  rw [afterItem, h]
  split
  · next heq => exact absurd (List.cons.inj heq).1 hc
  · next heq =>
    obtain ⟨rfl, rfl⟩ := List.cons.inj heq
    rfl
  · next heq => cases heq

omit [Compared α] in
theorem afterItem_end (h : trivia false s = []) : afterItem close more a s = .stuck 0 := by
  rw [afterItem, h]

/-- After alike items the lists go on alike, if the other items are read alike. -/
theorem afterItem_alike (ha : Compared.alike a a') (hs : Indented kept s s')
    (hmore : ∀ r r', r.length < s.length → r'.length < s'.length → Indented kept r r' →
      (more r).Alike kept (more' r')) :
    (afterItem close more a s).Alike kept (afterItem close more' a' s') := by
  have hfront := hs.trivia false
  have hle := trivia_length_le false s
  have hle' := trivia_length_le false s'
  cases ht : trivia false s with
  | nil =>
    rw [ht] at hfront
    cases ht' : trivia false s' with
    | cons c' r' => rw [ht'] at hfront; cases hfront
    | nil =>
      rw [afterItem_end ht, afterItem_end ht']
      exact .stuck
  | cons c r =>
    rw [ht] at hfront hle
    cases ht' : trivia false s' with
    | nil => rw [ht'] at hfront; cases hfront
    | cons c' r' =>
      rw [ht'] at hfront hle'
      cases hfront with
      | cons _ _ hr =>
        by_cases hc : c = ','
        · subst hc
          have hrest := hmore r r' hle hle' hr
          rw [afterItem_comma ht, afterItem_comma ht']
          generalize more r = o at hrest ⊢
          generalize more' r' = o' at hrest ⊢
          cases hrest with
          | stuck => exact .stuck
          | done has hr => exact .done (.cons ha has) hr
        · rw [afterItem_other ht hc, afterItem_other ht' hc]
          split
          · exact .done (.cons ha .nil) hr
          · exact .stuck

end AfterItem

instance [Shrinks item] [Shrinks item'] [Steady kept item item'] :
    Steady kept (looseList close item) (looseList close item') := by
  have within : ∀ n n' s s', s.length < n → s'.length < n' → Indented kept s s' →
      (looseListWithin close item n s).Alike kept (looseListWithin close item' n' s') := by
    intro n
    induction n with
    | zero => exact fun n' s s' hn => absurd hn (Nat.not_lt_zero _)
    | succ n ih =>
      intro n' s s' hn hn' hs
      obtain ⟨n', rfl⟩ : ∃ k, n' = k + 1 := ⟨n' - 1, by omega⟩
      have hfront := hs.trivia true
      have hle := trivia_length_le true s
      have hle' := trivia_length_le true s'
      rw [looseListWithin_succ, looseListWithin_succ]
      generalize trivia true s = t at hfront hle ⊢
      generalize trivia true s' = t' at hfront hle' ⊢
      cases hfront with
      | nil => exact .stuck
      | @cons r r' c _ hr =>
        rw [List.length_cons] at hle hle'
        dsimp only
        split
        · exact .done .nil hr
        split
        · exact ih n' r r' (by omega) (by omega) hr
        rcases cases item item' hs with
          ⟨m, m', hp, hp'⟩ | ⟨a, a', x, x', hp, hp', ha, hx⟩
        · rw [hp, hp']
          exact .stuck
        · have hshrinks : x.length ≤ s.length := Shrinks.le s _ _ hp
          have hshrinks' : x'.length ≤ s'.length := Shrinks.le s' _ _ hp'
          rw [hp, hp']
          exact afterItem_alike ha hx fun y y' hy hy' h => ih n' y y' (by omega) (by omega) h
  exact ⟨fun {s s'} hs => within _ _ s s' (Nat.lt_succ_self _) (Nat.lt_succ_self _) hs⟩

instance [Shrinks item] [Shrinks item'] [Steady kept item item'] :
    Steady kept (strictList close item) (strictList close item') := by
  have within : ∀ n n' s s', s.length < n → s'.length < n' → Indented kept s s' →
      (strictListWithin close item n s).Alike kept (strictListWithin close item' n' s') := by
    intro n
    induction n with
    | zero => exact fun n' s s' hn => absurd hn (Nat.not_lt_zero _)
    | succ n ih =>
      intro n' s s' hn hn' hs
      obtain ⟨n', rfl⟩ : ∃ k, n' = k + 1 := ⟨n' - 1, by omega⟩
      have hnext : Same (nextChar s) (nextChar s') := inferInstance
      rw [strictListWithin_succ, strictListWithin_succ, hnext.eq]
      split
      · have hfront := hs.trivia false
        generalize trivia false s = t at hfront ⊢
        generalize trivia false s' = t' at hfront ⊢
        cases hfront with
        | nil => exact .done .nil (.refl _)
        | cons c _ hr => exact .done .nil hr
      rcases cases item item' hs with
        ⟨m, m', hp, hp'⟩ | ⟨a, a', x, x', hp, hp', ha, hx⟩
      · rw [hp, hp']
        exact .stuck
      · have hshrinks : x.length ≤ s.length := Shrinks.le s _ _ hp
        have hshrinks' : x'.length ≤ s'.length := Shrinks.le s' _ _ hp'
        rw [hp, hp']
        exact afterItem_alike ha hx fun y y' hy hy' h => ih n' y y' (by omega) (by omega) h
  exact ⟨fun {s s'} hs => within _ _ s s' (Nat.lt_succ_self _) (Nat.lt_succ_self _) hs⟩

instance [Shrinks item] [Shrinks item'] [Steady kept item item'] :
    Steady kept (series item) (series item') := by
  unfold series
  infer_instance

end Steady

end LocaleEditor.Script
