/-
LocaleEditor.Proofs.Json.Reads — what readers make of a text from its front.

`Reads p s fits a rest` says that `p` reads `a` from the front of `s` and leaves
`rest`, as far as the levels that are left allow it; where they do not (`fits`
is false), `p` fails with that fault. One relation covers both, so each reader
needs one lemma, and the levels of a whole document are what its readers ask
for together.

* `Reads.bind`, `Reads.closing`, `Reads.opening`, … — a rule for each way to
  put readers together.
* `string_quote` — a quoted text.
* `Reads.elements`, `Reads.members` — lists and objects without white space.
* `Reads.record`, `Reads.parts` — records and tagged values.
-/
import LocaleEditor.Draft.Encoded
import LocaleEditor.Json.Tagged
import LocaleEditor.Proofs.Text.Cut
import LocaleEditor.Proofs.Text.Quoted

namespace LocaleEditor.Json

open LocaleEditor.Draft (commas member tagged)
open LocaleEditor.Text

variable {α β σ : Type} {p : Reader α} {f : α → Reader β} {s s' rest : List Char} {a : α} {b : β}
  {fits fits' : Prop}

/-! ## 1. Readers put together -/

/-- `p` reads `a` and leaves `rest`, or it fails because the levels do not suffice. -/
def Reads (p : Reader α) (s : List Char) (fits : Prop) (a : α) (rest : List Char) : Prop :=
  (fits → p s = .done a rest) ∧
    (¬ fits → ∃ left rest', p s = .failed ⟨.tooDeep, left⟩ rest')

theorem Reads.done (h : p s = .done a rest) : Reads p s True a rest :=
  ⟨fun _ => h, fun hn => absurd trivial hn⟩

theorem Reads.congr (h : Reads p s fits a rest) (heq : fits' ↔ fits) : Reads p s fits' a rest :=
  ⟨fun hf => h.1 (heq.mp hf), fun hn => h.2 fun hf => hn (heq.mpr hf)⟩

theorem bind_done (h : p s = .done a s') : (p >>= f) s = f a s' := by
  simp only [Bind.bind, h]

theorem bind_failed {failure : Failure} (h : p s = .failed failure s') :
    (p >>= f) s = .failed failure s' := by
  simp only [Bind.bind, h]

theorem Reads.bind (hp : Reads p s fits a s') (hf : Reads (f a) s' fits' b rest) :
    Reads (p >>= f) s (fits ∧ fits') b rest := by
  refine ⟨fun ⟨h, h'⟩ => (bind_done (hp.1 h)).trans (hf.1 h'), fun hn => ?_⟩
  by_cases h : fits
  · obtain ⟨left, rest', hfail⟩ := hf.2 fun h' => hn ⟨h, h'⟩
    exact ⟨left, rest', (bind_done (hp.1 h)).trans hfail⟩
  · obtain ⟨left, rest', hfail⟩ := hp.2 h
    exact ⟨left, rest', bind_failed hfail⟩

/-- What is read before asks for no levels. -/
theorem Reads.after (hp : p s = .done a s') (hf : Reads (f a) s' fits b rest) :
    Reads (p >>= f) s fits b rest :=
  ((Reads.done hp).bind hf).congr (by simp)

/-- What is read after it asks for no more levels. -/
theorem Reads.before (hp : Reads p s fits a s') (hf : fits → f a s' = .done b rest) :
    Reads (p >>= f) s fits b rest := by
  refine ⟨fun h => (bind_done (hp.1 h)).trans (hf h), fun hn => ?_⟩
  obtain ⟨left, rest', hfail⟩ := hp.2 hn
  exact ⟨left, rest', bind_failed hfail⟩

theorem Reads.map (h : Reads p s fits a rest) (g : α → β) :
    Reads (p >>= fun a => pure (g a)) s fits (g a) rest :=
  h.before fun _ => rfl

theorem Reads.located (h : Reads p s fits a rest) : Reads (Reader.located p) s fits a rest := by
  refine ⟨fun hf => ?_, fun hn => ?_⟩
  · rw [Reader.located, h.1 hf]
  · obtain ⟨left, rest', hfail⟩ := h.2 hn
    cases left with
    | none => exact ⟨_, _, by rw [Reader.located, hfail]⟩
    | some left => exact ⟨_, _, by rw [Reader.located, hfail]⟩

theorem Reads.closing {close : Reader Unit} (h : Reads p s fits a s')
    (hclose : close s' = .done () rest) : Reads (Reader.closing close p) s fits a rest := by
  refine ⟨fun hf => ?_, fun hn => ?_⟩
  · rw [Reader.closing, h.1 hf]
    dsimp only
    rw [hclose]
  · obtain ⟨left, rest', hfail⟩ := h.2 hn
    rw [Reader.closing, hfail]
    dsimp only
    cases close rest' with
    | done u rest'' => exact ⟨_, _, rfl⟩
    | failed failure rest'' => exact ⟨_, _, rfl⟩

/-- A bracket takes a level, and may not take the last one. -/
theorem Reads.opening {levels : Nat} {c : Char} (h : Reads p s fits a rest) :
    Reads (Reader.opening levels p) (c :: s) (1 < levels ∧ fits) a rest := by
  unfold Reader.opening
  by_cases hlevels : levels ≤ 1
  · rw [if_pos hlevels]
    exact ⟨fun hf => absurd hf.1 (by omega), fun _ => ⟨_, _, rfl⟩⟩
  · rw [if_neg hlevels]
    have hskip : Reads (Reader.skipChar >>= fun _ => p) (c :: s) fits a rest := Reads.after rfl h
    exact hskip.congr (by simp; omega)

/-- A value is read by its first character. -/
theorem Reads.byFirst {q : Char → Reader α} {c : Char} (hc : Reader.isSpace c = false)
    (h : Reads (q c) (c :: s) fits a rest) : Reads (byFirst q) (c :: s) fits a rest := by
  have hnext : Reader.next (c :: s) = .done (some c) (c :: s) := by
    simp [Reader.next, hc]
  exact (Reads.after hnext h).located

theorem Reads.ofExcept {e : Except Fault α} (h : e = .ok a) (s : List Char) :
    Reader.ofExcept e s = .done a s := by
  rw [h]
  rfl

/-! ## 2. Quoted texts -/

theorem fourDigits_control {c : Char} (h : c.toNat < 0x20) (r : List Char) :
    fourDigits ('0' :: '0' :: hexChar (c.toNat / 16) :: hexChar (c.toNat % 16) :: r)
      = .ok c.toNat := by
  have hlength : ¬ byteLength (List.take 4
      ('0' :: '0' :: hexChar (c.toNat / 16) :: hexChar (c.toNat % 16) :: r)) < 4 := by
    have hhigh := Char.utf8Size_pos (hexChar (c.toNat / 16))
    have hlow := Char.utf8Size_pos (hexChar (c.toNat % 16))
    have hzero := Char.utf8Size_pos '0'
    simp only [List.take, byteLength]
    omega
  rw [fourDigits, if_neg hlength, hexPrefix?_hexChar (show c.toNat < 256 by omega)]

/-- A control character is written as a number and read back. -/
theorem escape_control {c : Char} (h : c.toNat < 0x20) (r : List Char) :
    escape ('u' :: '0' :: '0' :: hexChar (c.toNat / 16) :: hexChar (c.toNat % 16) :: r)
      = .ok (c, 5) := by
  have hlow : isLowSurrogate c.toNat = false := by
    simp only [isLowSurrogate, Bool.and_eq_false_iff, decide_eq_false_iff_not]
    omega
  have hhigh : isHighSurrogate c.toNat = false := by
    simp only [isHighSurrogate, Bool.and_eq_false_iff, decide_eq_false_iff_not]
    omega
  simp [escape, fourDigits_control h, hlow, hhigh, Char.ofNat_toNat]

/-- A character between quotes is read back from the way it is written. -/
theorem stringFrom_quoteChar {vs r rest : List Char} (h : stringFrom 0 r = .done vs rest)
    (c : Char) : stringFrom 0 (quoteChar c ++ r) = .done (c :: vs) rest := by
  unfold quoteChar
  split
  · simp [stringFrom, escape, letterEscape?, h]
  · simp [stringFrom, escape, letterEscape?, h]
  · simp [stringFrom, escape, letterEscape?, h]
  · simp [stringFrom, escape, letterEscape?, h]
  · simp [stringFrom, escape, letterEscape?, h]
  · simp [stringFrom, escape, letterEscape?, h]
  · simp [stringFrom, escape, letterEscape?, h]
  · rename_i hquote hback _ _ _ _ _
    split
    · rename_i hlow
      simp [stringFrom, escape_control hlow, h]
    · rename_i hlow
      rw [List.singleton_append, stringFrom.eq_def]
      simp only [if_neg hquote, if_neg hback, if_neg hlow, h]

theorem quoted_quote (s : String) (rest : List Char) :
    quoted (quote s.toList ++ rest) = .done s rest := by
  have hstring : ∀ cs : List Char,
      stringFrom 0 (cs.flatMap quoteChar ++ '"' :: rest) = .done cs rest := by
    intro cs
    induction cs with
    | nil => simp [stringFrom]
    | cons c cs ih =>
      rw [List.flatMap_cons, List.append_assoc]
      exact stringFrom_quoteChar ih c
  have hread : Reads quoted (quote s.toList ++ rest) True s rest := by
    have h : Reads quoted ('"' :: (s.toList.flatMap quoteChar ++ '"' :: rest)) True s rest := by
      refine Reads.after rfl (Reads.after (hstring s.toList) (Reads.done ?_))
      rw [String.ofList_toList]
      rfl
    simpa [quote] using h
  exact hread.1 trivial

/-- A quoted text is read as the text. -/
theorem string_quote (expected : String) (s : String) (rest : List Char) :
    string expected (quote s.toList ++ rest) = .done s rest := by
  have hfirst : quote s.toList ++ rest
      = '"' :: (s.toList.flatMap quoteChar ++ ['"'] ++ rest) := by simp [quote]
  have h : Reads (string expected) (quote s.toList ++ rest) True s rest := by
    have hquoted := Reads.done (quoted_quote s rest)
    rw [hfirst] at hquoted ⊢
    exact Reads.byFirst rfl hquoted
  exact h.1 trivial

/-! ## 3. Lists -/

/-- Begins with neither white space nor the bracket that ends a list. -/
def Begins (s : List Char) : Prop :=
  ∃ c r, s = c :: r ∧ Reader.isSpace c = false ∧ c ≠ ']'

theorem commas_cons (p : List Char) (ps : List (List Char)) :
    commas (p :: ps) = p ++ ps.flatMap (',' :: ·) := by
  induction ps generalizing p with
  | nil => simp [commas]
  | cons q qs ih => simp [commas, ih]

theorem length_le_flatMap (ps : List (List Char)) :
    ps.length ≤ (ps.flatMap (',' :: ·)).length := by
  induction ps with
  | nil => simp
  | cons p ps ih =>
    simp only [List.flatMap_cons, List.length_cons, List.length_append]
    omega

theorem next_cons {c : Char} (hc : Reader.isSpace c = false) (r : List Char) :
    Reader.next (c :: r) = .done (some c) (c :: r) := by
  simp [Reader.next, hc]

theorem hasElement_end (first : Bool) (rest : List Char) :
    Reader.hasElement first (']' :: rest) = .done false (']' :: rest) := rfl

theorem hasElement_first (h : Begins s) (rest : List Char) :
    Reader.hasElement true (s ++ rest) = .done true (s ++ rest) := by
  obtain ⟨c, r, rfl, hc, hend⟩ := h
  rw [Reader.hasElement, List.cons_append, bind_done (next_cons hc (r ++ rest))]
  simp
  rfl

theorem hasElement_comma (h : Begins s) (rest : List Char) :
    Reader.hasElement false (',' :: (s ++ rest)) = .done true (s ++ rest) := by
  obtain ⟨c, r, rfl, hc, hend⟩ := h
  rw [Reader.hasElement, List.cons_append, bind_done (next_cons rfl (c :: (r ++ rest)))]
  have hskip : Reader.skipChar (',' :: c :: (r ++ rest)) = .done () (c :: (r ++ rest)) := rfl
  refine (bind_done hskip).trans ?_
  refine (bind_done (next_cons hc (r ++ rest))).trans ?_
  simp
  rfl

section Lists

variable {γ : Type} {write : γ → List Char} {value : γ → α} {enough : γ → Prop} {xs : List γ}

/-- Elements after the first one, each with a comma before it. -/
theorem Reads.elementsWithin (hbegins : ∀ x ∈ xs, Begins (write x))
    (hreads : ∀ x ∈ xs, ∀ rest, Reads p (write x ++ rest) (enough x) (value x) rest)
    (rest : List Char) {n : Nat} (hn : xs.length < n) :
    Reads (Reader.elementsWithin p n false) ((xs.map write).flatMap (',' :: ·) ++ ']' :: rest)
      (∀ x ∈ xs, enough x) (xs.map value) (']' :: rest) := by
  induction xs generalizing n with
  | nil =>
    obtain ⟨n, rfl⟩ : ∃ m, n = m + 1 := ⟨n - 1, by omega⟩
    have h : Reads (Reader.elementsWithin p (n + 1) false) (']' :: rest) True [] (']' :: rest) :=
      Reads.after (hasElement_end false rest) (Reads.done rfl)
    exact h.congr (by simp)
  | cons x xs ih =>
    obtain ⟨n, rfl⟩ : ∃ m, n = m + 1 := ⟨n - 1, by omega⟩
    have hrest := ih (fun y hy => hbegins y (List.mem_cons_of_mem x hy))
      (fun y hy => hreads y (List.mem_cons_of_mem x hy))
      (n := n) (by simpa using hn)
    have hx := hreads x List.mem_cons_self ((xs.map write).flatMap (',' :: ·) ++ ']' :: rest)
    have hcomma := hasElement_comma (hbegins x List.mem_cons_self)
      ((xs.map write).flatMap (',' :: ·) ++ ']' :: rest)
    have h : Reads (Reader.elementsWithin p (n + 1) false)
        (',' :: (write x ++ ((xs.map write).flatMap (',' :: ·) ++ ']' :: rest)))
        (enough x ∧ ∀ y ∈ xs, enough y) (value x :: xs.map value) (']' :: rest) :=
      Reads.after hcomma (hx.bind (hrest.before fun _ => rfl))
    simpa using h

/-- The elements between brackets. -/
theorem Reads.elements (hbegins : ∀ x ∈ xs, Begins (write x))
    (hreads : ∀ x ∈ xs, ∀ rest, Reads p (write x ++ rest) (enough x) (value x) rest)
    (rest : List Char) :
    Reads (Reader.elements true p) (commas (xs.map write) ++ ']' :: rest)
      (∀ x ∈ xs, enough x) (xs.map value) (']' :: rest) := by
  cases xs with
  | nil =>
    have h : Reads (Reader.elements true p) (']' :: rest) True [] (']' :: rest) :=
      Reads.after (hasElement_end true rest) (Reads.done rfl)
    exact h.congr (by simp)
  | cons x xs =>
    have hrest := Reads.elementsWithin (fun y hy => hbegins y (List.mem_cons_of_mem x hy))
      (fun y hy => hreads y (List.mem_cons_of_mem x hy)) rest
      (n := (write x ++ ((xs.map write).flatMap (',' :: ·) ++ ']' :: rest)).length)
      (by
        have hcommas := length_le_flatMap (xs.map write)
        simp only [List.length_map] at hcommas
        simp only [List.length_append, List.length_cons]
        omega)
    have hx := hreads x List.mem_cons_self ((xs.map write).flatMap (',' :: ·) ++ ']' :: rest)
    have hfirst := hasElement_first (hbegins x List.mem_cons_self)
      ((xs.map write).flatMap (',' :: ·) ++ ']' :: rest)
    have h : Reads (Reader.elements true p)
        (write x ++ ((xs.map write).flatMap (',' :: ·) ++ ']' :: rest))
        (enough x ∧ ∀ y ∈ xs, enough y) (value x :: xs.map value) (']' :: rest) :=
      Reads.after hfirst (hx.bind (hrest.before fun _ => rfl))
    simpa [commas_cons] using h

/-- The elements with their brackets. -/
theorem Reads.array (levels : Nat) (hbegins : ∀ x ∈ xs, Begins (write x))
    (hreads : ∀ x ∈ xs, ∀ rest, Reads p (write x ++ rest) (enough x) (value x) rest)
    (rest : List Char) :
    Reads (Reader.opening levels (Reader.closing Reader.closeList (Reader.elements true p)))
      (Draft.array (xs.map write) ++ rest) (1 < levels ∧ ∀ x ∈ xs, enough x) (xs.map value)
      rest := by
  have hclose : Reader.closeList (']' :: rest) = .done () rest := rfl
  have htext : Draft.array (xs.map write) ++ rest
      = '[' :: (commas (xs.map write) ++ ']' :: rest) := by
    simp [Draft.array]
  rw [htext]
  exact ((Reads.elements hbegins hreads rest).closing hclose).opening

/-- A list is read with what reads its elements. -/
theorem Reads.list (levels : Nat) (hbegins : ∀ x ∈ xs, Begins (write x))
    (hreads : ∀ x ∈ xs, ∀ rest, Reads p (write x ++ rest) (enough x) (value x) rest)
    (rest : List Char) :
    Reads (list levels p) (Draft.array (xs.map write) ++ rest) (1 < levels ∧ ∀ x ∈ xs, enough x)
      (xs.map value) rest :=
  Reads.byFirst rfl (Reads.array levels hbegins hreads rest)

end Lists

/-! ## 4. Members -/

/-- Members that change `acc` into `acc'`, one after the other. -/
inductive Steps (step : σ → String → Reader σ) : List (List Char) → σ → Prop → σ → Prop
  | nil {acc : σ} : Steps step [] acc True acc
  | cons {acc acc' acc'' : σ} {key : String} {text : List Char} {ms : List (List Char)}
      {fits fits' : Prop}
      (head : ∀ rest, Reads (step acc key) (':' :: (text ++ rest)) fits acc' rest)
      (tail : Steps step ms acc' fits' acc'') :
      Steps step (member key text :: ms) acc (fits ∧ fits') acc''

variable {step : σ → String → Reader σ} {acc acc' : σ} {ms : List (List Char)}

theorem Steps.congr (h : Steps step ms acc fits acc') (heq : fits' ↔ fits) :
    Steps step ms acc fits' acc' := propext heq ▸ h

theorem hasKey_end (first : Bool) (rest : List Char) :
    Reader.hasKey first ('}' :: rest) = .done false ('}' :: rest) := rfl

theorem hasKey_first (key : String) (rest : List Char) :
    Reader.hasKey true (quote key.toList ++ rest) = .done true (quote key.toList ++ rest) := rfl

theorem hasKey_comma (key : String) (rest : List Char) :
    Reader.hasKey false (',' :: (quote key.toList ++ rest))
      = .done true (quote key.toList ++ rest) := rfl

theorem colon_cons (s : List Char) : Reader.colon (':' :: s) = .done () s := rfl

/-- Members after the first one, each with a comma before it. -/
theorem Reads.membersWithin (h : Steps step ms acc fits acc') (rest : List Char) {n : Nat}
    (hn : ms.length < n) :
    Reads (membersWithin step n false acc) (ms.flatMap (',' :: ·) ++ '}' :: rest) fits acc'
      ('}' :: rest) := by
  induction h generalizing n with
  | nil =>
    obtain ⟨n, rfl⟩ : ∃ m, n = m + 1 := ⟨n - 1, by omega⟩
    exact Reads.after (hasKey_end false rest) (Reads.done rfl)
  | @cons acc acc' acc'' key text ms fits fits' head tail ih =>
    obtain ⟨n, rfl⟩ : ∃ m, n = m + 1 := ⟨n - 1, by omega⟩
    have htail := ih (n := n) (by simpa using hn)
    have hkey := quoted_quote key (':' :: (text ++ (ms.flatMap (',' :: ·) ++ '}' :: rest)))
    have h : Reads (Json.membersWithin step (n + 1) false acc)
        (',' :: (quote key.toList ++ ':' :: (text ++ (ms.flatMap (',' :: ·) ++ '}' :: rest))))
        (fits ∧ fits') acc'' ('}' :: rest) :=
      Reads.after (hasKey_comma key _) (Reads.after hkey ((head _).bind htail))
    simpa [member] using h

/-- The members between braces. -/
theorem Reads.members (h : Steps step ms acc fits acc') (rest : List Char) :
    Reads (members step acc) (commas ms ++ '}' :: rest) fits acc' ('}' :: rest) := by
  cases h with
  | nil => exact Reads.after (hasKey_end true rest) (Reads.done rfl)
  | @cons _ middle _ key text ms fits fits' head tail =>
    have htail := Reads.membersWithin tail rest
      (n := (member key text ++ (ms.flatMap (',' :: ·) ++ '}' :: rest)).length) (by
        have hcommas := length_le_flatMap ms
        simp only [List.length_append, List.length_cons]
        omega)
    have hkey := quoted_quote key (':' :: (text ++ (ms.flatMap (',' :: ·) ++ '}' :: rest)))
    have hall : Reads (Json.members step acc)
        (member key text ++ (ms.flatMap (',' :: ·) ++ '}' :: rest))
        (fits ∧ fits') acc' ('}' :: rest) := by
      have hstep := (head (ms.flatMap (',' :: ·) ++ '}' :: rest)).bind htail
      have hmember := Reads.after (f := fun key => step acc key >>= _) hkey hstep
      rw [member, List.append_assoc, List.cons_append] at hmember ⊢
      exact Reads.after (hasKey_first key _) hmember
    simpa [commas_cons] using hall

/-- What reads the members reads them with their braces. -/
theorem Reads.object (levels : Nat)
    (h : Reads p (commas ms ++ '}' :: rest) fits a ('}' :: rest)) :
    Reads (Reader.opening levels (Reader.closing Reader.closeObject p)) (Draft.object ms ++ rest)
      (1 < levels ∧ fits) a rest := by
  have hclose : Reader.closeObject ('}' :: rest) = .done () rest := rfl
  have htext : Draft.object ms ++ rest = '{' :: (commas ms ++ '}' :: rest) := by
    simp [Draft.object]
  rw [htext]
  exact (h.closing hclose).opening

section Each

variable {γ : Type} {key : γ → String} {write : γ → List Char} {value : γ → α} {enough : γ → Prop}
  {xs : List γ}

/-- Each member changes the value in its own way, whatever that is. -/
theorem Steps.each {change : σ → γ → σ}
    (h : ∀ x ∈ xs, ∀ acc rest,
      Reads (step acc (key x)) (':' :: (write x ++ rest)) (enough x) (change acc x) rest)
    (acc : σ) :
    Steps step (xs.map fun x => member (key x) (write x)) acc (∀ x ∈ xs, enough x)
      (xs.foldl change acc) := by
  induction xs generalizing acc with
  | nil => exact Steps.nil.congr (by simp)
  | cons x xs ih =>
    have htail := ih (fun y hy => h y (List.mem_cons_of_mem x hy)) (change acc x)
    exact (Steps.cons (h x List.mem_cons_self acc) htail).congr List.forall_mem_cons

/-- The members of an object are read in their order. -/
theorem Reads.pairs (key : γ → String)
    (hreads : ∀ x ∈ xs, ∀ rest, Reads p (write x ++ rest) (enough x) (value x) rest)
    (rest : List Char) :
    Reads (pairs p) (commas (xs.map fun x => member (key x) (write x)) ++ '}' :: rest)
      (∀ x ∈ xs, enough x) (xs.map fun x => (key x, value x)) ('}' :: rest) := by
  have hsteps : Steps (fun acc key => do
        Reader.colon
        let v ← p
        pure ((key, v) :: acc))
      (xs.map fun x => member (key x) (write x)) [] (∀ x ∈ xs, enough x)
      (xs.foldl (fun acc x => (key x, value x) :: acc) []) := by
    refine Steps.each (fun x hx acc rest => ?_) []
    exact Reads.after (colon_cons _) ((hreads x hx rest).map fun v => (key x, v) :: acc)
  have hall : (xs.foldl (fun acc x => (key x, value x) :: acc) []).reverse
      = xs.map fun x => (key x, value x) := by
    simp
  exact (Reads.members hsteps rest).before fun _ => congrArg (Outcome.done · ('}' :: rest)) hall

end Each

/-! ## 5. Records -/

/-- A field that is read for the first time. -/
theorem Reads.field {fields : List (Field (Reader (σ → σ)) σ)} {key name : String}
    {get : σ → Option α} {set : α → σ → σ}
    (hfind : fields.find? (·.name = key) = some (Field.reading name get set p))
    (hunset : get acc = none) (hset : set a acc = acc') (h : Reads p s fits a rest) :
    Reads (readMember fields acc key) (':' :: s) fits acc' rest := by
  have hread : Reads (Field.reading name get set p).read s fits (set a) rest := h.map set
  have hisSet : (Field.reading name get set p).isSet acc = false := by
    simp [Field.reading, hunset]
  rw [readMember, hfind, ← hset]
  dsimp only
  rw [hisSet, if_neg (by decide)]
  exact Reads.after (colon_cons s) (hread.map fun change => change acc)

theorem Reads.record {r : Record (Reader (σ → σ)) σ α} {levels : Nat}
    (h : Steps (readMember r.fields) ms r.start fits acc) (hfinish : r.finish acc = .ok a)
    (rest : List Char) :
    Reads (r.read levels) (Draft.object ms ++ rest) (1 < levels ∧ fits) a rest :=
  Reads.byFirst rfl <| Reads.object levels <|
    (Reads.members h rest).before fun _ => Reads.ofExcept hfinish _

/-! ## 6. Tagged values -/

theorem readTag_quote {t : Tagged α} {tag : String} {d : Decoder α} (htag : t.ofTag tag = .ok d)
    (rest : List Char) : t.readTag (quote tag.toList ++ rest) = .done d rest :=
  (Reads.after (string_quote tagName tag rest) (Reads.done (Reads.ofExcept htag rest))).located.1
    trivial

/-- A tagged object gives the decoder of its tag and its other members. -/
theorem Reads.parts {γ : Type} {key : γ → String} {write : γ → List Char} {content : γ → Value}
    {enough : γ → Prop} {xs : List γ} {t : Tagged α} {tag : String} {d : Decoder α} (levels : Nat)
    (htag : t.ofTag tag = .ok d) (hkeys : ∀ x ∈ xs, key x ≠ tagKey)
    (hreads : ∀ x ∈ xs, ∀ rest,
      Reads (value (levels - 1)) (write x ++ rest) (enough x) (content x) rest)
    (rest : List Char) :
    Reads (t.readParts levels) (tagged tag (xs.map fun x => member (key x) (write x)) ++ rest)
      (1 < levels ∧ ∀ x ∈ xs, enough x) (d, .object (xs.map fun x => (key x, content x))) rest := by
  have hothers : Steps (t.readMember (levels - 1)) (xs.map fun x => member (key x) (write x))
      (some d, []) (∀ x ∈ xs, enough x)
      (xs.foldl (fun acc x => (acc.1, (key x, content x) :: acc.2)) (some d, [])) := by
    refine Steps.each (fun x hx acc rest => ?_) (some d, [])
    rw [Tagged.readMember, if_neg (hkeys x hx)]
    exact Reads.after (colon_cons _) ((hreads x hx rest).map fun v => (acc.1, (key x, v) :: acc.2))
  have htagged : ∀ rest, Reads (t.readMember (levels - 1) (none, []) tagKey)
      (':' :: (quote tag.toList ++ rest)) True (some d, []) rest := fun rest =>
    Reads.after (colon_cons _) ((Reads.done (readTag_quote htag rest)).map fun d => (some d, []))
  have hall : ∀ reversed : List (String × Value),
      xs.foldl (fun acc x => (acc.1, (key x, content x) :: acc.2)) (some d, reversed)
      = (some d, (xs.map fun x => (key x, content x)).reverse ++ reversed) := by
    clear hreads hkeys hothers htagged
    induction xs with
    | nil => simp
    | cons x xs ih => simp [ih]
  rw [hall, List.append_nil] at hothers
  have hmembers := Reads.members (Steps.cons htagged hothers) rest
  refine (Reads.byFirst rfl (Reads.object levels (hmembers.before fun _ => ?_))).congr (by simp)
  show Outcome.done (d, Value.object (xs.map fun x => (key x, content x)).reverse.reverse) _ = _
  rw [List.reverse_reverse]

/-! ## 7. Documents -/

/-- Reads `p` and then nothing but white space up to the end. -/
def whole (p : Reader α) : Reader α := Reader.located do
  let a ← p
  match ← Reader.next with
  | none => pure a
  | some _ => Reader.failAfter .trailingCharacters

theorem readDocument_eq (p : Reader α) (document : String) :
    readDocument p document = match whole p document.toList with
      | .done a _ => .ok a
      | .failed failure rest =>
        let left := failure.left.getD (byteLength rest)
        let (line, column) := placeFrom 1 0 (byteLength document.toList - left) document.toList
        .error ⟨failure.fault, line, column⟩ := rfl

/-- A document is what is read from all of it, or it is too deep. -/
theorem readDocument_of_reads {document : String} (h : Reads p document.toList fits a []) :
    (fits → readDocument p document = .ok a) ∧
      (¬ fits → ∃ e, readDocument p document = .error e ∧ e.fault = .tooDeep) := by
  have hwhole : Reads (whole p) document.toList fits a [] := by
    refine Reads.located (h.before fun _ => ?_)
    rfl
  rw [readDocument_eq]
  refine ⟨fun hfits => by rw [hwhole.1 hfits], fun hdeep => ?_⟩
  obtain ⟨left, rest', hfail⟩ := hwhole.2 hdeep
  rw [hfail]
  exact ⟨_, rfl, rfl⟩

end LocaleEditor.Json
