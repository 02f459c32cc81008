/-
LocaleEditor.Proofs.Json.Yields — what holds of everything that is read.

`Yields p P` says that whatever `p` reads, from whatever text, satisfies `P`.
There is a rule for each way to put readers together. With them, a value read
with `n` levels nests less than `n` levels deep (`value_depth`), and so does
what a tagged value leaves to the decoder of its tag (`Yields.tagged`).

Nothing is said of texts that cannot be read, nor of how much is read. So the
rules need no text: they follow how a reader is built, and of a step that fails
there is nothing to show.
-/
import LocaleEditor.Proofs.Json.Inside
import LocaleEditor.Proofs.Json.Reads

namespace LocaleEditor.Json

variable {α β σ : Type} {p : Reader α} {f : α → Reader β} {P : α → Prop} {Q : β → Prop}

/-- Whatever is read satisfies `P`. -/
def Yields (p : Reader α) (P : α → Prop) : Prop :=
  ∀ s a rest, p s = .done a rest → P a

namespace Yields

/-! ## 1. Readers put together

One rule for each of the ways: a value without reading, steps one after another,
a choice, the four kinds of failure, and the brackets around a list or object,
which use up one level of nesting. -/

/-- What is read satisfies anything that follows from `P`. -/
theorem mono {P' : α → Prop} (h : Yields p P) (himp : ∀ a, P a → P' a) : Yields p P' :=
  fun s a rest hread => himp a (h s a rest hread)

theorem pure {a : α} (h : P a) : Yields (Pure.pure a) P := by
  intro s b rest hread
  obtain ⟨rfl, -⟩ := Outcome.done.inj hread
  exact h

/-- What the first step yields may be used for what comes after it. -/
theorem bind (hp : Yields p P) (hf : ∀ a, P a → Yields (f a) Q) : Yields (p >>= f) Q := by
  intro s b rest hread
  cases ha : p s with
  | done a rest' => exact hf a (hp s a rest' ha) rest' b rest ((bind_done ha).symm.trans hread)
  | failed failure rest' => cases (bind_failed ha).symm.trans hread

/-- A first step of which nothing matters. -/
theorem after (hf : ∀ a, Yields (f a) Q) : Yields (p >>= f) Q :=
  bind (P := fun _ => True) (fun _ _ _ _ => trivial) fun a _ => hf a

theorem ite {c : Prop} {_ : Decidable c} {q : Reader α} (hp : Yields p P) (hq : Yields q P) :
    Yields (if c then p else q) P := by
  split <;> assumption

theorem refuse {fault : Fault} : Yields (Reader.refuse fault : Reader α) P :=
  fun _ _ _ hread => nomatch hread

theorem failHere {fault : Fault} : Yields (Reader.failHere fault : Reader α) P :=
  fun _ _ _ hread => nomatch hread

theorem failAfter {fault : Fault} : Yields (Reader.failAfter fault : Reader α) P :=
  fun _ _ _ hread => nomatch hread

theorem ofExcept {e : Except Fault α} (h : ∀ a, e = .ok a → P a) :
    Yields (Reader.ofExcept e) P := by
  cases e with
  | ok a => exact pure (h a rfl)
  | error fault => exact refuse

/-- Where a failure is reported does not matter to what is read. -/
theorem located (h : Yields p P) : Yields (Reader.located p) P := by
  intro s a rest hread
  unfold Reader.located at hread
  split at hread
  · rename_i b rest' hb
    obtain ⟨rfl, -⟩ := Outcome.done.inj hread
    exact h s b rest' hb
  · cases hread
  · cases hread

/-- The closing bracket is read after the value and changes nothing about it. -/
theorem closing {close : Reader Unit} (h : Yields p P) : Yields (Reader.closing close p) P := by
  intro s a rest hread
  unfold Reader.closing at hread
  split at hread
  · rename_i b rest' hb
    split at hread
    · obtain ⟨rfl, -⟩ := Outcome.done.inj hread
      exact h s b rest' hb
    · cases hread
  · split at hread <;> cases hread

/-- With one level left, or none, a bracket is refused; so inside it there was more than one. -/
theorem opening {levels : Nat} (h : 1 < levels → Yields p P) :
    Yields (Reader.opening levels p) P := by
  unfold Reader.opening
  split
  · exact failAfter
  · exact after fun _ => h (by omega)

/-- Whatever the first character is, the reader chosen by it. -/
theorem byFirst {q : Char → Reader α} (h : ∀ c, Yields (q c) P) : Yields (byFirst q) P := by
  refine located (after fun c => ?_)
  cases c with
  | none => exact failAfter
  | some c => exact h c

/-- A value of another kind than expected is always an error. -/
theorem mismatch {expected : String} : Yields (mismatch expected : Reader α) P := by
  refine after fun c => ?_
  split
  · exact refuse
  · exact refuse
  · exact after fun _ => refuse

/-! ## 2. Lists and objects

By induction on the rounds that are left, for the reader of the elements and for
the function that takes in the members. A list may only be read with a level to
spare, which is kept beside what holds of its elements. -/

/-- Each element that is read satisfies what elements do. -/
theorem elementsWithin (h : Yields p P) (n : Nat) (first : Bool) :
    Yields (Reader.elementsWithin p n first) fun as => ∀ a ∈ as, P a := by
  induction n generalizing first with
  | zero => exact failHere
  | succ n ih =>
    refine after fun more => ?_
    split
    · refine bind h fun a ha => bind (ih false) fun as has => pure ?_
      exact List.forall_mem_cons.mpr ⟨ha, has⟩
    · exact pure (List.forall_mem_nil _)

theorem elements (h : Yields p P) (first : Bool) :
    Yields (Reader.elements first p) fun as => ∀ a ∈ as, P a :=
  fun s => elementsWithin h (s.length + 1) first s

theorem list {levels : Nat} (h : Yields p P) :
    Yields (list levels p) fun as => 1 < levels ∧ ∀ a ∈ as, P a := by
  refine byFirst fun c => ?_
  split
  · exact opening fun hlevels => closing ((elements h true).mono fun as has => ⟨hlevels, has⟩)
  · exact mismatch

/-- `I` is the invariant of the members that were read so far. -/
theorem membersWithin {step : σ → String → Reader σ} {I : σ → Prop}
    (h : ∀ acc key, I acc → Yields (step acc key) I) (n : Nat) (first : Bool) {acc : σ}
    (hacc : I acc) : Yields (membersWithin step n first acc) I := by
  induction n generalizing first acc with
  | zero => exact failHere
  | succ n ih =>
    refine after fun more => ?_
    split
    · exact after fun key => bind (h acc key hacc) fun acc' hacc' => ih false hacc'
    · exact pure hacc

/-- What every member preserves holds of all of them together. -/
theorem members {step : σ → String → Reader σ} {I : σ → Prop}
    (h : ∀ acc key, I acc → Yields (step acc key) I) {start : σ} (hstart : I start) :
    Yields (members step start) I :=
  fun s => membersWithin h (s.length + 1) true hstart s

/-- The members of an object are collected in reverse. -/
theorem pairs (h : Yields p P) : Yields (pairs p) fun ms => ∀ m ∈ ms, P m.2 := by
  have hmembers : Yields (Json.members (fun acc key => do
      Reader.colon
      let v ← p
      Pure.pure ((key, v) :: acc)) []) fun ms => ∀ m ∈ ms, P m.2 := by
    refine members (fun acc key hacc => ?_) (List.forall_mem_nil _)
    exact after fun _ => bind h fun v hv => pure (List.forall_mem_cons.mpr ⟨hv, hacc⟩)
  exact bind hmembers fun ms hms => pure fun m hm => hms m (List.mem_reverse.mp hm)

end Yields

/-! ## 3. Values

Numbers and the other values without parts have no depth. A number is read by
one function for each of its parts, each of which ends with the value or goes on
to the next part; so there is one lemma for each, from the last part to the
first. -/

theorem decimal_depth (negative : Bool) (significand : Nat) (e : Int) :
    Yields (decimal negative significand e) (·.depth = 0) := by
  unfold decimal
  split
  · exact .pure (by simp [Value.depth])
  · exact .failHere

theorem withExponent_depth (negative : Bool) (significand : Nat) (e : Int) :
    Yields (withExponent negative significand e) (·.depth = 0) := by
  refine .after fun _ => .after fun sign => .ite (.after fun _ => ?_) ?_
  -- with a sign and without one
  all_goals
    refine .after fun c => ?_
    split
    · exact .failHere
    refine .ite .failAfter (.after fun n => ?_)
    split
    · exact decimal_depth _ _ _
    · exact .ite .failHere (.after fun _ => .pure (by simp [Value.depth]))

theorem withFraction_depth (negative : Bool) (significand : Nat) (e : Int) :
    Yields (withFraction negative significand e) (·.depth = 0) := by
  refine .after fun _ => .after fun ds => .ite (.after fun c => ?_) (.after fun c => ?_)
  · split <;> exact .failAfter
  · exact .ite (withExponent_depth _ _ _) (decimal_depth _ _ _)

theorem afterWhole_depth (negative : Bool) (significand e : Nat) :
    Yields (afterWhole negative significand e) (·.depth = 0) :=
  .after fun _ => .ite (withFraction_depth _ _ _) <| .ite (withExponent_depth _ _ _) <|
    .ite (decimal_depth _ _ _) <| .ite (.pure (by simp [Value.depth])) <|
    .ite (.pure (by simp [Value.depth])) (decimal_depth _ _ _)

/-- A number begins with a digit, and a zero in front has no digit after it. -/
theorem number_depth (negative : Bool) : Yields (number negative) (·.depth = 0) := by
  refine .after fun c => ?_
  split
  · exact .failHere
  · refine .after fun _ => .after fun c => ?_
    split
    · exact .ite .failAfter (afterWhole_depth _ _ _)
    · exact afterWhole_depth _ _ _
  · exact .ite (.after fun ds => afterWhole_depth _ _ _) .failAfter

/-- A word, a string or a number. -/
theorem scalar_depth : Yields scalar (·.depth = 0) := by
  refine .after fun c => ?_
  split
  · exact .after fun _ => .pure (by simp [Value.depth])
  · exact .after fun _ => .pure (by simp [Value.depth])
  · exact .after fun _ => .pure (by simp [Value.depth])
  · exact .after fun s => .pure (Value.depth_string s)
  · exact .after fun _ => number_depth true
  · exact .ite (number_depth false) .failAfter
  · exact .failAfter

/-- A value nests less deeply than there were levels to read it. -/
theorem value_depth (levels : Nat) : Yields (value levels) (·.depth < levels) := by
  induction levels with
  | zero => exact .failAfter
  | succ n ih =>
    refine .byFirst fun c => ?_
    split
    · refine .bind (.opening (P := fun vs => (Value.array vs).depth < n + 1) fun hlevels => ?_)
        fun vs hvs => .pure hvs
      exact .closing ((Yields.elements ih true).mono fun vs hvs =>
        Value.depth_array_lt_iff.mpr ⟨hlevels, hvs⟩)
    · refine .bind (.opening (P := fun ms => (Value.object ms).depth < n + 1) fun hlevels => ?_)
        fun ms hms => .pure hms
      exact .closing ((Yields.pairs ih).mono fun ms hms =>
        Value.depth_object_lt_iff.mpr ⟨hlevels, hms⟩)
    · exact scalar_depth.mono fun v hv => hv ▸ Nat.succ_pos n

/-! ## 4. Records and tagged values

A record is put together from changes, one for each field, in the order of the
fields or in that of the members. A property that every change preserves holds
of what is put together in either way. A tagged value is a tag and what stands
beside it, and the decoder of the tag makes a value of the rest. -/

namespace Yields

section Records

variable {fields : List (Field (Reader (σ → σ)) σ)} {I : σ → Prop} {acc : σ}

/-- The fields of a record that is written as a list. -/
theorem readInOrder (h : ∀ f ∈ fields, Yields f.read fun change => ∀ acc, I acc → I (change acc))
    (name : String) (count : Nat) (complete : Bool) (index : Nat) (hacc : I acc) :
    Yields (readInOrder name count complete fields index acc) I := by
  induction fields generalizing index acc with
  | nil => exact pure hacc
  | cons f fs ih =>
    obtain ⟨hf, hfs⟩ := List.forall_mem_cons.mp h
    refine after fun more => ite (bind hf fun change hchange => ?_) (ite refuse (pure hacc))
    exact ih hfs (index + 1) (hchange acc hacc)

/-- A member that is no field is passed over. -/
theorem readMember (h : ∀ f ∈ fields, Yields f.read fun change => ∀ acc, I acc → I (change acc))
    (key : String) (hacc : I acc) : Yields (readMember fields acc key) I := by
  unfold Json.readMember
  split
  · rename_i f hf
    refine ite refuse (after fun _ => bind (h f (List.mem_of_find?_eq_some hf)) ?_)
    exact fun change hchange => pure (hchange acc hacc)
  · exact after fun _ => after fun _ => pure hacc

/-- What every field preserves holds of what a record is put together from. -/
theorem record {r : Record (Reader (σ → σ)) σ α} {levels : Nat} (hstart : I r.start)
    (h : ∀ f ∈ r.fields, Yields f.read fun change => ∀ acc, I acc → I (change acc)) :
    Yields (r.read levels) fun a => 1 < levels ∧ ∃ acc, I acc ∧ r.finish acc = .ok a := by
  have hfinish : ∀ acc, 1 < levels → I acc → Yields (Reader.ofExcept (r.finish acc))
      fun a => 1 < levels ∧ ∃ acc, I acc ∧ r.finish acc = .ok a :=
    fun acc hlevels hacc => ofExcept fun a ha => ⟨hlevels, acc, hacc, ha⟩
  refine byFirst fun c => ?_
  split
  · exact opening fun hlevels => closing <|
      bind (readInOrder h _ _ _ 0 hstart) fun acc hacc => hfinish acc hlevels hacc
  · exact opening fun hlevels => closing <|
      bind (members (fun acc key hacc => readMember h key hacc) hstart) fun acc hacc =>
        hfinish acc hlevels hacc
  · exact mismatch

end Records

/-- A tag that is not known is an error, so what is read is one of the decoders. -/
theorem readTag (t : Tagged α) : Yields t.readTag t.Has :=
  located (after fun _ => ofExcept fun _ hd => Tagged.has_of_ofTag hd)

/-- The decoder, and a list or object with fewer levels than there were. -/
theorem readParts (t : Tagged α) (levels : Nat) :
    Yields (t.readParts levels) fun (d, rest) =>
      t.Has d ∧ 0 < rest.depth ∧ rest.depth < levels := by
  have hmember : ∀ (acc : Option (Decoder α) × List (String × Value)) (key : String),
      (∀ d ∈ acc.1, t.Has d) ∧ (∀ m ∈ acc.2, m.2.depth < levels - 1) →
      Yields (t.readMember (levels - 1) acc key) fun acc =>
        (∀ d ∈ acc.1, t.Has d) ∧ ∀ m ∈ acc.2, m.2.depth < levels - 1 := by
    intro acc key hacc
    refine ite ?_ (after fun _ => bind (value_depth (levels - 1)) fun v hv => pure ?_)
    · split
      · exact refuse
      · refine after fun _ => bind (readTag t) fun d hd => pure ⟨?_, hacc.2⟩
        simpa using hd
    · exact ⟨hacc.1, List.forall_mem_cons.mpr ⟨hv, hacc.2⟩⟩
  refine byFirst fun c => ?_
  split
  · refine opening fun hlevels => closing (after fun more => ite ?_ refuse)
    refine bind (readTag t) fun d hd => bind (elements (value_depth (levels - 1)) false) ?_
    exact fun vs hvs => pure ⟨hd, Nat.succ_pos _, Value.depth_array_lt_iff.mpr ⟨hlevels, hvs⟩⟩
  · refine opening fun hlevels => closing (bind (members hmember ⟨by simp, by simp⟩) ?_)
    rintro ⟨tag, reversed⟩ ⟨htag, hms⟩
    refine bind (ofExcept fun d hd => ?_) fun d hd => pure ⟨hd, Nat.succ_pos _, ?_⟩
    · exact htag d (required_eq_ok.mp hd)
    · exact Value.depth_object_lt_iff.mpr ⟨hlevels, fun m hm => hms m (List.mem_reverse.mp hm)⟩
  · exact mismatch

/-- A tagged value is what one of its decoders makes of a list or object within the levels. -/
theorem tagged (t : Tagged α) (levels : Nat) :
    Yields (t.read levels) fun a => ∃ d v,
      t.Has d ∧ 0 < v.depth ∧ v.depth < levels ∧ d v = .ok a := by
  refine bind (readParts t levels) fun (d, rest) ⟨hd, hpos, hlt⟩ => ?_
  exact ofExcept fun a ha => ⟨d, rest, hd, hpos, hlt, ha⟩

/-- What is read from a whole document. -/
theorem readDocument (h : Yields p P) {document : String} {a : α}
    (hread : readDocument p document = .ok a) : P a := by
  have hwhole : Yields (whole p) P := by
    refine located (bind h fun a ha => after fun c => ?_)
    split
    · exact pure ha
    · exact failAfter
  rw [readDocument_eq] at hread
  split at hread
  · rename_i b rest hb
    exact Except.ok.inj hread ▸ hwhole _ b rest hb
  · cases hread

end Yields

end LocaleEditor.Json
