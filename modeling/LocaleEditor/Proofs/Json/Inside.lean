/-
LocaleEditor.Proofs.Json.Inside — what is decoded from a value lies inside it.

A decoder that succeeds on a list or an object has made each part of its result
of something that is less deep. Said of records (`Record.inside`), lists
(`Value.list_inside`) and tagged values (`Tagged.inside`), this bounds how deep
the result can be.
-/
import LocaleEditor.Json.Tagged
import LocaleEditor.Proofs.Json.Depth

namespace LocaleEditor.Json

variable {α β σ : Type} {v : Value} {a : α}

/-! ## 1. Results -/

theorem bind_eq_ok {e : Except Fault α} {f : α → Except Fault β} {b : β} :
    e.bind f = .ok b ↔ ∃ a, e = .ok a ∧ f a = .ok b := by
  cases e <;> simp [Except.bind]

theorem map_eq_ok {e : Except Fault α} {f : α → β} {b : β} :
    e.map f = .ok b ↔ ∃ a, e = .ok a ∧ f a = b := by
  cases e <;> simp [Except.map]

theorem required_eq_ok {name : String} {o : Option α} :
    required name o = .ok a ↔ o = some a := by
  cases o <;> simp [required]

/-! ## 2. Lists and records -/

/-- The decoder makes `a` of something that nests less than `n` levels deep. -/
def Decoder.MakesBelow (d : Decoder α) (n : Nat) (a : α) : Prop := ∃ w, w.depth < n ∧ d w = .ok a

theorem Value.list_inside {d : Decoder α} {xs : List α} (h : Value.list d v = .ok xs) :
    0 < v.depth ∧ ∀ x ∈ xs, d.MakesBelow v.depth x := by
  unfold Value.list at h
  split at h
  · rename_i vs
    refine ⟨Nat.succ_pos _, ?_⟩
    have hinside : ∀ w ∈ vs, w.depth < (Value.array vs).depth := fun w hw => Value.depth_lt_array hw
    generalize (Value.array vs).depth = n at hinside ⊢
    induction vs generalizing xs with
    | nil =>
      cases h
      exact List.forall_mem_nil _
    | cons w ws ih =>
      obtain ⟨hw, hws⟩ := List.forall_mem_cons.mp hinside
      rw [List.mapM_cons] at h
      obtain ⟨x, hx, h⟩ := bind_eq_ok.mp h
      obtain ⟨ys, hys, h⟩ := bind_eq_ok.mp h
      cases h
      exact List.forall_mem_cons.mpr ⟨⟨w, hw, hx⟩, ih hys hws⟩
  · cases h

section Records

variable {fields : List (Field (Value → Except Fault (σ → σ)) σ)} {I : σ → Prop} {acc acc' : σ}
  {n : Nat}

theorem decodeInOrder_inside
    (h : ∀ f ∈ fields, ∀ w change, w.depth < n → f.read w = .ok change →
      ∀ acc, I acc → I (change acc))
    {name : String} {count index : Nat} {vs : List Value} (hvs : ∀ w ∈ vs, w.depth < n)
    (hacc : I acc) (hdecode : decodeInOrder name count fields vs index acc = .ok acc') :
    I acc' := by
  induction fields generalizing vs index acc with
  | nil =>
    cases vs with
    | nil => exact Except.ok.inj hdecode ▸ hacc
    | cons => cases hdecode
  | cons f fs ih =>
    obtain ⟨hf, hfs⟩ := List.forall_mem_cons.mp h
    cases vs with
    | nil => cases hdecode
    | cons w ws =>
      obtain ⟨hw, hws⟩ := List.forall_mem_cons.mp hvs
      rw [decodeInOrder] at hdecode
      split at hdecode
      · cases hdecode
      · rename_i change hchange
        exact ih hfs hws (hf w change hw hchange acc hacc) hdecode

theorem decodeMembers_inside
    (h : ∀ f ∈ fields, ∀ w change, w.depth < n → f.read w = .ok change →
      ∀ acc, I acc → I (change acc))
    {ms : List (String × Value)} (hms : ∀ m ∈ ms, m.2.depth < n)
    (hacc : I acc) (hdecode : decodeMembers fields ms acc = .ok acc') : I acc' := by
  induction ms generalizing acc with
  | nil => exact Except.ok.inj hdecode ▸ hacc
  | cons m ms ih =>
    obtain ⟨key, w⟩ := m
    obtain ⟨hm, hms⟩ := List.forall_mem_cons.mp hms
    rw [decodeMembers] at hdecode
    split at hdecode
    · exact ih hms hacc hdecode
    · rename_i f hf
      split at hdecode
      · cases hdecode
      split at hdecode
      · cases hdecode
      · rename_i change hchange
        exact ih hms (h f (List.mem_of_find?_eq_some hf) w change hm hchange acc hacc) hdecode

/-- What every field preserves, given something inside the value, holds of what the record is put
together from. -/
theorem Record.inside {r : Record (Value → Except Fault (σ → σ)) σ α} (hstart : I r.start)
    (h : ∀ f ∈ r.fields, ∀ w change, w.depth < v.depth → f.read w = .ok change →
      ∀ acc, I acc → I (change acc))
    (hdecode : r.decode v = .ok a) : 0 < v.depth ∧ ∃ acc, I acc ∧ r.finish acc = .ok a := by
  unfold Record.decode at hdecode
  split at hdecode
  · obtain ⟨acc, hacc, hfinish⟩ := bind_eq_ok.mp hdecode
    exact ⟨Nat.succ_pos _, acc,
      decodeInOrder_inside h (fun w hw => Value.depth_lt_array hw) hstart hacc, hfinish⟩
  · obtain ⟨acc, hacc, hfinish⟩ := bind_eq_ok.mp hdecode
    exact ⟨Nat.succ_pos _, acc,
      decodeMembers_inside h (fun m hm => Value.depth_lt_object hm) hstart hacc, hfinish⟩
  · cases hdecode

end Records

/-! ## 3. Tagged values -/

/-- The decoder is that of a variant, or that of the tags that are not listed. -/
def Tagged.Has (t : Tagged α) (d : Decoder α) : Prop :=
  (∃ tag, (tag, d) ∈ t.variants) ∨ t.other = some d

theorem Tagged.has_of_ofTag {t : Tagged α} {tag : String} {d : Decoder α}
    (h : t.ofTag tag = .ok d) : t.Has d := by
  unfold Tagged.ofTag at h
  split at h
  · rename_i hd
    cases h
    obtain ⟨before, after, hvariants, -⟩ := List.lookup_eq_some_iff.mp hd
    exact .inl ⟨tag, by simp [hvariants]⟩
  · rename_i hd
    cases h
    exact .inr hd
  · cases h

theorem Tagged.has_of_ofIndex {t : Tagged α} {index : Nat} {d : Decoder α}
    (h : t.ofIndex index = .ok d) : t.Has d := by
  unfold Tagged.ofIndex at h
  split at h
  · rename_i hd
    cases h
    exact .inl ⟨_, List.mem_of_getElem? hd⟩
  · rename_i hd
    cases h
    exact .inr hd
  · cases h

theorem Tagged.has_of_ofValue {t : Tagged α} {d : Decoder α} (h : t.ofValue v = .ok d) :
    t.Has d := by
  unfold Tagged.ofValue at h
  split at h
  · exact has_of_ofTag h
  · exact has_of_ofIndex h
  · cases h

theorem Tagged.splitMembers_inside {t : Tagged α} {ms others : List (String × Value)}
    {tag : Option (Decoder α)} {d : Decoder α} (htag : ∀ d ∈ tag, t.Has d)
    (h : t.splitMembers ms tag = .ok (d, others)) : t.Has d ∧ ∀ m ∈ others, m ∈ ms := by
  induction ms generalizing tag others with
  | nil =>
    obtain ⟨d', hd, heq⟩ := map_eq_ok.mp h
    cases heq
    exact ⟨htag d (required_eq_ok.mp hd), fun m hm => hm⟩
  | cons m ms ih =>
    obtain ⟨key, w⟩ := m
    rw [Tagged.splitMembers.eq_def] at h
    dsimp only at h
    split at h
    · split at h
      · cases h
      obtain ⟨d', hd', hrest⟩ := bind_eq_ok.mp h
      obtain ⟨hhas, hmem⟩ := ih (by simpa using has_of_ofValue hd') hrest
      exact ⟨hhas, fun m hm => List.mem_cons_of_mem _ (hmem m hm)⟩
    · obtain ⟨⟨d', rest⟩, hrest, heq⟩ := map_eq_ok.mp h
      cases heq
      obtain ⟨hhas, hmem⟩ := ih htag hrest
      exact ⟨hhas, fun m hm => (List.mem_cons.mp hm).elim (fun he => he ▸ List.mem_cons_self)
        fun hm => List.mem_cons_of_mem _ (hmem m hm)⟩

/-- A tagged value is what a decoder of its variants makes of something no deeper. -/
theorem Tagged.inside {t : Tagged α} (h : t.decode v = .ok a) :
    ∃ d w, t.Has d ∧ 0 < w.depth ∧ w.depth ≤ v.depth ∧ d w = .ok a := by
  unfold Tagged.decode at h
  split at h
  · cases h
  · rename_i tag rest
    obtain ⟨d, hd, hrest⟩ := bind_eq_ok.mp h
    refine ⟨d, .array rest, has_of_ofValue hd, Nat.succ_pos _, ?_, hrest⟩
    exact Value.depth_array_le (Nat.succ_pos _) fun w hw =>
      Value.depth_lt_array (List.mem_cons_of_mem tag hw)
  · rename_i ms
    obtain ⟨⟨d, others⟩, hd, hothers⟩ := bind_eq_ok.mp h
    obtain ⟨hhas, hmem⟩ := splitMembers_inside (by simp) hd
    refine ⟨d, .object others, hhas, Nat.succ_pos _, ?_, hothers⟩
    exact Value.depth_object_le (Nat.succ_pos _) fun m hm =>
      Value.depth_lt_object (hmem m hm)
  · cases h

end LocaleEditor.Json
