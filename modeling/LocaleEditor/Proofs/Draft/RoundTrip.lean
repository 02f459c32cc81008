/-
LocaleEditor.Proofs.Draft.RoundTrip — drafts survive being written and read.

A written draft is read back unless it nests too deeply. For a draft that was
itself read from a text, that cannot be: what is decoded is, as a value, no
deeper than what it is decoded from (`Bounds`), and what is read nests less
deeply than a document may (`nesting_of_decode`). So the round trip holds of
every tree that any text gives (`decode_encode`).
-/
import LocaleEditor.Proofs.Draft.Reading
import LocaleEditor.Proofs.Json.Yields

namespace LocaleEditor.Draft

open LocaleEditor.Json

variable {α β γ : Type} {v : Value}

/-! ## 1. Records -/

theorem decoding_ok {σ : Type} {name : String} {get : σ → Option α} {set : α → σ → σ}
    {d : Decoder α} {w : Value} {change : σ → σ}
    (h : (Field.decoding name get set d).read w = .ok change) :
    ∃ a, d w = .ok a ∧ set a = change :=
  map_eq_ok.mp h

theorem part_inside {name key : String} {d : Decoder α} {a : α}
    (h : (partRecord name key d).decode v = .ok a) : d.MakesBelow v.depth a := by
  have hfields : ∀ f ∈ (partRecord name key d).fields, ∀ w change, w.depth < v.depth →
      f.read w = .ok change → ∀ acc : Option α, (∀ a ∈ acc, d.MakesBelow v.depth a) →
        ∀ a ∈ change acc, d.MakesBelow v.depth a := by
    refine List.forall_mem_singleton.mpr fun w change hw hread acc _ => ?_
    obtain ⟨b, hb, rfl⟩ := decoding_ok hread
    simpa using ⟨w, hw, hb⟩
  obtain ⟨-, acc, hacc, hfinish⟩ := Record.inside (by simp [partRecord]) hfields h
  exact hacc a (required_eq_ok.mp hfinish)

theorem parts_inside {name first second : String} {d₁ : Decoder α} {d₂ : Decoder β}
    {make : α → β → γ} {c : γ} (h : (partsRecord name first second d₁ d₂ make).decode v = .ok c) :
    ∃ a b, c = make a b ∧ d₁.MakesBelow v.depth a ∧ d₂.MakesBelow v.depth b := by
  let I (acc : Parts α β) : Prop :=
    (∀ a ∈ acc.1, d₁.MakesBelow v.depth a) ∧ ∀ b ∈ acc.2, d₂.MakesBelow v.depth b
  have hfields : ∀ f ∈ (partsRecord name first second d₁ d₂ make).fields, ∀ w change,
      w.depth < v.depth → f.read w = .ok change → ∀ acc, I acc → I (change acc) := by
    refine List.forall_mem_cons.mpr ⟨fun w change hw hread acc hacc => ?_,
      List.forall_mem_singleton.mpr fun w change hw hread acc hacc => ?_⟩
    · obtain ⟨a, ha, rfl⟩ := decoding_ok hread
      exact ⟨by simpa using ⟨w, hw, ha⟩, hacc.2⟩
    · obtain ⟨b, hb, rfl⟩ := decoding_ok hread
      exact ⟨hacc.1, by simpa using ⟨w, hw, hb⟩⟩
  obtain ⟨-, acc, hacc, hfinish⟩ := Record.inside (by simp [partsRecord, I]) hfields h
  obtain ⟨a, ha, hfinish⟩ := bind_eq_ok.mp hfinish
  obtain ⟨b, hb, hfinish⟩ := bind_eq_ok.mp hfinish
  cases hfinish
  exact ⟨a, b, rfl, hacc.1 a (required_eq_ok.mp ha), hacc.2 b (required_eq_ok.mp hb)⟩

/-! ## 2. Bounds -/

/-- What is decoded is as a value no deeper than what it is decoded from. -/
def Bounds (d : Decoder α) (write : α → Value) : Prop :=
  ∀ v a, d v = .ok a → (write a).depth ≤ v.depth

section Bounds

variable {d : Decoder α} {write : α → Value} {n : Nat}

theorem Bounds.lt {a : α} (h : Bounds d write) (ha : d.MakesBelow n a) : (write a).depth < n := by
  obtain ⟨w, hw, hread⟩ := ha
  exact Nat.lt_of_le_of_lt (h w a hread) hw

theorem bounds_text : Bounds Value.text Value.string := fun v s _ => by simp

theorem bounds_list (h : Bounds d write) :
    Bounds (Value.list d) fun xs => .array (xs.map write) := by
  intro v xs hread
  obtain ⟨hpos, hinside⟩ := Value.list_inside hread
  exact Value.depth_array_le hpos (List.forall_mem_map.mpr fun x hx => h.lt (hinside x hx))

theorem bounds_part (h : Bounds d write) (name key : String) :
    Bounds (partRecord name key d).decode fun a => .object [(key, write a)] := by
  intro v a hread
  have ha := h.lt (part_inside hread)
  exact Value.depth_object_le (by omega) (List.forall_mem_singleton.mpr ha)

theorem bounds_parts {d₂ : Decoder β} {write₂ : β → Value} {write₃ : γ → Value}
    {first second : String} {make : α → β → γ} (h₁ : Bounds d write) (h₂ : Bounds d₂ write₂)
    (hwrite : ∀ a b, (write₃ (make a b)).depth
      = (Value.object [(first, write a), (second, write₂ b)]).depth)
    (name : String) : Bounds (partsRecord name first second d d₂ make).decode write₃ := by
  intro v c hread
  obtain ⟨a, b, rfl, ha, hb⟩ := parts_inside hread
  have ha := h₁.lt ha
  rw [hwrite]
  exact Value.depth_object_le (by omega)
    (List.forall_mem_cons.mpr ⟨ha, List.forall_mem_singleton.mpr (h₂.lt hb)⟩)

theorem Bounds.map {write' : β → Value} {make : α → β} (h : Bounds d write)
    (hwrite : ∀ a, (write' (make a)).depth = (write a).depth) :
    Bounds (fun v => (d v).map make) write' := by
  intro v b hread
  obtain ⟨a, ha, rfl⟩ := map_eq_ok.mp hread
  rw [hwrite]
  exact h v a ha

/-- The decoders of a tagged value are given nothing but lists and objects. -/
theorem bounds_tagged {t : Tagged α}
    (h : ∀ d, t.Has d → ∀ v a, d v = .ok a → (write a).depth ≤ max 1 v.depth) :
    Bounds t.decode write := by
  intro v a hread
  obtain ⟨d, w, hd, hpos, hle, hread⟩ := Tagged.inside hread
  have ha := h d hd w a hread
  omega

end Bounds

/-! ## 3. Decoded nodes -/

theorem valueVariants_inside {kind tag : String}
    {makeLiteral makeTemplate makeVariable : String → α} {d : Decoder α} {a : α}
    (hmem : (tag, d) ∈ valueVariants kind makeLiteral makeTemplate makeVariable)
    (hread : d v = .ok a) : ∃ s, a = makeLiteral s ∨ a = makeTemplate s ∨ a = makeVariable s := by
  simp only [valueVariants, textVariant, List.mem_cons, Prod.mk.injEq, List.not_mem_nil,
    or_false] at hmem
  rcases hmem with ⟨-, rfl⟩ | ⟨-, rfl⟩ | ⟨-, rfl⟩
  · obtain ⟨s, -, rfl⟩ := map_eq_ok.mp hread
    exact ⟨s, .inl rfl⟩
  · obtain ⟨s, -, rfl⟩ := map_eq_ok.mp hread
    exact ⟨s, .inr (.inl rfl)⟩
  · obtain ⟨s, -, rfl⟩ := map_eq_ok.mp hread
    exact ⟨s, .inr (.inr rfl)⟩

theorem bounds_item : Bounds itemVariants.decode itemValue := by
  refine bounds_tagged fun d hd v a hread => ?_
  rcases hd with ⟨tag, hmem⟩ | hother
  · obtain ⟨s, rfl | rfl | rfl⟩ := valueVariants_inside hmem hread
    all_goals
      rw [itemValue, depth_textValue]
      omega
  · cases hother

theorem bounds_items : Bounds itemsRecord.decode fun items =>
    .object [(itemsKey, .array (items.map itemValue))] :=
  bounds_part (bounds_list bounds_item) itemsRecord.name itemsKey

theorem bounds_body : Bounds bodyVariants.decode bodyValue := by
  refine bounds_tagged fun d hd v a hread => ?_
  rcases hd with ⟨tag, hmem⟩ | hother
  · rcases List.mem_append.mp hmem with hmem | hmem
    · obtain ⟨s, rfl | rfl | rfl⟩ := valueVariants_inside hmem hread
      all_goals
        rw [bodyValue, depth_textValue]
        omega
    simp only [textVariant, List.mem_cons, Prod.mk.injEq, List.not_mem_nil, or_false] at hmem
    rcases hmem with ⟨-, rfl⟩ | ⟨-, rfl⟩
    · have hitems : Bounds (fun v => (itemsRecord.decode v).map Body.array) bodyValue :=
        bounds_items.map fun items => by rw [bodyValue, itemsValue, depth_taggedValue]
      exact Nat.le_trans (hitems v a hread) (Nat.le_max_right 1 v.depth)
    · obtain ⟨s, -, rfl⟩ := map_eq_ok.mp hread
      rw [bodyValue, depth_textValue]
      omega
  · cases hother

theorem bounds_param : Bounds decodeParam paramValue :=
  bounds_parts bounds_text bounds_text (fun p t => by rw [paramValue]) _

theorem bounds_function : Bounds decodeFunction nodeValue :=
  bounds_parts (bounds_list bounds_param) bounds_body
    (fun params body => by rw [nodeValue, depth_taggedValue]) _

theorem bounds_entry {child : Decoder Node} (h : Bounds child nodeValue) :
    Bounds (partsRecord entryName keyKey nodeKey Value.text child Prod.mk).decode entryValue :=
  bounds_parts bounds_text h (fun k n => by rw [entryValue]) entryName

theorem bounds_entries {child : Decoder Node} (h : Bounds child nodeValue) :
    Bounds (entriesRecord child).decode fun es =>
      .object [(entriesKey, .array (es.map entryValue))] :=
  bounds_part (bounds_list (bounds_entry h)) _ _

theorem decodeUnknown_depth {n : Node} (hread : decodeUnknown v = .ok n) :
    (nodeValue n).depth = 1 := by
  have hn : n = .unknown := by
    unfold decodeUnknown at hread
    split at hread <;> cases hread
    rfl
  rw [hn, nodeValue, depth_taggedValue]
  simp [Value.depth, membersDepth]

/-- A node is no deeper than what it is decoded from, if that holds of the nodes inside. -/
theorem nodeVariants_depth {child d : Decoder Node} (h : Bounds child nodeValue)
    (hd : (nodeVariants child).Has d) {n : Node} (hread : d v = .ok n) :
    (nodeValue n).depth ≤ max 1 v.depth := by
  rcases hd with ⟨tag, hmem⟩ | hother
  · rcases List.mem_append.mp hmem with hmem | hmem
    · obtain ⟨s, rfl | rfl | rfl⟩ := valueVariants_inside hmem hread
      all_goals
        rw [nodeValue, depth_textValue]
        omega
    simp only [List.mem_cons, Prod.mk.injEq, List.not_mem_nil, or_false] at hmem
    rcases hmem with ⟨-, rfl⟩ | ⟨-, rfl⟩ | ⟨-, rfl⟩ | ⟨-, rfl⟩
    · have hitems : Bounds (fun v => (itemsRecord.decode v).map Node.array) nodeValue :=
        bounds_items.map fun items => by rw [nodeValue, itemsValue, depth_taggedValue]
      exact Nat.le_trans (hitems v n hread) (Nat.le_max_right 1 v.depth)
    · have hentries :
          Bounds (fun v => ((entriesRecord child).decode v).map Node.object) nodeValue :=
        (bounds_entries h).map fun es => by rw [nodeValue, depth_taggedValue, entryValues_eq_map]
      exact Nat.le_trans (hentries v n hread) (Nat.le_max_right 1 v.depth)
    · exact Nat.le_trans (bounds_function v n hread) (Nat.le_max_right 1 v.depth)
    · rw [decodeUnknown_depth hread]
      omega
  · cases hother
    rw [decodeUnknown_depth hread]
    omega

theorem bounds_node (k : Nat) : Bounds (decodeNode k) nodeValue := by
  induction k with
  | zero => exact fun v n hread => nomatch hread
  | succ k ih => exact bounds_tagged fun d hd v n hread => nodeVariants_depth ih hd hread

/-- A node of a tag that is not listed is unknown, whatever its other members are. -/
theorem decode_unlisted {child : Decoder Node} {tag : String} {before after : List (String × Value)}
    (htag : tag ∉ (nodeVariants child).variants.map (·.1))
    (hothers : ∀ m ∈ before ++ after, m.1 ≠ tagKey) :
    (nodeVariants child).decode (.object (before ++ (tagKey, .string tag) :: after))
      = .ok .unknown := by
  have hother : (nodeVariants child).ofTag tag = .ok decodeUnknown := by
    have hlookup : (nodeVariants child).variants.lookup tag = none :=
      List.lookup_eq_none_iff.mpr fun d hd => by
        simpa using fun heq : tag = d.1 => htag (heq ▸ List.mem_map_of_mem hd)
    rw [Tagged.ofTag, hlookup]
    rfl
  rw [decode_tagged hother hothers]
  rfl

/-! ## 4. Drafts -/

theorem entry_depth (levels : Nat) :
    Yields ((entryRecord (levels - 1)).read levels) fun e => (entryValue e).depth < levels := by
  have hfields : ∀ f ∈ (entryRecord (levels - 1)).fields, Yields f.read fun change =>
      ∀ acc : Parts String Node, (∀ n ∈ acc.2, (nodeValue n).depth < levels - 1) →
        ∀ n ∈ (change acc).2, (nodeValue n).depth < levels - 1 := by
    refine List.forall_mem_cons.mpr ⟨.after fun k => .pure fun acc hacc => hacc,
      List.forall_mem_singleton.mpr (.bind (.tagged _ _) ?_)⟩
    rintro n ⟨d, w, hd, hpos, hlt, hread⟩
    refine .pure fun acc _ => ?_
    have hdepth := nodeVariants_depth (bounds_node depthLimit) hd hread
    simpa using (by omega : (nodeValue n).depth < levels - 1)
  refine (Yields.record (by simp [entryRecord]) hfields).mono ?_
  rintro e ⟨hlevels, acc, hacc, hfinish⟩
  obtain ⟨k, hk, hfinish⟩ := bind_eq_ok.mp hfinish
  obtain ⟨n, hn, hfinish⟩ := bind_eq_ok.mp hfinish
  cases hfinish
  have hdepth := hacc n (required_eq_ok.mp hn)
  refine Value.depth_object_lt_iff.mpr ⟨hlevels, List.forall_mem_cons.mpr
    ⟨?_, List.forall_mem_singleton.mpr hdepth⟩⟩
  simp
  omega

theorem tree_depth (levels : Nat) :
    Yields ((treeRecord (levels - 1)).read levels) fun t => (treeValue t).depth < levels := by
  have hfields : ∀ f ∈ (treeRecord (levels - 1)).fields, Yields f.read fun change =>
      ∀ acc : Option Tree, (∀ t ∈ acc, (Value.array (entryValues t)).depth < levels - 1) →
        ∀ t ∈ change acc, (Value.array (entryValues t)).depth < levels - 1 := by
    refine List.forall_mem_singleton.mpr (.bind (.list (entry_depth _)) ?_)
    rintro es ⟨hlevels, hes⟩
    refine .pure fun acc _ => ?_
    have hdepth : (Value.array (entryValues es)).depth < levels - 1 := by
      rw [entryValues_eq_map, Value.depth_array_lt_iff, List.forall_mem_map]
      exact ⟨hlevels, hes⟩
    simpa using hdepth
  refine (Yields.record (by simp [treeRecord]) hfields).mono ?_
  rintro t ⟨hlevels, acc, hacc, hfinish⟩
  have hdepth := hacc t (required_eq_ok.mp hfinish)
  exact Value.depth_object_lt_iff.mpr ⟨hlevels, List.forall_mem_singleton.mpr hdepth⟩

/-- A draft that was read nests as deeply as a document may. -/
theorem nesting_of_decode {document : String} {t : Tree} (h : decode document = .ok t) :
    nesting (encode t) < depthLimit := by
  rw [nesting_encode]
  exact (tree_depth depthLimit).readDocument h

/-- Drafts survive being written and read. Every tree is read back from its written form, unless
that nests more deeply than a document may, which is then the fault. Every tree that was read from
some text is one of those that are read back. So a node of a tag that is not listed, which is read
as unknown, stays unknown. -/
theorem decode_encode :
    (∀ t, nesting (encode t) < depthLimit → decode (encode t) = .ok t) ∧
    (∀ t, depthLimit ≤ nesting (encode t) →
      ∃ e, decode (encode t) = .error e ∧ e.fault = .tooDeep) ∧
    (∀ document t, decode document = .ok t → decode (encode t) = .ok t) ∧
    (∀ (child : Decoder Node) (tag : String) (before after : List (String × Value)),
      tag ∉ (nodeVariants child).variants.map (·.1) → (∀ m ∈ before ++ after, m.1 ≠ tagKey) →
      (nodeVariants child).decode (.object (before ++ (tagKey, .string tag) :: after))
        = .ok .unknown) :=
  ⟨fun t => (decode_encode_of_nesting t).1, fun t => (decode_encode_of_nesting t).2,
    fun _ t h => (decode_encode_of_nesting t).1 (nesting_of_decode h),
    fun _ _ _ _ htag hothers => decode_unlisted htag hothers⟩

/-- A draft with a kind of node that is not listed. -/
def pluralDraft : String :=
  "\x7b\"entries\":[\x7b\"key\":\"days\",\"node\":\x7b\"type\":\"plural\",\"one\":[1]\x7d\x7d]\x7d"

/-- So many objects inside each other, around a text. -/
def nestedObjects : Nat → Node
  | 0 => .literal "x"
  | n + 1 => .object [("x", nestedObjects n)]

/-- Each object takes three levels, since its entries are a list of objects. -/
theorem nesting_nestedObjects (n : Nat) :
    nesting (encode [("x", nestedObjects n)]) = 3 * n + 4 := by
  have hnode : (nodeValue (nestedObjects n)).depth = 3 * n + 1 := by
    induction n with
    | zero => exact depth_textValue _ _ _
    | succ n ih =>
      simp [nestedObjects, nodeValue, depth_taggedValue, entryValues, Value.depth, elementsDepth,
        membersDepth, ih]
      omega
  simp [nesting_encode, treeValue, entryValues, Value.depth, elementsDepth, membersDepth, hnode]

/-- The draft of another kind of node is read as an unknown node and stays that. A draft of 41
objects inside each other is read back, one of 42 is too deep. -/
theorem decode_encode_plural :
    decode pluralDraft = .ok [("days", .unknown)] ∧
    decode (encode [("days", .unknown)]) = .ok [("days", .unknown)] ∧
    decode (encode [("x", nestedObjects 41)]) = .ok [("x", nestedObjects 41)] ∧
    (∃ e, decode (encode [("x", nestedObjects 42)]) = .error e ∧ e.fault = .tooDeep) ∧
    (nodeVariants decodeUnknown).decode (.object [("one", .null), (tagKey, .string "plural")])
      = .ok .unknown := by
  have hplural : decode pluralDraft = .ok [("days", .unknown)] := by
    have hsame : (decode pluralDraft).toOption.map encode = some (encode [("days", .unknown)]) := by
      decide +kernel
    cases hread : decode pluralDraft with
    | error e => simp [hread, Except.toOption] at hsame
    | ok t =>
      have henc : encode t = encode [("days", .unknown)] := by
        simpa [hread, Except.toOption] using hsame
      have hagain := decode_encode.2.2.1 pluralDraft t hread
      rw [henc] at hagain
      exact hagain.symm.trans (decode_encode.1 [("days", .unknown)] (by decide +kernel))
  exact ⟨hplural, decode_encode.2.2.1 pluralDraft _ hplural,
    decode_encode.1 _ (by rw [nesting_nestedObjects]; decide),
    decode_encode.2.1 _ (by rw [nesting_nestedObjects]; decide),
    decode_encode.2.2.2 decodeUnknown "plural" [("one", .null)] [] (by decide) (by decide)⟩

end LocaleEditor.Draft
