/-
LocaleEditor.Proofs.Draft.Reading — written drafts are read back.

What a node is as a value decodes to the node (`decodeNode_nodeValue`), with as
many nodes inside each other as its value is deep. From there on the reader of
a draft meets only written values, so that it reads the tree or finds it too
deep (`reads_encode`).
-/
import LocaleEditor.Proofs.Draft.Written

namespace LocaleEditor.Draft

open LocaleEditor.Json LocaleEditor.Text

variable {α β γ : Type}

/-! ## 1. Records and lists of values -/

theorem list_map {d : Decoder α} {value : α → Value} {xs : List α}
    (h : ∀ x ∈ xs, d (value x) = .ok x) : Value.list d (.array (xs.map value)) = .ok xs := by
  rw [Value.list]
  induction xs with
  | nil => rfl
  | cons x xs ih =>
    obtain ⟨hx, hxs⟩ := List.forall_mem_cons.mp h
    rw [List.map_cons, List.mapM_cons, hx]
    show (xs.map value).mapM d >>= _ = _
    rw [ih hxs]
    rfl

theorem decode_parts {name first second : String} {d₁ : Decoder α} {d₂ : Decoder β}
    {make : α → β → γ} {v₁ v₂ : Value} {a : α} {b : β} (hne : first ≠ second)
    (h₁ : d₁ v₁ = .ok a) (h₂ : d₂ v₂ = .ok b) :
    (partsRecord name first second d₁ d₂ make).decode (.object [(first, v₁), (second, v₂)])
      = .ok (make a b) := by
  simp [Record.decode, partsRecord, decodeMembers, Field.decoding, hne, h₁, h₂, Except.map,
    Except.bind, requiredParts, required]
  rfl

/-- A record with one part, which the records of one text, of items and of entries are. -/
def partRecord (name key : String) (d : Decoder α) :
    Record (Value → Except Fault (Option α → Option α)) (Option α) α where
  name := name
  fields := [.decoding key id (fun a _ => some a) d]
  start := none
  complete := true
  finish := required key

theorem decode_part (name : String) {key : String} {d : Decoder α} {v : Value} {a : α}
    (h : d v = .ok a) :
    (partRecord name key d).decode (.object [(key, v)]) = .ok a := by
  simp [Record.decode, partRecord, decodeMembers, Field.decoding, h, Except.map, Except.bind,
    required]

/-! ## 2. Nodes -/

theorem decode_itemValue (i : Item) : itemVariants.decode (itemValue i) = .ok i := by
  cases i <;> rfl

theorem decode_items (items : List Item) :
    itemsRecord.decode (.object [(itemsKey, .array (items.map itemValue))]) = .ok items :=
  decode_part itemsRecord.name (list_map fun i _ => decode_itemValue i)

theorem decode_bodyValue (b : Body) : bodyVariants.decode (bodyValue b) = .ok b := by
  cases b with
  | array items =>
    have htag : bodyVariants.ofTag arrayTag
        = .ok fun v => (itemsRecord.decode v).map Body.array := rfl
    refine (decode_taggedValue htag (List.forall_mem_singleton.mpr
      (show itemsKey ≠ tagKey by decide))).trans ?_
    rw [decode_items]
    rfl
  | _ => rfl

theorem decode_paramValue (p : Param) : decodeParam (paramValue p) = .ok p :=
  decode_parts (by decide) rfl rfl

theorem decode_function (params : List Param) (b : Body) :
    decodeFunction (.object [(paramsKey, .array (params.map paramValue)), (bodyKey, bodyValue b)])
      = .ok (.function params b) :=
  decode_parts (by decide) (list_map fun p _ => decode_paramValue p) (decode_bodyValue b)

theorem decode_entries {child : Decoder Node} {es : List (String × Node)}
    (h : ∀ e ∈ es, child (nodeValue e.2) = .ok e.2) :
    (entriesRecord child).decode (.object [(entriesKey, .array (entryValues es))]) = .ok es := by
  rw [entryValues_eq_map]
  exact decode_part objectName (list_map fun e he => decode_parts (by decide) rfl (h e he))

/-- A node of an entry lies inside the node that holds the entry. -/
theorem depth_lt_object {es : List (String × Node)} {e : String × Node} (he : e ∈ es) :
    (nodeValue e.2).depth < (nodeValue (.object es)).depth := by
  have hentry : (nodeValue e.2).depth < (entryValue e).depth :=
    Value.depth_lt_object (List.mem_cons_of_mem _ (List.mem_singleton_self _))
  have hentries : (entryValue e).depth < (Value.array (entryValues es)).depth := by
    rw [entryValues_eq_map]
    exact Value.depth_lt_array (List.mem_map_of_mem he)
  have hobject : (Value.array (entryValues es)).depth < (nodeValue (.object es)).depth := by
    rw [nodeValue, taggedValue]
    exact Value.depth_lt_object (List.mem_cons_of_mem _ (List.mem_singleton_self _))
  omega

/-- The value of a node decodes to the node, if that holds of the nodes inside. -/
theorem decode_nodeValue {child : Decoder Node} {n : Node}
    (h : ∀ m, (nodeValue m).depth < (nodeValue n).depth → child (nodeValue m) = .ok m) :
    (nodeVariants child).decode (nodeValue n) = .ok n := by
  cases n with
  | array items =>
    have htag : (nodeVariants child).ofTag arrayTag
        = .ok fun v => (itemsRecord.decode v).map Node.array := rfl
    refine (decode_taggedValue htag (List.forall_mem_singleton.mpr
      (show itemsKey ≠ tagKey by decide))).trans ?_
    rw [decode_items]
    rfl
  | object entries =>
    have htag : (nodeVariants child).ofTag objectTag
        = .ok fun v => ((entriesRecord child).decode v).map Node.object := rfl
    have hentries : ∀ e ∈ entries, child (nodeValue e.2) = .ok e.2 := fun e he =>
      h e.2 (depth_lt_object he)
    rw [nodeValue]
    refine (decode_taggedValue htag (List.forall_mem_singleton.mpr
      (show entriesKey ≠ tagKey by decide))).trans ?_
    rw [decode_entries hentries]
    rfl
  | function params body =>
    have htag : (nodeVariants child).ofTag functionTag = .ok decodeFunction := rfl
    rw [nodeValue]
    refine (decode_taggedValue htag ?_).trans (decode_function params body)
    exact List.forall_mem_cons.mpr ⟨show paramsKey ≠ tagKey by decide,
        List.forall_mem_singleton.mpr (show bodyKey ≠ tagKey by decide)⟩
  | _ => rfl

/-- A node is decoded from its value, with as many nodes inside each other as that is deep. -/
theorem decodeNode_nodeValue (k : Nat) (n : Node) (h : (nodeValue n).depth ≤ k) :
    decodeNode k (nodeValue n) = .ok n := by
  induction k generalizing n with
  | zero =>
    have hpos := (encodeNode_written n).depth_pos
    omega
  | succ k ih => exact decode_nodeValue fun m hm => ih m (by omega)

/-! ## 3. Drafts -/

theorem nodeVariants_ofTag (child : Decoder Node) (tag : String) :
    ∃ d, (nodeVariants child).ofTag tag = .ok d := by
  unfold Tagged.ofTag
  cases (nodeVariants child).variants.lookup tag with
  | none => exact ⟨decodeUnknown, rfl⟩
  | some d => exact ⟨d, rfl⟩

theorem reads_entry {levels : Nat} (hlevels : levels ≤ depthLimit) (e : String × Node)
    (rest : List Char) :
    Reads ((entryRecord (levels - 1)).read levels) (encodeEntry e ++ rest)
      ((entryValue e).depth < levels) e rest := by
  have hkey : ∀ rest, Reads (readMember (entryRecord (levels - 1)).fields (none, none) keyKey)
      (':' :: (quote e.1.toList ++ rest)) True (some e.1, none) rest := fun rest =>
    Reads.field rfl rfl rfl (Reads.done (string_quote textName e.1 rest))
  have hnode : ∀ rest, Reads (readMember (entryRecord (levels - 1)).fields (some e.1, none) nodeKey)
      (':' :: (encodeNode e.2 ++ rest)) ((nodeValue e.2).depth < levels - 1) (some e.1, some e.2)
      rest := fun rest =>
    Reads.field rfl rfl rfl ((encodeNode_written e.2).reads (nodeVariants_ofTag _)
      (fun hfits => decode_nodeValue fun m hm => decodeNode_nodeValue depthLimit m (by omega))
      rest)
  refine (Reads.record (Steps.cons hkey (Steps.cons hnode Steps.nil)) rfl rest).congr ?_
  rw [entryValue, Value.depth_object_lt_iff]
  simp only [List.forall_mem_cons, Value.depth_string, List.not_mem_nil, false_imp_iff,
    implies_true, and_true, true_and]
  exact and_congr_right fun _ => and_iff_right (by omega)

theorem reads_entries {levels : Nat} (hlevels : levels ≤ depthLimit) (es : List (String × Node))
    (rest : List Char) :
    Reads (list levels ((entryRecord (levels - 2)).read (levels - 1)))
      (array (encodeEntries es) ++ rest) ((Value.array (entryValues es)).depth < levels) es
      rest := by
  have hbegins : ∀ e ∈ es, Begins (encodeEntry e) := fun e _ =>
    ⟨'{', _, rfl, by decide, by decide⟩
  have hentry : ∀ e ∈ es, ∀ rest, Reads ((entryRecord (levels - 2)).read (levels - 1))
      (encodeEntry e ++ rest) ((entryValue e).depth < levels - 1) e rest := fun e _ rest =>
    reads_entry (by omega) e rest
  rw [encodeEntries_eq_map, entryValues_eq_map]
  have hall := Reads.list levels hbegins hentry rest
  rw [List.map_id'] at hall
  refine hall.congr ?_
  rw [Value.depth_array_lt_iff, List.forall_mem_map]

/-- A written draft is read, or found to be too deep. -/
theorem reads_encode {levels : Nat} (hlevels : levels ≤ depthLimit) (t : Tree) (rest : List Char) :
    Reads ((treeRecord (levels - 1)).read levels) ((encode t).toList ++ rest)
      ((treeValue t).depth < levels) t rest := by
  have hentries : ∀ rest, Reads (readMember (treeRecord (levels - 1)).fields none entriesKey)
      (':' :: (array (encodeEntries t) ++ rest))
      ((Value.array (entryValues t)).depth < levels - 1) (some t) rest := fun rest =>
    Reads.field rfl rfl rfl (reads_entries (by omega) t rest)
  rw [encode, String.toList_ofList]
  refine (Reads.record (Steps.cons hentries Steps.nil) rfl rest).congr ?_
  rw [treeValue, Value.depth_object_lt_iff, List.forall_mem_singleton, and_true]

/-- A draft is read as the tree that it was written for, unless it nests too deeply. -/
theorem decode_encode_of_nesting (t : Tree) :
    (nesting (encode t) < depthLimit → decode (encode t) = .ok t) ∧
      (depthLimit ≤ nesting (encode t) →
        ∃ e, decode (encode t) = .error e ∧ e.fault = .tooDeep) := by
  have hreads := reads_encode (Nat.le_refl depthLimit) t []
  rw [List.append_nil, ← nesting_encode] at hreads
  have hdocument := readDocument_of_reads hreads
  exact ⟨hdocument.1, fun hdeep => hdocument.2 (Nat.not_lt.mpr hdeep)⟩

end LocaleEditor.Draft
