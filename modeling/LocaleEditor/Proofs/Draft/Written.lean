/-
LocaleEditor.Proofs.Draft.Written — the JSON value that a draft writes.

The writer of drafts puts characters together, and its reader takes values
apart. `Written v text` stands between them: the text is how the value `v` is
written. Such a text is read as `v`, as far as the levels allow (`Written.reads`),
and nests as deeply as `v` (`Written.run`). `nodeValue` and `treeValue` are what
a node and a tree are as values, and they are written by `encodeNode` and
`encode` (`encodeNode_written`, `encode_written`).
-/
import LocaleEditor.Draft.Decoded
import LocaleEditor.Proofs.Json.Depth
import LocaleEditor.Proofs.Json.Reads

namespace LocaleEditor.Draft

open LocaleEditor.Json LocaleEditor.Text

variable {α γ : Type} {v : Value} {text rest : List Char}

/-! ## 1. Written values -/

/-- The text is how the value is written, which has neither white space nor numbers. -/
inductive Written : Value → List Char → Prop
  | text (s : String) : Written (.string s) (quote s.toList)
  | array {γ : Type} {xs : List γ} {value : γ → Value} {write : γ → List Char}
      (h : ∀ x ∈ xs, Written (value x) (write x)) :
      Written (.array (xs.map value)) (array (xs.map write))
  | object {γ : Type} {xs : List γ} {key : γ → String} {value : γ → Value}
      {write : γ → List Char} (h : ∀ x ∈ xs, Written (value x) (write x)) :
      Written (.object (xs.map fun x => (key x, value x)))
        (object (xs.map fun x => member (key x) (write x)))

theorem Written.begins (h : Written v text) : Begins text := by
  cases h with
  | text s => exact ⟨'"', _, rfl, by decide, by decide⟩
  | array h => exact ⟨'[', _, rfl, by decide, by decide⟩
  | object h => exact ⟨'{', _, rfl, by decide, by decide⟩

/-- Without a level nothing is read, not even a text. -/
theorem reads_zero (s : List Char) : Reads (value 0) s (v.depth < 0) v rest :=
  ⟨fun hlt => absurd hlt (Nat.not_lt_zero _), fun _ => ⟨_, _, rfl⟩⟩

/-- A written value is read from the front of any text. -/
theorem Written.reads (h : Written v text) (levels : Nat) (rest : List Char) :
    Reads (value levels) (text ++ rest) (v.depth < levels) v rest := by
  induction h generalizing levels rest with
  | text s =>
    obtain _ | n := levels
    · exact reads_zero _
    · have hscalar : Reads scalar (quote s.toList ++ rest) True (.string s) rest :=
        Reads.after rfl ((Reads.done (quoted_quote s rest)).map Value.string)
      exact (Reads.byFirst rfl hscalar).congr (by simp [Value.depth])
  | array h ih =>
    obtain _ | n := levels
    · exact reads_zero _
    · have helements := Reads.array (n + 1) (fun x hx => (h x hx).begins)
        (fun x hx rest => ih x hx n rest) rest
      exact (Reads.byFirst rfl (helements.map Value.array)).congr
        (by rw [Value.depth_array_lt_iff, List.forall_mem_map, Nat.add_sub_cancel])
  | @object γ xs key _ _ h ih =>
    obtain _ | n := levels
    · exact reads_zero _
    · have hmembers := Reads.object (n + 1) (Reads.pairs key (fun x hx rest => ih x hx n rest) rest)
      exact (Reads.byFirst rfl (hmembers.map Value.object)).congr
        (by rw [Value.depth_object_lt_iff, List.forall_mem_map, Nat.add_sub_cancel])

/-! ## 2. Nesting -/

/-- Parts with commas between them nest as deeply as the deepest of them. -/
theorem run_commas {xs : List γ} {value : γ → Value} {write : γ → List Char} {opened deepest : Nat}
    (h : ∀ x ∈ xs, ∀ deepest, opened ≤ deepest → (Scan.outside opened deepest).run (write x)
      = Scan.outside opened (max deepest (opened + (value x).depth)))
    (hle : opened ≤ deepest) :
    (Scan.outside opened deepest).run (commas (xs.map write))
      = Scan.outside opened (max deepest (opened + elementsDepth (xs.map value))) := by
  induction xs generalizing deepest with
  | nil =>
    have hmax : max deepest opened = deepest := by omega
    simp [commas, Scan.run, elementsDepth, hmax]
  | cons x xs ih =>
    have hx := h x List.mem_cons_self deepest hle
    cases xs with
    | nil => simpa [commas, elementsDepth] using hx
    | cons y ys =>
      have hrest := ih (fun z hz => h z (List.mem_cons_of_mem x hz))
        (Nat.le_trans hle (Nat.le_max_left deepest (opened + (value x).depth)))
      have hcomma : ∀ deepest,
          (Scan.outside opened deepest).run [','] = Scan.outside opened deepest := fun _ => rfl
      have htext : commas ((x :: y :: ys).map write)
          = write x ++ ([','] ++ commas ((y :: ys).map write)) := rfl
      have hmax : max (max deepest (opened + (value x).depth))
            (opened + elementsDepth ((y :: ys).map value))
          = max deepest (opened + elementsDepth ((x :: y :: ys).map value)) := by
        simp only [List.map_cons, elementsDepth]
        omega
      rw [htext, Scan.run_append, Scan.run_append, hx, hcomma, hrest, hmax]

/-- A written value leaves as many brackets open as there were, and opens as many more inside as
the value is deep. -/
theorem Written.run (h : Written v text) {opened deepest : Nat} (hle : opened ≤ deepest) :
    (Scan.outside opened deepest).run text
      = Scan.outside opened (max deepest (opened + v.depth)) := by
  induction h generalizing opened deepest with
  | text s =>
    have hmax : max deepest (opened + 0) = deepest := by omega
    rw [Scan.run_quote, Value.depth_string, hmax]
  | @array γ xs value write h ih =>
    rw [Value.depth]
    exact Scan.run_brackets (.inl ⟨rfl, rfl⟩) fun deepest hle =>
      run_commas (fun x hx deepest hle => ih x hx hle) hle
  | @object γ xs key value write h ih =>
    have hmember : ∀ x ∈ xs, ∀ deepest, opened + 1 ≤ deepest →
        (Scan.outside (opened + 1) deepest).run (member (key x) (write x))
          = Scan.outside (opened + 1) (max deepest (opened + 1 + (value x).depth)) := by
      intro x hx deepest hle
      have hcolon : (Scan.outside (opened + 1) deepest).run [':']
          = Scan.outside (opened + 1) deepest := rfl
      rw [member, ← List.singleton_append, Scan.run_append, Scan.run_quote, Scan.run_append, hcolon,
        ih x hx hle]
    have hvalues : (xs.map fun x => (key x, value x)).map Prod.snd = xs.map value := by simp
    rw [Value.depth_object, hvalues, Value.depth]
    exact Scan.run_brackets (.inr ⟨rfl, rfl⟩) fun deepest hle => run_commas hmember hle

/-! ## 3. Tagged values -/

/-- An object that begins with its tag. -/
def taggedValue (tag : String) (ms : List (String × Value)) : Value :=
  .object ((tagKey, .string tag) :: ms)

/-- A tag makes an object no deeper. -/
theorem depth_taggedValue (tag : String) (ms : List (String × Value)) :
    (taggedValue tag ms).depth = (Value.object ms).depth := by
  simp [taggedValue, Value.depth, membersDepth]

/-- A member of an object and how its value is written. -/
structure Part where
  key : String
  value : Value
  text : List Char

/-- The text is how a tagged object is written whose tag comes first and has its key for itself. -/
inductive WrittenTagged : Value → List Char → Prop
  | intro (tag : String) (parts : List Part) (hkeys : ∀ p ∈ parts, p.key ≠ tagKey)
      (h : ∀ p ∈ parts, Written p.value p.text) :
      WrittenTagged (taggedValue tag (parts.map fun p => (p.key, p.value)))
        (tagged tag (parts.map fun p => member p.key p.text))

theorem written_parts {parts : List Part} (h : ∀ p ∈ parts, Written p.value p.text) :
    Written (.object (parts.map fun p => (p.key, p.value)))
      (object (parts.map fun p => member p.key p.text)) :=
  .object h

theorem WrittenTagged.written (h : WrittenTagged v text) : Written v text := by
  obtain ⟨tag, parts, -, h⟩ := h
  let tagPart : Part := ⟨tagKey, .string tag, quote tag.toList⟩
  have hparts : ∀ p ∈ tagPart :: parts, Written p.value p.text :=
    List.forall_mem_cons.mpr ⟨.text tag, h⟩
  exact written_parts hparts

theorem WrittenTagged.depth_pos (h : WrittenTagged v text) : 0 < v.depth := by
  obtain ⟨tag, parts, -, -⟩ := h
  exact Nat.succ_pos _

theorem splitMembers_append {t : Tagged α} {ms : List (String × Value)}
    (hkeys : ∀ m ∈ ms, m.1 ≠ tagKey) (rest : List (String × Value)) (tag : Option (Decoder α)) :
    t.splitMembers (ms ++ rest) tag
      = (t.splitMembers rest tag).map fun (d, others) => (d, ms ++ others) := by
  induction ms with
  | nil => cases h : t.splitMembers rest tag <;> simp [h, Except.map]
  | cons m ms ih =>
    obtain ⟨hkey, hkeys⟩ := List.forall_mem_cons.mp hkeys
    rw [List.cons_append, Tagged.splitMembers.eq_def]
    dsimp only
    rw [if_neg hkey, ih hkeys]
    cases t.splitMembers rest tag <;> rfl

/-- A tagged object gives what its tag demands of its other members. -/
theorem decode_tagged {t : Tagged α} {tag : String} {d : Decoder α}
    {before after : List (String × Value)} (htag : t.ofTag tag = .ok d)
    (hkeys : ∀ m ∈ before ++ after, m.1 ≠ tagKey) :
    t.decode (.object (before ++ (tagKey, .string tag) :: after))
      = d (.object (before ++ after)) := by
  obtain ⟨hbefore, hafter⟩ := List.forall_mem_append.mp hkeys
  have hrest : t.splitMembers (after ++ []) (some d) = .ok (d, after ++ []) :=
    splitMembers_append hafter [] (some d)
  rw [List.append_nil] at hrest
  show (t.splitMembers (before ++ (tagKey, .string tag) :: after) none).bind _ = _
  rw [splitMembers_append hbefore, Tagged.splitMembers, if_pos rfl]
  dsimp only
  rw [Tagged.ofValue, htag, Except.bind, hrest]
  rfl

theorem decode_taggedValue {t : Tagged α} {tag : String} {d : Decoder α}
    {ms : List (String × Value)} (htag : t.ofTag tag = .ok d) (hkeys : ∀ m ∈ ms, m.1 ≠ tagKey) :
    t.decode (taggedValue tag ms) = d (.object ms) :=
  decode_tagged htag (List.forall_mem_append.mpr ⟨List.forall_mem_nil _, hkeys⟩)

/-- A tagged object is read as the value that it decodes to. -/
theorem WrittenTagged.reads {t : Tagged α} {a : α} {levels : Nat} (h : WrittenTagged v text)
    (htags : ∀ tag, ∃ d, t.ofTag tag = .ok d) (hdecode : v.depth < levels → t.decode v = .ok a)
    (rest : List Char) : Reads (t.read levels) (text ++ rest) (v.depth < levels) a rest := by
  obtain ⟨tag, parts, hkeys, h⟩ := h
  obtain ⟨d, htag⟩ := htags tag
  have hkeys' : ∀ m ∈ parts.map fun p => (p.key, p.value), m.1 ≠ tagKey :=
    List.forall_mem_map.mpr hkeys
  have hparts := Reads.parts levels htag hkeys
    (fun p hp rest => (h p hp).reads (levels - 1) rest) rest
  have hdepth : (taggedValue tag (parts.map fun p => (p.key, p.value))).depth < levels
      ↔ 1 < levels ∧ ∀ p ∈ parts, p.value.depth < levels - 1 := by
    rw [depth_taggedValue, Value.depth_object_lt_iff, List.forall_mem_map]
  refine (hparts.congr hdepth).before fun hfits => Reads.ofExcept ?_ rest
  rw [← decode_taggedValue htag hkeys']
  exact hdecode hfits

/-! ## 4. Nodes as values -/

def textValue (tag key text : String) : Value := taggedValue tag [(key, .string text)]

theorem depth_textValue (tag key text : String) : (textValue tag key text).depth = 1 := by
  simp [textValue, depth_taggedValue, Value.depth, membersDepth]

def itemValue : Item → Value
  | .literal v => textValue literalTag valueKey v
  | .template v => textValue templateTag valueKey v
  | .variable n => textValue variableTag nameKey n

def itemsValue (items : List Item) : Value :=
  taggedValue arrayTag [(itemsKey, .array (items.map itemValue))]

def bodyValue : Body → Value
  | .literal v => textValue literalTag valueKey v
  | .template v => textValue templateTag valueKey v
  | .variable n => textValue variableTag nameKey n
  | .array items => itemsValue items
  | .block t => textValue blockTag textKey t

def paramValue (p : Param) : Value :=
  .object [(nameKey, .string p.name), (typeKey, .string p.type)]

mutual

def nodeValue : Node → Value
  | .literal v => textValue literalTag valueKey v
  | .template v => textValue templateTag valueKey v
  | .variable n => textValue variableTag nameKey n
  | .array items => itemsValue items
  | .object entries => taggedValue objectTag [(entriesKey, .array (entryValues entries))]
  | .function params body =>
    taggedValue functionTag [(paramsKey, .array (params.map paramValue)),
      (bodyKey, bodyValue body)]
  | .unknown => taggedValue unknownTag []

/-- Each entry as a value. -/
def entryValues : List (String × Node) → List Value
  | [] => []
  | (k, n) :: r => .object [(keyKey, .string k), (nodeKey, nodeValue n)] :: entryValues r

end

def treeValue (t : Tree) : Value := .object [(entriesKey, .array (entryValues t))]

/-! ## 5. The written form of nodes -/

theorem taggedText_written {tag key : String} (hkey : key ≠ tagKey) (text : String) :
    WrittenTagged (textValue tag key text) (taggedText tag key text) :=
  .intro tag [⟨key, _, _⟩] (List.forall_mem_singleton.mpr hkey)
    (List.forall_mem_singleton.mpr (.text text))

theorem encodeItem_written (i : Item) : WrittenTagged (itemValue i) (encodeItem i) := by
  cases i <;> exact taggedText_written (by decide) _

theorem encodeItems_written (items : List Item) :
    WrittenTagged (itemsValue items) (encodeItems items) :=
  .intro arrayTag [⟨itemsKey, _, _⟩]
    (List.forall_mem_singleton.mpr (show itemsKey ≠ tagKey by decide))
    (List.forall_mem_singleton.mpr (.array fun i _ => (encodeItem_written i).written))

theorem encodeBody_written (b : Body) : WrittenTagged (bodyValue b) (encodeBody b) := by
  cases b with
  | array items => exact encodeItems_written items
  | _ => exact taggedText_written (by decide) _

theorem written_pair {k₁ k₂ : String} {v₁ v₂ : Value} {t₁ t₂ : List Char} (h₁ : Written v₁ t₁)
    (h₂ : Written v₂ t₂) :
    Written (.object [(k₁, v₁), (k₂, v₂)]) (object [member k₁ t₁, member k₂ t₂]) := by
  have hparts : ∀ p ∈ [(⟨k₁, v₁, t₁⟩ : Part), ⟨k₂, v₂, t₂⟩], Written p.value p.text :=
    List.forall_mem_cons.mpr ⟨h₁, List.forall_mem_singleton.mpr h₂⟩
  exact written_parts hparts

theorem encodeParam_written (p : Param) : Written (paramValue p) (encodeParam p) :=
  written_pair (.text p.name) (.text p.type)

def entryValue (e : String × Node) : Value :=
  .object [(keyKey, .string e.1), (nodeKey, nodeValue e.2)]

def encodeEntry (e : String × Node) : List Char :=
  object [member keyKey (quote e.1.toList), member nodeKey (encodeNode e.2)]

theorem entryValues_eq_map (es : List (String × Node)) : entryValues es = es.map entryValue := by
  induction es with
  | nil => rfl
  | cons e es ih => rw [entryValues, ih, List.map_cons, entryValue]

theorem encodeEntries_eq_map (es : List (String × Node)) :
    encodeEntries es = es.map encodeEntry := by
  induction es with
  | nil => rfl
  | cons e es ih => rw [encodeEntries, ih, List.map_cons, encodeEntry]

/-- Entries are written if their nodes are. -/
theorem written_entries {es : List (String × Node)}
    (h : ∀ e ∈ es, Written (nodeValue e.2) (encodeNode e.2)) :
    Written (.array (entryValues es)) (array (encodeEntries es)) := by
  rw [entryValues_eq_map, encodeEntries_eq_map]
  exact .array fun e he => written_pair (.text e.1) (h e he)

mutual

theorem encodeNode_written : ∀ n : Node, WrittenTagged (nodeValue n) (encodeNode n)
  | .literal v => taggedText_written (by decide) v
  | .template v => taggedText_written (by decide) v
  | .variable n => taggedText_written (by decide) n
  | .array items => encodeItems_written items
  | .object entries => by
    rw [nodeValue, encodeNode]
    exact .intro objectTag [⟨entriesKey, _, _⟩]
      (List.forall_mem_singleton.mpr (show entriesKey ≠ tagKey by decide))
      (List.forall_mem_singleton.mpr (written_entries (encodeEntries_written entries)))
  | .function params body => by
    have hparams : Written (.array (params.map paramValue)) (array (params.map encodeParam)) :=
      .array fun p _ => encodeParam_written p
    rw [nodeValue, encodeNode]
    exact .intro functionTag [⟨paramsKey, _, _⟩, ⟨bodyKey, _, _⟩]
      (List.forall_mem_cons.mpr ⟨show paramsKey ≠ tagKey by decide,
        List.forall_mem_singleton.mpr (show bodyKey ≠ tagKey by decide)⟩)
      (List.forall_mem_cons.mpr ⟨hparams,
        List.forall_mem_singleton.mpr (encodeBody_written body).written⟩)
  | .unknown => .intro unknownTag [] (List.forall_mem_nil _) (List.forall_mem_nil _)

theorem encodeEntries_written :
    ∀ es : List (String × Node), ∀ e ∈ es, Written (nodeValue e.2) (encodeNode e.2)
  | [], _, he => absurd he List.not_mem_nil
  | (k, n) :: es, e, he => by
    obtain rfl | he := List.mem_cons.mp he
    · exact (encodeNode_written n).written
    · exact encodeEntries_written es e he

end

/-- A draft is how its tree is written as a value. -/
theorem encode_written (t : Tree) : Written (treeValue t) (encode t).toList := by
  rw [encode, String.toList_ofList]
  have hparts : ∀ p ∈ [(⟨entriesKey, .array (entryValues t), array (encodeEntries t)⟩ : Part)],
      Written p.value p.text :=
    List.forall_mem_singleton.mpr (written_entries (encodeEntries_written t))
  exact written_parts hparts

theorem nesting_encode (t : Tree) : nesting (encode t) = (treeValue t).depth := by
  rw [nesting, (encode_written t).run (Nat.le_refl 0)]
  simp [Scan.outside]

end LocaleEditor.Draft
