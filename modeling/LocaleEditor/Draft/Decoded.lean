/-
LocaleEditor.Draft.Decoded — drafts from their written form.

The entries of the draft itself are read from the text one by one. The
nodes below them are decoded from values, since the members of a node
can be understood only when its kind is known. A node of a kind that is
not listed is unknown, whatever else it holds.
-/
import LocaleEditor.Draft.Encoded
import LocaleEditor.Json.Tagged

namespace LocaleEditor.Draft

open LocaleEditor.Json

/-! ## 1. Texts and items -/

/-- A record with one text. -/
def textRecord (name key : String) : Record (Value → Except Fault (Option String → Option String))
    (Option String) String where
  name := name
  fields := [.decoding key id (fun s _ => some s) Value.text]
  start := none
  complete := true
  finish := required key

/-- The variant of a tagged value that holds one text. -/
def textVariant {α : Type} (tag kind variant key : String) (make : String → α) :
    String × Decoder α :=
  (tag, fun v =>
    ((textRecord ("struct variant " ++ kind ++ "::" ++ variant) key).decode v).map make)

/-- The variants that hold one text and stand for a value. -/
def valueVariants {α : Type} (kind : String)
    (makeLiteral makeTemplate makeVariable : String → α) : List (String × Decoder α) :=
  [textVariant literalTag kind "StringLiteral" valueKey makeLiteral,
    textVariant templateTag kind "StringTemplate" valueKey makeTemplate,
    textVariant variableTag kind "Variable" nameKey makeVariable]

/-- What a message calls a tagged value. -/
def taggedName (kind : String) : String := "internally tagged enum " ++ kind

/-- The items of an array. -/
def itemVariants : Tagged Item where
  name := taggedName "ArrayItem"
  variants := valueVariants "ArrayItem" .literal .template .variable
  other := none

/-- A record with a list of items. -/
def itemsRecord : Record (Value → Except Fault (Option (List Item) → Option (List Item)))
    (Option (List Item)) (List Item) where
  name := "struct ArrayNode"
  fields := [.decoding itemsKey id (fun items _ => some items) (Value.list itemVariants.decode)]
  start := none
  complete := true
  finish := required itemsKey

/-! ## 2. Functions -/

/-- Two parts of a record, as far as they were read. -/
abbrev Parts (α β : Type) : Type := Option α × Option β

/-- Both parts of a record. -/
def requiredParts {α β γ : Type} (first second : String) (make : α → β → γ) (p : Parts α β) :
    Except Fault γ := do
  let a ← required first p.1
  let b ← required second p.2
  pure (make a b)

/-- A record with two parts that are decoded. -/
def partsRecord {α β γ : Type} (name first second : String) (decodeFirst : Decoder α)
    (decodeSecond : Decoder β) (make : α → β → γ) :
    Record (Value → Except Fault (Parts α β → Parts α β)) (Parts α β) γ where
  name := name
  fields := [.decoding first (·.1) (fun a p => (some a, p.2)) decodeFirst,
    .decoding second (·.2) (fun b p => (p.1, some b)) decodeSecond]
  start := (none, none)
  complete := true
  finish := requiredParts first second make

/-- A parameter. -/
def decodeParam : Decoder Param :=
  (partsRecord "struct FunctionParam" nameKey typeKey Value.text Value.text Param.mk).decode

/-- The bodies of a function. -/
def bodyVariants : Tagged Body where
  name := taggedName "FunctionBody"
  variants :=
    valueVariants "FunctionBody" .literal .template .variable
      ++ [(arrayTag, fun v => (itemsRecord.decode v).map .array),
        textVariant blockTag "FunctionBody" "BlockExpression" textKey .block]
  other := none

/-- A function. -/
def decodeFunction : Decoder Node :=
  (partsRecord "struct FunctionNode" paramsKey bodyKey (Value.list decodeParam)
    bodyVariants.decode Node.function).decode

/-! ## 3. Nodes -/

/-- What a message calls an entry. -/
def entryName : String := "struct Keyed"

/-- What a message calls a list of entries. -/
def objectName : String := "struct ObjectNode"

/-- A record with a list of entries, with nodes decoded by `child`. -/
def entriesRecord (child : Decoder Node) :
    Record (Value → Except Fault (Option Tree → Option Tree)) (Option Tree) Tree where
  name := objectName
  fields := [.decoding entriesKey id (fun es _ => some es)
    (Value.list (partsRecord entryName keyKey nodeKey Value.text child Prod.mk).decode)]
  start := none
  complete := true
  finish := required entriesKey

/-- What remains of a node of unknown kind: any members, but no elements. -/
def decodeUnknown : Decoder Node
  | .array (_ :: vs) => .error (.wrongLength (vs.length + 1) "0 elements in sequence")
  | _ => .ok .unknown

/-- The nodes, with those inside them decoded by `child`. -/
def nodeVariants (child : Decoder Node) : Tagged Node where
  name := taggedName "TranslationNode"
  variants :=
    valueVariants "TranslationNode" .literal .template .variable
      ++ [(arrayTag, fun v => (itemsRecord.decode v).map .array),
        (objectTag, fun v => ((entriesRecord child).decode v).map .object),
        (functionTag, decodeFunction),
        (unknownTag, decodeUnknown)]
  other := some decodeUnknown

/-- The node that a value is, with at most as many nodes inside each other as given. -/
def decodeNode : Nat → Decoder Node
  | 0, _ => .error .tooDeep
  | n + 1, v => (nodeVariants (decodeNode n)).decode v

/-! ## 4. Drafts -/

/-- An entry of the draft itself. -/
def entryRecord (levels : Nat) :
    Record (Reader (Parts String Node → Parts String Node)) (Parts String Node)
      (String × Node) where
  name := entryName
  fields := [.reading keyKey (·.1) (fun k p => (some k, p.2)) text,
    .reading nodeKey (·.2) (fun n p => (p.1, some n))
      ((nodeVariants (decodeNode depthLimit)).read levels)]
  start := (none, none)
  complete := true
  finish := requiredParts keyKey nodeKey Prod.mk

/-- The draft itself. -/
def treeRecord (levels : Nat) : Record (Reader (Option Tree → Option Tree)) (Option Tree) Tree where
  name := objectName
  fields := [.reading entriesKey id (fun es _ => some es)
    (list levels ((entryRecord (levels - 2)).read (levels - 1)))]
  start := none
  complete := true
  finish := required entriesKey

/-- The draft that a text is. -/
def decode (document : String) : Except DocumentError Tree :=
  readDocument ((treeRecord (depthLimit - 1)).read depthLimit) document

/-- What is said of a text that is no draft. -/
def invalidMessage (e : DocumentError) : String := "Invalid draft: " ++ e.message

end LocaleEditor.Draft
