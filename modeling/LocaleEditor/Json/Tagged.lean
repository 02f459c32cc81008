/-
LocaleEditor.Json.Tagged — values told apart by a tag.

A tagged value is an object that has its tag in the member `type`, or a
list whose first element is the tag. What remains without the tag is
decoded as the tag demands. All of it is read before any of it is
decoded, so that a fault inside has no place of its own.
-/
import LocaleEditor.Json.Record

namespace LocaleEditor.Json

/-- The key of the tag. -/
def tagKey : String := "type"

/-- What a message calls an expected tag. -/
def tagName : String := "variant identifier"

/-- A decoder of what remains of a value without its tag. -/
abbrev Decoder (α : Type) : Type := Value → Except Fault α

/-- The variants of a tagged value. -/
structure Tagged (α : Type) where
  /-- What a message calls the value. -/
  name : String
  /-- The decoders by tag, in order. -/
  variants : List (String × Decoder α)
  /-- The decoder for tags that are not listed. -/
  other : Option (Decoder α)

namespace Tagged

/-! ## 1. Tags -/

/-- The decoder that a tag stands for. -/
def ofTag {α : Type} (t : Tagged α) (tag : String) : Except Fault (Decoder α) :=
  match t.variants.lookup tag, t.other with
  | some d, _ => .ok d
  | none, some d => .ok d
  | none, none => .error (.unknownVariant tag (t.variants.map (·.1)))

/-- The decoder that the number of a variant stands for. -/
def ofIndex {α : Type} (t : Tagged α) (index : Nat) : Except Fault (Decoder α) :=
  match t.variants[index]?, t.other with
  | some (_, d), _ => .ok d
  | none, some d => .ok d
  | none, none =>
    .error (.wrongValue (integerName index)
      ("variant index 0 <= i < " ++ toString t.variants.length))

/-- The decoder that a tag inside a value stands for. -/
def ofValue {α : Type} (t : Tagged α) : Value → Except Fault (Decoder α)
  | .string tag => t.ofTag tag
  | .integer (.ofNat n) => t.ofIndex n
  | v => .error (.wrongType v.describe tagName)

/-! ## 2. Tagged values in a document -/

/-- Reads a tag. -/
def readTag {α : Type} (t : Tagged α) : Reader (Decoder α) :=
  Reader.located do
    let tag ← string tagName
    Reader.ofExcept (t.ofTag tag)

/-- Reads a member: the tag, or a member of what remains. These come last one first. -/
def readMember {α : Type} (t : Tagged α) (levels : Nat)
    (acc : Option (Decoder α) × List (String × Value)) (key : String) :
    Reader (Option (Decoder α) × List (String × Value)) :=
  if key = tagKey then
    match acc.1 with
    | some _ => Reader.refuse (.duplicateField tagKey)
    | none => do
      Reader.colon
      let d ← t.readTag
      pure (some d, acc.2)
  else do
    Reader.colon
    let v ← value levels
    pure (acc.1, (key, v) :: acc.2)

/-- Reads a tagged value as the decoder of its tag and what remains. -/
def readParts {α : Type} (t : Tagged α) (levels : Nat) : Reader (Decoder α × Value) :=
  byFirst fun
    | '[' => Reader.opening levels (Reader.closing Reader.closeList do
      if ← Reader.hasElement true then
        let d ← t.readTag
        let rest ← Reader.elements false (value (levels - 1))
        pure (d, .array rest)
      else Reader.refuse (.missingField tagKey))
    | '{' => Reader.opening levels (Reader.closing Reader.closeObject do
      let (tag, reversed) ← members (t.readMember (levels - 1)) (none, [])
      let d ← Reader.ofExcept (required tagKey tag)
      pure (d, .object reversed.reverse))
    | _ => mismatch t.name

/-- The tagged value in front. -/
def read {α : Type} (t : Tagged α) (levels : Nat) : Reader α := do
  let (d, rest) ← t.readParts levels
  Reader.ofExcept (d rest)

/-! ## 3. Tagged values in a value -/

/-- The decoder of the tag among members, and the other members. -/
def splitMembers {α : Type} (t : Tagged α) :
    List (String × Value) → Option (Decoder α) → Except Fault (Decoder α × List (String × Value))
  | [], tag => (required tagKey tag).map (·, [])
  | (key, v) :: rest, tag =>
    if key = tagKey then
      match tag with
      | some _ => .error (.duplicateField tagKey)
      | none => (t.ofValue v).bind fun d => t.splitMembers rest (some d)
    else (t.splitMembers rest tag).map fun (d, others) => (d, (key, v) :: others)

/-- The tagged value that a value is. -/
def decode {α : Type} (t : Tagged α) : Value → Except Fault α
  | .array [] => .error (.missingField tagKey)
  | .array (v :: rest) => (t.ofValue v).bind fun d => d (.array rest)
  | .object ms => (t.splitMembers ms none).bind fun (d, others) => d (.object others)
  | v => .error (.wrongType v.describe t.name)

end Tagged

end LocaleEditor.Json
