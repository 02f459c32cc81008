/-
LocaleEditor.Json.Record — records with named fields.

A record is an object whose members are its fields in any order, or a
list of its fields in their order. Members of other names are read over.
A field may be read from the document or from a value that was read
before, so that `Field` leaves open how it is read.
-/
import LocaleEditor.Json.Typed

namespace LocaleEditor.Json

/-! ## 1. Fields -/

/-- A field of a record that is kept in `σ` while the record is read: its name, whether it was
read, and how to read it. -/
structure Field (ρ σ : Type) where
  name : String
  isSet : σ → Bool
  read : ρ

/-- What a message calls a record of `n` fields that is given as a list. -/
def withElements (expected : String) (n : Nat) : String :=
  expected ++ " with " ++ toString n ++ (if n = 1 then " element" else " elements")

/-- How a record is put together. -/
structure Record (ρ σ α : Type) where
  /-- What a message calls it. -/
  name : String
  fields : List (Field ρ σ)
  start : σ
  /-- Whether a list has to hold all fields. -/
  complete : Bool
  /-- The record from the fields that were read. -/
  finish : σ → Except Fault α

/-- A field read by `p` and kept by `set`. -/
def Field.reading {α σ : Type} (name : String) (get : σ → Option α) (set : α → σ → σ)
    (p : Reader α) : Field (Reader (σ → σ)) σ where
  name := name
  isSet acc := (get acc).isSome
  read := do
    let a ← p
    pure (set a)

/-- A field decoded by `d` and kept by `set`. -/
def Field.decoding {α σ : Type} (name : String) (get : σ → Option α) (set : α → σ → σ)
    (d : Value → Except Fault α) : Field (Value → Except Fault (σ → σ)) σ where
  name := name
  isSet acc := (get acc).isSome
  read v := (d v).map set

/-- The value of a field, which has to be there. -/
def required {α : Type} (name : String) : Option α → Except Fault α
  | some a => .ok a
  | none => .error (.missingField name)

/-! ## 2. Records in a document -/

/-- Reads the fields of a list; `index` counts those before. -/
def readInOrder {σ : Type} (name : String) (count : Nat) (complete : Bool) :
    List (Field (Reader (σ → σ)) σ) → Nat → σ → Reader σ
  | [], _, acc => pure acc
  | f :: fs, index, acc => do
    if ← Reader.hasElement (index = 0) then
      let change ← f.read
      readInOrder name count complete fs (index + 1) (change acc)
    else if complete then Reader.refuse (.wrongLength index (withElements name count))
    else pure acc

/-- Reads the member with this key. -/
def readMember {σ : Type} (fields : List (Field (Reader (σ → σ)) σ)) (acc : σ) (key : String) :
    Reader σ :=
  match fields.find? (·.name = key) with
  | some f =>
    if f.isSet acc then Reader.refuse (.duplicateField key)
    else do
      Reader.colon
      let change ← f.read
      pure (change acc)
  | none => do
    Reader.colon
    skip
    pure acc

/-- The record in front. -/
def Record.read {σ α : Type} (levels : Nat) (r : Record (Reader (σ → σ)) σ α) : Reader α :=
  byFirst fun
    | '[' => Reader.opening levels (Reader.closing Reader.closeList do
      let acc ← readInOrder r.name r.fields.length r.complete r.fields 0 r.start
      Reader.ofExcept (r.finish acc))
    | '{' => Reader.opening levels (Reader.closing Reader.closeObject do
      let acc ← members (readMember r.fields) r.start
      Reader.ofExcept (r.finish acc))
    | _ => mismatch r.name

/-! ## 3. Records in a value -/

/-- Decodes the fields of a list; `index` counts those before. A list has no further elements. -/
def decodeInOrder {σ : Type} (name : String) (count : Nat) :
    List (Field (Value → Except Fault (σ → σ)) σ) → List Value → Nat → σ → Except Fault σ
  | [], [], _, acc => .ok acc
  | [], rest, index, _ =>
    .error (.wrongLength (index + rest.length)
      (toString index ++ (if index = 1 then " element" else " elements") ++ " in sequence"))
  | _ :: _, [], index, _ => .error (.wrongLength index (withElements name count))
  | f :: fs, v :: rest, index, acc =>
    match f.read v with
    | .error fault => .error fault
    | .ok change => decodeInOrder name count fs rest (index + 1) (change acc)

/-- Decodes the members of an object. -/
def decodeMembers {σ : Type} (fields : List (Field (Value → Except Fault (σ → σ)) σ)) :
    List (String × Value) → σ → Except Fault σ
  | [], acc => .ok acc
  | (key, v) :: rest, acc =>
    match fields.find? (·.name = key) with
    | none => decodeMembers fields rest acc
    | some f =>
      if f.isSet acc then .error (.duplicateField key)
      else
        match f.read v with
        | .error fault => .error fault
        | .ok change => decodeMembers fields rest (change acc)

/-- The record that a value is. -/
def Record.decode {σ α : Type} (r : Record (Value → Except Fault (σ → σ)) σ α) :
    Value → Except Fault α
  | .array vs => (decodeInOrder r.name r.fields.length r.fields vs 0 r.start).bind r.finish
  | .object ms => (decodeMembers r.fields ms r.start).bind r.finish
  | v => .error (.wrongType v.describe r.name)

/-! ## 4. Decoding values -/

/-- The text that a value is. -/
def Value.text : Value → Except Fault String
  | .string s => .ok s
  | v => .error (.wrongType v.describe textName)

/-- The list that a value is, with elements decoded by `d`. -/
def Value.list {α : Type} (d : Value → Except Fault α) : Value → Except Fault (List α)
  | .array vs => vs.mapM d
  | v => .error (.wrongType v.describe sequenceName)

end LocaleEditor.Json
