/-
LocaleEditor.Proofs.Json.Depth — how deeply a document nests.

Of a value this is `Value.depth`, and of a text `nesting`, which counts the
brackets that are open outside of strings and knows nothing of values. A quoted
text changes nothing about what is open (`Scan.run_quote`).
-/
import LocaleEditor.Json.Value
import LocaleEditor.Text.Quoted

namespace LocaleEditor.Json

open LocaleEditor.Text

/-! ## 1. Values -/

mutual

/-- How many lists and objects stand inside each other at most. -/
def Value.depth : Value → Nat
  | .array vs => elementsDepth vs + 1
  | .object ms => membersDepth ms + 1
  | _ => 0

/-- The greatest depth among elements. -/
def elementsDepth : List Value → Nat
  | [] => 0
  | v :: vs => max v.depth (elementsDepth vs)

/-- The greatest depth among the values of members. -/
def membersDepth : List (String × Value) → Nat
  | [] => 0
  | (_, v) :: ms => max v.depth (membersDepth ms)

end

@[simp] theorem Value.depth_string (s : String) : (Value.string s).depth = 0 := by
  simp [Value.depth]

theorem elementsDepth_le_iff {n : Nat} {vs : List Value} :
    elementsDepth vs ≤ n ↔ ∀ v ∈ vs, v.depth ≤ n := by
  induction vs with
  | nil => simp [elementsDepth]
  | cons v vs ih => rw [elementsDepth, Nat.max_le, ih, List.forall_mem_cons]

theorem membersDepth_eq (ms : List (String × Value)) :
    membersDepth ms = elementsDepth (ms.map Prod.snd) := by
  induction ms with
  | nil => rfl
  | cons m ms ih => rw [membersDepth, ih, List.map_cons, elementsDepth]

/-- An object is as deep as the list of its values. -/
theorem Value.depth_object (ms : List (String × Value)) :
    (Value.object ms).depth = (Value.array (ms.map Prod.snd)).depth := by
  rw [Value.depth, Value.depth, membersDepth_eq]

section Depth

variable {n : Nat} {v : Value} {vs : List Value} {key : String} {ms : List (String × Value)}

theorem Value.depth_lt_array (h : v ∈ vs) : v.depth < (Value.array vs).depth :=
  Nat.lt_succ_of_le (elementsDepth_le_iff.mp (Nat.le_refl _) v h)

theorem Value.depth_lt_object (h : (key, v) ∈ ms) : v.depth < (Value.object ms).depth := by
  rw [depth_object]
  exact depth_lt_array (List.mem_map_of_mem h)

theorem Value.depth_array_le (hpos : 0 < n) (h : ∀ v ∈ vs, v.depth < n) :
    (Value.array vs).depth ≤ n := by
  obtain ⟨k, rfl⟩ : ∃ k, n = k + 1 := ⟨n - 1, by omega⟩
  rw [Value.depth, Nat.add_le_add_iff_right, elementsDepth_le_iff]
  exact fun v hv => Nat.le_of_lt_succ (h v hv)

theorem Value.depth_object_le (hpos : 0 < n) (h : ∀ m ∈ ms, m.2.depth < n) :
    (Value.object ms).depth ≤ n := by
  rw [depth_object]
  exact depth_array_le hpos (List.forall_mem_map.mpr h)

/-- A list takes one of the levels that are left, and may not take the last one. -/
theorem Value.depth_array_lt_iff :
    (Value.array vs).depth < n ↔ 1 < n ∧ ∀ v ∈ vs, v.depth < n - 1 := by
  constructor
  · intro h
    have hpos : 0 < (Value.array vs).depth := Nat.succ_pos _
    refine ⟨by omega, fun v hv => ?_⟩
    have hv := depth_lt_array hv
    omega
  · rintro ⟨hn, h⟩
    have hle := depth_array_le (by omega) h
    omega

/-- So does an object. -/
theorem Value.depth_object_lt_iff :
    (Value.object ms).depth < n ↔ 1 < n ∧ ∀ m ∈ ms, m.2.depth < n - 1 := by
  rw [depth_object, depth_array_lt_iff, List.forall_mem_map]

end Depth

/-! ## 2. Texts -/

/-- Where a scan of a text stands: whether inside a string, whether after a backslash there, how
many brackets are open, and how many were at most. -/
structure Scan where
  quoted : Bool
  escaped : Bool
  opened : Nat
  deepest : Nat

namespace Scan

/-- One character further. -/
def step (s : Scan) (c : Char) : Scan :=
  if s.escaped then { s with escaped := false }
  else if s.quoted then
    if c = '\\' then { s with escaped := true }
    else if c = '"' then { s with quoted := false }
    else s
  else if c = '"' then { s with quoted := true }
  else if c = '[' ∨ c = '{' then
    { s with opened := s.opened + 1, deepest := max s.deepest (s.opened + 1) }
  else if c = ']' ∨ c = '}' then { s with opened := s.opened - 1 }
  else s

/-- Over a whole text. -/
def run (s : Scan) (text : List Char) : Scan := text.foldl step s

/-- Outside of strings. -/
def outside (opened deepest : Nat) : Scan := ⟨false, false, opened, deepest⟩

end Scan

/-- How many brackets of a text are open at once at most, those inside strings apart. -/
def nesting (text : String) : Nat := ((Scan.outside 0 0).run text.toList).deepest

namespace Scan

theorem run_append (s : Scan) (a b : List Char) : s.run (a ++ b) = (s.run a).run b :=
  List.foldl_append

theorem hexChar_plain : ∀ n < 16, hexChar n ≠ '"' ∧ hexChar n ≠ '\\' := by decide

/-- A string goes on after the way a character is written in it. -/
theorem run_quoteChar (opened deepest : Nat) (c : Char) :
    run ⟨true, false, opened, deepest⟩ (quoteChar c) = ⟨true, false, opened, deepest⟩ := by
  unfold quoteChar
  split
  iterate 7 rfl
  rename_i hquote hback _ _ _ _ _
  split
  · rename_i hlow
    have hhigh := hexChar_plain (c.toNat / 16) (by omega)
    have hdigit := hexChar_plain (c.toNat % 16) (by omega)
    simp [run, step, hhigh, hdigit]
  · have hquote : c ≠ '"' := hquote
    have hback : c ≠ '\\' := hback
    simp [run, step, hquote, hback]

theorem run_quote (opened deepest : Nat) (cs : List Char) :
    (outside opened deepest).run (quote cs) = outside opened deepest := by
  have hinside : run ⟨true, false, opened, deepest⟩ (cs.flatMap quoteChar)
      = ⟨true, false, opened, deepest⟩ := by
    induction cs with
    | nil => rfl
    | cons c cs ih => rw [List.flatMap_cons, run_append, run_quoteChar, ih]
  have hopen : (outside opened deepest).run ['"'] = ⟨true, false, opened, deepest⟩ := rfl
  have hclose : run ⟨true, false, opened, deepest⟩ ['"'] = outside opened deepest := rfl
  rw [quote, ← List.singleton_append, List.append_assoc, run_append, hopen, run_append, hinside,
    hclose]

/-- Brackets open one more than what stands between them. -/
theorem run_brackets {open' close : Char} {text : List Char} {opened deepest depth : Nat}
    (hbrackets : open' = '[' ∧ close = ']' ∨ open' = '{' ∧ close = '}')
    (h : ∀ deepest, opened + 1 ≤ deepest → (outside (opened + 1) deepest).run text
      = outside (opened + 1) (max deepest (opened + 1 + depth))) :
    (outside opened deepest).run (open' :: text ++ [close])
      = outside opened (max deepest (opened + (depth + 1))) := by
  have hopen : (outside opened deepest).run [open']
      = outside (opened + 1) (max deepest (opened + 1)) := by
    rcases hbrackets with ⟨rfl, -⟩ | ⟨rfl, -⟩ <;> rfl
  have hclose : ∀ deepest, (outside (opened + 1) deepest).run [close] = outside opened deepest := by
    rcases hbrackets with ⟨-, rfl⟩ | ⟨-, rfl⟩ <;> exact fun _ => rfl
  have hmax : max (max deepest (opened + 1)) (opened + 1 + depth)
      = max deepest (opened + (depth + 1)) := by omega
  rw [← List.singleton_append, List.append_assoc, run_append, hopen, run_append,
    h _ (Nat.le_max_right deepest (opened + 1)), hclose, hmax]

end Scan

end LocaleEditor.Json
