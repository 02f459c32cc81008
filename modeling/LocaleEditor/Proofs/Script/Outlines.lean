/-
LocaleEditor.Proofs.Script.Outlines — where the translations of a script come from.

What a script exports is outlined as one object (`outline`), and a path of keys
leads to an expression in it. Of several members with one key the last counts
that can be a translation. The tree of the script has a node at a path exactly
where the expression at the path stands for it (`at?_tree`), so every function of
the tree is a function of the script (`exists_functionAt?`).

What is exported by declaring a function has a block (`hasBlock_of_program`).
-/
import LocaleEditor.Proofs.Script.Statements
import LocaleEditor.Proofs.Tree.Entries
import LocaleEditor.Script.Exports

namespace LocaleEditor.Script

open LocaleEditor.Text Reader

set_option synthInstance.maxSize 1000000

variable {source : List Char} {statements : List Statement} {exports : Exports}

/-! ## 1. Paths through expressions

A script may have several members with one key, and members that are no
translations. `member?` picks the one that the tree has an entry for, so that a
path through the tree and a path through the script go side by side. -/

/-- The member that a key stands for: the last one whose value can be a translation. -/
def member? (source : List Char) (members : List (String × Expr)) (key : String) : Option Expr :=
  (members.filter fun m => m.1 == key && (m.2.node? source).isSome).getLast?.map (·.2)

/-- The expression that a path leads to. -/
def Expr.at? (source : List Char) : Expr → List String → Option Expr
  | e, [] => some e
  | .object members, key :: path =>
    match member? source members key with
    | some e => e.at? source path
    | none => none
  | _, _ :: _ => none

/-- The member of a key can be a translation. -/
theorem node?_of_member? {members : List (String × Expr)} {key : String} {e : Expr}
    (h : member? source members key = some e) : ∃ n, e.node? source = some n := by
  obtain ⟨m, hm, rfl⟩ := Option.map_eq_some_iff.mp h
  have hmem := List.mem_of_getLast? hm
  rw [List.mem_filter, Bool.and_eq_true_iff] at hmem
  exact Option.isSome_iff_exists.mp hmem.2.2

/-- It is one of the members. -/
theorem mem_of_member? {members : List (String × Expr)} {key : String} {e : Expr}
    (h : member? source members key = some e) : (key, e) ∈ members := by
  obtain ⟨⟨k, e⟩, hm, rfl⟩ := Option.map_eq_some_iff.mp h
  have hmem := List.mem_of_getLast? hm
  rw [List.mem_filter, Bool.and_eq_true_iff, beq_iff_eq] at hmem
  obtain ⟨hmem, rfl, -⟩ := hmem
  exact hmem

/-- Under a key there is what its member stands for. -/
theorem get?_treeOf (members : List (String × Expr)) (t : Tree) (key : String) :
    (treeOf source t members).get? key
      = ((member? source members key).bind (Expr.node? source)).or (t.get? key) := by
  induction members generalizing t with
  | nil => rfl
  | cons m r ih =>
    obtain ⟨k, e⟩ := m
    rw [treeOf]
    cases hnode : e.node? source with
    | none =>
      rw [ih, member?, member?, List.filter_cons_of_neg (by simp [hnode])]
    | some n =>
      rw [ih]
      by_cases hk : k = key
      · subst hk
        rw [Tree.get?_insert_self, member?, member?, List.filter_cons_of_pos (by simp [hnode]),
          List.getLast?_cons]
        cases hlast : (r.filter fun m => m.1 == k && (m.2.node? source).isSome).getLast? with
        | none => simp [hnode]
        | some m =>
          have hmember : member? source r k = some m.2 := by rw [member?, hlast]; rfl
          obtain ⟨n', hn'⟩ := node?_of_member? hmember
          simp [hn']
      · rw [Tree.get?_insert_of_ne hk, member?, member?, List.filter_cons_of_neg (by simp [hk])]

/-- Only an object stands for entries. -/
theorem Expr.entries?_of_node? {e : Expr} {n : Node} (h : e.node? source = some n)
    (hobject : ∀ members, e ≠ .object members) : n.entries? = none := by
  cases e with
  | atom a =>
    obtain rfl := Option.some.inj h
    cases a.item <;> rfl
  | array elements =>
    cases elements with
    | none => cases h
    | some es => obtain rfl := Option.some.inj h; rfl
  | object members => exact absurd rfl (hobject members)
  | undefined => obtain rfl := Option.some.inj h; rfl
  | function head body => obtain rfl := Option.some.inj h; rfl
  | other => cases h

/-- The node at a path is what the expression at the path stands for. -/
theorem Expr.node?_at? (path : List String) : ∀ {e : Expr} {n : Node}, e.node? source = some n →
    n.at? path = (e.at? source path).bind (Expr.node? source) := by
  induction path with
  | nil =>
    intro e n h
    rw [Node.at?, Expr.at?]
    exact h.symm
  | cons key path ih =>
    intro e n h
    have leaf (hobject : ∀ members, e ≠ .object members) (hat : e.at? source (key :: path) = none) :
        n.at? (key :: path) = (e.at? source (key :: path)).bind (Expr.node? source) := by
      rw [Node.at?, e.entries?_of_node? h hobject, hat]
      rfl
    cases e with
    | object members =>
      obtain rfl := Option.some.inj h
      rw [Node.at?, Node.entries?, Option.bind_some, get?_treeOf, Expr.at?]
      cases hmember : member? source members key with
      | none => rfl
      | some e =>
        obtain ⟨n', hn'⟩ := node?_of_member? hmember
        rw [Option.bind_some, hn', Option.some_or]
        exact ih hn'
    | _ => exact leaf (fun _ => by simp) rfl

/-! ## 2. The tree of a script

An object exported by default and named exports give a tree in two ways. As one
object they are treated alike from here on. -/

/-- What a script exports, as one object. -/
def outline (statements : List Statement) : Expr :=
  match defaultObject? statements with
  | some v => v.core
  | none => .object ((namedBindings statements).map fun (_, b) => (b.name, b.core))

theorem outline_of_some {v : Value} (h : defaultObject? statements = some v) :
    outline statements = v.core := by
  rw [outline, h]

theorem outline_of_none (h : defaultObject? statements = none) : outline statements
    = .object ((namedBindings statements).map fun p => (p.2.name, p.2.core)) := by
  rw [outline, h]

/-- What is exported by default is looked for among objects only. -/
theorem isObject_of_defaultObject? {v : Value} (h : defaultObject? statements = some v) :
    v.core.isObject = true := by
  obtain ⟨statement, -, hv⟩ := List.exists_of_findSome?_eq_some h
  cases statement with
  | exportDefault w =>
    dsimp only at hv
    split at hv
    · next hw => exact Option.some.inj hv ▸ hw
    · cases hv
  | _ => cases hv

/-- The tree of a script is what its outline stands for. -/
theorem node?_outline (h : exportsOf source statements = .ok exports) :
    (outline statements).node? source = some (.object exports.tree) := by
  unfold exportsOf at h
  split at h
  · next v hv =>
    have hobject := isObject_of_defaultObject? hv
    obtain rfl := Except.ok.inj h
    rw [outline_of_some hv]
    cases hcore : v.core with
    | object members => simp [Expr.node?, Node.entries?]
    | _ => rw [hcore] at hobject; cases hobject
  · next hv =>
    dsimp only at h
    split at h
    · cases h
    · obtain rfl := Except.ok.inj h
      rw [outline_of_none hv]
      rfl

/-- The node of the tree at a path is what the expression at the path stands for. -/
theorem at?_tree (h : exportsOf source statements = .ok exports) (path : List String) :
    exports.tree.at? path = ((outline statements).at? source path).bind (Expr.node? source) :=
  Expr.node?_at? path (node?_outline h)

/-- The function of a script that a path leads to. -/
def functionAt? (d : Dialect) (source : List Char) (path : List String) :
    Option (Signature × FunctionBody) :=
  match program d source with
  | .error _ => none
  | .ok statements =>
    match (outline statements).at? source path with
    | some (.function head body) => some (head, body)
    | _ => none

/-- A script that was read has statements, and its exports are theirs. -/
theorem exists_statements {d : Dialect} (h : readExports d source = .ok exports) :
    ∃ statements, program d source = .ok statements ∧
      exportsOf source statements = .ok exports := by
  unfold readExports at h
  split at h
  · cases h
  · next hprogram => exact ⟨_, hprogram, h⟩

/-- Where the tree has a function, so has the outline. -/
theorem exists_function_of_at? (h : exportsOf source statements = .ok exports)
    {path : List String} {params : List Param} {body : Body}
    (hat : exports.tree.at? path = some (.function params body)) :
    ∃ head fbody, (outline statements).at? source path = some (.function head fbody) ∧
      params = head.params ∧ body = fbody.toBody source := by
  rw [at?_tree h, Option.bind_eq_some_iff] at hat
  obtain ⟨e, he, hnode⟩ := hat
  cases e with
  | function head fbody =>
    obtain ⟨rfl, rfl⟩ := Node.function.inj (Option.some.inj hnode)
    exact ⟨head, fbody, he, rfl, rfl⟩
  | atom a =>
    cases hitem : a.item <;> simp [Expr.node?, hitem, Item.toNode] at hnode
  | array elements => cases elements <;> simp [Expr.node?] at hnode
  | _ => simp [Expr.node?] at hnode

/-- Every function of the tree is a function of the script. -/
theorem exists_functionAt? {d : Dialect} (h : readExports d source = .ok exports)
    {path : List String} {params : List Param} {body : Body}
    (hat : exports.tree.at? path = some (.function params body)) :
    ∃ head fbody, functionAt? d source path = some (head, fbody) ∧
      params = head.params ∧ body = fbody.toBody source := by
  obtain ⟨statements, hprogram, hexports⟩ := exists_statements h
  obtain ⟨head, fbody, hexpr, hparams, hbody⟩ := exists_function_of_at? hexports hat
  exact ⟨head, fbody, by simp only [functionAt?, hprogram, hexpr], hparams, hbody⟩

/-! ## 3. Declared functions -/

/-- Whatever a reader gives satisfies `P`. -/
class Reader.Gives {α : Type} (P : α → Prop) (p : Reader α) : Prop where
  gives : ∀ s, p.Yields s fun a _ => P a

namespace Reader.Gives

variable {α β : Type} {P : α → Prop}

instance : Gives P fail := ⟨fun _ => .fail⟩

instance {p : Reader β} {f : β → Reader α} [∀ a, Gives P (f a)] : Gives P (p >>= f) :=
  ⟨fun _ => .bind fun a rest _ => gives (p := f a) rest⟩

instance {p : Reader α} {q : Unit → Reader α} [Gives P p] [∀ u, Gives P (q u)] :
    Gives P (HOrElse.hOrElse p q) :=
  ⟨fun s => .either (gives s) (gives s)⟩

instance {c : Prop} {_ : Decidable c} {p q : Reader α} [Gives P p] [Gives P q] :
    Gives P (if c then p else q) := by
  split <;> assumption

theorem pure {a : α} (h : P a) : Gives P (Pure.pure a) := ⟨fun _ => .pure h⟩

end Reader.Gives

/-- The expression is a function with a block. -/
def Expr.HasBlock (e : Expr) : Prop := ∃ head extent, e = .function head (.block extent)

/-- Everything that is declared as a function is one with a block. -/
def Declared.WellKinded (declared : Declared) : Prop :=
  ∀ bindings, declared = some (.function, bindings) → ∀ b ∈ bindings, b.core.HasBlock

/-- Everything that is exported as a function is one with a block. -/
def Statement.WellKinded (statement : Statement) : Prop :=
  ∀ bindings, statement = .exportNamed .function bindings → ∀ b ∈ bindings, b.core.HasBlock

variable {d : Dialect} {g : Grammar}

instance : Gives Declared.WellKinded (pure none) := .pure fun _ h => by cases h

instance {bindings : List Binding} :
    Gives Declared.WellKinded (pure (some (.initializer, bindings))) :=
  .pure fun _ h => by cases h

instance : Gives Declared.WellKinded (functionDeclaration d g) := by
  unfold functionDeclaration
  have declared (star : Option Unit) (name : String) (whole : Extent) (head : Signature)
      (extent : Extent) : Gives Declared.WellKinded (match star with
        | some _ => pure none
        | none => pure (some (.function, [⟨name, whole, .function head (.block extent)⟩]))) := by
    cases star with
    | some _ => infer_instance
    | none =>
      refine .pure fun bindings h b hb => ?_
      obtain ⟨-, rfl⟩ := Prod.mk.inj (Option.some.inj h)
      obtain rfl := List.mem_singleton.mp hb
      exact ⟨head, extent, rfl⟩
  dsimp only
  infer_instance

instance : Gives Declared.WellKinded (declarators d g) := by
  unfold declarators
  infer_instance

instance : Gives Declared.WellKinded (classDeclaration d g) := by
  unfold classDeclaration
  infer_instance

instance : Gives Declared.WellKinded (typeAlias g d) := by
  unfold typeAlias
  infer_instance

instance : Gives Declared.WellKinded (interfaceDeclaration g d) := by
  unfold interfaceDeclaration
  infer_instance

instance : Gives Declared.WellKinded (enumDeclaration g) := by
  unfold enumDeclaration
  infer_instance

instance : Gives Declared.WellKinded (moduleDeclaration g) := by
  unfold moduleDeclaration
  infer_instance

instance : Gives Declared.WellKinded (plainDeclaration d g) := by
  unfold plainDeclaration
  infer_instance

instance : Gives Declared.WellKinded (declaration d g) := by
  unfold declaration
  infer_instance

instance : Gives Statement.WellKinded (pure .other) := .pure fun _ h => by cases h

instance : Gives Statement.WellKinded (pure .labelled) := .pure fun _ h => by cases h

instance {v : Value} : Gives Statement.WellKinded (pure (.exportDefault v)) :=
  .pure fun _ h => by cases h

instance : Gives Statement.WellKinded (exportStatement d g) := by
  unfold exportStatement
  have named : Gives Statement.WellKinded (do
      match ← declaration d g with
      | some (kind, bindings) => return .exportNamed kind bindings
      | none => return .other : Reader Statement) := by
    refine ⟨fun s => .bind (.mono (Gives.gives (P := Declared.WellKinded) s) ?_)⟩
    intro declared t ht
    cases declared with
    | none => exact .pure fun _ h => by cases h
    | some p =>
      obtain ⟨kind, bindings⟩ := p
      refine .pure fun bindings' h => ?_
      obtain ⟨rfl, rfl⟩ := Statement.exportNamed.inj h
      exact ht _ rfl
  infer_instance

instance : Gives Statement.WellKinded (expressionStatement d g) := by
  unfold expressionStatement
  infer_instance

instance : Gives Statement.WellKinded (exportExpression d g) := by
  unfold exportExpression
  infer_instance

instance {w : String} : Gives Statement.WellKinded (statementFrom d g w) := by
  unfold statementFrom
  split
  · infer_instance
  · split
    · infer_instance
    · split <;> infer_instance

instance : Gives Statement.WellKinded (readStatement d g) where
  gives s := by
    intro statement rest h
    unfold readStatement at h
    generalize trivia true s = t at h
    dsimp only at h
    split at h
    · obtain ⟨rfl, -⟩ := Outcome.done.inj h
      exact fun _ h => by cases h
    · exact Gives.gives _ _ _ h
    · exact Gives.gives _ _ _ h
    · split at h <;> exact Gives.gives _ _ _ h

/-- Every statement of a script keeps its functions apart from its values. -/
theorem wellKinded_of_program (h : program d source = .ok statements) :
    ∀ statement ∈ statements, statement.WellKinded := by
  have within {statement : Reader Statement} [Gives Statement.WellKinded statement] (n : Nat) :
      Gives (fun as : List Statement => ∀ a ∈ as, a.WellKinded) (statementsWithin statement n) := by
    induction n with
    | zero => exact inferInstanceAs (Gives _ fail)
    | succ n ih =>
      refine ⟨fun s as rest h => ?_⟩
      unfold statementsWithin at h
      dsimp only at h
      split at h
      · obtain ⟨rfl, -⟩ := Outcome.done.inj h
        exact fun a ha => absurd ha List.not_mem_nil
      · split at h
        · cases h
        · next hstatement =>
          split at h
          · cases h
          · next hrest =>
            obtain ⟨rfl, -⟩ := Outcome.done.inj h
            intro a ha
            rcases List.mem_cons.mp ha with rfl | ha
            · exact Gives.gives _ _ _ hstatement
            · exact ih.gives _ _ _ hrest a ha
  have hstatement : Gives Statement.WellKinded (Grammar.upTo d (2 * source.length + 4)).statement :=
    inferInstanceAs (Gives _ (readStatement d (Grammar.upTo d (2 * source.length + 3))))
  unfold program at h
  dsimp only at h
  split at h
  · next hdone =>
    obtain rfl := Except.ok.inj h
    exact (within _).gives _ _ _ hdone
  · cases h

/-- What a script exports by declaring a function is a function with a block. -/
theorem hasBlock_of_program (h : program d source = .ok statements) {b : Binding}
    (hb : (ExportKind.function, b) ∈ namedBindings statements) : b.core.HasBlock := by
  obtain ⟨statement, hmem, hb⟩ := List.mem_flatMap.mp hb
  cases statement with
  | exportNamed kind bindings =>
    obtain ⟨b', hb', heq⟩ := List.mem_map.mp hb
    obtain ⟨rfl, rfl⟩ := Prod.mk.inj heq
    exact wellKinded_of_program h _ hmem bindings rfl b' hb'
  | _ => cases hb

end LocaleEditor.Script
