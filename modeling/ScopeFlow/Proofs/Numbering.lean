import ScopeFlow.Proofs.Outlines
import ScopeFlow.Tree.Number

/-!
# Numbers are places in pre-order

Numbering hands out consecutive numbers, each node before its children and children in field order (`Numbers`). So in a
numbered module the node with a number is the one at that place in pre-order (`Module.labels_number`), and no two nodes share
a number.
-/

namespace ScopeFlow

namespace NodeTree

/-- The numbers of the nodes of a tree, in pre-order. -/
def labels (t : NodeTree) : List Nat := t.preorder.map fun n => n.mark.index

/-- The numbers of the nodes of several trees, in pre-order. -/
def labelsIn (ts : List NodeTree) : List Nat := (preorders ts).map fun n => n.mark.index

@[simp] theorem labels_mk (n : Node) (cs : List NodeTree) : (mk n cs).labels = n.mark.index :: labelsIn cs := by
  simp [labels, labelsIn, preorder]

@[simp] theorem labelsIn_nil : labelsIn [] = [] := rfl

@[simp] theorem labelsIn_cons (t : NodeTree) (ts : List NodeTree) : labelsIn (t :: ts) = t.labels ++ labelsIn ts := by
  simp [labels, labelsIn, preorders]

@[simp] theorem labelsIn_append (ts us : List NodeTree) : labelsIn (ts ++ us) = labelsIn ts ++ labelsIn us := by
  simp [labelsIn, preorders_append]

end NodeTree

open NodeTree

variable {α β : Type}

/-- A computation that hands out the consecutive numbers that its result holds behind those that it was given. -/
def Numbers (given : List Nat) (x : StateM Nat α) (held : α → List Nat) : Prop :=
  ∀ n, ∃ k, (x.run n).2 = n + k ∧ held (x.run n).1 = given ++ List.range' n k

namespace Numbers

theorem pure {given : List Nat} {held : α → List Nat} {a : α} (h : held a = given) :
    Numbers given (Pure.pure a : StateM Nat α) held :=
  fun _ => ⟨0, rfl, by rw [List.range'_zero, List.append_nil]; exact h⟩

theorem bind {given : List Nat} {x : StateM Nat α} {f : α → StateM Nat β} {heldx : α → List Nat} {held : β → List Nat}
    (hx : Numbers [] x heldx) (hf : ∀ a, Numbers (given ++ heldx a) (f a) held) : Numbers given (x >>= f) held := by
  intro n
  obtain ⟨k, hk, hheld⟩ := hx n
  obtain ⟨k', hk', hheld'⟩ := hf (x.run n).1 (x.run n).2
  refine ⟨k + k', ?_, ?_⟩
  · show ((f (x.run n).1).run (x.run n).2).2 = n + (k + k')
    omega
  · show held ((f (x.run n).1).run (x.run n).2).1 = given ++ List.range' n (k + k')
    rw [hheld', hheld, hk, List.nil_append, List.append_assoc, List.range'_append_1]

theorem mapM {f : α → StateM Nat β} {held : β → List Nat} (h : ∀ a, Numbers [] (f a) held) (as : List α) :
    Numbers [] (as.mapM f) fun bs => (bs.map held).flatten := by
  induction as with
  | nil => exact pure rfl
  | cons a as ih =>
    rw [List.mapM_cons]
    exact bind (h a) fun b => bind ih fun bs => pure (by simp)

end Numbers

theorem Mark.number_numbers (m : Mark) : Numbers [] m.number fun m => [m.index] := fun _ => ⟨1, rfl, rfl⟩

mutual

theorem Expr.number_numbers (e : Expr) : Numbers [] e.number fun e => e.tree.labels := by
  cases e
  all_goals
    -- The mark is numbered first, and then the parts one after the other.
    rw [Expr.number]
    refine .bind (Mark.number_numbers _) fun _ => ?_
    repeat' first
      | exact .pure (by simp [Expr.tree, Node.mark, Expr.mark])
      | refine .bind (Expr.number_numbers _) fun _ => ?_
      | refine .bind (Expr.numberAll_numbers _) fun _ => ?_
      | refine .bind (Expr.numberGiven_numbers _) fun _ => ?_
      | refine .bind (Expr.numberGivens_numbers _) fun _ => ?_
      | refine .bind (Clause.numberAll_numbers _) fun _ => ?_
      | refine .bind (Keyword.numberAll_numbers _) fun _ => ?_
      | refine .bind (Parameters.number_numbers _) fun _ => ?_

theorem Expr.numberAll_numbers (xs : List Expr) : Numbers [] (Expr.numberAll xs) fun xs => labelsIn (Expr.trees xs) := by
  match xs with
  | [] => exact .pure rfl
  | x :: xs =>
    rw [Expr.numberAll]
    exact .bind (Expr.number_numbers x) fun x => .bind (Expr.numberAll_numbers xs) fun xs => .pure (by simp [Expr.trees])

theorem Expr.numberGiven_numbers (x : Option Expr) : Numbers [] (Expr.numberGiven x) fun x => labelsIn (Expr.givenTree x) := by
  match x with
  | none => exact .pure rfl
  | some x =>
    rw [Expr.numberGiven]
    exact .bind (Expr.number_numbers x) fun x => .pure (by simp [Expr.givenTree])

theorem Expr.numberGivens_numbers (xs : List (Option Expr)) :
    Numbers [] (Expr.numberGivens xs) fun xs => labelsIn (Expr.givenTrees xs) := by
  match xs with
  | [] => exact .pure rfl
  | x :: xs =>
    rw [Expr.numberGivens]
    exact .bind (Expr.numberGiven_numbers x) fun x => .bind (Expr.numberGivens_numbers xs) fun xs =>
      .pure (by simp [Expr.givenTrees])

theorem Clause.numberAll_numbers (xs : List Clause) : Numbers [] (Clause.numberAll xs) fun xs => labelsIn (Clause.trees xs) := by
  match xs with
  | [] => exact .pure rfl
  | .mk m target iterable conditions :: xs =>
    rw [Clause.numberAll]
    exact .bind m.number_numbers fun m => .bind (Expr.number_numbers target) fun target =>
      .bind (Expr.number_numbers iterable) fun iterable => .bind (Expr.numberAll_numbers conditions) fun conditions =>
      .bind (Clause.numberAll_numbers xs) fun xs => .pure (by simp [Clause.trees, Node.mark])

theorem Keyword.numberAll_numbers (xs : List Keyword) : Numbers [] (Keyword.numberAll xs) fun xs =>
    labelsIn (Keyword.trees xs) := by
  match xs with
  | [] => exact .pure rfl
  | .mk m name value :: xs =>
    rw [Keyword.numberAll]
    exact .bind m.number_numbers fun m => .bind (Expr.number_numbers value) fun value =>
      .bind (Keyword.numberAll_numbers xs) fun xs => .pure (by simp [Keyword.trees, Node.mark])

theorem Parameter.numberAll_numbers (xs : List Parameter) : Numbers [] (Parameter.numberAll xs) fun xs =>
    labelsIn (Parameter.trees xs) := by
  match xs with
  | [] => exact .pure rfl
  | .mk m name hint :: xs =>
    rw [Parameter.numberAll]
    exact .bind m.number_numbers fun m => .bind (Expr.numberGiven_numbers hint) fun hint =>
      .bind (Parameter.numberAll_numbers xs) fun xs => .pure (by simp [Parameter.trees, Node.mark, Parameter.mark])

theorem Parameter.numberGiven_numbers (x : Option Parameter) :
    Numbers [] (Parameter.numberGiven x) fun x => labelsIn (Parameter.givenTree x) := by
  match x with
  | none => exact .pure rfl
  | some (.mk m name hint) =>
    rw [Parameter.numberGiven]
    exact .bind m.number_numbers fun m => .bind (Expr.numberGiven_numbers hint) fun hint =>
      .pure (by simp [Parameter.givenTree, Node.mark, Parameter.mark])

theorem Parameters.number_numbers (ps : Parameters) : Numbers [] ps.number fun ps => ps.tree.labels := by
  match ps with
  | .mk m posOnly pos rest kwOnly kwDefaults kwRest defaults =>
    rw [Parameters.number]
    exact .bind m.number_numbers fun m => .bind (Parameter.numberAll_numbers posOnly) fun posOnly =>
      .bind (Parameter.numberAll_numbers pos) fun pos => .bind (Parameter.numberGiven_numbers rest) fun rest =>
      .bind (Parameter.numberAll_numbers kwOnly) fun kwOnly => .bind (Expr.numberGivens_numbers kwDefaults) fun kwDefaults =>
      .bind (Parameter.numberGiven_numbers kwRest) fun kwRest => .bind (Expr.numberAll_numbers defaults) fun defaults =>
      .pure (by simp [Parameters.tree, Node.mark, Parameters.mark])

end

mutual

theorem Pattern.number_numbers (p : Pattern) : Numbers [] p.number fun p => p.tree.labels := by
  match p with
  | .value .. | .singleton .. | .sequence .. | .mapping .. | .classOf .. | .star .. | .capture _ none _ | .capture _ (some _) _
  | .alternatives .. =>
    rw [Pattern.number]
    refine .bind (Mark.number_numbers _) fun _ => ?_
    repeat' first
      | exact .pure (by simp [Pattern.tree, Node.mark, Pattern.mark])
      | refine .bind (Expr.number_numbers _) fun _ => ?_
      | refine .bind (Expr.numberAll_numbers _) fun _ => ?_
      | refine .bind (Pattern.number_numbers _) fun _ => ?_
      | refine .bind (Pattern.numberAll_numbers _) fun _ => ?_

theorem Pattern.numberAll_numbers (xs : List Pattern) : Numbers [] (Pattern.numberAll xs) fun xs =>
    labelsIn (Pattern.trees xs) := by
  match xs with
  | [] => exact .pure rfl
  | x :: xs =>
    rw [Pattern.numberAll]
    exact .bind (Pattern.number_numbers x) fun x => .bind (Pattern.numberAll_numbers xs) fun xs => .pure (by simp [Pattern.trees])

end

theorem labelsIn_map (f : α → NodeTree) (as : List α) : labelsIn (as.map f) = (as.map fun a => (f a).labels).flatten := by
  induction as with
  | nil => rfl
  | cons a as ih => simp [ih]

theorem ImportName.numberAll_numbers (ns : List ImportName) :
    Numbers [] (ns.mapM ImportName.number) fun ns => labelsIn (ns.map ImportName.tree) := by
  simp only [labelsIn_map]
  refine .mapM (fun n => ?_) ns
  exact .bind n.mark.number_numbers fun m => .pure (by simp [ImportName.tree, Node.mark])

theorem WithItem.numberAll_numbers (ws : List WithItem) :
    Numbers [] (ws.mapM WithItem.number) fun ws => labelsIn (ws.map WithItem.tree) := by
  simp only [labelsIn_map]
  refine .mapM (fun w => ?_) ws
  exact .bind w.mark.number_numbers fun m => .bind w.context.number_numbers fun context =>
    .bind (Expr.numberGiven_numbers w.target) fun target => .pure (by simp [WithItem.tree, Node.mark])

theorem TypeParameter.numberAll_numbers (ts : List TypeParameter) :
    Numbers [] (ts.mapM TypeParameter.number) fun ts => labelsIn (ts.map TypeParameter.tree) := by
  simp only [labelsIn_map]
  refine .mapM (fun t => ?_) ts
  exact .bind t.mark.number_numbers fun m => .bind (Expr.numberGiven_numbers t.bound) fun bound =>
    .pure (by simp [TypeParameter.tree, Node.mark])

theorem Mark.numberAll_numbers (ms : List Mark) :
    Numbers [] (ms.mapM Mark.number) fun ms => labelsIn (ms.map NodeTree.ofIgnore) := by
  simp only [labelsIn_map]
  exact .mapM (fun m => m.number_numbers) ms

mutual

theorem Stmt.number_numbers (s : Stmt) : Numbers [] s.number fun s => s.tree.labels := by
  cases s
  all_goals
    rw [Stmt.number]
    refine .bind (Mark.number_numbers _) fun _ => ?_
    repeat' first
      | exact .pure (by simp [Stmt.tree, Node.mark, Stmt.mark])
      | refine .bind (Expr.number_numbers _) fun _ => ?_
      | refine .bind (Expr.numberAll_numbers _) fun _ => ?_
      | refine .bind (Expr.numberGiven_numbers _) fun _ => ?_
      | refine .bind (Stmt.numberAll_numbers _) fun _ => ?_
      | refine .bind (Keyword.numberAll_numbers _) fun _ => ?_
      | refine .bind (Parameters.number_numbers _) fun _ => ?_
      | refine .bind (WithItem.numberAll_numbers _) fun _ => ?_
      | refine .bind (MatchCase.numberAll_numbers _) fun _ => ?_
      | refine .bind (Handler.numberAll_numbers _) fun _ => ?_
      | refine .bind (ImportName.numberAll_numbers _) fun _ => ?_
      | refine .bind (TypeParameter.numberAll_numbers _) fun _ => ?_
      | refine .bind (Mark.numberAll_numbers _) fun _ => ?_

theorem Stmt.numberAll_numbers (xs : List Stmt) : Numbers [] (Stmt.numberAll xs) fun xs => labelsIn (Stmt.trees xs) := by
  match xs with
  | [] => exact .pure rfl
  | x :: xs =>
    rw [Stmt.numberAll]
    exact .bind (Stmt.number_numbers x) fun x => .bind (Stmt.numberAll_numbers xs) fun xs => .pure (by simp [Stmt.trees])

theorem Handler.numberAll_numbers (xs : List Handler) : Numbers [] (Handler.numberAll xs) fun xs =>
    labelsIn (Handler.trees xs) := by
  match xs with
  | [] => exact .pure rfl
  | .mk m type name body :: xs =>
    rw [Handler.numberAll]
    exact .bind m.number_numbers fun m => .bind (Expr.numberGiven_numbers type) fun type =>
      .bind (Stmt.numberAll_numbers body) fun body => .bind (Handler.numberAll_numbers xs) fun xs =>
      .pure (by simp [Handler.trees, Node.mark])

theorem MatchCase.numberAll_numbers (xs : List MatchCase) : Numbers [] (MatchCase.numberAll xs) fun xs =>
    labelsIn (MatchCase.trees xs) := by
  match xs with
  | [] => exact .pure rfl
  | .mk m pattern guard body :: xs =>
    rw [MatchCase.numberAll]
    exact .bind m.number_numbers fun m => .bind (Pattern.number_numbers pattern) fun pattern =>
      .bind (Expr.numberGiven_numbers guard) fun guard => .bind (Stmt.numberAll_numbers body) fun body =>
      .bind (MatchCase.numberAll_numbers xs) fun xs => .pure (by simp [MatchCase.trees, Node.mark])

end

namespace Module

/-- In a numbered module the nodes have the numbers from 0 on, in pre-order. -/
theorem labels_number (m : Module) : m.number.tree.labels = List.range m.number.tree.size := by
  have h : Numbers [] (do
      return ⟨← m.mark.number, ← Stmt.numberAll m.body, ← m.ignores.mapM Mark.number⟩ : StateM Nat Module)
      fun m => m.tree.labels :=
    .bind m.mark.number_numbers fun mark => .bind (Stmt.numberAll_numbers m.body) fun body =>
      .bind (Mark.numberAll_numbers m.ignores) fun ignores => .pure (by simp [Module.tree, Node.mark])
  obtain ⟨k, _, hk⟩ := h 0
  have hlabels : m.number.tree.labels = List.range' 0 k := hk
  have hlength : m.number.tree.size = k := by
    rw [← length_preorder, ← List.length_map (f := fun n : Node => n.mark.index)]
    exact (congrArg List.length hlabels).trans List.length_range'
  rw [hlabels, hlength, List.range_eq_range']

end Module

end ScopeFlow
