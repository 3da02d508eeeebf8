import Mathlib
import ScopeFlow.Tree.Node

/-!
# What holds of every node of a tree

A walk over a tree needs a property of the nodes it meets and hands it on to the parts of each node. `All` is the property
of a whole tree; the lemmas take it apart along the fields of a node.
-/

namespace ScopeFlow

namespace NodeTree

/-- Whether a property holds of every node of a tree. -/
def All (P : Node → Prop) (t : NodeTree) : Prop := ∀ n ∈ t.preorder, P n

/-- Whether a property holds of every node of several trees. -/
def AllIn (P : Node → Prop) (ts : List NodeTree) : Prop := ∀ n ∈ preorders ts, P n

variable {P Q : Node → Prop} {e : Expr}

@[simp] theorem all_mk {n : Node} {cs : List NodeTree} : (mk n cs).All P ↔ P n ∧ AllIn P cs := by
  simp [All, AllIn, preorder]

@[simp] theorem allIn_nil : AllIn P [] := by simp [AllIn, preorders]

@[simp] theorem allIn_cons {t : NodeTree} {ts : List NodeTree} : AllIn P (t :: ts) ↔ t.All P ∧ AllIn P ts := by
  simp only [AllIn, All, preorders, List.mem_append]
  exact ⟨fun h => ⟨fun n hn => h n (.inl hn), fun n hn => h n (.inr hn)⟩, fun h n hn => hn.elim (h.1 n) (h.2 n)⟩

@[simp] theorem allIn_append {ts us : List NodeTree} : AllIn P (ts ++ us) ↔ AllIn P ts ∧ AllIn P us := by
  induction ts with
  | nil => simp
  | cons t ts ih => simp [ih, and_assoc]

theorem allIn_iff {ts : List NodeTree} : AllIn P ts ↔ ∀ t ∈ ts, t.All P := by
  induction ts with
  | nil => simp
  | cons t ts ih => simp [ih]

theorem All.imp {t : NodeTree} (h : t.All P) (hi : ∀ n, P n → Q n) : t.All Q := fun n hn => hi n (h n hn)

theorem AllIn.imp {ts : List NodeTree} (h : AllIn P ts) (hi : ∀ n, P n → Q n) : AllIn Q ts := fun n hn => hi n (h n hn)

/-- What holds of every node of a parameter list holds of the parameters and of the nodes of their annotations. -/
theorem parameter_of_all {ps : Parameters} (h : ps.tree.All P) :
    ∀ p ∈ ps.all, P (.parameter p) ∧ AllIn P (Expr.givenTree p.hint) := by
  have hlist : ∀ qs : List Parameter, AllIn P (Parameter.trees qs) →
      ∀ p ∈ qs, P (.parameter p) ∧ AllIn P (Expr.givenTree p.hint) := by
    intro qs hqs
    induction qs with
    | nil => simp
    | cons q qs ih =>
      obtain ⟨m, name, hint⟩ := q
      simp only [Parameter.trees, allIn_cons, all_mk] at hqs
      intro p hp
      rcases List.mem_cons.1 hp with rfl | hp
      · exact hqs.1
      · exact ih hqs.2 p hp
  have hgiven : ∀ q : Option Parameter, AllIn P (Parameter.givenTree q) →
      ∀ p ∈ q.toList, P (.parameter p) ∧ AllIn P (Expr.givenTree p.hint) := by
    intro q hq p hp
    cases q with
    | none => cases hp
    | some q =>
      obtain ⟨m, name, hint⟩ := q
      simp only [Parameter.givenTree, allIn_cons, all_mk] at hq
      obtain rfl : p = .mk m name hint := by simpa using hp
      exact hq.1
  obtain ⟨m, posOnly, pos, rest, kwOnly, kwDefaults, kwRest, defaults⟩ := ps
  simp only [Parameters.tree, all_mk, allIn_append] at h
  obtain ⟨_, ⟨⟨⟨⟨⟨⟨hposOnly, hpos⟩, hrest⟩, hkwOnly⟩, _⟩, hkwRest⟩, _⟩⟩ := h
  intro p hp
  simp only [Parameters.all, List.mem_append] at hp
  rcases hp with (((hp | hp) | hp) | hp) | hp
  · exact hlist _ hposOnly p hp
  · exact hlist _ hpos p hp
  · exact hgiven _ hrest p hp
  · exact hlist _ hkwOnly p hp
  · exact hgiven _ hkwRest p hp

end NodeTree

namespace Expr

variable {P : Node → Prop}

/-- The expression at the top of a tree is one of its nodes. -/
theorem node_of_all (e : Expr) (h : e.tree.All P) : P (.expr e) := by
  cases e <;> exact (NodeTree.all_mk.1 h).1

theorem all_operand {m : Mark} {op : UnaryOperator} (h : (unaryOp m op e).tree.All P) : e.tree.All P := by
  simp only [tree, NodeTree.all_mk, NodeTree.allIn_cons] at h
  exact h.2.1

theorem all_of_mem {es : List Expr} (h : NodeTree.AllIn P (trees es)) (he : e ∈ es) : e.tree.All P := by
  induction es with
  | nil => cases he
  | cons _ es ih =>
    rw [trees, NodeTree.allIn_cons] at h
    rcases List.mem_cons.1 he with rfl | he
    · exact h.1
    · exact ih h.2 he

theorem all_value {m : Mark} {op : BoolOperator} {es : List Expr} (h : (boolOp m op es).tree.All P) (he : e ∈ es) :
    e.tree.All P := by
  rw [tree, NodeTree.all_mk] at h
  exact all_of_mem h.2 he

end Expr

end ScopeFlow
