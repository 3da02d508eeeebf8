import ScopeFlow.Tree.Node
import ScopeFlow.Fault

/-!
# The outline of a tree: its nodes by number, with their parents

The outline is built with an explicit stack of trees still to be entered. The children of a node go on top of the stack
in field order, so nodes come out in pre-order and a parent comes out before its children. `ancestors` lists the proper
ancestors of a node from the innermost outwards.
-/

namespace ScopeFlow

/-- A node and the number of its parent; only the root has none. -/
structure OutlineEntry where
  node : Node
  parent : Option Nat

/-- The nodes of a tree by number. -/
structure Outline where
  entries : Array OutlineEntry

namespace Outline

/-- Enters the tree on top of the stack until the stack is empty or the bound is used up. -/
def gather : Nat → List (NodeTree × Option Nat) → Array OutlineEntry → Array OutlineEntry
  | 0, _, entries => entries
  | _, [], entries => entries
  | bound + 1, (.mk node children, parent) :: stack, entries =>
    gather bound (children.map (fun child => (child, some entries.size)) ++ stack) (entries.push ⟨node, parent⟩)

/-- The outline of a tree. Every node is entered once, so its size bounds the walk. -/
def ofTree (t : NodeTree) : Outline := ⟨gather t.size [(t, none)] #[]⟩

def ofModule (m : Module) : Outline := ofTree m.tree

def size (o : Outline) : Nat := o.entries.size

def node? (o : Outline) (i : Nat) : Option Node := o.entries[i]?.map OutlineEntry.node

def parent? (o : Outline) (i : Nat) : Option Nat := o.entries[i]?.bind OutlineEntry.parent

/-- Whether the node numbered `m` in this outline is the node that carries this mark; a node of another tree is not. -/
def indexOf (o : Outline) (m : Mark) : Except Fault Nat :=
  match o.node? m.index with
  | some n => if n.mark = m then .ok m.index else .error .foreignNode
  | none => .error .foreignNode

/-- The ancestors of a node that the bound lets us reach, innermost first. -/
def ancestorsFrom (o : Outline) : Nat → Nat → List Nat
  | 0, _ => []
  | bound + 1, i =>
    match o.parent? i with
    | none => []
    | some p => p :: ancestorsFrom o bound p

/-- The proper ancestors of a node, innermost first. A parent has a smaller number than its child, so the number of the
node bounds the climb. -/
def ancestors (o : Outline) (i : Nat) : List Nat := o.ancestorsFrom i i

end Outline

end ScopeFlow
