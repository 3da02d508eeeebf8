import ScopeFlow.Flow.Graph

/-!
# Reachability in the flow graph

Both questions walk backwards with a stack of places still to be visited and the numbers already seen. `isReachable`
does not pass unreachable nodes and takes only the way through a `finally` suite; `closure` takes every antecedent.
-/

namespace ScopeFlow.FlowGraph

def edgeCount (g : FlowGraph) : Nat := g.toList.foldr (fun n total => n.step.antecedents.length + total) 0

/-- Whether a walk may end at a place: at the source asked for, or at any start. -/
def isGoal (g : FlowGraph) (source : Option FlowRef) (ref : FlowRef) : Bool :=
  match source with
  | some s => ref == s
  | none => (g.nodeAt ref).step.isStart

/-- Visits the places on the stack, most recent first, until a goal is met or the stack is empty. -/
def reachFrom (g : FlowGraph) (source : Option FlowRef) : Nat → List FlowRef → List Int → Bool
  | 0, _, _ => false
  | _, [], _ => false
  | bound + 1, ref :: stack, seen =>
    let node := g.nodeAt ref
    if seen.contains node.id then g.reachFrom source bound stack seen
    else if node.step.isUnreachable then g.reachFrom source bound stack (node.id :: seen)
    else if g.isGoal source ref then true
    else g.reachFrom source bound (node.step.sources.reverse ++ stack) (node.id :: seen)

/-- Whether control can come to a place: from the source, or without one from any start. Every place is put on the stack
at most once by each edge into it, so the number of edges bounds the walk. -/
def isReachable (g : FlowGraph) (ref : FlowRef) (source : Option FlowRef := none) : Bool :=
  g.reachFrom source (g.edgeCount + 1) [ref] []

/-- Visits the places on the stack, most recent first, and collects those whose number is new. -/
def closureFrom (g : FlowGraph) : Nat → List FlowRef → List Int → List FlowRef → List FlowRef
  | 0, _, _, found => found
  | _, [], _, found => found
  | bound + 1, ref :: stack, seen, found =>
    let node := g.nodeAt ref
    if seen.contains node.id then g.closureFrom bound stack seen found
    else g.closureFrom bound (node.step.antecedents.reverse ++ stack) (node.id :: seen) (ref :: found)

/-- The places from which control may come to one of the given places, those included, in ascending order of their
numbers. -/
def closure (g : FlowGraph) (refs : List FlowRef) : List FlowRef :=
  (g.closureFrom (g.edgeCount + refs.length) refs.reverse [] []).mergeSort (fun a b => g.idAt a ≤ g.idAt b)

end ScopeFlow.FlowGraph
