import ScopeFlow.Condition.Reference
import ScopeFlow.Condition.Static
import ScopeFlow.Tree.Node

/-!
# Narrowing

A condition may narrow the type of references that occur in it: `x is None`, `isinstance(x, C)`, `x == y`. `classify`
says whether it does and which references it narrows. In never mode it says whether the condition can prove a
reference impossible, which takes more than its truth.
-/

namespace ScopeFlow

namespace Expr

/-- Whether an expression unpacks its operand with a star. -/
def isStarred : Expr → Bool
  | starred .. => true
  | _ => false

/-- Whether an expression is a call of the function with a name, with so many plain arguments and nothing else. -/
def isSimpleCall (e : Expr) (function : String) (count : Nat) : Bool :=
  match e with
  | call _ (name _ id) args keywords =>
    id == function && args.length == count && keywords.isEmpty && !args.any isStarred
  | _ => false

/-- Whether an expression is one of the built-in checks that narrow their first argument. -/
def isBuiltinCheck (e : Expr) : Bool :=
  e.isSimpleCall "isinstance" 2 || e.isSimpleCall "issubclass" 2 || e.isSimpleCall "callable" 1

end Expr

/-- Whether a condition narrows, and the references it narrows in the order of their finding. -/
structure Narrowing where
  isNarrowing : Bool
  references : List Expr

/-- The bare names among the narrowed references. -/
def Narrowing.nameReferences (n : Narrowing) : List Expr := n.references.filter Expr.isName

/-- How conditions are searched for references: the policy, and whether in never mode. -/
structure NarrowingMode where
  policy : NarrowingPolicy := {}
  never : Bool := false

namespace NarrowingMode

/-- Searches a condition for references that it narrows. `complex` says that the condition is part of a larger one;
`found` are the references found before. The answer is whether the condition narrows, and all references found, those
of parts that do not narrow included. -/
def search (mode : NarrowingMode) (complex : Bool) (found : List Expr) (e : Expr) : Except Fault (Bool × List Expr) :=
  match e with
  | .name .. | .member .. | .subscript .. =>
    if mode.never && !(e.isName && complex) then .ok (false, found)
    else if e.isReference then .ok (true, found ++ [e])
    else .ok (false, found)
  | .named _ target _ => .ok (true, found ++ [target])
  | .compare _ left ops comparators =>
    match ops, comparators with
    | [_], [] => .error .missingElement
    | [op], right :: _ =>
      match op with
      | .is | .isNot =>
        if right.isNone || !left.isSimpleCall "type" 1 then mode.search true found left
        else
          match left with
          | .call _ _ (arg :: _) _ => mode.search true found arg
          | _ => .ok (false, found)
      | .eq | .notEq =>
        if right.isNone then mode.search true found left
        else do
          let (leftNarrows, found) ← mode.search true found left
          let (rightNarrows, found) ← mode.search true found right
          return (leftNarrows || rightNarrows, found)
      | .isIn => do
        let (rightNarrows, found) ← mode.search true found right
        if rightNarrows then return (true, found) else mode.search true found left
      | .notIn => mode.search true found right
      | .lt | .ltE | .gt | .gtE => .ok (false, found)
    | _, _ => .ok (false, found)
  | .unaryOp _ .not operand => mode.search false found operand
  | .call _ _ (arg :: _) _ =>
    if e.isBuiltinCheck then
      if mode.never && !mode.policy.neverBuiltinChecks then .ok (false, found)
      else mode.search true found arg
    else if mode.never || !mode.policy.callArguments || arg.isStarred then .ok (false, found)
    else mode.search true found arg
  | _ => .ok (false, found)

/-- The answer of a search. A condition that does not narrow has no references. -/
def conclude (result : Bool × List Expr) : Narrowing := if result.1 then ⟨true, result.2⟩ else ⟨false, []⟩

/-- Whether a condition narrows, and what. -/
def classify (mode : NarrowingMode) (e : Expr) : Except Fault Narrowing := conclude <$> mode.search false [] e

/-- Whether a node narrows, and what. An augmented assignment narrows as its value does; no other statement narrows. -/
def classifyNode (mode : NarrowingMode) (n : Node) : Except Fault Narrowing :=
  match n with
  | .expr e => mode.classify e
  | .stmt (.augAssign _ _ _ value) => conclude <$> mode.search true [] value
  | _ => .ok ⟨false, []⟩

end NarrowingMode

end ScopeFlow
