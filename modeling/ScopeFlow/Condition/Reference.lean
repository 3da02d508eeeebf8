import ScopeFlow.Fault
import ScopeFlow.Tree.Basic

/-!
# References

A reference is a name, a member of a reference, or a reference subscripted with an integer. Its key is its source text
in a fixed spelling: two references with one key are tracked as one.
-/

namespace ScopeFlow.Expr

/-- Whether an expression is a reference. -/
def isReference : Expr → Bool
  | name .. => true
  | member _ value _ => value.isReference
  | subscript _ value (constant _ (.int _) _) => value.isReference
  | _ => false

/-- The key of a reference. -/
def referenceKey : Expr → Except Fault String
  | name _ id => .ok id
  | member _ value attr => return (← value.referenceKey) ++ "." ++ attr
  | subscript _ value (constant _ (.int n) _) => return (← value.referenceKey) ++ s!"[{n}]"
  | _ => .error .notReference

/-- Whether an expression is a name, a member or a subscript, be it a reference or not. -/
def hasReferenceForm : Expr → Bool
  | name .. | member .. | subscript .. => true
  | _ => false

end ScopeFlow.Expr
