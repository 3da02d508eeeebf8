import ScopeFlow.Environment
import ScopeFlow.Tree.Basic

/-!
# Static conditions

Some conditions are fixed by the environment: checks of the version and of the platform, the type-checking flag, and
what `and`, `or` and `not` make of them. Any other condition is open and has to be decided when the program runs.
-/

namespace ScopeFlow

/-- What a static condition depends on: the environment, and the local names of the typing and system modules. -/
structure StaticContext where
  environment : Environment := {}
  typingNames : List String := []
  systemNames : List String := []

namespace Expr

/-- Whether an expression is a member of a module that goes by one of these names. -/
def isModuleMember (e : Expr) (attr : String) (moduleNames : List String) : Bool :=
  match e with
  | member _ (name _ id) a => a == attr && moduleNames.contains id
  | _ => false

/-- The version that the first two elements of a tuple spell out. -/
def versionOf (elements : List Expr) : Option (List Int) :=
  match elements.take 2 with
  | [] => none
  | first => first.mapM intLiteral?

def isNone : Expr → Bool
  | constant _ .none _ => true
  | _ => false

end Expr

/-- Lexicographic order of versions; a proper start of a version is below it. -/
def versionBelow : List Int → List Int → Bool
  | _, [] => false
  | [], _ :: _ => true
  | a :: as, b :: bs => a < b || (a == b && versionBelow as bs)

namespace CompareOperator

/-- The truth of a comparison, given whether its sides are equal, and whether left is below right and right below left.
Identity and membership stay open. -/
def decide? (op : CompareOperator) (same below above : Bool) : Option Bool :=
  match op with
  | eq => some same
  | notEq => some (!same)
  | lt => some below
  | ltE => some (below || same)
  | gt => some above
  | gtE => some (above || same)
  | is | isNot | isIn | notIn => none

/-- The truth of a comparison of texts, which are compared for equality only. -/
def decideText? (op : CompareOperator) (expected : Option String) (given : String) : Option Bool :=
  match op, expected with
  | eq, some text => some (text == given)
  | notEq, some text => some (text != given)
  | _, _ => none

end CompareOperator

namespace StaticContext

/-- The truth of a single comparison. -/
def compare? (c : StaticContext) (left : Expr) (op : CompareOperator) (right : Expr) : Option Bool :=
  let version := c.environment.version
  match left, right with
  | .member _ (.name _ id) attr, .tuple _ elements =>
    if attr == "version_info" && c.systemNames.contains id then do
      let given ← Expr.versionOf elements
      op.decide? (version == given) (versionBelow version given) (versionBelow given version)
    else none
  | .subscript _ value (.constant _ (.int 0) _), .constant _ (.int n) _ =>
    if value.isModuleMember "version_info" c.systemNames then do
      let major ← version.head?
      op.decide? (major == n) (major < n) (n < major)
    else none
  | .member _ (.name _ id) attr, .constant _ (.str text) _ =>
    if attr == "platform" && c.systemNames.contains id then
      op.decideText? (c.environment.platform.map Platform.systemName) text
    else if attr == "name" && id == "os" then
      op.decideText? (c.environment.platform.map Platform.osName) text
    else none
  | _, _ => none

mutual

/-- The truth of a condition, or nothing if it is open. A comparison without a right side fails. -/
def evaluate (c : StaticContext) (e : Expr) : Except Fault (Option Bool) :=
  match e with
  | .unaryOp _ .not operand => do
    if operand.isNone then return some true
    else return (← c.evaluate operand).map not
  | .boolOp _ op values => do
    let truths ← c.evaluateAll values
    match truths with
    | none => return none
    | some truths =>
      match op with
      | .and => return some (truths.all id)
      | .or => return some (truths.any id)
  | .compare _ left ops comparators =>
    match ops, comparators with
    | [op], right :: _ => .ok (c.compare? left op right)
    | [_], [] => .error .missingElement
    | _, _ => .ok none
  | .constant _ (.bool b) _ => .ok (some b)
  | .name _ id => .ok (if id == "TYPE_CHECKING" then some true else none)
  | .member _ value attr =>
    .ok (match value with
      | .name _ id => if attr == "TYPE_CHECKING" && c.typingNames.contains id then some true else none
      | _ => none)
  | _ => .ok none

/-- The truths of several conditions, or nothing if one of them is open. -/
def evaluateAll (c : StaticContext) (es : List Expr) : Except Fault (Option (List Bool)) :=
  match es with
  | [] => .ok (some [])
  | e :: es => do
    let truth ← c.evaluate e
    let truths ← c.evaluateAll es
    return do return (← truth) :: (← truths)

end

/-- The truth of a condition, taking `None` for false. -/
def evaluateLoosely (c : StaticContext) (e : Expr) : Except Fault (Option Bool) :=
  if e.isNone then .ok (some false) else c.evaluate e

end StaticContext

end ScopeFlow
