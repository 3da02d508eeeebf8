import ScopeFlow.Bind.Flow
import ScopeFlow.Condition.Narrowing

/-!
# Conditions in the flow graph

A test leads to one label if it is true and to another if it is false. A condition that narrows references gets a flow
node on each way; one that the environment decides leads one of the ways to the sentinel.
-/

namespace ScopeFlow.Bind

variable {ω : Type}

/-- The truth of a condition as far as the environment decides it. -/
def staticValue (u : Setup ω) (e : Expr) : BindM ω (Option Bool) := do
  let s ← get
  ofExcept ((StaticContext.mk u.file.environment s.typingNames s.systemNames).evaluateLoosely e)

def addKeys (owner : Nat) : List Expr → BindM ω Unit
  | [] => return
  | reference :: references => do
    addKey owner (← ofExcept reference.referenceKey)
    addKeys owner references

/-- The way on from a flow node under a condition: the sentinel if the environment rules it out, the node itself if the
condition narrows nothing, and a new condition node otherwise. -/
def conditional (u : Setup ω) (ctx : Context) (kind : ConditionKind) (antecedent : FlowRef) (e : Expr) :
    BindM ω FlowRef := do
  if ((← get).graph.nodeAt antecedent).step.isUnreachable then return antecedent
  let value ← staticValue u e
  if value == some true && kind == .isFalse || value == some false && kind == .isTrue then return 0
  let narrowing ← ofExcept ((NarrowingMode.mk u.policy false).classify e)
  unless narrowing.isNarrowing do return antecedent
  addKeys ctx.owner narrowing.references
  let ref ← newNode (.condition kind (some e) (narrowing.nameReferences.head?.map Expr.index) antecedent)
  linkRaise ctx ref
  return ref

/-- Leads from the current flow node to the labels of a test that is no `and`, `or` or `not`. -/
def linkTest (u : Setup ω) (ctx : Context) (onTrue onFalse : FlowRef) (e : Expr) : BindM ω Unit := do
  link onTrue (← conditional u ctx .isTrue (← current) e)
  link onFalse (← conditional u ctx .isFalse (← current) e)

mutual

/-- Adds the edge that is taken when an `if` without `else` falls through, marked with the tests whose outcome a reader
of the graph may prove impossible. -/
def linkNever (u : Setup ω) (ctx : Context) (target : FlowRef) (positive : Bool) (e : Expr) : BindM ω Unit :=
  match e with
  | .unaryOp _ .not operand => linkNever u ctx target (!positive) operand
  | .boolOp _ op values => linkNevers u ctx op target positive values
  | e => do
    let narrowing ← ofExcept ((NarrowingMode.mk u.policy true).classify e)
    if narrowing.isNarrowing && !narrowing.nameReferences.isEmpty then
      setCurrent (← conditional u ctx (if positive then .trueNever else .falseNever) (← current) e)
    linkCurrent target

/-- The same for the operands of `and` or `or`. -/
def linkNevers (u : Setup ω) (ctx : Context) (op : BoolOperator) (target : FlowRef) (positive : Bool)
    (es : List Expr) : BindM ω Unit :=
  match es with
  | [] => throw .missingElement
  | [e] => linkNever u ctx target positive e
  | e :: rest =>
    match op with
    | .and => do
      let saved ← current
      linkNever u ctx target positive e
      setCurrent saved
      linkNevers u ctx op target positive rest
    | .or => do
      let initial ← current
      let after ← newBranch
      linkNever u ctx after positive e
      if initial != (← current) then
        finish after
        let before ← current
        linkNevers u ctx op target positive rest
        if before == (← current) then setCurrent initial

end

end ScopeFlow.Bind
