import ScopeFlow.Bind.Condition
import ScopeFlow.Bind.ExportList
import ScopeFlow.Bind.Variable

/-!
# Binding expressions

`visitExpr` walks an expression in the order of its evaluation. Its role says what is done with it: its value is used, it
is a test that leads to one of two labels, or it is the target of an assignment. Under a test, `and`, `or` and `not` hand
the labels on to their operands; everything else is evaluated and then leads to both.

The body of a lambda is not walked; it is queued, to be bound in a scope of its own.
-/

namespace ScopeFlow.Bind

variable {ω : Type}

/-- What is done with an expression. -/
inductive Role where
  | value
  | test (onTrue onFalse : FlowRef)
  | target
  deriving DecidableEq, Repr

/-- What is done with the elements of a tuple or list: they are targets if it is one. -/
def Role.ofElement : Role → Role
  | target => target
  | _ => value

/-- What comes before an expression is walked: a target that is a reference is assigned. -/
def enterExpr (ctx : Context) (role : Role) (e : Expr) : BindM ω Unit :=
  if role == .target && e.hasReferenceForm then assignReference ctx e false else return

/-- What comes after an expression was walked: a test that is not a connective leads to its labels. -/
def leaveExpr (u : Setup ω) (ctx : Context) (role : Role) (e : Expr) : BindM ω Unit :=
  match role with
  | .test onTrue onFalse => if e.isLogical then return else linkTest u ctx onTrue onFalse e
  | _ => return

/-- The nearest scope at or around a place that is no class; names of a class are not visible in nested scopes. -/
def nonClassScope (ctx : Context) : BindM ω (Option Nat) := do
  let store := (← get).store
  return store.climbTo (fun t => t != .classBody) store.scopes.size ctx.scope

/-- Opens the scope of a function or lambda and queues its body. The context of the new scope is given. -/
def deferBody (ctx : Context) (mark : Mark) (body : Body) : BindM ω Context := do
  let scope ← newScope .function (← nonClassScope ctx)
  setScope mark.index scope
  modify fun s => { s with queue := s.queue ++ [⟨scope, body⟩] }
  showKeys mark.index
  return { scope := scope, owner := mark.index }

/-- The target of an assignment expression is bound in the scope of its container; a scope passed on the way there must
not have the name. -/
def bindNamed (u : Setup ω) (ctx : Context) (container : Nat) (mark : Mark) (name : String) : BindM ω Unit := do
  let store := (← get).store
  if clashes store container store.scopes.size ctx.scope then
    reportError .assignmentExprComprehension mark name
  discard (bindName u ctx container name)
where
  /-- Whether a scope from `i` outwards, before the container, has the name. -/
  clashes (store : Store) (container : Nat) : Nat → Nat → Bool
    | 0, _ => false
    | bound + 1, i =>
      if i == container then false
      else if (store.symbol? i name).isSome then true
      else
        match store.parent? i with
        | none => false
        | some p => clashes store container bound p

/-- Reports a `yield` out of place and counts it for the function being bound. -/
def enterYield (u : Setup ω) (ctx : Context) (mark : Mark) (isFrom : Bool) : BindM ω Unit := do
  if u.outline.isInComprehension mark.index then reportError .yieldWithinComprehension mark
  let function := u.outline.enclosingFunction mark.index
  match function with
  | none =>
    if (u.outline.enclosingLambda mark.index).isNone then reportError .yieldOutsideFunction mark
  | some f =>
    match u.outline.node? f with
    | some (.stmt (.function _ true ..)) => if isFrom then reportError .yieldFromOutsideAsync mark
    | _ => pure ()
  match ctx.function with
  | some f =>
    if function == some f then
      adjustFunction f fun info => { info with isGenerator := true, yields := info.yields ++ [mark.index] }
  | none => return

/-- Reports an `await` outside of asynchronous functions. -/
def enterAwait (u : Setup ω) (mark : Mark) : BindM ω Unit :=
  match (u.outline.enclosingFunction mark.index).bind u.outline.node? with
  | some (.stmt (.function _ true ..)) => return
  | _ => reportError .awaitNotInAsync mark

/-- Binds and declares the targets of comprehension clauses, and gives the new symbols of each. -/
def bindClauses (u : Setup ω) (ctx : Context) : List Clause → BindM ω (List (List SymbolRef))
  | [] => return []
  | .mk m target _ _ :: clauses => do
    let added ← bindTarget u ctx target
    inferVariable u ctx m.index false target
    return added :: (← bindClauses u ctx clauses)

/-- New symbols of a comprehension take over the values of the outer symbols of their names. -/
def takeOverOuter (outer : Nat) : List SymbolRef → BindM ω Unit
  | [] => return
  | ref :: refs => do
    match ← symbolIn outer ref.name, ← symbolIn ref.scope ref.name with
    | some source, some own => takeOver own.id source.id
    | _, _ => pure ()
    takeOverOuter outer refs

/-- Walks the parts of an expression between what comes before and what comes after them. -/
def around (u : Setup ω) (ctx : Context) (role : Role) (e : Expr) (parts : BindM ω Unit) : BindM ω Unit := do
  enterExpr ctx role e
  parts
  leaveExpr u ctx role e

/-- Lays out operands whose outcome is not asked for: either way leads on. -/
def eitherWay (operands : FlowRef → FlowRef → BindM ω Unit) : BindM ω Unit := do
  let after ← newBranch
  operands after after
  finish after

/-- Lays out a choice between two values. -/
def choice (test : FlowRef → FlowRef → BindM ω Unit) (body orElse : BindM ω Unit) : BindM ω Unit := do
  let onTrue ← newBranch
  let onFalse ← newBranch
  let after ← newBranch
  test onTrue onFalse
  finish onTrue
  body
  linkCurrent after
  finish onFalse
  orElse
  linkCurrent after
  finish after

/-- Binds and assigns the target of an assignment expression whose value has been walked. Without a container the target
is walked as a value. -/
def assignNamed (u : Setup ω) (ctx : Context) (mark : Mark) (target value : Expr) (walk : Role → BindM ω Unit) :
    BindM ω Unit := do
  match u.outline.assignmentContainer mark.index with
  | none =>
    reportError .assignmentExprContext mark
    walk .value
  | some container =>
    match (← factsOf container).scope with
    | none => throw .containerWithoutScope
    | some scope =>
      match target with
      | .name tm id => bindNamed u ctx scope tm id
      | _ => throw .targetWithoutName
      inferVariable u ctx value.index false target
      walk .target

/-- Opens the scope of a comprehension, binds its targets and walks its parts there. The label of the conditions that do
not hold and the new symbols of each clause are handed to the walk. -/
def comprehend (u : Setup ω) (ctx : Context) (mark : Mark) (clauses : List Clause)
    (walk : Context → FlowRef → List (List SymbolRef) → BindM ω Unit) : BindM ω Unit := do
  let scope ← newScope .comprehension (some ctx.scope)
  setScope mark.index scope
  let inner := { ctx with scope := scope }
  let onFalse ← newBranch
  let added ← bindClauses u inner clauses
  walk inner onFalse added
  linkCurrent onFalse
  finish onFalse

/-- Lays out an operand of `and` or `or` that is not the last: if it does not decide the outcome it leads on to the
next. -/
def operand (op : BoolOperator) (onTrue onFalse : FlowRef) (test : FlowRef → FlowRef → BindM ω Unit) :
    BindM ω Unit := do
  let next ← newBranch
  match op with
  | .and => test next onFalse
  | .or => test onTrue next
  finish next

def condition (onFalse : FlowRef) (test : FlowRef → FlowRef → BindM ω Unit) : BindM ω Unit := do
  let onTrue ← newBranch
  test onTrue onFalse
  finish onTrue

mutual

/-- Walks an expression in a role. -/
def visitExpr (u : Setup ω) (ctx : Context) (role : Role) (e : Expr) : BindM ω Unit :=
  match e with
  | .boolOp _ op values => around u ctx role e <|
    match role with
    | .test onTrue onFalse => visitOperands u ctx op onTrue onFalse values
    | _ => eitherWay fun onTrue onFalse => visitOperands u ctx op onTrue onFalse values
  | .named m target value => around u ctx role e do
    visitExpr u ctx .value value
    assignNamed u ctx m target value fun r => visitExpr u ctx r target
  | .binOp _ left _ right => around u ctx role e do
    visitExpr u ctx .value left
    visitExpr u ctx .value right
  | .unaryOp _ op operand => around u ctx role e <|
    match op, role with
    | .not, .test onTrue onFalse => visitExpr u ctx (.test onFalse onTrue) operand
    | _, _ => visitExpr u ctx .value operand
  | .lambda m params body => around u ctx role e do
    visitDefaults u ctx params
    discard (deferBody ctx m (.lambda m params body))
  | .ifElse _ test body orElse => around u ctx role e <|
    choice (fun onTrue onFalse => visitExpr u ctx (.test onTrue onFalse) test) (visitExpr u ctx .value body)
      (visitExpr u ctx .value orElse)
  | .dict _ keys values => around u ctx role e do
    visitGivens u ctx keys
    visitExprs u ctx .value values
  | .set _ elements => around u ctx role e (visitExprs u ctx .value elements)
  | .comprehension m _ elements clauses => around u ctx role e do
    visitFirstIterable u ctx clauses
    comprehend u ctx m clauses fun inner onFalse added => do
      visitClauses u inner ctx.scope onFalse true added clauses
      visitExprs u inner .value elements
  | .await m value => around u ctx role e do
    enterAwait u m
    visitExpr u ctx .value value
  | .yield m value => around u ctx role e do
    enterYield u ctx m false
    visitGiven u ctx value
    stamp m.index
  | .yieldFrom m value => around u ctx role e do
    enterYield u ctx m true
    visitExpr u ctx .value value
    stamp m.index
  | .compare _ left _ comparators => around u ctx role e do
    visitExpr u ctx .value left
    visitExprs u ctx .value comparators
  | .call m func args keywords => around u ctx role e do
    visitExpr u ctx .value func
    visitExprs u ctx .value args
    visitKeywords u ctx keywords
    call ctx m.index func
    followCall u ctx m func args
  | .formatted _ value spec => around u ctx role e do
    visitExpr u ctx .value value
    visitGiven u ctx spec
  | .joined _ values => around u ctx role e (visitExprs u ctx .value values)
  | .constant .. => around u ctx role e (pure ())
  | .member m value _ => around u ctx role e do
    stamp m.index
    visitExpr u ctx .value value
  | .subscript m value slice => around u ctx role e do
    stamp m.index
    visitExpr u ctx .value value
    visitExpr u ctx .value slice
  | .starred _ value => around u ctx role e do
    if role == .target then assignTarget ctx false value
    visitExpr u ctx .value value
  | .name m _ => around u ctx role e (stamp m.index)
  | .list _ elements => around u ctx role e (visitExprs u ctx role.ofElement elements)
  | .tuple _ elements => around u ctx role e (visitExprs u ctx role.ofElement elements)
  | .slice _ lower upper step => around u ctx role e do
    visitGiven u ctx lower
    visitGiven u ctx upper
    visitGiven u ctx step

def visitExprs (u : Setup ω) (ctx : Context) (role : Role) (es : List Expr) : BindM ω Unit :=
  match es with
  | [] => return
  | e :: es => do
    visitExpr u ctx role e
    visitExprs u ctx role es

def visitGiven (u : Setup ω) (ctx : Context) (e : Option Expr) : BindM ω Unit :=
  match e with
  | none => return
  | some e => visitExpr u ctx .value e

def visitGivens (u : Setup ω) (ctx : Context) (es : List (Option Expr)) : BindM ω Unit :=
  match es with
  | [] => return
  | e :: es => do
    visitGiven u ctx e
    visitGivens u ctx es

/-- Walks the operands of `and` or `or` as tests. Each but the last leads on to the next if it does not decide the
outcome. -/
def visitOperands (u : Setup ω) (ctx : Context) (op : BoolOperator) (onTrue onFalse : FlowRef) (es : List Expr) :
    BindM ω Unit :=
  match es with
  | [] => throw .missingElement
  | [e] => visitExpr u ctx (.test onTrue onFalse) e
  | e :: rest => do
    operand op onTrue onFalse fun onTrue onFalse => visitExpr u ctx (.test onTrue onFalse) e
    visitOperands u ctx op onTrue onFalse rest

def visitKeywords (u : Setup ω) (ctx : Context) (ks : List Keyword) : BindM ω Unit :=
  match ks with
  | [] => return
  | .mk _ _ value :: ks => do
    visitExpr u ctx .value value
    visitKeywords u ctx ks

/-- Walks the iterable of the first clause of a comprehension, which is evaluated outside of it. -/
def visitFirstIterable (u : Setup ω) (ctx : Context) (cs : List Clause) : BindM ω Unit :=
  match cs with
  | [] => throw .missingElement
  | .mk _ _ iterable _ :: _ => visitExpr u ctx .value iterable

/-- Walks the clauses of a comprehension; `added` are the new symbols of each. -/
def visitClauses (u : Setup ω) (ctx : Context) (outer : Nat) (onFalse : FlowRef) (isFirst : Bool)
    (added : List (List SymbolRef)) (cs : List Clause) : BindM ω Unit :=
  match cs with
  | [] => return
  | .mk _ target iterable conditions :: cs => do
    takeOverOuter outer (added.headD [])
    unless isFirst do visitExpr u ctx .value iterable
    visitExpr u ctx .target target
    visitConditions u ctx onFalse conditions
    visitClauses u ctx outer onFalse false added.tail cs

def visitConditions (u : Setup ω) (ctx : Context) (onFalse : FlowRef) (es : List Expr) : BindM ω Unit :=
  match es with
  | [] => return
  | e :: es => do
    condition onFalse fun onTrue onFalse => visitExpr u ctx (.test onTrue onFalse) e
    visitConditions u ctx onFalse es

/-- Walks the defaults of parameters, which are evaluated with the definition. -/
def visitDefaults (u : Setup ω) (ctx : Context) (ps : Parameters) : BindM ω Unit :=
  match ps with
  | .mk _ _ _ _ _ keywordDefaults _ defaults => do
    visitExprs u ctx .value defaults
    visitGivens u ctx keywordDefaults

end

/-- Walks the annotations of parameters, which are evaluated with the definition. -/
def visitAnnotations (u : Setup ω) (ctx : Context) : List Parameter → BindM ω Unit
  | [] => return
  | p :: ps => do
    visitGiven u ctx p.hint
    visitAnnotations u ctx ps

end ScopeFlow.Bind
