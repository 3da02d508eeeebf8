import ScopeFlow.Bind.Import
import ScopeFlow.Bind.Pattern

/-!
# Binding statements

`walkStatements` stamps each statement with the flow node that reaches it and walks it unless it cannot run; a statement
that cannot run is only searched for `yield`, because a `yield` makes a generator even where it cannot run.

Loops, `try` and `with` lay out labels for the jumps and exceptions of their suites and hand them down in the context.
The body of a function is not walked; it is queued, to be bound in a scope of its own.
-/

namespace ScopeFlow.Bind

variable {ω : Type}

/-- The special forms that the stub of the typing module declares by assignments. -/
def typingSpecialForms : List String :=
  ["Tuple", "Generic", "Protocol", "Callable", "Type", "ClassVar", "Final", "Literal", "TypedDict", "Union", "Optional",
    "Annotated", "TypeAlias", "OrderedDict", "Concatenate", "TypeGuard", "Unpack"]

/-- Declares a special form of the typing module. The answer is whether the target of the assignment is one. -/
def declareSpecialForm (u : Setup ω) (ctx : Context) (site : Site) (target : Expr) : BindM ω Bool := do
  match target with
  | .name _ id =>
    if u.file.isTypingStub && typingSpecialForms.contains id then
      match ← bindHere u ctx id with
      | some ref => declare ref (declarationIn u site site.mark.range .specialForm)
      | none => pure ()
      return true
    else return false
  | _ => return false

/-- Whether an assignment may be a type alias: it is in no function and no loop, and not a call in the typing stub. -/
def maybeTypeAlias (u : Setup ω) (node : Nat) (value : Expr) : Bool :=
  let isCall := match value with
    | .call .. => true
    | _ => false
  (u.outline.enclosingFunction node).isNone && !(isCall && u.file.isTypingStub) && !u.outline.isWithinLoop node

/-- Declares and assigns targets one after the other. -/
def visitTargets (u : Setup ω) (ctx : Context) (source : Nat) (maybeAlias : Bool) : List Expr → BindM ω Unit
  | [] => return
  | target :: targets => do
    inferVariable u ctx source maybeAlias target
    visitExpr u ctx .target target
    visitTargets u ctx source maybeAlias targets

/-- Binds and deletes targets one after the other. -/
def deleteTargets (u : Setup ω) (ctx : Context) : List Expr → BindM ω Unit
  | [] => return
  | target :: targets => do
    discard (bindTarget u ctx target)
    visitExpr u ctx .value target
    assignTarget ctx true target
    deleteTargets u ctx targets

def visitAssign (u : Setup ω) (ctx : Context) (mark : Mark) (targets : List Expr) (value : Expr) : BindM ω Unit := do
  let isForm ← match targets with
    | [target] => declareSpecialForm u ctx ⟨mark, "Assign"⟩ target
    | _ => pure false
  unless isForm do
    discard (bindTargets u ctx targets)
    visitExpr u ctx .value value
    visitTargets u ctx value.index (maybeTypeAlias u mark.index value) targets
    followAssign u ctx mark targets value

/-- The value of an annotated assignment, if it has one. -/
def visitAnnotatedValue (u : Setup ω) (ctx : Context) (mark : Mark) (target : Expr) (value : Option Expr) :
    BindM ω Unit := do
  match value with
  | none => return
  | some value =>
    visitExpr u ctx .value value
    inferVariable u ctx value.index (maybeTypeAlias u mark.index value) target
    assignTarget ctx false target

/-- An annotated assignment. A declared reference is tracked even before it is assigned. -/
def visitAnnAssign (u : Setup ω) (ctx : Context) (mark : Mark) (target hint : Expr) (value : Option Expr) :
    BindM ω Unit := do
  unless ← declareSpecialForm u ctx ⟨mark, "AnnAssign"⟩ target do
    discard (bindTarget u ctx target)
    visitAnnotatedValue u ctx mark target value
    visitExpr u ctx .value hint
    annotate
    annotateVariable u ctx target hint
    match target.referenceKey with
    | .ok key => addKey ctx.owner key
    | .error _ => pure ()
    visitExpr u ctx .value target
    match value with
    | some value => followAssign u ctx mark [target] value
    | none => return

/-- Redirects names of the current scope to the global one. -/
def visitGlobals (u : Setup ω) (ctx : Context) (mark : Mark) (global : Nat) : List String → BindM ω Unit
  | [] => return
  | name :: names => do
    let redirection := ((← get).store.scope? ctx.scope).bind (·.redirection? name)
    if redirection == some .nonlocal then reportError .nonLocalRedefinition mark name
    match ← lookUp ctx.scope name with
    | some found => if found.scope == ctx.scope then reportError .globalReassignment mark name
    | none => pure ()
    discard (bindName u ctx global name)
    if ctx.scope != global then
      modifyStore fun store => store.adjustScope ctx.scope (fun scope => (scope.redirect name .global).2)
    visitGlobals u ctx mark global names

/-- Redirects names of the current scope to the scopes around it. -/
def visitNonlocals (ctx : Context) (mark : Mark) : List String → BindM ω Unit
  | [] => return
  | name :: names => do
    let redirection := ((← get).store.scope? ctx.scope).bind (·.redirection? name)
    if redirection == some .global then reportError .globalRedefinition mark name
    match ← lookUp ctx.scope name with
    | some found =>
      if found.scope == ctx.scope then reportError .nonLocalReassignment mark name
      else if (((← get).store.type? found.scope).map ScopeType.isGlobal).getD false then
        reportError .nonLocalNoBinding mark name
      modifyStore fun store => store.adjustScope ctx.scope (fun scope => (scope.redirect name .nonlocal).2)
    | none => reportError .nonLocalNoBinding mark name
    visitNonlocals ctx mark names

/-- Walks the context managers of a `with` statement and assigns their targets. -/
def visitWithItems (u : Setup ω) (ctx : Context) : List WithItem → BindM ω Unit
  | [] => return
  | item :: items => do
    visitExpr u ctx .value item.context
    match item.target with
    | some target =>
      discard (bindTarget u ctx target)
      inferVariable u ctx item.mark.index false target
      visitExpr u ctx .target target
    | none => pure ()
    visitWithItems u ctx items

def visitTypeParameters (u : Setup ω) (ctx : Context) : List TypeParameter → BindM ω Unit
  | [] => return
  | p :: ps => do
    visitGiven u ctx p.bound
    visitTypeParameters u ctx ps

/-- Declares a function, walks what is evaluated with its definition, and queues its body. -/
def visitFunction (u : Setup ω) (ctx : Context) (site : Site) (name : String) (params : Parameters)
    (decorators : List Expr) (returns : Option Expr) (body : List Stmt) : BindM ω Unit := do
  let symbol ← bindHere u ctx name
  let isMethod := (u.outline.enclosingClass site.index true).isSome
  let place ← declareAt symbol (declarationIn u site site.mark.range (.function { isMethod := isMethod }))
  setDeclaration site.index place
  visitExprs u ctx .value decorators
  visitDefaults u ctx params
  visitAnnotations u ctx params.all
  visitGiven u ctx returns
  let inner ← deferBody ctx site.mark (.function site.mark params body)
  if (u.outline.enclosingClass site.index false).isSome then
    addIntrinsic u inner "__class__" site "class"
  assignName ctx site.index name false

/-- Goes on behind a branch, or as dead code if the environment rules the branch out. -/
def enterBranch (label : FlowRef) (value : Option Bool) (ruledOut : Bool) : BindM ω Unit :=
  if value == some ruledOut then setDead else finish label

/-- Searches a statement that cannot run for `yield`. -/
def noteYield (ctx : Context) (s : Stmt) : BindM ω Unit :=
  match ctx.function with
  | some f =>
    if s.tree.containsYield then adjustFunction f fun info => { info with isGenerator := true } else return
  | none => return

/-- Whether the suite of an `else` is a single `if`: an `elif`. -/
def isElif : List Stmt → Bool
  | [.ifElse ..] => true
  | _ => false

/-- Lays out a class: its scope is opened, its body walked there, and its name bound again behind it. -/
def layOutClass (u : Setup ω) (ctx : Context) (site : Site) (name : String) (body : Context → BindM ω Unit) :
    BindM ω Unit := do
  let scope ← newScope .classBody (← nonClassScope ctx)
  setScope site.index scope
  body { ctx with scope := scope }
  discard (bindHere u ctx name)
  assignName ctx site.index name false

/-- Lays out a `for` loop behind its iterable. The target is assigned at the start of each round. -/
def layOutFor (ctx : Context) (node : Nat) (target : BindM ω Unit) (body : Context → BindM ω Unit)
    (orElse : BindM ω Unit) : BindM ω Unit := do
  let before ← newLoop
  let exhausted ← newBranch
  let after ← newBranch
  linkCurrent before
  setCurrent before
  linkCurrent exhausted
  target
  body { ctx with continueTarget := some before, breakTarget := some after }
  linkCurrent before
  finish exhausted
  orElse
  linkCurrent after
  finish after
  stampAfter node

def layOutWhile (u : Setup ω) (ctx : Context) (node : Nat) (test : Expr) (walkTest : FlowRef → FlowRef → BindM ω Unit)
    (body : Context → BindM ω Unit) (orElse : BindM ω Unit) : BindM ω Unit := do
  let onTrue ← newBranch
  let onFalse ← newBranch
  let after ← newBranch
  let value ← staticValue u test
  let before ← newLoop
  linkCurrent before
  setCurrent before
  walkTest onTrue onFalse
  enterBranch onTrue value false
  body { ctx with continueTarget := some before, breakTarget := some after }
  linkCurrent before
  enterBranch onFalse value true
  orElse
  linkCurrent after
  finish after
  stampAfter node

/-- The label behind an `if`: that of the `if` it is an `elif` of, or a new one. -/
def joinOf (join : Option FlowRef) : BindM ω FlowRef :=
  match join with
  | some label => pure label
  | none => newBranch

/-- Lays out the other side of an `if`: an `elif` that can be reached goes on by itself, a suite is walked, and without
either the edge past the `if` is added. -/
def layOutElse (u : Setup ω) (ctx : Context) (after : FlowRef) (test : Expr) (orElse : List Stmt)
    (walk next : BindM ω Unit) : BindM ω Unit := do
  if isElif orElse && !(← isDead) then next
  else
    if orElse.isEmpty then linkNever u ctx after false test else walk
    linkCurrent after

/-- Lays out an `if`. One that is an `elif` leaves the label behind it to the `if` it belongs to. -/
def layOutIf (u : Setup ω) (join : Option FlowRef) (test : Expr) (walkTest : FlowRef → FlowRef → BindM ω Unit)
    (body : BindM ω Unit) (orElse : FlowRef → BindM ω Unit) : BindM ω Unit := do
  let after ← joinOf join
  let onTrue ← newBranch
  let onFalse ← newBranch
  let value ← staticValue u test
  walkTest onTrue onFalse
  enterBranch onTrue value false
  body
  linkCurrent after
  enterBranch onFalse value true
  orElse after
  if join.isNone then finish after

/-- Lays out a `with` statement behind its context managers, which may swallow what its body raises. -/
def layOutWith (ctx : Context) (managers : List Nat) (isAsync : Bool) (body : Context → BindM ω Unit) :
    BindM ω Unit := do
  let swallowed ← newNode (.contextManager managers isAsync [])
  linkCurrent swallowed
  let after ← newBranch
  link after swallowed
  body { ctx with exceptTargets := [swallowed] }
  linkCurrent after
  finish after

/-- Lays out the cases of a `match` statement behind its subject. -/
def layOutMatch (cases : FlowRef → BindM ω Unit) : BindM ω Unit := do
  let after ← newBranch
  cases after
  linkCurrent after
  finish after

/-- Lays out one `case`. The bare wildcard always matches, so nothing leads past it. -/
def layOutCase (after : FlowRef) (pattern : Pattern) (walkPattern : BindM ω Unit)
    (guard : FlowRef → FlowRef → BindM ω Unit) (body : BindM ω Unit) : BindM ω Unit := do
  let next ← newBranch
  let beforeGuard ← newBranch
  let beforeSuite ← newBranch
  linkCurrent beforeGuard
  unless pattern.isWildcard do linkCurrent next
  finish beforeGuard
  walkPattern
  guard beforeSuite next
  finish beforeSuite
  body
  linkCurrent after
  finish next

/-- Walks the guard of a `case`; without one the suite is entered. -/
def visitGuard (u : Setup ω) (ctx : Context) (guard : Option Expr) (onTrue onFalse : FlowRef) : BindM ω Unit :=
  match guard with
  | some guard => visitExpr u ctx (.test onTrue onFalse) guard
  | none => linkCurrent onTrue

/-- The entry of a `finally` suite by a return or an exception, if there is such a suite. -/
def newGate (hasFinally : Bool) (beforeFinally abrupt : FlowRef) : BindM ω FlowRef := do
  if hasFinally then
    let gate ← newNode (.gate abrupt false)
    link beforeFinally gate
    return gate
  else return 0

/-- Lays out a `finally` suite. Its end can be passed only if what it follows can end. -/
def layOutFinally (node : Nat) (gate : FlowRef) (ends : Bool) (final : BindM ω Unit) : BindM ω Unit := do
  final
  let ref ← newNode (.postFinally (← current) (some node) gate)
  if ends then setCurrent ref else setDead

/-- Whether one of several `except` clauses takes every exception. -/
def catchesAll (handlers : List Handler) : Bool := handlers.any fun
  | .mk _ type _ _ => type.isNone

/-- Lays out a `try` statement. An exception may be raised before the first statement of the body; without a bare `except`
clause one that is not caught goes straight to the `finally` suite. -/
def layOutTry (ctx : Context) (node : Nat) (handlers : List Handler) (hasFinally : Bool)
    (body orElse : Context → BindM ω Unit) (walkHandlers : Context → FlowRef → List FlowRef → BindM ω Bool)
    (final : BindM ω Unit) : BindM ω Unit := do
  let labels ← newBranches handlers.length
  let beforeFinally ← newBranch
  let abrupt ← newBranch
  let gate ← newGate hasFinally beforeFinally abrupt
  let targets := if catchesAll handlers then labels else labels ++ [abrupt]
  linkCurrentAll targets
  let inner := if hasFinally then { ctx with finallyTargets := ctx.finallyTargets ++ [abrupt] } else ctx
  body { inner with exceptTargets := targets }
  orElse inner
  linkCurrent beforeFinally
  let bodyEnds := !(← isDead)
  let handlerEnds ← walkHandlers { inner with exceptDepth := ctx.exceptDepth + 1 } beforeFinally labels
  finish beforeFinally
  if hasFinally then layOutFinally node gate (bodyEnds || handlerEnds) final

/-- Lays out one `except` clause from its label, and tells whether its end can be reached. The name it binds is deleted at
its end. -/
def layOutHandler (u : Setup ω) (ctx : Context) (after label : FlowRef) (mark : Mark) (name : Option String)
    (type body : BindM ω Unit) : BindM ω Bool := do
  finish label
  type
  let name := name.filter (fun n => !n.isEmpty)
  match name with
  | some name => introduce u ctx ⟨mark, "ExceptHandler"⟩ name
  | none => pure ()
  body
  match name with
  | some name => assignName ctx mark.index name true true
  | none => pure ()
  linkCurrent after
  return !(← isDead)

/-- Lays out an assertion. Its message is walked on the way on which the test fails. -/
def layOutAssert (test : FlowRef → FlowRef → BindM ω Unit) (message : Option (BindM ω Unit)) : BindM ω Unit := do
  let onTrue ← newBranch
  let onFalse ← newBranch
  test onTrue onFalse
  match message with
  | some message =>
    finish onFalse
    message
  | none => pure ()
  finish onTrue

/-- Notes a jump in the function being bound. -/
def noteJump (ctx : Context) (f : FunctionInfo → FunctionInfo) : BindM ω Unit :=
  match ctx.function with
  | some node => adjustFunction node f
  | none => return

/-- Leads to the targets of a jump; what follows cannot run. -/
def jump (targets : List FlowRef) : BindM ω Unit := do
  linkCurrentAll targets
  setDead

mutual

/-- Walks a statement. An `if` that is an `elif` joins the label of the `if` it belongs to. -/
def visitStmt (u : Setup ω) (ctx : Context) (join : Option FlowRef) (s : Stmt) : BindM ω Unit :=
  match s with
  | .function _ _ name params body decorators returns => visitFunction u ctx s.site name params decorators returns body
  | .classDef m name bases keywords body decorators => do
    visitExprs u ctx .value decorators
    let symbol ← bindHere u ctx name
    let place ← declareAt symbol (declarationIn u s.site m.range .classDef)
    setDeclaration m.index place
    visitExprs u ctx .value bases
    visitKeywords u ctx keywords
    layOutClass u ctx s.site name fun inner => walkStatements u inner body
  | .returnValue m value => do
    noteJump ctx fun info => { info with returns := info.returns ++ [m.index] }
    visitGiven u ctx value
    stamp m.index
    jump (ctx.returnTarget.toList ++ ctx.finallyTargets)
  | .delete _ targets => deleteTargets u ctx targets
  | .assign m targets value => visitAssign u ctx m targets value
  | .augAssign m target op value => do
    visitExpr u ctx .value target
    visitExpr u ctx .value value
    discard (bindTarget u ctx target)
    inferVariable u ctx value.index false target
    assignTarget ctx false target
    followAdd u ctx m target op value
  | .annAssign m target hint value => visitAnnAssign u ctx m target hint value
  | .forLoop m _ target iterable body orElse => do
    discard (bindTarget u ctx target)
    inferVariable u ctx m.index false target
    visitExpr u ctx .value iterable
    layOutFor ctx m.index (visitExpr u ctx .target target) (fun inner => walkStatements u inner body)
      (walkStatements u ctx orElse)
  | .whileLoop m test body orElse =>
    layOutWhile u ctx m.index test (fun onTrue onFalse => visitExpr u ctx (.test onTrue onFalse) test)
      (fun inner => walkStatements u inner body) (walkStatements u ctx orElse)
  | .ifElse _ test body orElse =>
    layOutIf u join test (fun onTrue onFalse => visitExpr u ctx (.test onTrue onFalse) test) (walkStatements u ctx body)
      fun after => layOutElse u ctx after test orElse (walkStatements u ctx orElse) (visitElif u ctx after orElse)
  | .withBlock _ isAsync items body => do
    visitWithItems u ctx items
    layOutWith ctx (items.map (fun item => item.context.index)) isAsync fun inner => walkStatements u inner body
  | .matchOn _ subject cases => do
    visitExpr u ctx .value subject
    layOutMatch fun after => visitCases u ctx after cases
  | .raise m exception cause => do
    noteJump ctx fun info => { info with raises := info.raises ++ [m.index] }
    if exception.isNone && ctx.exceptDepth == 0 then reportError .raiseParams m
    visitGiven u ctx exception
    visitGiven u ctx cause
    jump ctx.finallyTargets
  | .tryBlock m _ body handlers orElse final =>
    layOutTry ctx m.index handlers (!final.isEmpty) (fun inner => walkStatements u inner body)
      (fun inner => walkStatements u inner orElse) (fun inner after labels => visitHandlers u inner after labels handlers)
      (walkStatements u ctx final)
  | .assertion _ test message =>
    layOutAssert (fun onTrue onFalse => visitExpr u ctx (.test onTrue onFalse) test)
      (message.map fun message => visitExpr u ctx .value message)
  | .importModules _ names => names.forM (importModule u ctx)
  | .importFrom _ source names level => importFrom u ctx s.site source names level
  | .globals m names => do visitGlobals u ctx m (← globalScope ctx.scope) names
  | .nonlocals m names => do
    if ctx.scope == (← globalScope ctx.scope) then reportError .nonLocalInModule m
    else visitNonlocals ctx m names
  | .expr _ value => visitExpr u ctx .value value
  | .pass _ => return
  | .breakLoop _ => jump ctx.breakTarget.toList
  | .continueLoop _ => jump ctx.continueTarget.toList
  | .typeAlias _ name params value => do
    discard (bindTarget u ctx name)
    visitTypeParameters u ctx params
    visitExpr u ctx .value value
    inferVariable u ctx value.index true name
    visitExpr u ctx .target name
  | .nested .. => throw .nestedModule

def walkStatements (u : Setup ω) (ctx : Context) (ss : List Stmt) : BindM ω Unit :=
  match ss with
  | [] => return
  | s :: ss => do
    stamp s.mark.index
    if ← isDead then noteYield ctx s else visitStmt u ctx none s
    walkStatements u ctx ss

/-- Walks an `elif`, which joins the label of the `if` it belongs to. -/
def visitElif (u : Setup ω) (ctx : Context) (after : FlowRef) (ss : List Stmt) : BindM ω Unit :=
  match ss with
  | [s] => do
    stamp s.mark.index
    visitStmt u ctx (some after) s
  | _ => return

/-- Walks the `except` clauses of a `try` statement, each from its label, and tells whether the end of one can be
reached. -/
def visitHandlers (u : Setup ω) (ctx : Context) (after : FlowRef) (labels : List FlowRef) (hs : List Handler) :
    BindM ω Bool :=
  match hs with
  | [] => return false
  | .mk m type name body :: hs => do
    let ends ← layOutHandler u ctx after (labels.headD 0) m name (visitGiven u ctx type) (walkStatements u ctx body)
    let more ← visitHandlers u ctx after labels.tail hs
    return ends || more

def visitCases (u : Setup ω) (ctx : Context) (after : FlowRef) (cs : List MatchCase) : BindM ω Unit :=
  match cs with
  | [] => return
  | .mk _ pattern guard body :: cs => do
    layOutCase after pattern (visitPattern u ctx pattern) (visitGuard u ctx guard) (walkStatements u ctx body)
    visitCases u ctx after cs

end

end ScopeFlow.Bind
