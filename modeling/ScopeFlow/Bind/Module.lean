import ScopeFlow.Bind.Stmt
import ScopeFlow.Flow.Reach
import ScopeFlow.Schedule

/-!
# Binding a module

`bindModule` binds the body of a module and then, in the order of their queueing, the bodies of functions and lambdas, so
that a body is bound when every name around it is known. Bodies queued meanwhile come after those that wait already.

The outcome is kept in a `Bound`, also if binding failed half-way.
-/

namespace ScopeFlow

/-- What binding a module results in: its text and the names of its `__all__`, if it has one. -/
structure BindResults where
  doc : Option String
  all : Option (List String)
  deriving DecidableEq, Repr

namespace Bind

variable {ω : Type}

/-- The names every module has by itself, with their types. -/
def moduleIntrinsics : List (String × String) :=
  [("__doc__", "str"), ("__name__", "str"), ("__loader__", "Any"), ("__package__", "str"), ("__spec__", "Any"),
    ("__path__", "List[str]"), ("__file__", "str"), ("__cached__", "str"), ("__dict__", "Dict[str, Any]")]

/-- Binds, declares and assigns parameters in order. -/
def bindParameters (u : Setup ω) (ctx : Context) : List Parameter → BindM ω Unit
  | [] => return
  | p :: ps => do
    let symbol ← bindHere u ctx p.name
    if symbol.isSome then
      let place ← declareAt symbol (declarationIn u p.site p.mark.range .parameter)
      setDeclaration p.mark.index place
    assignName ctx p.mark.index p.name
    bindParameters u ctx ps

/-- Binds the body of a function. Falling off its end is a return. -/
def bindFunctionBody (u : Setup ω) (ctx : Context) (mark : Mark) (params : Parameters) (body : List Stmt) :
    BindM ω Unit := do
  setCurrent (← newStart)
  bindParameters u ctx params.all
  let returns ← newBranch
  walkStatements u { ctx with function := some mark.index, returnTarget := some returns } body
  stampAfterBody mark.index
  linkCurrent returns
  stampAfterWith mark.index (← finished returns)

def bindLambdaBody (u : Setup ω) (ctx : Context) (mark : Mark) (params : Parameters) (body : Expr) :
    BindM ω Unit := do
  setCurrent (← newStart)
  bindParameters u ctx params.all
  visitExpr u ctx .value body
  stampAfter mark.index

/-- Binds a body that waited, in a context of its own. -/
def replay (u : Setup ω) (task : Task) : BindM ω Unit :=
  match task.body with
  | .function mark params body => bindFunctionBody u { scope := task.scope, owner := mark.index } mark params body
  | .lambda mark params body => bindLambdaBody u { scope := task.scope, owner := mark.index } mark params body

/-- Takes the body that has waited longest. -/
def nextTask : BindM ω (Option Task) := modifyGet fun s =>
  match s.queue with
  | [] => (none, s)
  | task :: queue => (some task, { s with queue := queue })

/-- Binds all bodies that wait. A node is queued at most once, so the number of nodes bounds their number. -/
def bindDeferred (u : Setup ω) : BindM ω Unit := discard (drain nextTask (replay u) (u.outline.size + 1))

/-- Hides the symbols that were kept back and that `__all__` does not list. -/
def hidePrivates : BindM ω Unit := do
  let s ← get
  s.privates.forM fun (name, ref) =>
    if (s.all.getD []).contains name then pure () else adjustSymbol ref Symbol.hide

/-- Marks the symbols of the module that `__all__` lists. -/
def markListed (scope : Nat) : BindM ω Unit := do
  ((← get).all.getD []).forM fun name => adjustSymbol ⟨scope, name⟩ Symbol.list

/-- Binds the body of the module in a new scope. Without builtins the module becomes the builtins. -/
def bindModuleBody (u : Setup ω) (m : Module) : BindM ω Nat := do
  let scope ← newScope (if u.builtins.isNone then .builtin else .moduleBody) u.builtins
  let ctx : Context := { scope := scope, owner := m.mark.index }
  setScope m.mark.index scope
  moduleIntrinsics.forM fun (name, type) => addIntrinsic u ctx name ⟨m.mark, "Module"⟩ type
  setCurrent (← newStart)
  stamp m.mark.index
  walkStatements u ctx m.body
  showKeys m.mark.index
  stampAfter m.mark.index
  return scope

def bindTree (u : Setup ω) (m : Module) : BindM ω BindResults := do
  let scope ← bindModuleBody u m
  bindDeferred u
  hidePrivates
  markListed scope
  return ⟨docString? m.body, (← get).all⟩

def State.initial (u : Setup ω) (store : Store) (world : ω) : State ω :=
  { store := store, world := world, facts := Array.replicate u.outline.size {} }

end Bind

/-- A module that has been bound, as far as binding came. -/
structure Bound where
  outline : Outline
  graph : FlowGraph := FlowGraph.initial
  facts : Array Bind.NodeFacts := #[]
  diagnostics : List Diagnostic := []
  results : Option BindResults := none

/-- Binds a module whose nodes are numbered. The outcome comes with what was found out, also if binding failed. -/
def bindModule {ω : Type} (u : Bind.Setup ω) (m : Module) (store : Store) (world : ω) :
    Except Fault BindResults × Bind.State ω :=
  match (Bind.bindTree u m).run (Bind.State.initial u store world) with
  | .ok results s => (.ok results, s)
  | .error fault s => (.error fault, s)

namespace Bound

def ofState {ω : Type} (outline : Outline) (results : Option BindResults) (s : Bind.State ω) : Bound :=
  ⟨outline, s.graph, s.facts, s.diagnostics, results⟩

/-- A module of which nothing but its tree is known. -/
def blank (outline : Outline) : Bound := { outline := outline, facts := Array.replicate outline.size {} }

def factsOf (b : Bound) (node : Nat) : Bind.NodeFacts := (b.facts[node]?).getD {}

def scope? (b : Bound) (node : Nat) : Option Nat := (b.factsOf node).scope

def moduleScope? (b : Bound) : Option Nat := b.scope? 0

def scopedNodes (b : Bound) : List (Nat × Nat) :=
  (List.range b.facts.size).filterMap fun i => (b.scope? i).map (fun s => (i, s))

def nodeOfScope? (b : Bound) (scope : Nat) : Option Nat :=
  (b.scopedNodes.find? (fun p => p.2 == scope)).map Prod.fst

/-- Whether a node cannot be reached: the nearest stamp on the node or an ancestor decides. -/
def isUnreachable (b : Bound) (node : Nat) : Bool :=
  match (node :: b.outline.ancestors node).findSome? (fun i => (b.factsOf i).flow) with
  | some ref => (b.graph.nodeAt ref).step.isUnreachable
  | none => false

/-- All stamps: those on nodes, those after nodes and those after bodies. -/
def stamps (b : Bound) : List FlowRef :=
  let facts := b.facts.toList
  facts.filterMap Bind.NodeFacts.flow ++ facts.filterMap Bind.NodeFacts.after ++
    facts.filterMap Bind.NodeFacts.afterBody

/-- The part of the flow graph that leads to a stamp, in ascending order of numbers. -/
def flowGraph (b : Bound) : List FlowRef := b.graph.closure b.stamps

def declaration? (b : Bound) (store : Store) (node : Nat) : Option Declaration :=
  match (b.factsOf node).declaration with
  | some (.listed ref slot) => (store.symbol? ref.scope ref.name).bind (fun s => s.declarations[slot]?)
  | some (.unlisted d) => some d
  | none => none

end Bound

end ScopeFlow
