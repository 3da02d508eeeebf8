import ScopeFlow.Bind.Basic

/-!
# Building the flow graph

The steps by which binding extends the flow graph: new nodes and labels, edges, stamps on nodes of the tree. Nothing is
added behind code that cannot run.
-/

namespace ScopeFlow.Bind

variable {ω : Type}

def current : BindM ω FlowRef := do return (← get).current

def setCurrent (ref : FlowRef) : BindM ω Unit := modify fun s => { s with current := ref }

/-- Goes on as code that cannot run. -/
def setDead : BindM ω Unit := setCurrent 0

def isDead : BindM ω Bool := do return ((← get).graph.nodeAt (← get).current).step.isUnreachable

/-- Adds a flow node with the next number. -/
def newNode (step : FlowStep) : BindM ω FlowRef := modifyGet fun s =>
  (s.graph.size,
    { s with
      graph := s.graph.push ⟨s.store.nextFlowId, step⟩
      store := { s.store with nextFlowId := s.store.nextFlowId + 1 }
      past := s.past.map (s.store :: ·) })

def newStart : BindM ω FlowRef := newNode .start

def newBranch : BindM ω FlowRef := newNode (.branch [])

def newLoop : BindM ω FlowRef := newNode (.loop [])

def newBranches : Nat → BindM ω (List FlowRef)
  | 0 => return []
  | n + 1 => do
    let label ← newBranch
    return label :: (← newBranches n)

/-- Leads from a flow node to a label, unless the current code cannot run. -/
def link (label ref : FlowRef) : BindM ω Unit := do
  unless ← isDead do
    modify fun s => { s with graph := s.graph.addAntecedent label ref }

def linkCurrent (label : FlowRef) : BindM ω Unit := do link label (← current)

def linkCurrentAll : List FlowRef → BindM ω Unit
  | [] => return
  | label :: labels => do
    linkCurrent label
    linkCurrentAll labels

/-- Leads from a flow node that may raise to the labels of the handlers in reach. -/
def linkRaise (ctx : Context) (ref : FlowRef) : BindM ω Unit := ctx.exceptTargets.forM (fun label => link label ref)

/-- What a finished label stands for. -/
def finished (label : FlowRef) : BindM ω FlowRef := do return (← get).graph.finish label

/-- Goes on behind a finished label. -/
def finish (label : FlowRef) : BindM ω Unit := do setCurrent (← finished label)

/-- Records the flow node in force when control reaches a node. -/
def stampWith (node : Nat) (ref : FlowRef) : BindM ω Unit := modifyFacts node fun f => { f with flow := some ref }

def stamp (node : Nat) : BindM ω Unit := do stampWith node (← current)

/-- Records the flow node in force after a node. -/
def stampAfterWith (node : Nat) (ref : FlowRef) : BindM ω Unit := modifyFacts node fun f => { f with after := some ref }

def stampAfter (node : Nat) : BindM ω Unit := do stampAfterWith node (← current)

/-- Records the current flow node as the one at the end of a function body. -/
def stampAfterBody (node : Nat) : BindM ω Unit := do
  let ref ← current
  modifyFacts node fun f => { f with afterBody := some ref }

/-- Goes on with a new flow node behind the current one, unless the code cannot run. -/
def advance (step : FlowRef → FlowStep) : BindM ω Unit := do
  unless ← isDead do
    setCurrent (← newNode (step (← current)))

/-- A call: it may raise, and the node of the call is stamped. -/
def call (ctx : Context) (node : Nat) (function : Expr) : BindM ω Unit := do
  advance (fun ant => .call (some node) (some function) ant)
  stamp node
  unless ← isDead do
    linkRaise ctx (← current)

/-- A symbol takes over the value of an outer symbol. -/
def takeOver (target source : Int) : BindM ω Unit := advance (fun ant => .takeOver ant target source)

/-- A variable is annotated. -/
def annotate : BindM ω Unit := advance (fun ant => .hint ant)

/-- A wildcard import of names: it may raise, and the node of the import is stamped. -/
def importAll (ctx : Context) (node : Nat) (names : List String) : BindM ω Unit := do
  unless ← isDead do
    let ref ← newNode (.wildcard (some node) names (← current))
    linkRaise ctx ref
    setCurrent ref
  stamp node

end ScopeFlow.Bind
