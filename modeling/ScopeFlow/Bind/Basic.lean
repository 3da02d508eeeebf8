import ScopeFlow.Diagnostic
import ScopeFlow.Flow.Graph
import ScopeFlow.Ghost
import ScopeFlow.Import
import ScopeFlow.Scope
import ScopeFlow.SourceFile
import ScopeFlow.Tree.Outline

/-!
# The state and the context of binding

Binding one module is a computation that may fail and that changes a state: the store of scopes, the flow graph under
construction with its current node, what is known of each node, diagnostics, and the bodies that wait to be bound. The
state survives a failure. Every step that changes the store records the store before it, so that the stores of a run can
be spoken of.

What depends on where in the tree binding stands (the scope, the targets of jumps, the handlers in reach) is not state but
a context that is handed down.

Other modules are seen through one function of the setup, which may bind them first; it threads the store and a world of
its own, whose type is a parameter.
-/

namespace ScopeFlow

/-- What an importer sees of a module: its symbols in order, the names of `__all__` if it has one, and its text. -/
structure Exports where
  symbols : Table SymbolFlags := []
  all : Option (List String) := none
  doc : Option String := none

/-- The symbols that a wildcard import brings. -/
def Exports.wildcardNames (e : Exports) : List String :=
  match e.all with
  | some names => names
  | none => (e.symbols.filter (fun s => !s.2.externallyHidden)).map Prod.fst

namespace Bind

/-- A symbol by its scope and name. -/
structure SymbolRef where
  scope : Nat
  name : String
  deriving DecidableEq, Repr

/-- Where the declaration of a node is kept: in the list of a symbol, or nowhere else. -/
inductive DeclarationPlace where
  | listed (symbol : SymbolRef) (slot : Nat)
  | unlisted (declaration : Declaration)

/-- What binding has found out about one node. -/
structure NodeFacts where
  /-- The scope that the node opens. -/
  scope : Option Nat := none
  declaration : Option DeclarationPlace := none
  /-- The flow node in force when control reaches the node. -/
  flow : Option FlowRef := none
  /-- The flow node in force after the node. -/
  after : Option FlowRef := none
  /-- The flow node at the end of a function body, before returns are joined in. -/
  afterBody : Option FlowRef := none
  /-- The keys of the references of the execution scope that the node opens. -/
  keys : List String := []
  /-- Whether these keys have been made known. -/
  showsKeys : Bool := false

/-- The body of a function or lambda. -/
inductive Body where
  | function (mark : Mark) (params : Parameters) (body : List Stmt)
  | lambda (mark : Mark) (params : Parameters) (body : Expr)

/-- A body that waits to be bound in its scope. -/
structure Task where
  scope : Nat
  body : Body

/-- What does not change while a module is bound. -/
structure Setup (ω : Type) where
  file : SourceFile
  policy : NarrowingPolicy := {}
  outline : Outline
  /-- The records of imports, by the number of their node. -/
  imports : List (Nat × ImportRecord) := []
  /-- The builtins scope; without one the module becomes it. -/
  builtins : Option Nat := none
  /-- What is seen of the module at a path. -/
  exports : String → Store → ω → Except Fault (Option Exports) × Store × ω

/-- What depends on the place in the tree. -/
structure Context where
  scope : Nat
  /-- The node whose execution scope the code belongs to. -/
  owner : Nat
  /-- The function whose body is being bound. -/
  function : Option Nat := none
  returnTarget : Option FlowRef := none
  breakTarget : Option FlowRef := none
  continueTarget : Option FlowRef := none
  /-- The labels that what may raise leads to. -/
  exceptTargets : List FlowRef := []
  /-- The labels of the `finally` suites that a return or raise runs through, outermost first. -/
  finallyTargets : List FlowRef := []
  /-- The number of `except` clauses around the place. -/
  exceptDepth : Nat := 0

/-- What binding changes. -/
structure State (ω : Type) where
  store : Store
  /-- The stores before this one, the latest first. -/
  past : Ghost (List Store) := .of []
  world : ω
  graph : FlowGraph := FlowGraph.initial
  current : FlowRef := 0
  facts : Array NodeFacts := #[]
  diagnostics : List Diagnostic := []
  queue : List Task := []
  /-- The local names of the typing modules and of the system module. -/
  typingNames : List String := []
  systemNames : List String := []
  /-- The symbols of the typing modules by their local names. -/
  typingSymbols : Table String := []
  /-- Symbols that are hidden in the end unless `__all__` lists them. -/
  privates : Table SymbolRef := []
  /-- The names of `__all__`, once it is assigned. -/
  all : Option (List String) := none

abbrev BindM (ω : Type) := EStateM Fault (State ω)

variable {ω : Type}

/-- A step that a pure function of the store decides, and that may fail. -/
def consult {α : Type} (f : Store → Except Fault α) : BindM ω α := do
  match f (← get).store with
  | .ok a => return a
  | .error fault => throw fault

/-- A step that cannot fail on the state and whose answer may be a failure. -/
def ofExcept {α : Type} : Except Fault α → BindM ω α
  | .ok a => pure a
  | .error fault => throw fault

def modifyStore (f : Store → Store) : BindM ω Unit :=
  modify fun s => { s with store := f s.store, past := s.past.map (s.store :: ·) }

def modifyFacts (node : Nat) (f : NodeFacts → NodeFacts) : BindM ω Unit :=
  modify fun s => { s with facts := s.facts.modify node f }

def factsOf (node : Nat) : BindM ω NodeFacts := do return ((← get).facts[node]?).getD {}

def setScope (node scope : Nat) : BindM ω Unit := modifyFacts node fun f => { f with scope := some scope }

def setDeclaration (node : Nat) (place : DeclarationPlace) : BindM ω Unit :=
  modifyFacts node fun f => { f with declaration := some place }

/-- Adds the key of a reference to those of an execution scope. -/
def addKey (owner : Nat) (key : String) : BindM ω Unit :=
  modifyFacts owner fun f => { f with keys := if f.keys.contains key then f.keys else f.keys ++ [key] }

def showKeys (owner : Nat) : BindM ω Unit := modifyFacts owner fun f => { f with showsKeys := true }

def report (d : Diagnostic) : BindM ω Unit := modify fun s => { s with diagnostics := s.diagnostics ++ [d] }

/-- Reports an error, which no rule switches off. -/
def reportError (key : MessageKey) (mark : Mark) (name : String := "") : BindM ω Unit :=
  report { key := key, text := key.about name, range := mark.range }

/-- Reports a diagnostic of a rule, if the rule is switched on. -/
def reportRule (u : Setup ω) (rule : Rule) (key : MessageKey) (mark : Mark) (name : String := "")
    (actions : List DiagnosticAction := []) : BindM ω Unit := do
  if u.file.rules.isEnabled rule then
    report { key := key, text := key.about name, range := mark.range, rule := some rule.name, actions := actions }

/-- What is seen of the module at a path. -/
def lookUpExports (u : Setup ω) (path : String) : BindM ω (Option Exports) := fun s =>
  match u.exports path s.store s.world with
  | (.ok exports, store, world) =>
    .ok exports { s with store := store, world := world, past := s.past.map (s.store :: ·) }
  | (.error fault, store, world) =>
    .error fault { s with store := store, world := world, past := s.past.map (s.store :: ·) }

end Bind

end ScopeFlow
