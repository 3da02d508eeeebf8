import ScopeFlow.Declaration

/-!
# Flow nodes and the flow graph

Code flow is kept backwards: a flow node knows the nodes from which control may come to it, its antecedents. A graph is
an array of flow nodes, and references between them are places in it. The node at place 0 is the sentinel of all
graphs: code that cannot run.

Labels join several antecedents; a label takes no two antecedents with one number.
-/

namespace ScopeFlow

/-- The place of a flow node in its graph. -/
abbrev FlowRef := Nat

/-- What a condition says of its antecedent. -/
inductive ConditionKind where
  | isTrue | isFalse
  /-- The way on if an `if` without `else` falls through, for a test that would have to be true. -/
  | trueNever
  /-- The same for a test that would have to be false. -/
  | falseNever
  deriving DecidableEq, Repr

/-- What happens at a flow node, and where control comes from. -/
inductive FlowStep where
  /-- Code that cannot run. -/
  | unreachable
  /-- The entry of an execution scope. -/
  | start
  /-- A join of forward control flow. -/
  | branch (antecedents : List FlowRef)
  /-- A join with back edges. -/
  | loop (antecedents : List FlowRef)
  /-- Exceptions that a context manager may swallow. -/
  | contextManager (expressions : List Nat) (isAsync : Bool) (antecedents : List FlowRef)
  /-- A reference is assigned or, with `unbound`, deleted. -/
  | assign (node : Option Nat) (key : String) (antecedent : FlowRef) (target : Option Int) (unbound : Bool)
  /-- A symbol takes over the value of the symbol of the same name in an outer scope. -/
  | takeOver (antecedent : FlowRef) (target source : Int)
  /-- A variable is annotated. -/
  | hint (antecedent : FlowRef)
  /-- Names are imported by a wildcard. -/
  | wildcard (node : Option Nat) (names : List String) (antecedent : FlowRef)
  /-- A condition that narrows references, of which the first bare name is kept. -/
  | condition (kind : ConditionKind) (expression : Option Expr) (reference : Option Nat) (antecedent : FlowRef)
  /-- A call; the called expression is kept. -/
  | call (node : Option Nat) (function : Option Expr) (antecedent : FlowRef)
  /-- The entry of a `finally` suite by a return or an exception. -/
  | gate (antecedent : FlowRef) (isClosed : Bool)
  /-- The end of a `finally` suite. -/
  | postFinally (antecedent : FlowRef) (node : Option Nat) (gate : FlowRef)

namespace FlowStep

def kind : FlowStep → String
  | unreachable | start => "FlowNode"
  | branch _ | loop _ => "FlowLabel"
  | contextManager .. => "FlowPostContextManagerLabel"
  | assign .. => "FlowAssignment"
  | takeOver .. => "FlowAssignmentAlias"
  | hint _ => "FlowVariableAnnotation"
  | wildcard .. => "FlowWildcardImport"
  | condition .. => "FlowCondition"
  | call .. => "FlowCall"
  | gate .. => "FlowPreFinallyGate"
  | postFinally .. => "FlowPostFinally"

/-- The names and values of the flags of a flow node, in ascending order. -/
def flags : FlowStep → List (String × Nat)
  | unreachable => [("UNREACHABLE", 0x1)]
  | start => [("START", 0x2)]
  | branch _ => [("BRANCH_LABEL", 0x4)]
  | loop _ => [("LOOP_LABEL", 0x8)]
  | contextManager .. => [("BRANCH_LABEL", 0x4), ("POST_CONTEXT_MANAGER", 0x4000)]
  | assign _ _ _ _ unbound => ("ASSIGNMENT", 0x10) :: if unbound then [("UNBIND", 0x20)] else []
  | wildcard .. => [("WILDCARD_IMPORT", 0x40)]
  | condition .isTrue .. => [("TRUE_CONDITION", 0x80)]
  | condition .isFalse .. => [("FALSE_CONDITION", 0x100)]
  | call .. => [("CALL", 0x200)]
  | gate .. => [("PRE_FINALLY_GATE", 0x400)]
  | postFinally .. => [("POST_FINALLY", 0x800)]
  | takeOver .. => [("ASSIGNMENT_ALIAS", 0x1000)]
  | hint _ => [("VARIABLE_ANNOTATION", 0x2000)]
  | condition .trueNever .. => [("TRUE_NEVER_CONDITION", 0x8000)]
  | condition .falseNever .. => [("FALSE_NEVER_CONDITION", 0x10000)]

/-- The number whose bits are the flags. -/
def flagBits (s : FlowStep) : Nat := s.flags.foldr (fun flag total => flag.2 + total) 0

/-- Where control comes from. At the end of a `finally` suite the gate is listed too. -/
def antecedents : FlowStep → List FlowRef
  | unreachable | start => []
  | branch ants | loop ants | contextManager _ _ ants => ants
  | assign _ _ ant _ _ | takeOver ant _ _ | hint ant | wildcard _ _ ant | condition _ _ _ ant | call _ _ ant
  | gate ant _ => [ant]
  | postFinally ant _ entry => [ant, entry]

/-- Where control comes from on the way through a node; the gate at the end of a `finally` suite is not on it. -/
def sources : FlowStep → List FlowRef
  | postFinally ant _ _ => [ant]
  | step => step.antecedents

def isUnreachable : FlowStep → Bool
  | unreachable => true
  | _ => false

def isStart : FlowStep → Bool
  | start => true
  | _ => false

/-- Adds an antecedent to a label; any other node stays as it is. -/
def addAntecedent (s : FlowStep) (ref : FlowRef) : FlowStep :=
  match s with
  | branch ants => branch (ants ++ [ref])
  | loop ants => loop (ants ++ [ref])
  | contextManager es isAsync ants => contextManager es isAsync (ants ++ [ref])
  | step => step

end FlowStep

/-- A flow node: its number and what happens there. -/
structure FlowNode where
  id : Int
  step : FlowStep

def FlowNode.print (n : FlowNode) : String := s!"{n.step.kind}#{n.id}"

/-- Flow nodes by place. -/
abbrev FlowGraph := Array FlowNode

namespace FlowGraph

/-- The node that stands for code that cannot run. -/
def sentinel : FlowNode := ⟨0, .unreachable⟩

def initial : FlowGraph := #[sentinel]

/-- The node at a place; the sentinel where there is none. -/
def nodeAt (g : FlowGraph) (ref : FlowRef) : FlowNode := (g[ref]?).getD sentinel

def idAt (g : FlowGraph) (ref : FlowRef) : Int := (g.nodeAt ref).id

/-- Whether a label has an antecedent with the number of a node. -/
def hasAntecedent (g : FlowGraph) (label ref : FlowRef) : Bool :=
  (g.nodeAt label).step.antecedents.any (fun a => g.idAt a == g.idAt ref)

/-- Adds an antecedent to a label, unless it has one with that number. -/
def addAntecedent (g : FlowGraph) (label ref : FlowRef) : FlowGraph :=
  if g.hasAntecedent label ref then g
  else g.modify label (fun n => { n with step := n.step.addAntecedent ref })

/-- What a finished label stands for: the sentinel if nothing leads to it, its antecedent if it is a plain join of one,
and itself otherwise. Loop labels stay, because back edges come later. -/
def finish (g : FlowGraph) (label : FlowRef) : FlowRef :=
  match (g.nodeAt label).step with
  | .branch [ant] => ant
  | step => if step.antecedents.isEmpty then 0 else label

end FlowGraph

end ScopeFlow
