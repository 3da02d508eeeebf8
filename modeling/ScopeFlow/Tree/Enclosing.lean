import ScopeFlow.Tree.Outline

/-!
# What encloses a node

A function, lambda or class encloses what stands in its body; its decorators, defaults, annotations and bases are
evaluated outside it. Each question climbs the ancestors of a node and looks, at every step, at the ancestor and the
child of it that was climbed from.
-/

namespace ScopeFlow

namespace Node

def isFunction : Node → Bool
  | stmt (.function ..) => true
  | _ => false

def isClass : Node → Bool
  | stmt (.classDef ..) => true
  | _ => false

def isLambda : Node → Bool
  | expr (.lambda ..) => true
  | _ => false

def isComprehension : Node → Bool
  | expr (.comprehension ..) => true
  | _ => false

def isLoop : Node → Bool
  | stmt (.forLoop ..) | stmt (.whileLoop ..) => true
  | _ => false

/-- Whether a node is a module, also one that stands inside another. -/
def isModule : Node → Bool
  | root _ | stmt (.nested ..) => true
  | _ => false

/-- Whether the node numbered `child` stands in the body of a function, lambda or class. -/
def holdsInBody (n : Node) (child : Nat) : Bool :=
  match n with
  | stmt (.function _ _ _ _ body _ _) => body.any (fun s => s.mark.index == child)
  | stmt (.classDef _ _ _ _ body _) => body.any (fun s => s.mark.index == child)
  | expr (.lambda _ _ body) => body.index == child
  | _ => false

end Node

namespace Outline

/-- Climbs a list of ancestors. `step` sees an ancestor and the number of the child climbed from; it answers, with
`some`, or lets the climb go on, with `none`. -/
def climb (o : Outline) {α : Type} (step : Node → Nat → Nat → Option α) (missing : α) : Nat → List Nat → α
  | _, [] => missing
  | child, a :: rest =>
    match o.node? a with
    | none => missing
    | some n =>
      match step n a child with
      | some answer => answer
      | none => climb o step missing a rest

/-- The function whose body holds a node, unless a class body comes first. -/
def enclosingFunction (o : Outline) (i : Nat) : Option Nat :=
  o.climb (fun n a child =>
    if n.isFunction && n.holdsInBody child then some (some a)
    else if n.isClass && n.holdsInBody child then some none
    else none) none i (o.ancestors i)

/-- The lambda whose body holds a node, unless a function or class body comes first. -/
def enclosingLambda (o : Outline) (i : Nat) : Option Nat :=
  o.climb (fun n a child =>
    if n.isLambda && n.holdsInBody child then some (some a)
    else if (n.isFunction || n.isClass) && n.holdsInBody child then some none
    else none) none i (o.ancestors i)

/-- The class whose body holds a node; with `stopAtFunction`, unless a function body comes first. -/
def enclosingClass (o : Outline) (i : Nat) (stopAtFunction : Bool) : Option Nat :=
  o.climb (fun n a child =>
    if n.isClass && n.holdsInBody child then some (some a)
    else if n.isFunction && n.holdsInBody child && stopAtFunction then some none
    else none) none i (o.ancestors i)

/-- The climb behind `assignmentContainer`; the flag says whether a comprehension was passed. -/
def containerFrom (o : Outline) : Bool → Nat → List Nat → Option Nat
  | _, _, [] => none
  | inComprehension, child, a :: rest =>
    match o.node? a with
    | none => none
    | some n =>
      if n.isComprehension then containerFrom o true a rest
      else if (n.isFunction || n.isLambda) && n.holdsInBody child then some a
      else if n.isClass && n.holdsInBody child then (if inComprehension then none else some a)
      else if n.isModule then some a
      else containerFrom o inComprehension a rest

/-- The node whose scope receives the target of an assignment expression: the nearest function, lambda, class or module
body. A comprehension directly in a class body has none. -/
def assignmentContainer (o : Outline) (i : Nat) : Option Nat := o.containerFrom false i (o.ancestors i)

/-- Whether a node stands anywhere in a loop of the same function, lambda, class or module. -/
def isWithinLoop (o : Outline) (i : Nat) : Bool :=
  o.climb (fun n _ _ =>
    if n.isLoop then some true
    else if n.isFunction || n.isLambda || n.isClass || n.isModule then some false
    else none) false i (o.ancestors i)

/-- Whether a node stands anywhere in a comprehension of the same function, lambda or class. -/
def isInComprehension (o : Outline) (i : Nat) : Bool :=
  o.climb (fun n _ _ =>
    if n.isComprehension then some true
    else if n.isFunction || n.isLambda || n.isClass then some false
    else none) false i (o.ancestors i)

end Outline

end ScopeFlow
