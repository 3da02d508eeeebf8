import ScopeFlow.Tree.Basic

/-!
# Numbering a tree

Every node is given the number of nodes met before it on a walk that takes a node before its children and children in
field order. Binding refers to nodes by these numbers, so it numbers the tree it is given first; a tree that is numbered
already stays as it is.
-/

namespace ScopeFlow

/-- Gives a mark the next number. -/
def Mark.number (m : Mark) : StateM Nat Mark := modifyGet fun n => ({ m with index := n }, n + 1)

mutual

/-- Numbers an expression. -/
def Expr.number (e : Expr) : StateM Nat Expr :=
  match e with
  | .boolOp m op values => do return .boolOp (← m.number) op (← Expr.numberAll values)
  | .named m target value => do return .named (← m.number) (← target.number) (← value.number)
  | .binOp m left op right => do return .binOp (← m.number) (← left.number) op (← right.number)
  | .unaryOp m op operand => do return .unaryOp (← m.number) op (← operand.number)
  | .lambda m params body => do return .lambda (← m.number) (← params.number) (← body.number)
  | .ifElse m test body orElse => do
    return .ifElse (← m.number) (← test.number) (← body.number) (← orElse.number)
  | .dict m keys values => do return .dict (← m.number) (← Expr.numberGivens keys) (← Expr.numberAll values)
  | .set m elements => do return .set (← m.number) (← Expr.numberAll elements)
  | .comprehension m kind elements clauses => do
    return .comprehension (← m.number) kind (← Expr.numberAll elements) (← Clause.numberAll clauses)
  | .await m value => do return .await (← m.number) (← value.number)
  | .yield m value => do return .yield (← m.number) (← Expr.numberGiven value)
  | .yieldFrom m value => do return .yieldFrom (← m.number) (← value.number)
  | .compare m left ops comparators => do
    return .compare (← m.number) (← left.number) ops (← Expr.numberAll comparators)
  | .call m func args keywords => do
    return .call (← m.number) (← func.number) (← Expr.numberAll args) (← Keyword.numberAll keywords)
  | .formatted m value spec => do return .formatted (← m.number) (← value.number) (← Expr.numberGiven spec)
  | .joined m values => do return .joined (← m.number) (← Expr.numberAll values)
  | .constant m value kind => do return .constant (← m.number) value kind
  | .member m value attr => do return .member (← m.number) (← value.number) attr
  | .subscript m value slice => do return .subscript (← m.number) (← value.number) (← slice.number)
  | .starred m value => do return .starred (← m.number) (← value.number)
  | .name m id => do return .name (← m.number) id
  | .list m elements => do return .list (← m.number) (← Expr.numberAll elements)
  | .tuple m elements => do return .tuple (← m.number) (← Expr.numberAll elements)
  | .slice m lower upper step => do
    return .slice (← m.number) (← Expr.numberGiven lower) (← Expr.numberGiven upper) (← Expr.numberGiven step)

def Expr.numberAll (es : List Expr) : StateM Nat (List Expr) :=
  match es with
  | [] => return []
  | e :: es => do return (← e.number) :: (← Expr.numberAll es)

def Expr.numberGiven (e : Option Expr) : StateM Nat (Option Expr) :=
  match e with
  | none => return none
  | some e => do return some (← e.number)

def Expr.numberGivens (es : List (Option Expr)) : StateM Nat (List (Option Expr)) :=
  match es with
  | [] => return []
  | e :: es => do return (← Expr.numberGiven e) :: (← Expr.numberGivens es)

def Clause.numberAll (cs : List Clause) : StateM Nat (List Clause) :=
  match cs with
  | [] => return []
  | .mk m target iterable conditions :: cs => do
    return .mk (← m.number) (← target.number) (← iterable.number) (← Expr.numberAll conditions) ::
      (← Clause.numberAll cs)

def Keyword.numberAll (ks : List Keyword) : StateM Nat (List Keyword) :=
  match ks with
  | [] => return []
  | .mk m name value :: ks => do return .mk (← m.number) name (← value.number) :: (← Keyword.numberAll ks)

def Parameter.numberAll (ps : List Parameter) : StateM Nat (List Parameter) :=
  match ps with
  | [] => return []
  | .mk m name hint :: ps => do
    return .mk (← m.number) name (← Expr.numberGiven hint) :: (← Parameter.numberAll ps)

def Parameter.numberGiven (p : Option Parameter) : StateM Nat (Option Parameter) :=
  match p with
  | none => return none
  | some (.mk m name hint) => do return some (.mk (← m.number) name (← Expr.numberGiven hint))

def Parameters.number (ps : Parameters) : StateM Nat Parameters :=
  match ps with
  | .mk m posOnly pos rest kwOnly kwDefaults kwRest defaults => do
    return .mk (← m.number) (← Parameter.numberAll posOnly) (← Parameter.numberAll pos)
      (← Parameter.numberGiven rest) (← Parameter.numberAll kwOnly) (← Expr.numberGivens kwDefaults)
      (← Parameter.numberGiven kwRest) (← Expr.numberAll defaults)

end

mutual

def Pattern.number (p : Pattern) : StateM Nat Pattern :=
  match p with
  | .value m e => do return .value (← m.number) (← e.number)
  | .singleton m literal => do return .singleton (← m.number) literal
  | .sequence m ps => do return .sequence (← m.number) (← Pattern.numberAll ps)
  | .mapping m keys ps rest => do
    return .mapping (← m.number) (← Expr.numberAll keys) (← Pattern.numberAll ps) rest
  | .classOf m cls ps attributes attributePatterns => do
    return .classOf (← m.number) (← cls.number) (← Pattern.numberAll ps) attributes
      (← Pattern.numberAll attributePatterns)
  | .star m name => do return .star (← m.number) name
  | .capture m none name => do return .capture (← m.number) none name
  | .capture m (some inner) name => do return .capture (← m.number) (some (← inner.number)) name
  | .alternatives m ps => do return .alternatives (← m.number) (← Pattern.numberAll ps)

def Pattern.numberAll (ps : List Pattern) : StateM Nat (List Pattern) :=
  match ps with
  | [] => return []
  | p :: ps => do return (← p.number) :: (← Pattern.numberAll ps)

end

def ImportName.number (n : ImportName) : StateM Nat ImportName := do return { n with mark := ← n.mark.number }

def WithItem.number (w : WithItem) : StateM Nat WithItem := do
  return ⟨← w.mark.number, ← w.context.number, ← Expr.numberGiven w.target⟩

def TypeParameter.number (t : TypeParameter) : StateM Nat TypeParameter := do
  return ⟨← t.mark.number, t.name, ← Expr.numberGiven t.bound⟩

mutual

def Stmt.number (s : Stmt) : StateM Nat Stmt :=
  match s with
  | .function m isAsync name params body decorators returns => do
    return .function (← m.number) isAsync name (← params.number) (← Stmt.numberAll body)
      (← Expr.numberAll decorators) (← Expr.numberGiven returns)
  | .classDef m name bases keywords body decorators => do
    return .classDef (← m.number) name (← Expr.numberAll bases) (← Keyword.numberAll keywords)
      (← Stmt.numberAll body) (← Expr.numberAll decorators)
  | .returnValue m value => do return .returnValue (← m.number) (← Expr.numberGiven value)
  | .delete m targets => do return .delete (← m.number) (← Expr.numberAll targets)
  | .assign m targets value => do return .assign (← m.number) (← Expr.numberAll targets) (← value.number)
  | .augAssign m target op value => do return .augAssign (← m.number) (← target.number) op (← value.number)
  | .annAssign m target hint value => do
    return .annAssign (← m.number) (← target.number) (← hint.number) (← Expr.numberGiven value)
  | .forLoop m isAsync target iterable body orElse => do
    return .forLoop (← m.number) isAsync (← target.number) (← iterable.number) (← Stmt.numberAll body)
      (← Stmt.numberAll orElse)
  | .whileLoop m test body orElse => do
    return .whileLoop (← m.number) (← test.number) (← Stmt.numberAll body) (← Stmt.numberAll orElse)
  | .ifElse m test body orElse => do
    return .ifElse (← m.number) (← test.number) (← Stmt.numberAll body) (← Stmt.numberAll orElse)
  | .withBlock m isAsync items body => do
    return .withBlock (← m.number) isAsync (← items.mapM WithItem.number) (← Stmt.numberAll body)
  | .matchOn m subject cases => do return .matchOn (← m.number) (← subject.number) (← MatchCase.numberAll cases)
  | .raise m exception cause => do
    return .raise (← m.number) (← Expr.numberGiven exception) (← Expr.numberGiven cause)
  | .tryBlock m isGroup body handlers orElse final => do
    return .tryBlock (← m.number) isGroup (← Stmt.numberAll body) (← Handler.numberAll handlers)
      (← Stmt.numberAll orElse) (← Stmt.numberAll final)
  | .assertion m test message => do return .assertion (← m.number) (← test.number) (← Expr.numberGiven message)
  | .importModules m names => do return .importModules (← m.number) (← names.mapM ImportName.number)
  | .importFrom m source names level => do
    return .importFrom (← m.number) source (← names.mapM ImportName.number) level
  | .globals m names => do return .globals (← m.number) names
  | .nonlocals m names => do return .nonlocals (← m.number) names
  | .expr m value => do return .expr (← m.number) (← value.number)
  | .pass m => do return .pass (← m.number)
  | .breakLoop m => do return .breakLoop (← m.number)
  | .continueLoop m => do return .continueLoop (← m.number)
  | .typeAlias m name params value => do
    return .typeAlias (← m.number) (← name.number) (← params.mapM TypeParameter.number) (← value.number)
  | .nested m body ignores => do
    return .nested (← m.number) (← Stmt.numberAll body) (← ignores.mapM Mark.number)

def Stmt.numberAll (ss : List Stmt) : StateM Nat (List Stmt) :=
  match ss with
  | [] => return []
  | s :: ss => do return (← s.number) :: (← Stmt.numberAll ss)

def Handler.numberAll (hs : List Handler) : StateM Nat (List Handler) :=
  match hs with
  | [] => return []
  | .mk m type name body :: hs => do
    return .mk (← m.number) (← Expr.numberGiven type) name (← Stmt.numberAll body) :: (← Handler.numberAll hs)

def MatchCase.numberAll (cs : List MatchCase) : StateM Nat (List MatchCase) :=
  match cs with
  | [] => return []
  | .mk m pattern guard body :: cs => do
    return .mk (← m.number) (← pattern.number) (← Expr.numberGiven guard) (← Stmt.numberAll body) ::
      (← MatchCase.numberAll cs)

end

/-- The module with every node numbered, the module itself being node 0. -/
def Module.number (m : Module) : Module :=
  let walk : StateM Nat Module := do
    return ⟨← m.mark.number, ← Stmt.numberAll m.body, ← m.ignores.mapM Mark.number⟩
  (walk.run 0).1

end ScopeFlow
