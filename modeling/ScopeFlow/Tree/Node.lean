import ScopeFlow.Tree.Basic

/-!
# Nodes of any sort, and the tree they form

Questions about a whole tree (numbers, ancestors, where a `yield` stands) do not care for the sort of a node, so
`NodeTree` forgets it: a node and the trees of its children, in field order. `preorder` and `breadthFirst` list the nodes
of such a tree; `containsYield` searches it without entering functions, lambdas and classes.
-/

namespace ScopeFlow

/-- A node of any sort. -/
inductive Node where
  | root (m : Module)
  | stmt (s : Stmt)
  | expr (e : Expr)
  | pattern (p : Pattern)
  | handler (h : Handler)
  | matchCase (c : MatchCase)
  | clause (c : Clause)
  | parameters (p : Parameters)
  | parameter (p : Parameter)
  | keyword (k : Keyword)
  | importName (n : ImportName)
  | withItem (w : WithItem)
  | typeParameter (t : TypeParameter)
  | ignore (m : Mark)

namespace Node

def mark : Node → Mark
  | root m => m.mark
  | stmt s => s.mark
  | expr e => e.mark
  | pattern p => p.mark
  | handler (.mk m ..) => m
  | matchCase (.mk m ..) => m
  | clause (.mk m ..) => m
  | parameters p => p.mark
  | parameter p => p.mark
  | keyword (.mk m ..) => m
  | importName n => n.mark
  | withItem w => w.mark
  | typeParameter t => t.mark
  | ignore m => m

def kind : Node → String
  | root _ => "Module"
  | stmt s => s.kind
  | expr e => e.kind
  | pattern p => p.kind
  | handler _ => "ExceptHandler"
  | matchCase _ => "match_case"
  | clause _ => "comprehension"
  | parameters _ => "arguments"
  | parameter _ => "arg"
  | keyword _ => "keyword"
  | importName _ => "alias"
  | withItem _ => "withitem"
  | typeParameter _ => "TypeVar"
  | ignore _ => "TypeIgnore"

/-- The kind of a node and the place where it starts. -/
def describe (n : Node) : String := s!"{n.kind}@{n.mark.range.start.print}"

end Node

/-- A node together with the trees of its children, in field order. -/
inductive NodeTree where
  | mk (node : Node) (children : List NodeTree)

mutual

def Expr.tree (e : Expr) : NodeTree :=
  match e with
  | .boolOp _ _ values => .mk (.expr e) (Expr.trees values)
  | .named _ target value => .mk (.expr e) [target.tree, value.tree]
  | .binOp _ left _ right => .mk (.expr e) [left.tree, right.tree]
  | .unaryOp _ _ operand => .mk (.expr e) [operand.tree]
  | .lambda _ params body => .mk (.expr e) [params.tree, body.tree]
  | .ifElse _ test body orElse => .mk (.expr e) [test.tree, body.tree, orElse.tree]
  | .dict _ keys values => .mk (.expr e) (Expr.givenTrees keys ++ Expr.trees values)
  | .set _ elements => .mk (.expr e) (Expr.trees elements)
  | .comprehension _ _ elements clauses => .mk (.expr e) (Expr.trees elements ++ Clause.trees clauses)
  | .await _ value => .mk (.expr e) [value.tree]
  | .yield _ value => .mk (.expr e) (Expr.givenTree value)
  | .yieldFrom _ value => .mk (.expr e) [value.tree]
  | .compare _ left _ comparators => .mk (.expr e) (left.tree :: Expr.trees comparators)
  | .call _ func args keywords => .mk (.expr e) (func.tree :: (Expr.trees args ++ Keyword.trees keywords))
  | .formatted _ value spec => .mk (.expr e) (value.tree :: Expr.givenTree spec)
  | .joined _ values => .mk (.expr e) (Expr.trees values)
  | .constant .. => .mk (.expr e) []
  | .member _ value _ => .mk (.expr e) [value.tree]
  | .subscript _ value slice => .mk (.expr e) [value.tree, slice.tree]
  | .starred _ value => .mk (.expr e) [value.tree]
  | .name .. => .mk (.expr e) []
  | .list _ elements => .mk (.expr e) (Expr.trees elements)
  | .tuple _ elements => .mk (.expr e) (Expr.trees elements)
  | .slice _ lower upper step =>
    .mk (.expr e) (Expr.givenTree lower ++ Expr.givenTree upper ++ Expr.givenTree step)

def Expr.trees (es : List Expr) : List NodeTree :=
  match es with
  | [] => []
  | e :: es => e.tree :: Expr.trees es

def Expr.givenTree (e : Option Expr) : List NodeTree :=
  match e with
  | none => []
  | some e => [e.tree]

def Expr.givenTrees (es : List (Option Expr)) : List NodeTree :=
  match es with
  | [] => []
  | e :: es => Expr.givenTree e ++ Expr.givenTrees es

def Clause.trees (cs : List Clause) : List NodeTree :=
  match cs with
  | [] => []
  | .mk m target iterable conditions :: cs =>
    .mk (.clause (.mk m target iterable conditions)) (target.tree :: iterable.tree :: Expr.trees conditions) ::
      Clause.trees cs

def Keyword.trees (ks : List Keyword) : List NodeTree :=
  match ks with
  | [] => []
  | .mk m name value :: ks => .mk (.keyword (.mk m name value)) [value.tree] :: Keyword.trees ks

def Parameter.trees (ps : List Parameter) : List NodeTree :=
  match ps with
  | [] => []
  | .mk m name hint :: ps =>
    .mk (.parameter (.mk m name hint)) (Expr.givenTree hint) :: Parameter.trees ps

def Parameter.givenTree (p : Option Parameter) : List NodeTree :=
  match p with
  | none => []
  | some (.mk m name hint) => [.mk (.parameter (.mk m name hint)) (Expr.givenTree hint)]

def Parameters.tree (ps : Parameters) : NodeTree :=
  match ps with
  | .mk _ posOnly pos rest kwOnly kwDefaults kwRest defaults =>
    .mk (.parameters ps) (Parameter.trees posOnly ++ Parameter.trees pos ++ Parameter.givenTree rest ++
      Parameter.trees kwOnly ++ Expr.givenTrees kwDefaults ++ Parameter.givenTree kwRest ++ Expr.trees defaults)

end

mutual

def Pattern.tree (p : Pattern) : NodeTree :=
  match p with
  | .value _ e => .mk (.pattern p) [e.tree]
  | .singleton .. => .mk (.pattern p) []
  | .sequence _ ps => .mk (.pattern p) (Pattern.trees ps)
  | .mapping _ keys ps _ => .mk (.pattern p) (Expr.trees keys ++ Pattern.trees ps)
  | .classOf _ cls ps _ attributePatterns =>
    .mk (.pattern p) (cls.tree :: (Pattern.trees ps ++ Pattern.trees attributePatterns))
  | .star .. => .mk (.pattern p) []
  | .capture _ none _ => .mk (.pattern p) []
  | .capture _ (some inner) _ => .mk (.pattern p) [inner.tree]
  | .alternatives _ ps => .mk (.pattern p) (Pattern.trees ps)

def Pattern.trees (ps : List Pattern) : List NodeTree :=
  match ps with
  | [] => []
  | p :: ps => p.tree :: Pattern.trees ps

end

def ImportName.tree (n : ImportName) : NodeTree := .mk (.importName n) []

def WithItem.tree (w : WithItem) : NodeTree := .mk (.withItem w) (w.context.tree :: Expr.givenTree w.target)

def TypeParameter.tree (t : TypeParameter) : NodeTree := .mk (.typeParameter t) (Expr.givenTree t.bound)

/-- The tree of a type-ignore comment. -/
def NodeTree.ofIgnore (m : Mark) : NodeTree := .mk (.ignore m) []

mutual

def Stmt.tree (s : Stmt) : NodeTree :=
  match s with
  | .function _ _ _ params body decorators returns =>
    .mk (.stmt s) (params.tree :: (Stmt.trees body ++ Expr.trees decorators ++ Expr.givenTree returns))
  | .classDef _ _ bases keywords body decorators =>
    .mk (.stmt s) (Expr.trees bases ++ Keyword.trees keywords ++ Stmt.trees body ++ Expr.trees decorators)
  | .returnValue _ value => .mk (.stmt s) (Expr.givenTree value)
  | .delete _ targets => .mk (.stmt s) (Expr.trees targets)
  | .assign _ targets value => .mk (.stmt s) (Expr.trees targets ++ [value.tree])
  | .augAssign _ target _ value => .mk (.stmt s) [target.tree, value.tree]
  | .annAssign _ target hint value =>
    .mk (.stmt s) (target.tree :: hint.tree :: Expr.givenTree value)
  | .forLoop _ _ target iterable body orElse =>
    .mk (.stmt s) (target.tree :: iterable.tree :: (Stmt.trees body ++ Stmt.trees orElse))
  | .whileLoop _ test body orElse => .mk (.stmt s) (test.tree :: (Stmt.trees body ++ Stmt.trees orElse))
  | .ifElse _ test body orElse => .mk (.stmt s) (test.tree :: (Stmt.trees body ++ Stmt.trees orElse))
  | .withBlock _ _ items body => .mk (.stmt s) (items.map WithItem.tree ++ Stmt.trees body)
  | .matchOn _ subject cases => .mk (.stmt s) (subject.tree :: MatchCase.trees cases)
  | .raise _ exception cause => .mk (.stmt s) (Expr.givenTree exception ++ Expr.givenTree cause)
  | .tryBlock _ _ body handlers orElse final =>
    .mk (.stmt s) (Stmt.trees body ++ Handler.trees handlers ++ Stmt.trees orElse ++ Stmt.trees final)
  | .assertion _ test message => .mk (.stmt s) (test.tree :: Expr.givenTree message)
  | .importModules _ names => .mk (.stmt s) (names.map ImportName.tree)
  | .importFrom _ _ names _ => .mk (.stmt s) (names.map ImportName.tree)
  | .globals .. => .mk (.stmt s) []
  | .nonlocals .. => .mk (.stmt s) []
  | .expr _ value => .mk (.stmt s) [value.tree]
  | .pass _ => .mk (.stmt s) []
  | .breakLoop _ => .mk (.stmt s) []
  | .continueLoop _ => .mk (.stmt s) []
  | .typeAlias _ name params value =>
    .mk (.stmt s) (name.tree :: (params.map TypeParameter.tree ++ [value.tree]))
  | .nested _ body ignores => .mk (.stmt s) (Stmt.trees body ++ ignores.map NodeTree.ofIgnore)

def Stmt.trees (ss : List Stmt) : List NodeTree :=
  match ss with
  | [] => []
  | s :: ss => s.tree :: Stmt.trees ss

def Handler.trees (hs : List Handler) : List NodeTree :=
  match hs with
  | [] => []
  | .mk m type name body :: hs =>
    .mk (.handler (.mk m type name body)) (Expr.givenTree type ++ Stmt.trees body) :: Handler.trees hs

def MatchCase.trees (cs : List MatchCase) : List NodeTree :=
  match cs with
  | [] => []
  | .mk m pattern guard body :: cs =>
    .mk (.matchCase (.mk m pattern guard body)) (pattern.tree :: (Expr.givenTree guard ++ Stmt.trees body)) ::
      MatchCase.trees cs

end

def Module.tree (m : Module) : NodeTree := .mk (.root m) (Stmt.trees m.body ++ m.ignores.map NodeTree.ofIgnore)

namespace NodeTree

def node : NodeTree → Node
  | mk n _ => n

def children : NodeTree → List NodeTree
  | mk _ cs => cs

mutual

def size : NodeTree → Nat
  | mk _ cs => sizes cs + 1

def sizes : List NodeTree → Nat
  | [] => 0
  | t :: ts => t.size + sizes ts

end

mutual

/-- The nodes of a tree, each before its children and children in field order. -/
def preorder : NodeTree → List Node
  | mk n cs => n :: preorders cs

def preorders : List NodeTree → List Node
  | [] => []
  | t :: ts => t.preorder ++ preorders ts

end

/-- Takes trees from the front of a queue and puts their children at its end, at most as often as the bound says. -/
def breadthFirstFrom : Nat → List NodeTree → List Node
  | 0, _ => []
  | _, [] => []
  | bound + 1, mk n cs :: queue => n :: breadthFirstFrom bound (queue ++ cs)

/-- The nodes of a tree, level by level. Every node is taken once, so its size bounds the walk. -/
def breadthFirst (t : NodeTree) : List Node := breadthFirstFrom t.size [t]

/-- Whether a node opens code of its own, which a search for `yield` does not enter. -/
def opensBody : Node → Bool
  | .stmt (.function ..) | .stmt (.classDef ..) | .expr (.lambda ..) => true
  | _ => false

def isYield : Node → Bool
  | .expr (.yield ..) | .expr (.yieldFrom ..) => true
  | _ => false

mutual

/-- Whether a tree holds a `yield` that is not inside a function, lambda or class of its own. -/
def containsYield : NodeTree → Bool
  | mk n cs => !opensBody n && (isYield n || anyContainsYield cs)

/-- Whether one of several trees holds such a `yield`. -/
def anyContainsYield : List NodeTree → Bool
  | [] => false
  | t :: ts => t.containsYield || anyContainsYield ts

end

end NodeTree

end ScopeFlow
