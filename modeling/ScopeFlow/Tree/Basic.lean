import ScopeFlow.Range

/-!
# Syntax trees

The tree of one parsed module: expressions with their comprehension clauses and parameters, patterns, statements. Every
node carries a mark: its number in the tree and the span the parser gave it. Whether a name is read, stored or deleted
is not kept, because the place of a name says it.

Some trees are ones no parser produces (a call as assignment target, a conjunction of one operand, a module inside a
module); they are trees all the same.
-/

namespace ScopeFlow

/-- A place as a parser gives it: lines from one, columns from zero. -/
structure Place where
  line : Int
  column : Int
  deriving DecidableEq, Repr

/-- The stretch of source text of a node. The end may be unknown. -/
structure Span where
  start : Place
  stop : Option Place
  deriving DecidableEq, Repr

/-- What every node carries: its number in the tree, and its span if it has one. -/
structure Mark where
  index : Nat := 0
  span : Option Span := none
  deriving DecidableEq, Repr, Inhabited

/-- The range of a marked node: empty without a span, and ending where it starts if the end is unknown. -/
def Mark.range (m : Mark) : Range :=
  match m.span with
  | none => .empty
  | some span =>
    let start : Position := ⟨span.start.line - 1, span.start.column⟩
    match span.stop with
    | none => ⟨start, start⟩
    | some stop => ⟨start, ⟨stop.line - 1, stop.column⟩⟩

/-- The range of the last characters of a marked node, as many as a name has: just the `x` of `self.x`. Without a known end
it is the range of the node. -/
def Mark.rangeOfEnd (m : Mark) (name : String) : Range :=
  match m.span.bind Span.stop with
  | none => m.range
  | some stop => ⟨⟨stop.line - 1, max (stop.column - name.length) 0⟩, ⟨stop.line - 1, stop.column⟩⟩

inductive BoolOperator where
  | and | or
  deriving DecidableEq, Repr

inductive UnaryOperator where
  | not | invert | plus | minus
  deriving DecidableEq, Repr

inductive BinaryOperator where
  | add | sub | mult | matMult | div | mod | pow | leftShift | rightShift | bitOr | bitXor | bitAnd | floorDiv
  deriving DecidableEq, Repr

inductive CompareOperator where
  | eq | notEq | lt | ltE | gt | gtE | is | isNot | isIn | notIn
  deriving DecidableEq, Repr

/-- The value of a constant. Bytes are kept as hexadecimal digits, floats and complex numbers as they are written. -/
inductive Literal where
  | none
  | bool (value : Bool)
  | ellipsis
  | int (value : Int)
  | str (value : String)
  | bytes (hex : String)
  | float (text : String)
  | complex (text : String)
  deriving DecidableEq, Repr

/-- What a comprehension builds. -/
inductive ComprehensionKind where
  | list | set | dict | generator
  deriving DecidableEq, Repr

mutual

inductive Expr where
  | boolOp (mark : Mark) (op : BoolOperator) (values : List Expr)
  | named (mark : Mark) (target value : Expr)
  | binOp (mark : Mark) (left : Expr) (op : BinaryOperator) (right : Expr)
  | unaryOp (mark : Mark) (op : UnaryOperator) (operand : Expr)
  | lambda (mark : Mark) (params : Parameters) (body : Expr)
  | ifElse (mark : Mark) (test body orElse : Expr)
  | dict (mark : Mark) (keys : List (Option Expr)) (values : List Expr)
  | set (mark : Mark) (elements : List Expr)
  | comprehension (mark : Mark) (kind : ComprehensionKind) (elements : List Expr) (clauses : List Clause)
  | await (mark : Mark) (value : Expr)
  | yield (mark : Mark) (value : Option Expr)
  | yieldFrom (mark : Mark) (value : Expr)
  | compare (mark : Mark) (left : Expr) (ops : List CompareOperator) (comparators : List Expr)
  | call (mark : Mark) (func : Expr) (args : List Expr) (keywords : List Keyword)
  | formatted (mark : Mark) (value : Expr) (spec : Option Expr)
  | joined (mark : Mark) (values : List Expr)
  | constant (mark : Mark) (value : Literal) (kind : Option String)
  | member (mark : Mark) (value : Expr) (attr : String)
  | subscript (mark : Mark) (value slice : Expr)
  | starred (mark : Mark) (value : Expr)
  | name (mark : Mark) (id : String)
  | list (mark : Mark) (elements : List Expr)
  | tuple (mark : Mark) (elements : List Expr)
  | slice (mark : Mark) (lower upper step : Option Expr)

/-- One `for target in iterable if ...` of a comprehension. -/
inductive Clause where
  | mk (mark : Mark) (target iterable : Expr) (conditions : List Expr)

/-- A keyword argument; without a name it unpacks a mapping. -/
inductive Keyword where
  | mk (mark : Mark) (name : Option String) (value : Expr)

/-- One parameter of a function or lambda. -/
inductive Parameter where
  | mk (mark : Mark) (name : String) (hint : Option Expr)

/-- The parameters of a function or lambda with their defaults. -/
inductive Parameters where
  | mk (mark : Mark) (positionalOnly positional : List Parameter) (rest : Option Parameter)
      (keywordOnly : List Parameter) (keywordDefaults : List (Option Expr)) (keywordRest : Option Parameter)
      (defaults : List Expr)

end

inductive Pattern where
  | value (mark : Mark) (expr : Expr)
  | singleton (mark : Mark) (value : Literal)
  | sequence (mark : Mark) (patterns : List Pattern)
  | mapping (mark : Mark) (keys : List Expr) (patterns : List Pattern) (rest : Option String)
  | classOf (mark : Mark) (cls : Expr) (patterns : List Pattern) (attributes : List String)
      (attributePatterns : List Pattern)
  | star (mark : Mark) (name : Option String)
  | capture (mark : Mark) (pattern : Option Pattern) (name : Option String)
  | alternatives (mark : Mark) (patterns : List Pattern)

/-- One name of an import statement, with the local name it is given. -/
structure ImportName where
  mark : Mark
  name : String
  asName : Option String

/-- One context manager of a `with` statement and the target it is bound to. -/
structure WithItem where
  mark : Mark
  context : Expr
  target : Option Expr

/-- A type parameter of a type alias statement. -/
structure TypeParameter where
  mark : Mark
  name : String
  bound : Option Expr

mutual

inductive Stmt where
  | function (mark : Mark) (isAsync : Bool) (name : String) (params : Parameters) (body : List Stmt)
      (decorators : List Expr) (returns : Option Expr)
  | classDef (mark : Mark) (name : String) (bases : List Expr) (keywords : List Keyword) (body : List Stmt)
      (decorators : List Expr)
  | returnValue (mark : Mark) (value : Option Expr)
  | delete (mark : Mark) (targets : List Expr)
  | assign (mark : Mark) (targets : List Expr) (value : Expr)
  | augAssign (mark : Mark) (target : Expr) (op : BinaryOperator) (value : Expr)
  | annAssign (mark : Mark) (target hint : Expr) (value : Option Expr)
  | forLoop (mark : Mark) (isAsync : Bool) (target iterable : Expr) (body orElse : List Stmt)
  | whileLoop (mark : Mark) (test : Expr) (body orElse : List Stmt)
  | ifElse (mark : Mark) (test : Expr) (body orElse : List Stmt)
  | withBlock (mark : Mark) (isAsync : Bool) (items : List WithItem) (body : List Stmt)
  | matchOn (mark : Mark) (subject : Expr) (cases : List MatchCase)
  | raise (mark : Mark) (exception cause : Option Expr)
  | tryBlock (mark : Mark) (isGroup : Bool) (body : List Stmt) (handlers : List Handler) (orElse final : List Stmt)
  | assertion (mark : Mark) (test : Expr) (message : Option Expr)
  | importModules (mark : Mark) (names : List ImportName)
  | importFrom (mark : Mark) (source : Option String) (names : List ImportName) (level : Option Int)
  | globals (mark : Mark) (names : List String)
  | nonlocals (mark : Mark) (names : List String)
  | expr (mark : Mark) (value : Expr)
  | pass (mark : Mark)
  | breakLoop (mark : Mark)
  | continueLoop (mark : Mark)
  | typeAlias (mark : Mark) (name : Expr) (params : List TypeParameter) (value : Expr)
  | nested (mark : Mark) (body : List Stmt) (ignores : List Mark)

/-- One `except` clause. -/
inductive Handler where
  | mk (mark : Mark) (type : Option Expr) (name : Option String) (body : List Stmt)

/-- One `case` of a `match` statement. -/
inductive MatchCase where
  | mk (mark : Mark) (pattern : Pattern) (guard : Option Expr) (body : List Stmt)

end

/-- A whole module: its statements and the marks of its type-ignore comments. -/
structure Module where
  mark : Mark := {}
  body : List Stmt
  ignores : List Mark := []

namespace Expr

def mark : Expr → Mark
  | boolOp m .. | named m .. | binOp m .. | unaryOp m .. | lambda m .. | ifElse m .. | dict m .. | set m ..
  | comprehension m .. | await m .. | yield m .. | yieldFrom m .. | compare m .. | call m .. | formatted m ..
  | joined m .. | constant m .. | member m .. | subscript m .. | starred m .. | name m .. | list m .. | tuple m ..
  | slice m .. => m

def index (e : Expr) : Nat := e.mark.index

def kind : Expr → String
  | boolOp .. => "BoolOp"
  | named .. => "NamedExpr"
  | binOp .. => "BinOp"
  | unaryOp .. => "UnaryOp"
  | lambda .. => "Lambda"
  | ifElse .. => "IfExp"
  | dict .. => "Dict"
  | set .. => "Set"
  | comprehension _ .list .. => "ListComp"
  | comprehension _ .set .. => "SetComp"
  | comprehension _ .dict .. => "DictComp"
  | comprehension _ .generator .. => "GeneratorExp"
  | await .. => "Await"
  | yield .. => "Yield"
  | yieldFrom .. => "YieldFrom"
  | compare .. => "Compare"
  | call .. => "Call"
  | formatted .. => "FormattedValue"
  | joined .. => "JoinedStr"
  | constant .. => "Constant"
  | member .. => "Attribute"
  | subscript .. => "Subscript"
  | starred .. => "Starred"
  | name .. => "Name"
  | list .. => "List"
  | tuple .. => "Tuple"
  | slice .. => "Slice"

/-- Whether an expression is `and`, `or` or `not`, which splice control flow instead of producing a value. -/
def isLogical : Expr → Bool
  | boolOp .. | unaryOp _ .not _ => true
  | _ => false

def isName : Expr → Bool
  | name .. => true
  | _ => false

def stringLiteral? : Expr → Option String
  | constant _ (.str s) _ => some s
  | _ => none

def intLiteral? : Expr → Option Int
  | constant _ (.int n) _ => some n
  | _ => none

end Expr

def Pattern.mark : Pattern → Mark
  | value m .. | singleton m .. | sequence m .. | mapping m .. | classOf m .. | star m .. | capture m ..
  | alternatives m .. => m

def Pattern.kind : Pattern → String
  | value .. => "MatchValue"
  | singleton .. => "MatchSingleton"
  | sequence .. => "MatchSequence"
  | mapping .. => "MatchMapping"
  | classOf .. => "MatchClass"
  | star .. => "MatchStar"
  | capture .. => "MatchAs"
  | alternatives .. => "MatchOr"

/-- Whether a pattern is the bare wildcard, which always matches. -/
def Pattern.isWildcard : Pattern → Bool
  | capture _ none none => true
  | _ => false

namespace Stmt

def mark : Stmt → Mark
  | function m .. | classDef m .. | returnValue m .. | delete m .. | assign m .. | augAssign m .. | annAssign m ..
  | forLoop m .. | whileLoop m .. | ifElse m .. | withBlock m .. | matchOn m .. | raise m .. | tryBlock m ..
  | assertion m .. | importModules m .. | importFrom m .. | globals m .. | nonlocals m .. | expr m .. | pass m
  | breakLoop m | continueLoop m | typeAlias m .. | nested m .. => m

def kind : Stmt → String
  | function _ isAsync .. => if isAsync then "AsyncFunctionDef" else "FunctionDef"
  | classDef .. => "ClassDef"
  | returnValue .. => "Return"
  | delete .. => "Delete"
  | assign .. => "Assign"
  | augAssign .. => "AugAssign"
  | annAssign .. => "AnnAssign"
  | forLoop _ isAsync .. => if isAsync then "AsyncFor" else "For"
  | whileLoop .. => "While"
  | ifElse .. => "If"
  | withBlock _ isAsync .. => if isAsync then "AsyncWith" else "With"
  | matchOn .. => "Match"
  | raise .. => "Raise"
  | tryBlock _ isGroup .. => if isGroup then "TryStar" else "Try"
  | assertion .. => "Assert"
  | importModules .. => "Import"
  | importFrom .. => "ImportFrom"
  | globals .. => "Global"
  | nonlocals .. => "Nonlocal"
  | expr .. => "Expr"
  | pass .. => "Pass"
  | breakLoop .. => "Break"
  | continueLoop .. => "Continue"
  | typeAlias .. => "TypeAlias"
  | nested .. => "Module"

end Stmt

namespace Parameter

def mark : Parameter → Mark
  | mk m .. => m

def name : Parameter → String
  | mk _ n _ => n

def hint : Parameter → Option Expr
  | mk _ _ a => a

end Parameter

namespace Parameters

def mark : Parameters → Mark
  | mk m .. => m

/-- All parameters, in the order in which they are bound. -/
def all : Parameters → List Parameter
  | mk _ posOnly pos rest kwOnly _ kwRest _ => posOnly ++ pos ++ rest.toList ++ kwOnly ++ kwRest.toList

def firstName? : Parameters → Option String
  | mk _ posOnly pos .. => (posOnly ++ pos).head?.map Parameter.name

end Parameters

/-- The text of the string that stands first in a body. -/
def docString? : List Stmt → Option String
  | .expr _ value :: _ => value.stringLiteral?
  | _ => none

end ScopeFlow
