import ScopeFlow.Json
import ScopeFlow.Tree.Node

/-!
# Reading trees from JSON

A node is written as an array: the name of its kind, its position, and then all its fields in a fixed order. A position is
null, or holds a line and a column, or two of each. Fields that no question depends on (contexts, type comments, flags of
clauses) are read over. Reading fails with `none` where a node is not written like this.

The readers descend with a bound on the depth, which `Json.depth` gives.
-/

namespace ScopeFlow

mutual

/-- How deeply arrays and objects are nested in a value. -/
def Json.depth : Json → Nat
  | .arr items => Json.depths items + 1
  | .obj fields => Json.fieldDepths fields + 1
  | _ => 1

def Json.depths : List Json → Nat
  | [] => 0
  | j :: js => max j.depth (Json.depths js)

def Json.fieldDepths : List (String × Json) → Nat
  | [] => 0
  | (_, j) :: fields => max j.depth (Json.fieldDepths fields)

end

namespace Reader

/-- A reader of something that may be null. -/
def optional {α : Type} (read : Json → Option α) : Json → Option (Option α)
  | .null => some none
  | j => (read j).map some

def many {α : Type} (read : Json → Option α) : Json → Option (List α)
  | .arr items => items.mapM read
  | _ => none

/-- The kind, position and fields of a node. -/
def parts : Json → Option (String × Mark × List Json)
  | .arr (.str kind :: position :: fields) =>
    match position with
    | .null => some (kind, {}, fields)
    | .arr [.int line, .int column] => some (kind, { span := some ⟨⟨line, column⟩, none⟩ }, fields)
    | .arr [.int line, .int column, .int stopLine, .int stopColumn] =>
      some (kind, { span := some ⟨⟨line, column⟩, some ⟨stopLine, stopColumn⟩⟩ }, fields)
    | _ => none
  | _ => none

/-- What a word stands for. -/
def word {α : Type} (table : List (String × α)) : Json → Option α
  | .str name => table.lookup name
  | _ => none

def boolOperator : Json → Option BoolOperator := word [("And", .and), ("Or", .or)]

def unaryOperator : Json → Option UnaryOperator := word [("Not", .not), ("Invert", .invert), ("UAdd", .plus), ("USub", .minus)]

def binaryOperator : Json → Option BinaryOperator := word [
  ("Add", .add), ("Sub", .sub), ("Mult", .mult), ("MatMult", .matMult), ("Div", .div), ("Mod", .mod), ("Pow", .pow),
  ("LShift", .leftShift), ("RShift", .rightShift), ("BitOr", .bitOr), ("BitXor", .bitXor), ("BitAnd", .bitAnd),
    ("FloorDiv", .floorDiv)]

def compareOperator : Json → Option CompareOperator := word [
  ("Eq", .eq), ("NotEq", .notEq), ("Lt", .lt), ("LtE", .ltE), ("Gt", .gt), ("GtE", .gtE), ("Is", .is), ("IsNot", .isNot),
  ("In", .isIn), ("NotIn", .notIn)]

/-- The integer a text of digits stands for. -/
def decimal (text : String) : Option Int :=
  match Json.readInt text.toList with
  | some (n, []) => some n
  | _ => none

/-- The value of a constant. -/
def literal : Json → Option Literal
  | .null => some .none
  | .bool b => some (.bool b)
  | .str "..." => some .ellipsis
  | .obj [("int", .str digits)] => (decimal digits).map .int
  | .obj [("str", .str text)] => some (.str text)
  | .obj [("bytes", .str hex)] => some (.bytes hex)
  | .obj [("float", .str text)] => some (.float text)
  | .obj [("complex", .str text)] => some (.complex text)
  | _ => none

/-- What is made of a node of one kind. -/
def ofKind {α : Type} (name : String) (make : Mark → List Json → Option α) (j : Json) : Option α := do
  let (kind, mark, fields) ← parts j
  if kind == name then make mark fields else none

mutual

def expr : Nat → Json → Option Expr
  | 0, _ => none
  | depth + 1, j => do
    let one := expr depth
    let all := many one
    let clauses := many (clause depth)
    let (kind, m, fields) ← parts j
    match kind, fields with
    | "BoolOp", [op, values] => return .boolOp m (← boolOperator op) (← all values)
    | "NamedExpr", [target, value] => return .named m (← one target) (← one value)
    | "BinOp", [left, op, right] => return .binOp m (← one left) (← binaryOperator op) (← one right)
    | "UnaryOp", [op, operand] => return .unaryOp m (← unaryOperator op) (← one operand)
    | "Lambda", [params, body] => return .lambda m (← parameters depth params) (← one body)
    | "IfExp", [test, body, orElse] => return .ifElse m (← one test) (← one body) (← one orElse)
    | "Dict", [keys, values] => return .dict m (← many (optional one) keys) (← all values)
    | "Set", [elements] => return .set m (← all elements)
    | "ListComp", [element, cs] => return .comprehension m .list [← one element] (← clauses cs)
    | "SetComp", [element, cs] => return .comprehension m .set [← one element] (← clauses cs)
    | "DictComp", [key, value, cs] => return .comprehension m .dict [← one key, ← one value] (← clauses cs)
    | "GeneratorExp", [element, cs] => return .comprehension m .generator [← one element] (← clauses cs)
    | "Await", [value] => return .await m (← one value)
    | "Yield", [value] => return .yield m (← optional one value)
    | "YieldFrom", [value] => return .yieldFrom m (← one value)
    | "Compare", [left, ops, comparators] => return .compare m (← one left) (← many compareOperator ops) (← all comparators)
    | "Call", [func, args, keywords] => return .call m (← one func) (← all args) (← many (keyword depth) keywords)
    | "FormattedValue", [value, _, spec] => return .formatted m (← one value) (← optional one spec)
    | "JoinedStr", [values] => return .joined m (← all values)
    | "Constant", [value, kind] => return .constant m (← literal value) (← optional Json.str? kind)
    | "Attribute", [value, attr, _] => return .member m (← one value) (← attr.str?)
    | "Subscript", [value, slice, _] => return .subscript m (← one value) (← one slice)
    | "Starred", [value, _] => return .starred m (← one value)
    | "Name", [id, _] => return .name m (← id.str?)
    | "List", [elements, _] => return .list m (← all elements)
    | "Tuple", [elements, _] => return .tuple m (← all elements)
    | "Slice", [lower, upper, step] => return .slice m (← optional one lower) (← optional one upper) (← optional one step)
    | _, _ => none

def clause : Nat → Json → Option Clause
  | 0, _ => none
  | depth + 1, j => do
    match ← parts j with
    | ("comprehension", m, [target, iterable, conditions, _]) =>
      return .mk m (← expr depth target) (← expr depth iterable) (← many (expr depth) conditions)
    | _ => none

def keyword : Nat → Json → Option Keyword
  | 0, _ => none
  | depth + 1, j => do
    match ← parts j with
    | ("keyword", m, [name, value]) => return .mk m (← optional Json.str? name) (← expr depth value)
    | _ => none

def parameter : Nat → Json → Option Parameter
  | 0, _ => none
  | depth + 1, j => do
    match ← parts j with
    | ("arg", m, name :: hint :: _) => return .mk m (← name.str?) (← optional (expr depth) hint)
    | _ => none

def parameters : Nat → Json → Option Parameters
  | 0, _ => none
  | depth + 1, j => do
    match ← parts j with
    | ("arguments", m, [posOnly, pos, rest, kwOnly, kwDefaults, kwRest, defaults]) =>
      return .mk m (← many (parameter depth) posOnly) (← many (parameter depth) pos)
        (← optional (parameter depth) rest) (← many (parameter depth) kwOnly)
        (← many (optional (expr depth)) kwDefaults) (← optional (parameter depth) kwRest)
        (← many (expr depth) defaults)
    | _ => none

end

def pattern : Nat → Json → Option Pattern
  | 0, _ => none
  | depth + 1, j => do
    let all := many (pattern depth)
    let (kind, m, fields) ← parts j
    match kind, fields with
    | "MatchValue", [value] => return .value m (← expr depth value)
    | "MatchSingleton", [value] => return .singleton m (← literal value)
    | "MatchSequence", [patterns] => return .sequence m (← all patterns)
    | "MatchMapping", [keys, patterns, rest] =>
      return .mapping m (← many (expr depth) keys) (← all patterns) (← optional Json.str? rest)
    | "MatchClass", [cls, patterns, attributes, attributePatterns] =>
      return .classOf m (← expr depth cls) (← all patterns) (← many Json.str? attributes) (← all attributePatterns)
    | "MatchStar", [name] => return .star m (← optional Json.str? name)
    | "MatchAs", [inner, name] => return .capture m (← optional (pattern depth) inner) (← optional Json.str? name)
    | "MatchOr", [patterns] => return .alternatives m (← all patterns)
    | _, _ => none

def importName : Json → Option ImportName := ofKind "alias" fun m fields =>
  match fields with
  | [name, asName] => do return ⟨m, ← name.str?, ← optional Json.str? asName⟩
  | _ => none

def withItem (depth : Nat) : Json → Option WithItem := ofKind "withitem" fun m fields =>
  match fields with
  | [context, target] => do return ⟨m, ← expr depth context, ← optional (expr depth) target⟩
  | _ => none

def typeParameter (depth : Nat) : Json → Option TypeParameter := ofKind "TypeVar" fun m fields =>
  match fields with
  | [name, bound] => do return ⟨m, ← name.str?, ← optional (expr depth) bound⟩
  | _ => none

def ignore : Json → Option Mark := ofKind "TypeIgnore" fun m _ => some m

mutual

def stmt : Nat → Json → Option Stmt
  | 0, _ => none
  | depth + 1, j => do
    let one := expr depth
    let given := optional one
    let all := many one
    let suite := many (stmt depth)
    let (kind, m, fields) ← parts j
    let isAsync := kind.startsWith "Async"
    match kind, fields with
    | "FunctionDef", name :: params :: body :: decorators :: returns :: _
    | "AsyncFunctionDef", name :: params :: body :: decorators :: returns :: _ =>
      return .function m isAsync (← name.str?) (← parameters depth params) (← suite body) (← all decorators) (← given returns)
    | "ClassDef", [name, bases, keywords, body, decorators] =>
      return .classDef m (← name.str?) (← all bases) (← many (keyword depth) keywords) (← suite body) (← all decorators)
    | "Return", [value] => return .returnValue m (← given value)
    | "Delete", [targets] => return .delete m (← all targets)
    | "Assign", targets :: value :: _ => return .assign m (← all targets) (← one value)
    | "AugAssign", [target, op, value] => return .augAssign m (← one target) (← binaryOperator op) (← one value)
    | "AnnAssign", target :: hint :: value :: _ => return .annAssign m (← one target) (← one hint) (← given value)
    | "For", target :: iterable :: body :: orElse :: _ | "AsyncFor", target :: iterable :: body :: orElse :: _ =>
      return .forLoop m isAsync (← one target) (← one iterable) (← suite body) (← suite orElse)
    | "While", [test, body, orElse] => return .whileLoop m (← one test) (← suite body) (← suite orElse)
    | "If", [test, body, orElse] => return .ifElse m (← one test) (← suite body) (← suite orElse)
    | "With", items :: body :: _ | "AsyncWith", items :: body :: _ =>
      return .withBlock m isAsync (← many (withItem depth) items) (← suite body)
    | "Match", [subject, cases] => return .matchOn m (← one subject) (← many (matchCase depth) cases)
    | "Raise", [exception, cause] => return .raise m (← given exception) (← given cause)
    | "Try", [body, handlers, orElse, final] | "TryStar", [body, handlers, orElse, final] =>
      return .tryBlock m (kind == "TryStar") (← suite body) (← many (handler depth) handlers) (← suite orElse) (← suite final)
    | "Assert", [test, message] => return .assertion m (← one test) (← given message)
    | "Import", [names] => return .importModules m (← many importName names)
    | "ImportFrom", [source, names, level] =>
      return .importFrom m (← optional Json.str? source) (← many importName names) (← optional Json.int? level)
    | "Global", [names] => return .globals m (← many Json.str? names)
    | "Nonlocal", [names] => return .nonlocals m (← many Json.str? names)
    | "Expr", [value] => return .expr m (← one value)
    | "Pass", [] => return .pass m
    | "Break", [] => return .breakLoop m
    | "Continue", [] => return .continueLoop m
    | "TypeAlias", [name, params, value] => return .typeAlias m (← one name) (← many (typeParameter depth) params) (← one value)
    | "Module", [body, ignores] => return .nested m (← suite body) (← many ignore ignores)
    | _, _ => none

def handler : Nat → Json → Option Handler
  | 0, _ => none
  | depth + 1, j => do
    match ← parts j with
    | ("ExceptHandler", m, [type, name, body]) =>
      return .mk m (← optional (expr depth) type) (← optional Json.str? name) (← many (stmt depth) body)
    | _ => none

def matchCase : Nat → Json → Option MatchCase
  | 0, _ => none
  | depth + 1, j => do
    match ← parts j with
    | ("match_case", m, [inner, guard, body]) =>
      return .mk m (← pattern depth inner) (← optional (expr depth) guard) (← many (stmt depth) body)
    | _ => none

end

end Reader

/-- The module a value holds. -/
def Module.ofJson? (j : Json) : Option Module :=
  Reader.ofKind "Module" (fun m fields =>
    match fields with
    | [body, ignores] => do
      return ⟨m, ← Reader.many (Reader.stmt j.depth) body, ← Reader.many Reader.ignore ignores⟩
    | _ => none) j

def Expr.ofJson? (j : Json) : Option Expr := Reader.expr j.depth j

def Stmt.ofJson? (j : Json) : Option Stmt := Reader.stmt j.depth j

def Node.ofJson? (j : Json) : Option Node := ((Expr.ofJson? j).map .expr) <|> ((Stmt.ofJson? j).map .stmt)

end ScopeFlow
