import ScopeFlow.Text.Quoted
import ScopeFlow.Tree.Basic

/-!
# The source text of an expression

An expression is written on one line with the parentheses it needs. Operators have levels; a part is written at the level
that its place asks for, and is put in parentheses if its own level is lower. Where a place asks for nothing, the level is
that of a condition.
-/

namespace ScopeFlow

/-- The levels of operators, from those that bind least to those that bind most. -/
abbrev Level := Nat

namespace Level

def named : Level := 1
def tuple : Level := 2
def yield : Level := 3
/-- A condition or a lambda; the level of a place that asks for nothing. -/
def test : Level := 4
def disjunction : Level := 5
def conjunction : Level := 6
def negation : Level := 7
def comparison : Level := 8
/-- The least of the binary operators. -/
def operation : Level := 9
def factor : Level := 15
def await : Level := 17
/-- What never needs parentheses. -/
def atom : Level := 18

/-- A level up, as far as there is one. -/
def raise (level : Level) : Level := min (level + 1) atom

end Level

namespace BinaryOperator

def sign : BinaryOperator → String
  | add => "+"
  | sub => "-"
  | mult => "*"
  | matMult => "@"
  | div => "/"
  | mod => "%"
  | pow => "**"
  | leftShift => "<<"
  | rightShift => ">>"
  | bitOr => "|"
  | bitXor => "^"
  | bitAnd => "&"
  | floorDiv => "//"

def level : BinaryOperator → Level
  | bitOr => .operation
  | bitXor => 10
  | bitAnd => 11
  | leftShift | rightShift => 12
  | add | sub => 13
  | mult | matMult | div | mod | floorDiv => 14
  | pow => 16

/-- The levels of the two operands. Powers group to the right, all else to the left. -/
def operandLevels (op : BinaryOperator) : Level × Level :=
  match op with
  | pow => (op.level + 1, op.level)
  | _ => (op.level, op.level + 1)

end BinaryOperator

def CompareOperator.sign : CompareOperator → String
  | eq => "=="
  | notEq => "!="
  | lt => "<"
  | ltE => "<="
  | gt => ">"
  | gtE => ">="
  | is => "is"
  | isNot => "is not"
  | isIn => "in"
  | notIn => "not in"

namespace UnaryOperator

/-- The sign of an operator, with a blank after a word. -/
def sign : UnaryOperator → String
  | not => "not "
  | invert => "~"
  | plus => "+"
  | minus => "-"

def level : UnaryOperator → Level
  | not => .negation
  | _ => .factor

end UnaryOperator

namespace BoolOperator

def sign : BoolOperator → String
  | and => "and"
  | or => "or"

def level : BoolOperator → Level
  | and => .conjunction
  | or => .disjunction

end BoolOperator

/-- The bytes that pairs of hexadecimal digits stand for, escaped as text that is not printable beyond ASCII. -/
def Literal.escapeBytes : List Char → List Char
  | high :: low :: rest =>
    let value (c : Char) : Nat := if c.isDigit then c.toNat - '0'.toNat else c.toNat - 'a'.toNat + 10
    let code := 16 * value high + value low
    (if code < 0x80 then escapeChar '\'' (Char.ofNat code) else '\\' :: 'x' :: hexDigits 2 code) ++ escapeBytes rest
  | _ => []

/-- A constant as it is written. -/
def Literal.source : Literal → String
  | none => "None"
  | bool b => if b then "True" else "False"
  | ellipsis => "..."
  | int n => toString n
  | str s => quoted s
  | bytes hex => String.ofList ('b' :: '\'' :: (escapeBytes hex.toList ++ ['\'']))
  | float text | complex text => text

/-- Whether a point after a constant would be taken for a part of it. -/
def Expr.isInteger : Expr → Bool
  | .constant _ (.int _) _ | .constant _ (.bool _) _ => true
  | _ => false

/-- The level of what stands between the brackets of a subscript. A tuple needs no parentheses there. -/
def Expr.indexLevel : Expr → Level
  | .tuple .. => .tuple
  | _ => .test

/-- Text in parentheses if its place asks for a higher level than its own. -/
def parenthesized (place own : Level) (text : String) : String := if own < place then "(" ++ text ++ ")" else text

/-- Elements with commas; a single one has a comma behind it. -/
def commaSeparated (elements : List String) : String :=
  match elements with
  | [element] => element ++ ","
  | _ => ", ".intercalate elements

/-- A chain of comparisons behind its first operand. -/
def comparisonChain : List CompareOperator → List String → String
  | op :: ops, operand :: operands => " " ++ op.sign ++ " " ++ operand ++ comparisonChain ops operands
  | _, _ => ""

/-- Keys and values of a display; without a key the value is a mapping to unpack. -/
def displayEntry (key : Option String) (value : String) : String :=
  match key with
  | some key => key ++ ": " ++ value
  | none => "**" ++ value

/-- What a comprehension is enclosed in. -/
def ComprehensionKind.brackets : ComprehensionKind → String × String
  | list => ("[", "]")
  | set | dict => ("\x7b", "\x7d")
  | generator => ("(", ")")

mutual

/-- The text of an expression at a level. -/
def Expr.sourceAt (place : Level) (e : Expr) : String :=
  match e with
  | .name _ id => id
  | .constant _ value kind => (if kind == some "u" then "u" else "") ++ value.source
  | .member _ value attr =>
    let blank := if value.isInteger then " " else ""
    value.sourceAt .atom ++ blank ++ "." ++ attr
  | .call _ func args keywords =>
    let arguments := Expr.sourcesAt .test args ++ Keyword.sources keywords
    func.sourceAt .atom ++ "(" ++ ", ".intercalate arguments ++ ")"
  | .subscript _ value slice => value.sourceAt .atom ++ "[" ++ slice.sourceAt slice.indexLevel ++ "]"
  | .slice _ lower upper step =>
    let second := if step.isSome then ":" else ""
    Expr.sourceOfPart "" .test lower ++ ":" ++ Expr.sourceOfPart "" .test upper ++ second ++ Expr.sourceOfPart "" .test step
  | .starred _ value => "*" ++ value.sourceAt .operation
  | .tuple _ elements =>
    let text := commaSeparated (Expr.sourcesAt .test elements)
    if elements.isEmpty then "()" else parenthesized place .tuple text
  | .list _ elements => "[" ++ ", ".intercalate (Expr.sourcesAt .test elements) ++ "]"
  | .set _ elements =>
    if elements.isEmpty then "\x7b*()\x7d"
    else "\x7b" ++ ", ".intercalate (Expr.sourcesAt .test elements) ++ "\x7d"
  | .dict _ keys values =>
    let entries := (Expr.sourcesGiven keys).zipWith displayEntry (Expr.sourcesAt .test values)
    "\x7b" ++ ", ".intercalate entries ++ "\x7d"
  | .ifElse _ test body orElse =>
    parenthesized place .test
      (body.sourceAt .disjunction ++ " if " ++ test.sourceAt .disjunction ++ " else " ++ orElse.sourceAt .test)
  | .named _ target value =>
    parenthesized place .named (target.sourceAt .atom ++ " := " ++ value.sourceAt .atom)
  | .unaryOp _ op operand => parenthesized place op.level (op.sign ++ operand.sourceAt op.level)
  | .binOp _ left op right =>
    parenthesized place op.level
      (left.sourceAt op.operandLevels.1 ++ " " ++ op.sign ++ " " ++ right.sourceAt op.operandLevels.2)
  | .compare _ left ops comparators =>
    parenthesized place .comparison
      (left.sourceAt .operation ++ comparisonChain ops (Expr.sourcesAt .operation comparators))
  | .boolOp _ op values =>
    parenthesized place op.level ((" " ++ op.sign ++ " ").intercalate (Expr.sourcesRising (op.level + 1) values))
  | .await _ value => parenthesized place .await ("await " ++ value.sourceAt .atom)
  | .yield _ value => parenthesized place .yield ("yield" ++ Expr.sourceOfPart " " .atom value)
  | .yieldFrom _ value => parenthesized place .yield ("yield from " ++ value.sourceAt .atom)
  | .lambda _ params body =>
    let names := ", ".intercalate params.sources
    let blank := if names.isEmpty then "" else " "
    parenthesized place .test ("lambda" ++ blank ++ names ++ ": " ++ body.sourceAt .test)
  | .comprehension _ kind elements clauses =>
    kind.brackets.1 ++ ": ".intercalate (Expr.sourcesAt .test elements) ++ Clause.sources clauses ++ kind.brackets.2
  | .joined _ values => "f" ++ quoted ("".intercalate (Expr.sourcesAt .test values))
  | .formatted _ value _ => "\x7b" ++ value.sourceAt .test ++ "\x7d"

def Expr.sourcesAt (place : Level) (es : List Expr) : List String :=
  match es with
  | [] => []
  | e :: es => e.sourceAt place :: Expr.sourcesAt place es

/-- The texts of expressions, each a level above the one before it. -/
def Expr.sourcesRising (place : Level) (es : List Expr) : List String :=
  match es with
  | [] => []
  | e :: es => e.sourceAt place :: Expr.sourcesRising (Level.raise place) es

/-- The texts of those expressions that are there. -/
def Expr.sourcesGiven (es : List (Option Expr)) : List (Option String) :=
  match es with
  | [] => []
  | none :: es => none :: Expr.sourcesGiven es
  | some e :: es => some (e.sourceAt .test) :: Expr.sourcesGiven es

/-- The text of an expression that may be there, with text before it. -/
def Expr.sourceOfPart (front : String) (place : Level) (e : Option Expr) : String :=
  match e with
  | none => ""
  | some e => front ++ e.sourceAt place

def Keyword.sources (ks : List Keyword) : List String :=
  match ks with
  | [] => []
  | .mk _ name value :: ks =>
    let start := (name.map (fun n => n ++ "=")).getD "**"
    (start ++ value.sourceAt .test) :: Keyword.sources ks

/-- The text of comprehension clauses, each with a blank before it. -/
def Clause.sources (cs : List Clause) : String :=
  match cs with
  | [] => ""
  | .mk _ target iterable conditions :: cs =>
    " for " ++ target.sourceAt .tuple ++ " in " ++ iterable.sourceAt .disjunction ++
      "".intercalate ((Expr.sourcesAt .disjunction conditions).map (" if " ++ ·)) ++ Clause.sources cs

/-- The texts of parameters, with their defaults. -/
def Parameters.sources (ps : Parameters) : List String :=
  match ps with
  | .mk _ positionalOnly positional rest keywordOnly keywordDefaults keywordRest defaults =>
    let name : Parameter → String := fun | .mk _ name _ => name
    let withDefault (p : String) (d : Option String) : String := p ++ (d.map ("=" ++ ·)).getD ""
    let leading := (positionalOnly ++ positional).map name
    let given := (Expr.sourcesAt .test defaults).map some
    let shown := leading.zipWith withDefault (List.replicate (leading.length - given.length) none ++ given)
    let slash := if positionalOnly.isEmpty then [] else ["/"]
    let star := match rest with
      | some p => ["*" ++ name p]
      | none => if keywordOnly.isEmpty then [] else ["*"]
    shown.take positionalOnly.length ++ slash ++ shown.drop positionalOnly.length ++ star ++
      (keywordOnly.map name).zipWith withDefault (Expr.sourcesGiven keywordDefaults) ++
      (keywordRest.map fun p => "**" ++ name p).toList

end

def Expr.source (e : Expr) : String := e.sourceAt .test

end ScopeFlow
