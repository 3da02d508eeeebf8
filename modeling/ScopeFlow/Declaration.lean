import ScopeFlow.Table
import ScopeFlow.Tree.Node

/-!
# Declarations: why a scope knows a name

A declaration says which node introduced a name, in which file and at which range, and, by its kind, what is known of the
name. An alias stands for a module or a name of a module; the submodules that come with it form a tree of loads.

Two declarations are the same when they agree in kind, path and start; for aliases, which start at the empty range, the
imported name, the local naming and the node count as well.
-/

namespace ScopeFlow

/-- The node that introduced something: its mark and the name of its kind. -/
structure Site where
  mark : Mark
  kind : String
  deriving DecidableEq, Repr

namespace Site

def index (s : Site) : Nat := s.mark.index

/-- The kind of the node and the place where it starts. -/
def describe (s : Site) : String := s!"{s.kind}@{s.mark.range.start.print}"

end Site

def Node.site (n : Node) : Site := ⟨n.mark, n.kind⟩

def Expr.site (e : Expr) : Site := ⟨e.mark, e.kind⟩

def Stmt.site (s : Stmt) : Site := ⟨s.mark, s.kind⟩

def Pattern.site (p : Pattern) : Site := ⟨p.mark, p.kind⟩

def Parameter.site (p : Parameter) : Site := ⟨p.mark, "arg"⟩

def ImportName.site (n : ImportName) : Site := ⟨n.mark, "alias"⟩

/-- The submodules that come with a module: for each name a path, whether symbols are loaded from it, and what comes with
it in turn. -/
inductive Load where
  | mk (path : String) (loadsSymbols : Bool) (children : List (String × Load))

namespace Load

def path : Load → String
  | mk path _ _ => path

def loadsSymbols : Load → Bool
  | mk _ loads _ => loads

def children : Load → Table Load
  | mk _ _ children => children

def leaf (path : String) : Load := mk path true []

def setPath (path : String) : Load → Load
  | mk _ loads children => mk path loads children

def setChildren (children : Table Load) : Load → Load
  | mk path loads _ => mk path loads children

end Load

/-- What is known of a variable. -/
structure VariableInfo where
  isConstant : Bool := false
  /-- The node its type is inferred from. -/
  source : Option Nat := none
  hint : Option Expr := none
  isFinal : Bool := false
  isRequired : Bool := false
  isNotRequired : Bool := false
  /-- The annotation that makes it an explicit type alias. -/
  aliasHint : Option Nat := none
  /-- The target, while the assignment may be a type alias. -/
  aliasName : Option Nat := none
  /-- Assigned as a member of the first parameter of a method, or of its class. -/
  isMember : Bool := false

/-- Joins what a second sight of the same variable adds. -/
def VariableInfo.merge (v other : VariableInfo) : VariableInfo where
  isConstant := v.isConstant
  source := v.source <|> other.source
  hint := other.hint <|> v.hint
  isFinal := v.isFinal || other.isFinal
  isRequired := v.isRequired || other.isRequired
  isNotRequired := v.isNotRequired || other.isNotRequired
  aliasHint := other.aliasHint <|> v.aliasHint
  aliasName := if other.aliasHint.isSome then other.aliasName else v.aliasName
  isMember := v.isMember

/-- What is known of a function: the numbers of its return, yield and raise nodes, in the order of their binding. -/
structure FunctionInfo where
  isMethod : Bool := false
  isGenerator : Bool := false
  returns : List Nat := []
  yields : List Nat := []
  raises : List Nat := []
  deriving DecidableEq, Repr

/-- A submodule that an imported name falls back to. -/
structure Fallback where
  site : Site
  path : String
  moduleName : String
  deriving DecidableEq, Repr

/-- What is known of an imported name. -/
structure AliasInfo where
  /-- The statement gives the name with `as`. -/
  usesLocalName : Bool := false
  /-- The name within the module, for a name imported from it. -/
  symbolName : Option String := none
  /-- The first part of a dotted module name. -/
  firstNamePart : Option String := none
  isUnresolved : Bool := false
  loadsSymbols : Bool := true
  loads : Table Load := []
  fallback : Option Fallback := none

/-- The kinds of declaration, each with what it knows. -/
inductive DeclarationInfo where
  | intrinsic (type : String)
  | variableName (info : VariableInfo)
  | parameter
  | function (info : FunctionInfo)
  | classDef
  | specialForm
  | imported (info : AliasInfo)

/-- A declaration of a name. The path is the file it lives in; for an alias, the file it stands for. -/
structure Declaration where
  site : Site
  path : String
  range : Range
  moduleName : String
  info : DeclarationInfo

/-- The path of an alias that could not be resolved. -/
def unresolvedPath : String := "*** unresolved ***"

namespace DeclarationInfo

def type : DeclarationInfo → String
  | intrinsic _ => "intrinsic"
  | variableName _ => "variable"
  | parameter => "parameter"
  | function _ => "function"
  | classDef => "class"
  | specialForm => "specialBuiltInClass"
  | imported _ => "alias"

/-- Whether two declarations are of one kind. -/
def sameKind : DeclarationInfo → DeclarationInfo → Bool
  | intrinsic _, intrinsic _ | variableName _, variableName _ | parameter, parameter | function _, function _
  | classDef, classDef | specialForm, specialForm | imported _, imported _ => true
  | _, _ => false

/-- The information without the possibility of a type alias. -/
def dropAliasName : DeclarationInfo → DeclarationInfo
  | variableName v => variableName { v with aliasName := none }
  | info => info

end DeclarationInfo

namespace Declaration

def type (d : Declaration) : String := d.info.type

/-- Whether a variable is only assigned as a member. -/
def isMemberOnly (d : Declaration) : Bool :=
  match d.info with
  | .variableName v => v.isMember
  | _ => false

def alias? (d : Declaration) : Option AliasInfo :=
  match d.info with
  | .imported a => some a
  | _ => none

def function? (d : Declaration) : Option FunctionInfo :=
  match d.info with
  | .function f => some f
  | _ => none

/-- Whether two declarations declare the same thing. -/
def same (a b : Declaration) : Bool :=
  a.info.sameKind b.info && a.path == b.path && a.range.start == b.range.start &&
    match a.info, b.info with
    | .imported x, .imported y =>
      x.symbolName == y.symbolName && x.usesLocalName == y.usesLocalName && a.site.index == b.site.index
    | _, _ => true

/-- Joins what a second sight of the same thing adds; only variables gain anything. -/
def merge (d other : Declaration) : Declaration :=
  match d.info, other.info with
  | .variableName v, .variableName w => { d with info := .variableName (v.merge w) }
  | _, _ => d

def dropAliasName (d : Declaration) : Declaration := { d with info := d.info.dropAliasName }

/-- The declaration with a change to what is known of a function. -/
def adjustFunction (f : FunctionInfo → FunctionInfo) (d : Declaration) : Declaration :=
  match d.info with
  | .function info => { d with info := .function (f info) }
  | _ => d

/-- The name of the class of a kind of declaration, as it is printed. -/
def printedKind (d : Declaration) : String :=
  match d.info with
  | .intrinsic _ => "IntrinsicDeclaration"
  | .variableName _ => "VariableDeclaration"
  | .parameter => "ParameterDeclaration"
  | .function _ => "FunctionDeclaration"
  | .classDef => "ClassDeclaration"
  | .specialForm => "SpecialBuiltInClassDeclaration"
  | .imported _ => "AliasDeclaration"

/-- The kind, module and range of a declaration. -/
def print (d : Declaration) : String := s!"{d.printedKind}({d.moduleName}@{d.range.print})"

end Declaration

end ScopeFlow
