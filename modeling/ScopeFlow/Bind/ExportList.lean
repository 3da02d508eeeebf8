import ScopeFlow.Bind.Name

/-!
# The list of exported names

A module may say in `__all__` which names it exports. Assignments, augmented assignments and calls of `append`, `extend`
and `remove` are followed at module level as long as the names are written out or taken from the `__all__` of an
imported module; anything else is reported.
-/

namespace ScopeFlow.Bind

variable {ω : Type}

def exportListName : String := "__all__"

def adjustAll (f : List String → List String) : BindM ω Unit := modify fun s => { s with all := s.all.map f }

def setAll (names : List String) : BindM ω Unit := modify fun s => { s with all := some names }

def isExportList : Expr → Bool
  | .name _ id => id == exportListName
  | _ => false

def literalsOf (es : List Expr) : List String := es.filterMap Expr.stringLiteral?

def allLiterals (es : List Expr) : Bool := es.all (fun e => e.stringLiteral?.isSome)

/-- Reports an operation on the list that is not followed. -/
def reportUnsupportedAll (u : Setup ω) (mark : Mark) : BindM ω Unit :=
  reportRule u .unsupportedDunderAll .unsupportedDunderAllOperation mark

/-- The path of the module that an alias stands for, if it is known. -/
def aliasPath (d : Declaration) (a : AliasInfo) : Option String :=
  let path := if d.path.isEmpty then (a.fallback.map Fallback.path).getD "" else d.path
  if path.isEmpty || path == unresolvedPath then none else some path

/-- The exported names of the module that a name of the current scope was imported as. -/
def importedAll (u : Setup ω) (ctx : Context) (name : String) : BindM ω (Option (List String)) := do
  match ← symbolIn ctx.scope name with
  | none => return none
  | some symbol =>
    match symbol.declarations.findSome? (fun d => d.alias?.map (fun a => (d, a))) with
    | none => return none
    | some (d, a) =>
      match aliasPath d a with
      | none => return none
      | some path => return (← lookUpExports u path).bind Exports.all

/-- The names of an expression `mod.__all__`. -/
def namesOfAll (u : Setup ω) (ctx : Context) (e : Expr) : BindM ω (Option (List String)) :=
  match e with
  | .member _ (.name _ id) attr => if attr == exportListName then importedAll u ctx id else return none
  | _ => return none

/-- Follows a method call on the list. The answer is whether it could be followed. -/
def followAllCall (u : Setup ω) (ctx : Context) (method : String) (args : List Expr) : BindM ω Bool := do
  match args with
  | [arg] =>
    match method with
    | "extend" =>
      match arg with
      | .list _ elements =>
        adjustAll (· ++ literalsOf elements)
        return elements.any (fun e => e.stringLiteral?.isSome)
      | _ =>
        match ← namesOfAll u ctx arg with
        | some (name :: names) =>
          adjustAll (· ++ name :: names)
          return true
        | _ => return false
    | "remove" =>
      match arg.stringLiteral?, (← get).all with
      | some name, some _ =>
        adjustAll (fun names => names.filter (fun n => n != name))
        return true
      | _, _ => return false
    | "append" =>
      match arg.stringLiteral? with
      | some name =>
        adjustAll (· ++ [name])
        return true
      | none => return false
    | _ => return false
  | _ => return false

/-- Follows a call at module level whose function is a method of the list. -/
def followCall (u : Setup ω) (ctx : Context) (mark : Mark) (func : Expr) (args : List Expr) : BindM ω Unit := do
  match func with
  | .member _ base method =>
    if isExportList base && (← scopeType ctx) == .moduleBody then
      unless ← followAllCall u ctx method args do reportUnsupportedAll u mark
  | _ => return

/-- Follows an assignment of the list. -/
def assignAll (u : Setup ω) (mark : Mark) (value : Expr) : BindM ω Unit := do
  match value with
  | .list _ elements | .tuple _ elements =>
    setAll (literalsOf elements)
    unless allLiterals elements do reportUnsupportedAll u mark
  | _ =>
    setAll []
    reportUnsupportedAll u mark

/-- Follows an assignment at module level if one of its targets is the list. -/
def followAssign (u : Setup ω) (ctx : Context) (mark : Mark) (targets : List Expr) (value : Expr) : BindM ω Unit := do
  if (← scopeType ctx) == .moduleBody && targets.any isExportList then assignAll u mark value

/-- Follows an addition at module level to the list. -/
def followAdd (u : Setup ω) (ctx : Context) (mark : Mark) (target : Expr) (op : BinaryOperator) (value : Expr) :
    BindM ω Unit := do
  if op == .add && isExportList target && (← scopeType ctx) == .moduleBody then
    match value with
    | .list _ elements => adjustAll (· ++ literalsOf elements)
    | _ =>
      match ← namesOfAll u ctx value with
      | some names => adjustAll (· ++ names)
      | none => reportUnsupportedAll u mark

end ScopeFlow.Bind
