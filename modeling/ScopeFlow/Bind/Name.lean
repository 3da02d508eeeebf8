import ScopeFlow.Bind.Flow
import ScopeFlow.Condition.Reference
import ScopeFlow.Identifier

/-!
# Binding names

Every binding occurrence of a name goes through `bindName`, which honours the redirections of the current scope. A
symbol that is new to a class takes over the value of the symbol of that name in the scope around the class, because a
class body may read the outer value before it assigns its own.
-/

namespace ScopeFlow.Bind

variable {ω : Type}

def scopeType (ctx : Context) : BindM ω ScopeType := do
  return ((← get).store.type? ctx.scope).getD .builtin

def lookUp (scope : Nat) (name : String) : BindM ω (Option Found) := consult fun store => store.lookUp scope name

def globalScope (scope : Nat) : BindM ω Nat := consult fun store => store.globalScope scope

def newScope (type : ScopeType) (parent : Option Nat) : BindM ω Nat := modifyGet fun s =>
  let (scope, store) := s.store.addScope { type := type, parent := parent }
  (scope, { s with store := store, past := s.past.map (s.store :: ·) })

/-- Adds a symbol with the next number to a scope. -/
def newSymbol (scope : Nat) (name : String) (flags : SymbolFlags) : BindM ω SymbolRef := modifyGet fun s =>
  let store := s.store.adjustScope scope (fun sc => sc.setSymbol name { id := s.store.nextSymbolId, flags := flags })
  (⟨scope, name⟩,
    { s with
      store := { store with nextSymbolId := store.nextSymbolId + 1 }
      past := s.past.map (s.store :: ·) })

def symbolIn (scope : Nat) (name : String) : BindM ω (Option Symbol) := do return (← get).store.symbol? scope name

def adjustSymbol (ref : SymbolRef) (f : Symbol → Symbol) : BindM ω Unit :=
  modifyStore fun store => store.adjustSymbol ref.scope ref.name f

def declare (ref : SymbolRef) (d : Declaration) : BindM ω Unit := adjustSymbol ref (fun s => s.declare d)

/-- Adds a declaration to a symbol, if there is one, and tells where it is kept. -/
def declareAt (ref : Option SymbolRef) (d : Declaration) : BindM ω DeclarationPlace := do
  match ref with
  | none => return .unlisted d
  | some ref =>
    let known := ((← symbolIn ref.scope ref.name).map Symbol.declarations).getD []
    declare ref d
    if known.any (fun e => e.same d) then return .unlisted d
    else return .listed ref known.length

/-- Changes what is known of the function that a node defines. -/
def adjustFunction (node : Nat) (f : FunctionInfo → FunctionInfo) : BindM ω Unit := do
  match (← factsOf node).declaration with
  | some (.listed ref slot) =>
    adjustSymbol ref fun s => { s with declarations := s.declarations.modify slot (Declaration.adjustFunction f) }
  | some (.unlisted d) => setDeclaration node (.unlisted (d.adjustFunction f))
  | none => return

/-- A declaration of the file being bound. -/
def declarationIn (u : Setup ω) (site : Site) (range : Range) (info : DeclarationInfo) : Declaration :=
  ⟨site, u.file.path, range, u.file.moduleName, info⟩

/-- The outcome of binding a name: the symbol, if there is one, and whether it is new. -/
structure Binding where
  symbol : Option SymbolRef
  isNew : Bool := false

/-- Keeps a new private or protected name from importers: at once in a stub or if it is private, and in the end for a
module of a typed package. -/
def hidePrivate (u : Setup ω) (ctx : Context) (ref : SymbolRef) : BindM ω Unit := do
  if isPrivateOrProtectedName ref.name then
    if u.file.isStub || isPrivateName ref.name then
      adjustSymbol ref Symbol.hide
    else if u.file.isPyTyped && (← scopeType ctx) == .moduleBody then
      modify fun s => { s with privates := s.privates.put ref.name ref }

/-- Adds a bound name to a scope that does not have it. -/
def addBoundName (u : Setup ω) (ctx : Context) (scope : Nat) (name : String) : BindM ω SymbolRef := do
  let ref ← newSymbol scope name { initiallyUnbound := true, classMember := true }
  let store := (← get).store
  if store.type? scope == some .classBody then
    match (store.parent? scope).bind (fun p => store.symbol? p name), store.symbol? scope name with
    | some outer, some own => takeOver own.id outer.id
    | _, _ => pure ()
  hidePrivate u ctx ref
  return ref

/-- Binds a name to a scope. A redirected name is bound where it is redirected to, if it is found there. -/
def bindName (u : Setup ω) (ctx : Context) (scope : Nat) (name : String) : BindM ω Binding := do
  let store := (← get).store
  match (store.scope? ctx.scope).bind (·.redirection? name) with
  | some redirection =>
    let start ← match redirection with
      | .nonlocal => pure (store.parent? ctx.scope)
      | .global => some <$> globalScope ctx.scope
    match start with
    | none => return ⟨none, false⟩
    | some start => return ⟨(← lookUp start name).map (fun found => ⟨found.scope, name⟩), false⟩
  | none =>
    match store.symbol? scope name with
    | some _ => return ⟨some ⟨scope, name⟩, false⟩
    | none => return ⟨some (← addBoundName u ctx scope name), true⟩

def bindHere (u : Setup ω) (ctx : Context) (name : String) : BindM ω (Option SymbolRef) := do
  return (← bindName u ctx ctx.scope name).symbol

mutual

/-- Binds the names of an assignment target to the current scope, and gives those that are new. -/
def bindTarget (u : Setup ω) (ctx : Context) (target : Expr) : BindM ω (List SymbolRef) :=
  match target with
  | .name _ id => do
    let binding ← bindName u ctx ctx.scope id
    return if binding.isNew then binding.symbol.toList else []
  | .tuple _ elements => bindTargets u ctx elements
  | .list _ elements => bindTargets u ctx elements
  | .starred _ value => bindTarget u ctx value
  | _ => return []

def bindTargets (u : Setup ω) (ctx : Context) (targets : List Expr) : BindM ω (List SymbolRef) :=
  match targets with
  | [] => return []
  | target :: targets => do return (← bindTarget u ctx target) ++ (← bindTargets u ctx targets)

end

/-- Adds a name to the current scope, unless it has it. -/
def addSymbol (u : Setup ω) (ctx : Context) (name : String) (isInitiallyUnbound : Bool) : BindM ω SymbolRef := do
  match ← symbolIn ctx.scope name with
  | some _ => return ⟨ctx.scope, name⟩
  | none =>
    newSymbol ctx.scope name
      { initiallyUnbound := isInitiallyUnbound
        classMember := (← scopeType ctx) == .classBody
        externallyHidden := u.file.isStub && isPrivateOrProtectedName name }

/-- Adds a name that the language itself provides. -/
def addIntrinsic (u : Setup ω) (ctx : Context) (name : String) (site : Site) (type : String) : BindM ω Unit := do
  let ref ← addSymbol u ctx name false
  declare ref (declarationIn u site .empty (.intrinsic type))
  adjustSymbol ref fun s => { s with flags := { s.flags with ignoredForProtocolMatch := true } }

/-- The number of the symbol that an assigned name stands for; the name must be known. -/
def assignedSymbol (ctx : Context) (name : Option String) : BindM ω (Option Int) := do
  match name with
  | none => return none
  | some name =>
    match ← lookUp ctx.scope name with
    | none => throw (.unboundTarget name)
    | some found => return some found.symbol.id

/-- Goes on behind the assignment or deletion of a reference, which is tracked by its key. -/
def assignKey (ctx : Context) (node : Nat) (key : String) (target : Option Int) (raises unbound : Bool) :
    BindM ω Unit := do
  unless ← isDead do
    let ref ← newNode (.assign (some node) key (← current) target unbound)
    addKey ctx.owner key
    if raises then linkRaise ctx ref
    setCurrent ref

/-- Stamps an assigned node with the current flow node, and a deleted one, unless it has a stamp, with the flow node before
the deletion. -/
def stampAssigned (node : Nat) (before : FlowRef) (unbound : Bool) : BindM ω Unit :=
  if unbound then do
    if (← factsOf node).flow.isNone then stampWith node before
  else stamp node

/-- Assigns or deletes a reference in the flow graph. The name, if given, must be known; the key, if given, is tracked.
With `stamps` the node is stamped. -/
def assign (ctx : Context) (node : Nat) (name key : Option String) (raises stamps unbound : Bool) : BindM ω Unit := do
  let target ← assignedSymbol ctx name
  let before ← current
  match key with
  | some key => assignKey ctx node key target raises unbound
  | none => pure ()
  if stamps then stampAssigned node before unbound

def assignName (ctx : Context) (node : Nat) (name : String) (stamps : Bool := true) (unbound : Bool := false) :
    BindM ω Unit :=
  assign ctx node (some name) (some name) false stamps unbound

/-- Assigns or deletes a name, member or subscript. Setting a member may raise. -/
def assignReference (ctx : Context) (e : Expr) (unbound : Bool) : BindM ω Unit :=
  match e with
  | .name m id => assign ctx m.index (some id) (some id) false true unbound
  | .member m .. => assign ctx m.index none e.referenceKey.toOption true true unbound
  | _ => assign ctx e.index none e.referenceKey.toOption false true unbound

mutual

/-- Assigns or deletes the references of a target without visiting it. -/
def assignTarget (ctx : Context) (unbound : Bool) (target : Expr) : BindM ω Unit :=
  match target with
  | .name .. | .member .. | .subscript .. => assignReference ctx target unbound
  | .tuple _ elements => assignTargets ctx unbound elements
  | .list _ elements => assignTargets ctx unbound elements
  | .starred _ value => assignTarget ctx unbound value
  | _ => return

def assignTargets (ctx : Context) (unbound : Bool) (targets : List Expr) : BindM ω Unit :=
  match targets with
  | [] => return
  | target :: targets => do
    assignTarget ctx unbound target
    assignTargets ctx unbound targets

end

end ScopeFlow.Bind
