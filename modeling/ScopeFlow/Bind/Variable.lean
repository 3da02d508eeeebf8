import ScopeFlow.Bind.Name
import ScopeFlow.Condition.SpecialForm
import ScopeFlow.Tree.Enclosing

/-!
# Declarations of variables

An assignment declares its targets: names where they are found, and members of the first parameter of a method, or of the
class itself, in the scope of the class.
-/

namespace ScopeFlow

namespace Outline

/-- Whether the decorators of a method leave its first parameter an instance, make it the class, or make it neither. -/
def receiverIsInstance? : List Expr → Option Bool
  | [] => some true
  | .name _ id :: rest =>
    if id == "staticmethod" then none
    else if id == "classmethod" then some false
    else receiverIsInstance? rest
  | _ :: rest => receiverIsInstance? rest

/-- The class whose member `base.x` is, if the node stands in a method of the class, and whether it is a member of an
instance. The base has to be the first parameter of the method or the name of the class. -/
def memberOwner? (o : Outline) (node : Nat) (base : String) : Option (Nat × String × Bool) := do
  let method ← o.enclosingFunction node
  let cls ← o.enclosingClass method false
  match o.node? method, o.node? cls with
  | some (.stmt (.function _ _ methodName params _ decorators _)), some (.stmt (.classDef _ className ..)) =>
    let first ← params.firstName?
    if base == className then return (cls, className, false)
    else if base != first then none
    else if methodName == "__new__" then return (cls, className, false)
    else return (cls, className, ← receiverIsInstance? decorators)
  | _, _ => none

end Outline

namespace Bind

variable {ω : Type}

/-- A class scope that receives a member, and whether the member is one of an instance. -/
structure MemberAccess where
  classScope : Nat
  isInstance : Bool

/-- The class scope that receives the member `base.x` assigned at a node. -/
def memberAccess (u : Setup ω) (node : Nat) (base : String) : BindM ω (Option MemberAccess) := do
  match u.outline.memberOwner? node base with
  | none => return none
  | some (cls, className, isInstance) =>
    match (← factsOf cls).scope with
    | none => throw (.classWithoutScope className)
    | some scope => return some ⟨scope, isInstance⟩

/-- The symbol of a member, which is added to the class if it is new. -/
def memberSymbol (u : Setup ω) (access : MemberAccess) (name : String) : BindM ω SymbolRef := do
  match ← symbolIn access.classScope name with
  | some _ => return ⟨access.classScope, name⟩
  | none =>
    newSymbol access.classScope name
      { initiallyUnbound := true
        privateMember := isPrivateOrProtectedName name && u.file.rules.privateUsage }

def markInstanceMember (ref : SymbolRef) : BindM ω Unit :=
  adjustSymbol ref fun s => { s with flags := { s.flags with instanceMember := true } }

def markClassMember (ref : SymbolRef) : BindM ω Unit :=
  adjustSymbol ref fun s => { s with flags := { s.flags with classMember := true } }

/-- Whether a symbol is a method of its class. -/
def isMethodSymbol (s : Symbol) : Bool :=
  s.flags.classMember && s.declarations.any (fun d => (d.function?.map FunctionInfo.isMethod).getD false)

/-- The member that a target assigns, in the scope of its class. A method that is assigned through an instance stays a
class member. -/
def inferMember (u : Setup ω) (source : Nat) (target : Expr) (mark : Mark) (base attr : String) : BindM ω Unit := do
  match ← memberAccess u mark.index base with
  | none => return
  | some access =>
    let ref ← memberSymbol u access attr
    if access.isInstance then
      match ← symbolIn ref.scope ref.name with
      | some s => unless isMethodSymbol s do markInstanceMember ref
      | none => pure ()
    else markClassMember ref
    declare ref (declarationIn u target.site (mark.rangeOfEnd attr)
      (.variableName { isConstant := isConstantName attr, source := some source, isMember := true }))

mutual

/-- Declares the targets of an assignment, whose type is inferred from a source. -/
def inferVariable (u : Setup ω) (ctx : Context) (source : Nat) (maybeAlias : Bool) (target : Expr) : BindM ω Unit :=
  match target with
  | .name m id => do
    match ← lookUp ctx.scope id with
    | none => return
    | some found =>
      declare ⟨found.scope, id⟩ (declarationIn u target.site m.range
        (.variableName
          { isConstant := isConstantName id
            source := some source
            aliasName := if maybeAlias then some m.index else none }))
  | .member m (.name _ base) attr => inferMember u source target m base attr
  | .tuple _ elements => inferVariables u ctx source elements
  | .list _ elements => inferVariables u ctx source elements
  | .starred _ value => inferVariable u ctx source false value
  | _ => return

def inferVariables (u : Setup ω) (ctx : Context) (source : Nat) (targets : List Expr) : BindM ω Unit :=
  match targets with
  | [] => return
  | target :: targets => do
    inferVariable u ctx source false target
    inferVariables u ctx source targets

end

/-- The special forms known by now. -/
def typingNames : BindM ω TypingNames := do
  let s ← get
  return ⟨s.typingNames, s.typingSymbols⟩

/-- Declares an annotated name. -/
def annotateName (u : Setup ω) (ctx : Context) (mark : Mark) (id : String) (hint : Expr) : BindM ω Unit := do
  match ← lookUp ctx.scope id with
  | none => return
  | some found =>
    let ref : SymbolRef := ⟨found.scope, id⟩
    let typing ← typingNames
    let final := typing.final? hint
    let isAlias := typing.isForm "TypeAlias" hint
    if isAlias && (← scopeType ctx) != .moduleBody then
      reportError .typeAliasNotInModule hint.mark
    let type := if isAlias then none else final.getD (some hint)
    declare ref (declarationIn u ⟨mark, "Name"⟩ mark.range
      (.variableName
        { isConstant := isConstantName id
          hint := type
          isFinal := final.isSome
          isRequired := (type.map (typing.isFormOfOne "Required")).getD false
          isNotRequired := (type.map (typing.isFormOfOne "NotRequired")).getD false
          aliasHint := if isAlias then some hint.index else none
          aliasName := if isAlias then some mark.index else none }))
    if typing.isFormOfAny "ClassVar" hint then
      adjustSymbol ref fun s => { s with flags := { s.flags with classVar := true } }
    else markInstanceMember ref

/-- Declares an annotated member. The answer is whether the target is a member of a class. -/
def annotateMember (u : Setup ω) (mark : Mark) (base attr : String) (hint : Expr) : BindM ω Bool := do
  match ← memberAccess u mark.index base with
  | none => return false
  | some access =>
    let ref ← memberSymbol u access attr
    if access.isInstance then markInstanceMember ref else markClassMember ref
    let final := (← typingNames).final? hint
    declare ref (declarationIn u ⟨mark, "Attribute"⟩ (mark.rangeOfEnd attr)
      (.variableName
        { isConstant := isConstantName attr
          isMember := true
          isFinal := final.isSome
          hint := final.getD (some hint) }))
    return true

/-- Declares the target of an annotation. Only names and members can be annotated. -/
def annotateVariable (u : Setup ω) (ctx : Context) (target hint : Expr) : BindM ω Unit := do
  match target with
  | .name m id => annotateName u ctx m id hint
  | .member m (.name _ base) attr =>
    unless ← annotateMember u m base attr hint do
      reportError .annotationNotSupported hint.mark
  | _ => reportError .annotationNotSupported hint.mark

end Bind

end ScopeFlow
