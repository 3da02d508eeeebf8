import ScopeFlow.Fault
import ScopeFlow.Symbol
import ScopeFlow.Text.Quoted

/-!
# Scopes and look-up

Scopes live in a store and refer to their parents by number. A scope has its own symbols and may redirect names, by a
`global` or `nonlocal` statement, to an outer scope. `Store.lookUp` climbs from a scope outwards and reports where a
name was found and what was passed on the way.
-/

namespace ScopeFlow

inductive ScopeType where
  | comprehension | function | classBody | moduleBody | builtin
  deriving DecidableEq, Repr

namespace ScopeType

def name : ScopeType → String
  | comprehension => "comprehension"
  | function => "function"
  | classBody => "class"
  | moduleBody => "module"
  | builtin => "builtin"

def ofName (name : String) : Except Fault ScopeType :=
  match name with
  | "comprehension" => .ok comprehension
  | "function" => .ok function
  | "class" => .ok classBody
  | "module" => .ok moduleBody
  | "builtin" => .ok builtin
  | _ => .error (.notMember (quoted name) "ScopeType")

/-- Modules and the builtins are global. -/
def isGlobal : ScopeType → Bool
  | moduleBody | builtin => true
  | _ => false

/-- Functions and modules run their own code; classes and comprehensions run inline. -/
def runsAlone : ScopeType → Bool
  | moduleBody | function => true
  | _ => false

/-- Whether code in such a scope collects references of its own. -/
def collectsReferences : ScopeType → Bool
  | builtin | moduleBody | function => true
  | _ => false

end ScopeType

/-- Where a name is redirected to. -/
inductive Redirection where
  | nonlocal | global
  deriving DecidableEq, Repr

namespace Redirection

def name : Redirection → String
  | .nonlocal => "nonlocal"
  | .global => "global"

end Redirection

/-- A scope: its kind, the number of its parent, its symbols and its redirected names. -/
structure Scope where
  type : ScopeType
  parent : Option Nat := none
  symbols : Table Symbol := []
  redirections : Table Redirection := []

namespace Scope

def symbol? (s : Scope) (name : String) : Option Symbol := s.symbols.lookup name

def redirection? (s : Scope) (name : String) : Option Redirection := s.redirections.lookup name

def setSymbol (s : Scope) (name : String) (symbol : Symbol) : Scope :=
  { s with symbols := s.symbols.put name symbol }

/-- Redirects a name, unless it is redirected elsewhere already. The answer is whether it now goes there. -/
def redirect (s : Scope) (name : String) (r : Redirection) : Bool × Scope :=
  match s.redirection? name with
  | some existing => (existing == r, s)
  | none => (true, { s with redirections := s.redirections.put name r })

/-- The kind of a scope and its names in order of their characters. -/
def print (s : Scope) : String :=
  s!"Scope({s.type.name}, {quotedList (s.symbols.names.mergeSort (fun a b => a ≤ b))})"

end Scope

/-- All scopes by number, and the next free numbers of flow nodes and symbols. -/
structure Store where
  scopes : Array Scope := #[]
  nextFlowId : Int := 1
  nextSymbolId : Int := 1

/-- Where a look-up found a name. -/
structure Found where
  scope : Nat
  symbol : Symbol
  /-- Found beyond the module the look-up started in. -/
  isOutside : Bool
  /-- Found beyond the execution scope the look-up started in. -/
  isBeyond : Bool

namespace Store

def scope? (s : Store) (i : Nat) : Option Scope := s.scopes[i]?

def symbol? (s : Store) (i : Nat) (name : String) : Option Symbol := (s.scope? i).bind (·.symbol? name)

def parent? (s : Store) (i : Nat) : Option Nat := (s.scope? i).bind Scope.parent

def type? (s : Store) (i : Nat) : Option ScopeType := (s.scope? i).map Scope.type

/-- Adds a scope; its number is the number of scopes before. -/
def addScope (s : Store) (scope : Scope) : Nat × Store := (s.scopes.size, { s with scopes := s.scopes.push scope })

def adjustScope (s : Store) (i : Nat) (f : Scope → Scope) : Store := { s with scopes := s.scopes.modify i f }

def adjustSymbol (s : Store) (i : Nat) (name : String) (f : Symbol → Symbol) : Store :=
  s.adjustScope i (fun scope => { scope with symbols := scope.symbols.adjust name f })

/-- The nearest scope at or above `i` that a test accepts, within a bound on the climb. -/
def climbTo (s : Store) (accept : ScopeType → Bool) : Nat → Nat → Option Nat
  | 0, _ => none
  | bound + 1, i =>
    match s.scope? i with
    | none => none
    | some scope =>
      if accept scope.type then some i
      else
        match scope.parent with
        | none => none
        | some p => s.climbTo accept bound p

/-- The module or builtins scope at or above a scope. A parent is older than its child, so the number of scopes bounds the
climb. -/
def globalScope (s : Store) (i : Nat) : Except Fault Nat :=
  match s.climbTo ScopeType.isGlobal s.scopes.size i with
  | some g => .ok g
  | none => .error .rootlessScope

/-- Looks a name up from scope `i` outwards, within a bound on the climb. A symbol that is hidden from importers ends a
look-up that has left its module; a symbol that is only known by member access is passed over. -/
def lookUpFrom (s : Store) (name : String) : Nat → Nat → Bool → Bool → Except Fault (Option Found)
  | 0, _, _, _ => .error .endlessLookup
  | bound + 1, i, outside, beyond =>
    match s.scope? i with
    | none => .ok none
    | some scope =>
      let climb : Except Fault (Option Found) := do
        let next ← match scope.redirection? name with
          | some .global => (s.globalScope i).map some
          | _ => pure scope.parent
        match next with
        | none => return none
        | some p =>
          s.lookUpFrom name bound p (outside || scope.type == .moduleBody) (beyond || scope.type.runsAlone)
      match scope.symbol? name with
      | none => climb
      | some symbol =>
        if outside && symbol.isHidden then .ok none
        else if symbol.isBareName then .ok (some ⟨i, symbol, outside, beyond⟩)
        else climb

/-- Looks a name up from a scope outwards. Every step leads to an older scope unless a global scope redirects a name to
itself, so the number of scopes bounds every look-up that ends. -/
def lookUp (s : Store) (i : Nat) (name : String) (outside : Bool := false) (beyond : Bool := false) :
    Except Fault (Option Found) :=
  s.lookUpFrom name (s.scopes.size + 1) i outside beyond

end Store

end ScopeFlow
