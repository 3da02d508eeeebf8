import ScopeFlow.Fault
import ScopeFlow.Text.Quoted

/-!
# What an import statement was resolved to

The record of one import: whether the module was found, the file of each part of its name, and the submodules that come
with it. A record for a stub may hold the record of the implementation beside it.
-/

namespace ScopeFlow

/-- Where a module comes from. -/
inductive ImportType where
  | builtIn | thirdParty | project
  deriving DecidableEq, Repr

namespace ImportType

def name : ImportType → String
  | builtIn => "builtIn"
  | thirdParty => "thirdParty"
  | project => "local"

def ofName (name : String) : Except Fault ImportType :=
  match name with
  | "builtIn" => .ok builtIn
  | "thirdParty" => .ok thirdParty
  | "local" => .ok project
  | _ => .error (.notMember (quoted name) "ImportType")

end ImportType

/-- A submodule that is imported with its package. -/
structure ImplicitImport where
  name : String
  path : String
  isStub : Bool := false
  isNative : Bool := false
  deriving DecidableEq, Repr

/-- Name and path of a submodule, quoted. -/
def ImplicitImport.print (i : ImplicitImport) : String := s!"ImplicitImport({quoted i.name}, {quoted i.path})"

/-- What an import was resolved to. -/
structure ImportRecord where
  name : String
  isRelative : Bool := false
  isFound : Bool := false
  /-- Some leading parts of the name were found. -/
  isPartlyResolved : Bool := false
  isNamespacePackage : Bool := false
  isStubPackage : Bool := false
  isStub : Bool := false
  isNative : Bool := false
  type : ImportType := .project
  /-- One path for each part of the name; empty for a namespace package. -/
  paths : List String := []
  implicitImports : List ImplicitImport := []
  /-- The implicit imports that the statement asks for. -/
  filteredImports : List ImplicitImport := implicitImports
  nonStub : Option ImportRecord := none
  isPyTyped : Bool := false

namespace ImportRecord

instance : Inhabited ImportRecord := ⟨{ name := "" }⟩

/-- The path of the module itself; empty if it was not found or has no source. -/
def resolvedPath (r : ImportRecord) : String :=
  if !r.isFound || r.isNative then "" else (r.paths.getLast?).getD ""

/-- The quoted name and whether it was found. -/
def print (r : ImportRecord) : String :=
  let outcome := if r.isFound then "found" else "unresolved"
  s!"ImportResult({quoted r.name}, {outcome})"

end ImportRecord

end ScopeFlow
