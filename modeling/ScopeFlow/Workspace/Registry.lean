import ScopeFlow.Bind.Module
import ScopeFlow.Workspace.Builtins
import ScopeFlow.Workspace.Search

/-!
# The registry of modules

A workspace holds the modules of one analysis. A module has a number for as long as the workspace lives; names and paths
lead to numbers. Modules are registered with their source, or are found on disk when an import asks for them.

A module with a dotted name has all packages above it registered, as namespace packages if nothing more is known of them;
such a package can be registered in full later. A stub and the source it describes share one name, and the stub stands
for both.
-/

namespace ScopeFlow

/-- How far binding a module has come. -/
inductive Progress where
  | unbound | binding | bound | failed
  deriving DecidableEq, Repr

def Progress.name : Progress → String
  | unbound => "unbound"
  | binding => "binding"
  | bound => "bound"
  | failed => "failed"

/-- What the workspace knows of a module. -/
structure ModuleRecord where
  name : String
  /-- Namespace packages and parts of the interpreter have no file. -/
  file : Option String := none
  /-- Where the modules of a package are found; only packages have these. -/
  locations : Option (List String) := none
  /-- The source it was registered with; a module without one is read from its file. -/
  source : Option Source := none
  isStub : Bool := false
  isNative : Bool := false
  isNamespace : Bool := false
  isPyTyped : Bool := false
  isFromDisk : Bool := false
  type : ImportType := .project
  /-- The file behind a stub. -/
  sourceFile : Option String := none
  progress : Progress := .unbound
  /-- What binding has found out, also if it failed. -/
  analysis : Option Bound := none
  /-- What the imports were resolved to, by the number of their node. -/
  imports : List (Nat × ImportRecord) := []
  /-- The scope of the module, once it is bound. -/
  scope : Option Nat := none
  results : Option BindResults := none

namespace ModuleRecord

/-- Packages are the modules that have locations. -/
def isPackage (m : ModuleRecord) : Bool := m.locations.isSome

/-- The file that a module is bound from. Namespace packages and native modules have nothing to bind. -/
def code? (m : ModuleRecord) : Option String := if m.isNamespace || m.isNative then none else m.file

/-- The file that imports of the module lead to; empty if it has no source of its own. -/
def resolvedPath (m : ModuleRecord) : String := if m.isNamespace then "" else m.file.getD ""

/-- The quoted name, file and locations. -/
def print (m : ModuleRecord) : String :=
  let shown := quoted m.name :: (m.file.map quoted).toList ++ (m.locations.map quotedList).toList
  let inner := ", ".intercalate shown
  s!"Module({inner})"

end ModuleRecord

/-- The modules of one analysis, where further ones are found, and what all of them are bound for. -/
structure Workspace where
  modules : Array ModuleRecord := #[]
  /-- Registered modules by name. -/
  names : Table Nat := []
  /-- Modules by the path of their file. -/
  paths : Table Nat := []
  /-- Names that were looked for in vain, with the modules that asked. -/
  missing : Table (List String) := []
  entries : List Nat := []
  /-- Where the modules under analysis are found. -/
  root : Option String := none
  /-- What relative paths are relative to if there is no root. -/
  workingDirectory : String := "/"
  libraryPaths : List String := []
  searchPaths : List String := []
  environment : Environment := {}
  rules : RuleSet := {}
  policy : NarrowingPolicy := {}
  disk : Disk := {}
  store : Store := {}

/-- A step that changes a workspace and may fail. What it changed before a failure stays changed. -/
abbrev WorkM := EStateM Fault Workspace

/-- A module to register: its source, and what is known of it. -/
structure Registration where
  name : String
  source : Source
  isPackage : Bool := false
  isStub : Bool := false
  file : Option String := none
  type : ImportType := .project
  isPyTyped : Bool := false

/-- The file of a module to register; by default the one that its name leads to. -/
def Registration.path (r : Registration) : String :=
  r.file.getD (DottedName.asPath r.name ++ (if r.isPackage then "/__init__" else "") ++ (if r.isStub then ".pyi" else ".py"))

namespace Workspace

def moduleAt (w : Workspace) (i : Nat) : ModuleRecord := (w.modules[i]?).getD { name := "" }

def find (w : Workspace) (name : String) : Except Fault Nat :=
  match w.names.lookup name with
  | some i => .ok i
  | none => .error (.notRegistered name)

/-- The module whose file has a path. -/
def atPath? (w : Workspace) (path : String) : Option ModuleRecord := (w.paths.lookup path).map w.moduleAt

/-- Whether a module is part of a package that declares itself typed: what is on top of it decides. -/
def isPyTyped (w : Workspace) (m : ModuleRecord) : Bool :=
  match w.names.lookup (DottedName.top m.name) with
  | some i => (w.moduleAt i).isPyTyped
  | none => false

def adjust (i : Nat) (f : ModuleRecord → ModuleRecord) : WorkM Unit :=
  modify fun w => { w with modules := w.modules.modify i f }

/-- The number of the module with a name; a blank one is registered if there is none. -/
def enter (name : String) : WorkM Nat := modifyGet fun w =>
  match w.names.lookup name with
  | some i => (i, w)
  | none => (w.modules.size,
      { w with modules := w.modules.push { name := name }, names := w.names.put name w.modules.size })

/-- Makes a path lead to a module. -/
def notePath (i : Nat) (path : String) : WorkM Unit := modify fun w => { w with paths := w.paths.put path i }

/-- Takes a module out of the registry. -/
def forget (m : ModuleRecord) : WorkM Unit := modify fun w => { w with
  names := w.names.erase m.name
  paths := match m.file with
    | some path => w.paths.erase path
    | none => w.paths }

/-- Registers those packages above a module that are not registered yet. -/
def enterParents (name : String) (type : ImportType) : WorkM Unit :=
  (DottedName.parents name).forM fun parent => do
    if !(← get).names.has parent then
      let i ← enter parent
      adjust i fun m => { m with isNamespace := true, type := type, locations := some [DottedName.asPath parent] }

/-- Registers a module whose name is free or stands for a namespace package. -/
def place (r : Registration) : WorkM Nat := do
  enterParents r.name r.type
  let i ← enter r.name
  adjust i fun m => { m with
    isNamespace := false
    source := some r.source
    isStub := r.isStub
    type := r.type
    isPyTyped := r.isPyTyped
    locations := if r.isPackage then some [Path.directory r.path] else none
    file := some r.path }
  notePath i r.path
  return i

/-- Registers a module. The source of a stub is only noted; a stub takes the place of its source. -/
def register (r : Registration) : WorkM Nat := do
  let w ← get
  match w.names.lookup r.name with
  | none => place r
  | some i =>
    let existing := w.moduleAt i
    if existing.isNamespace then place r
    else if existing.isStub && !r.isStub then
      adjust i fun m => { m with sourceFile := some r.path }
      return i
    else if !existing.isStub && r.isStub then
      forget existing
      let j ← place r
      adjust j fun m => { m with sourceFile := existing.file }
      return j
    else throw (.alreadyRegistered r.name)

/-- The name of the module that holds the builtins. -/
def builtinsName : String := "builtins"

/-- The number of the builtins module, which is registered first. -/
def builtinsIndex : Nat := 0

/-- A workspace with the builtins registered from a source. -/
def openedWith (builtins : Source) (w : Workspace) : Workspace :=
  match (register { name := builtinsName, source := builtins, isStub := true, type := .builtIn }).run w with
  | .ok _ w | .error _ w => w

/-- A workspace with the builtins registered. -/
def opened (w : Workspace) : Workspace := w.openedWith (.parsed Builtins.tree)

end Workspace

end ScopeFlow
