import ScopeFlow.Text.Sorted
import ScopeFlow.Workspace.Registry

/-!
# Resolving imports

The name of an import is followed part by part: a part is a registered module, or one that is found on disk and registered
then. A name that was looked for in vain is remembered and not looked for again. A relative import starts from a package
above the importing module.

An import of a package brings its submodules with it; those of a package on disk are registered first.
-/

namespace ScopeFlow.Workspace

/-- The directories that top-level modules are searched in, in groups, with what is found there. -/
def searchOrder (w : Workspace) : List (List String × ImportType) :=
  (w.root.map fun directory => ([directory], ImportType.project)).toList ++
    [(w.libraryPaths, .builtIn), (w.searchPaths, .thirdParty)]

/-- Where a part of a name is found: in the package before it if that is on disk, or else at the top. -/
def locate? (w : Workspace) (part : String) (parent : Option Nat) : Option (Location × ImportType) :=
  match parent with
  | some p =>
    let m := w.moduleAt p
    match m.locations with
    | some directories => if m.isFromDisk then (w.disk.find? part directories).map (fun l => (l, m.type)) else none
    | none => none
  | none =>
    if interpreterModules.contains part then some (.builtIn, .builtIn)
    else w.searchOrder.findSome? fun (directories, type) => (w.disk.find? part directories).map (fun l => (l, type))

/-- What becomes known of a module that is found on disk. A package is bound as its `__init__`. -/
def found (disk : Disk) (location : Location) (type : ImportType) (m : ModuleRecord) : ModuleRecord :=
  let m := { m with type := type, isFromDisk := true }
  match location with
  | .package directory =>
    let m := { m with
      locations := some [directory]
      isPyTyped := type == ImportType.thirdParty && disk.isFile (Path.join directory "py.typed") }
    match disk.find? "__init__" [directory] with
    | some (.file .source path) => { m with file := some path }
    | _ => { m with isNative := true }
  | .namespacePackage directories => { m with isNamespace := true, locations := some directories }
  | .file .source path => { m with file := some path }
  | .file _ path => { m with isNative := true, file := some path }
  | .builtIn => { m with isNative := true }

def enterFound (name : String) (location : Location) (type : ImportType) : WorkM Nat := do
  let i ← enter name
  let disk := (← get).disk
  adjust i (found disk location type)
  match ((← get).moduleAt i).file with
  | some path => notePath i path
  | none => pure ()
  return i

/-- The module with a name, of which `part` is the last part below `parent`; it is searched on disk unless it is registered
or was looked for in vain. -/
def load (part name : String) (parent : Option Nat) : WorkM (Option Nat) := do
  let w ← get
  match w.names.lookup name with
  | some i => return some i
  | none =>
    if w.missing.has name then return none
    match w.locate? part parent with
    | some (location, type) => return some (← enterFound name location type)
    | none => return none

/-- Remembers that a module looked for a name in vain. -/
def noteMissing (name : String) (caller : Option Nat) : WorkM Unit := modify fun w =>
  let asker := ((caller.map w.moduleAt).map ModuleRecord.name).getD "-"
  let askers := (w.missing.lookup name).getD []
  { w with missing := w.missing.put name (if askers.contains asker then askers else askers ++ [asker]) }

/-- Follows the parts of a name from a module as far as they are found. The modules on the way are the answer; the first
name that is not found is remembered. -/
def follow (caller : Nat) : Option Nat → List String → WorkM (List Nat)
  | _, [] => return []
  | start, part :: parts => do
    let w ← get
    let name := DottedName.child (start.map fun i => (w.moduleAt i).name) part
    match ← load part name start with
    | none =>
      noteMissing name (some caller)
      return []
    | some i => return i :: (← follow caller (some i) parts)

/-- Follows all parts of a name from a module; a failure is not remembered. -/
def reach : Option Nat → List String → WorkM (Option Nat)
  | start, [] => return start
  | start, part :: parts => do
    let w ← get
    match ← load part (DottedName.child (start.map fun i => (w.moduleAt i).name) part) start with
    | none => return none
    | some i => reach (some i) parts

/-- The registered module with a name that has to be there. -/
def ancestor (w : Workspace) (name : String) : Except Fault Nat :=
  match w.names.lookup name with
  | some i => .ok i
  | none => .error (.unknownKey (quoted name))

/-- The package that an import starts from; an absolute one starts from none. The first level of a package is the package
itself, and that of any other module is the package it is in. -/
def start (w : Workspace) (caller : Nat) (level : Int) : Except Fault (Option Nat) :=
  let m := w.moduleAt caller
  let isPackage := !(m.locations.getD []).isEmpty
  let steps := if isPackage then level - 1 else level
  let parts := DottedName.parts m.name
  if level = 0 then .ok none
  else if steps = 0 then
    (w.ancestor m.name).bind fun i => if i == caller then .ok (some i) else .error .staleCaller
  else if (parts.length : Int) ≤ steps then .error .tooDeep
  else
    let kept := if 0 < steps then parts.length - steps.toNat else (-steps).toNat
    (w.ancestor (DottedName.ofParts (parts.take kept))).map some

/-- The module name that a file in a package directory stands for. A file that ends like a module is named before that
ending, also if it is a directory; a directory counts if it has an `__init__`. -/
def submoduleName? (disk : Disk) (directory entry : String) : Option String :=
  let suffixes := extensionSuffixes ++ [".py"]
  let name := match suffixes.find? (fun suffix => entry.endsWith suffix) with
    | some suffix => some (String.ofList (entry.toList.take (entry.length - suffix.length)))
    | none => if disk.isFile (Path.join (Path.join directory entry) "__init__.py") then some entry else none
  name.filter fun n => n != "__init__" && isIdentifier n

/-- The names of the modules on disk directly below a package, in order of their characters. -/
def submodules (w : Workspace) (m : ModuleRecord) : List String :=
  sortedNames <| (m.locations.getD []).flatMap fun directory =>
    (w.disk.entries directory).filterMap (submoduleName? w.disk directory)

/-- Registers the modules on disk directly below a package. -/
def loadSubmodules (i : Nat) (caller : Option Nat) : WorkM Unit := do
  let w ← get
  let m := w.moduleAt i
  (w.submodules m).forM fun part => do
    let w ← get
    let name := DottedName.child (some m.name) part
    if !w.names.has name && !w.missing.has name then
      if (← load part name (some i)).isNone then noteMissing name caller

/-- The registered modules directly below a package, in the order of their registration. -/
def children (w : Workspace) (name : String) : List ImplicitImport :=
  w.names.filterMap fun (other, i) => (DottedName.childOf? name other).map fun part =>
    let m := w.moduleAt i
    ⟨part, m.resolvedPath, m.isStub, m.isNative⟩

/-- The submodules that come with a package. -/
def implicitImports (i : Nat) (caller : Option Nat) : WorkM (List ImplicitImport) := do
  let m := (← get).moduleAt i
  if !m.isPackage then return []
  if m.isFromDisk then loadSubmodules i caller
  return (← get).children m.name

/-- The implicit imports that a statement asks for: none without a list of names, all for a wildcard. -/
def wantedImports (wanted : Option (List String)) (all : List ImplicitImport) : List ImplicitImport :=
  match wanted with
  | none => []
  | some names => if names.contains "*" then all else all.filter fun i => names.contains i.name

/-- The record of the source behind a stub. -/
def sourceRecord (name : String) (level : Int) (m : ModuleRecord) : ImportRecord where
  name := name
  isRelative := 0 < level
  isFound := m.sourceFile.isSome
  paths := m.sourceFile.toList.filter (fun path => !path.isEmpty)

/-- The record of an import with a number of parts, of which these modules were found. -/
def describe (caller : Nat) (unresolved : ImportRecord) (level : Int) (wanted : Option (List String)) (parts : Nat)
    (found : List Nat) : WorkM ImportRecord := do
  match found.getLast? with
  | none => return unresolved
  | some last =>
    let isFound := found.length == max parts 1
    let implicit ← if isFound then implicitImports last (some caller) else pure []
    let w ← get
    let m := w.moduleAt last
    return { unresolved with
      isFound := isFound
      isPartlyResolved := !isFound
      isNamespacePackage := m.isNamespace
      isStub := m.isStub
      isNative := m.isNative
      type := m.type
      paths := found.map fun i => (w.moduleAt i).resolvedPath
      implicitImports := implicit
      filteredImports := wantedImports wanted implicit
      nonStub := if isFound && m.isStub then some (sourceRecord unresolved.name level m) else none
      isPyTyped := w.isPyTyped m }

/-- Resolves an import by a module. `wanted` are the names that a `from` statement imports. -/
def resolve (caller : Nat) (name : String) (level : Option Int) (wanted : Option (List String)) : WorkM ImportRecord := do
  let some level := level | throw .missingLevel
  let unresolved : ImportRecord :=
    { name := String.ofList (List.replicate level.toNat '.') ++ name, isRelative := 0 < level }
  match (← get).start caller level with
  | .error .tooDeep => return unresolved
  | .error fault => throw fault
  | .ok parent =>
    let parts := if name.isEmpty then [] else DottedName.parts name
    let found ← if parts.isEmpty then pure parent.toList else follow caller parent parts
    describe caller unresolved level wanted parts.length found

/-- Resolves an import at a node and keeps the record. -/
def resolveAt (caller node : Nat) (name : String) (level : Option Int) (wanted : Option (List String)) : WorkM Unit := do
  let record ← resolve caller name level wanted
  adjust caller fun m => { m with imports := m.imports ++ [(node, record)] }

/-- Resolves the imports of a node, if it is an import statement. -/
def resolveNode (caller : Nat) : Node → WorkM Unit
  | .stmt (.importModules _ names) => names.forM fun n => resolveAt caller n.mark.index n.name (some 0) none
  | .stmt (.importFrom mark source names level) =>
    resolveAt caller mark.index (source.getD "") level (some (names.map ImportName.name))
  | _ => return

/-- Resolves all imports of a module, level by level of its tree. -/
def resolveAll (caller : Nat) (m : Module) : WorkM Unit := m.tree.breadthFirst.forM (resolveNode caller)

/-- The name of the module in a file; the path is taken from the root of the workspace. -/
def nameOfFile (w : Workspace) (file : String) : Except Fault String :=
  let root := w.root.getD w.workingDirectory
  let parts := splitAt '/' (Path.splitExtension (Path.relativeTo (Path.join root file) root)).1
  let parts := if parts.getLast? == some "__init__" then parts.dropLast else parts
  if parts.isEmpty || !parts.all isIdentifier then .error (.notImportablePath file)
  else .ok (DottedName.ofParts parts)

/-- The name of an entry that is given by its file or its name. -/
def entryName (w : Workspace) (file name : Option String) : Except Fault String :=
  match file.filter (fun f => !f.isEmpty), name with
  | some file, _ => w.nameOfFile file
  | none, some name => .ok name
  | none, none => .error .namelessEntry

/-- Adds a module, given by its file or its name, to those that the analysis starts from. -/
def addEntry (file name : Option String) : WorkM Nat := do
  match (← get).entryName file name with
  | .error fault => throw fault
  | .ok name =>
    match ← reach none (DottedName.parts name) with
    | none => throw (.cannotImport name)
    | some i =>
      modify fun w => { w with entries := w.entries ++ [i] }
      return i

end ScopeFlow.Workspace
