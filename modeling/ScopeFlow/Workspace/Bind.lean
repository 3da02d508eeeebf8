import ScopeFlow.Tree.Number
import ScopeFlow.Workspace.Resolve

/-!
# Binding the modules of a workspace

A module is bound the first time it is asked for, and never again. Binding resolves its imports and sees other modules
through their exports, which binds them first; a module that is being bound already, because imports form a circle, shows
nothing. If binding fails, the module keeps what was found out but shows nothing of it to others.
-/

namespace ScopeFlow

def Source.tree (source : Source) (path : String) : Except Fault Module :=
  match source with
  | .parsed tree => .ok tree
  | .unparsable line reason => .error (.unparsable path line reason)

namespace Workspace

/-- The tree of a module with a file, numbered. A file that holds no source does not parse. -/
def treeOf (w : Workspace) (m : ModuleRecord) (path : String) : Except Fault Module :=
  Module.number <$>
    match m.source, w.disk.read? path with
    | some source, _ => source.tree path
    | none, some (.source source) => source.tree path
    | none, some .other => .error (.unparsable path 1 "invalid syntax")
    | none, none => .error (if w.disk.isDirectory path then .notFile path else .missingFile path)

/-- What importers see of a module: nothing unless it is bound and has a scope. -/
def shown (w : Workspace) (i : Nat) : Option Exports := do
  let m := w.moduleAt i
  let scope ← w.store.scope? (← m.scope)
  return {
    symbols := scope.symbols.map fun (name, s) => (name, s.flags)
    all := m.results.bind BindResults.all
    doc := m.results.bind BindResults.doc }

/-- Whether a fault says that there is no source to bind. -/
def isSourceFault (f : Fault) : Bool :=
  match f.kind with
  | .missingFile | .directory | .badSource => true
  | _ => false

/-- What is seen of the module at a path, which `bind` binds if it is not bound. -/
def exportsBy (bind : String → WorkM Nat) (path : String) : WorkM (Option Exports) := do
  let w ← get
  match w.paths.lookup path with
  | none => return none
  | some i =>
    let m := w.moduleAt i
    match m.progress with
    | .binding => return none
    | .unbound =>
      let settled ← tryCatch (do discard (bind m.name); return true) fun fault =>
        if isSourceFault fault then return false else throw fault
      let w ← get
      return if settled then w.shown i else none
    | _ => return w.shown i

/-- What binding one module is given. -/
def setup (w : Workspace) (i : Nat) (path : String) (outline : Outline) (builtins : Option Nat)
    (bind : String → WorkM Nat) : Bind.Setup Workspace :=
  let m := w.moduleAt i
  { file := ⟨path, m.name, m.isStub, w.isPyTyped m, w.rules, w.environment⟩
    policy := w.policy
    outline := outline
    imports := m.imports
    builtins := builtins
    exports := fun path store world =>
      match (exportsBy bind path).run { world with store := store } with
      | .ok exports world => (.ok exports, world.store, world)
      | .error fault world => (.error fault, world.store, world) }

/-- The scope of the builtins, which `bind` binds first. -/
def builtinsScope (bind : String → WorkM Nat) : WorkM (Option Nat) := do
  let i ← bind builtinsName
  return ((← get).moduleAt i).scope

/-- The scope around a module: that of the builtins, and none around the builtins themselves. -/
def scopeAround (bind : String → WorkM Nat) (i : Nat) : WorkM (Option Nat) :=
  if i == builtinsIndex then return none else builtinsScope bind

/-- Keeps what binding the tree of a module has come to. -/
def keepOutcome (i : Nat) (outline : Outline) (outcome : Except Fault BindResults) (s : Bind.State Workspace) : WorkM Unit := do
  set { s.world with store := s.store }
  let bound := Bound.ofState outline outcome.toOption s
  match outcome with
  | .error fault =>
    adjust i fun m => { m with analysis := some bound }
    throw fault
  | .ok results =>
    adjust i fun m => { m with
      analysis := some bound
      scope := bound.moduleScope?
      results := some results
      progress := .bound }

/-- Binds a module with a file: reads its tree, resolves its imports, and binds the tree with the builtins around it.
`bind` binds other modules. -/
def bindRecord (bind : String → WorkM Nat) (i : Nat) (path : String) : WorkM Unit := do
  let w ← get
  match w.treeOf (w.moduleAt i) path with
  | .error fault => throw fault
  | .ok tree =>
    let outline := Outline.ofModule tree
    adjust i fun m => { m with analysis := some (.blank outline), imports := [] }
    resolveAll i tree
    let builtins ← scopeAround bind i
    let w ← get
    let run := bindModule (w.setup i path outline builtins bind) tree w.store w
    keepOutcome i outline run.1 run.2

/-- Binds a module from its file and notes how that went. -/
def bindFile (bind : String → WorkM Nat) (i : Nat) (path : String) : WorkM Nat := do
  adjust i fun m => { m with progress := .binding }
  tryCatch (bindRecord bind i path) fun fault => do
    adjust i fun m => { m with progress := .failed, scope := none, results := none }
    throw fault
  return i

/-- Binds the module with a name, unless that was tried before. A module with a file is bound by `bindFile`. -/
def bindNamed (bindFile : Nat → String → WorkM Nat) (name : String) : WorkM Nat := do
  match (← get).find name with
  | .error fault => throw fault
  | .ok i =>
    let m := (← get).moduleAt i
    if m.progress != .unbound then return i
    match m.code? with
    | none =>
      adjust i fun m => { m with progress := .bound }
      return i
    | some path => bindFile i path

/-- Binds the module with a name. The bound limits how deep modules are bound one within another. -/
def bindWithin : Nat → String → WorkM Nat
  | 0 => bindNamed fun _ _ => throw .endlessBinding
  | depth + 1 => bindNamed (bindFile (bindWithin depth))

/-- How many modules can be bound one within another: those registered, and for each of them those that are found on disk
below it, whose names follow a stretch of the path of a file. -/
def depthBound (w : Workspace) : Nat :=
  let stretches :=
    w.disk.files.foldr (fun file count => ((Path.parts file.1).length + 2) * ((Path.parts file.1).length + 2) + count) 0
  w.names.length + (w.names.length + 1) * stretches + 1

def bind (name : String) : WorkM Nat := do bindWithin (← get).depthBound name

/-- Binds the entries, until one fails. -/
def bindEntries : WorkM (List Nat) := do
  let w ← get
  w.entries.mapM fun i => bind (w.moduleAt i).name

/-- Binds all modules that are registered now, until one fails. -/
def bindAll : WorkM (List Nat) := do (← get).names.names.mapM bind

/-- What is seen of the module at a path. -/
def exports (path : String) : WorkM (Option Exports) := exportsBy bind path

end Workspace

end ScopeFlow
