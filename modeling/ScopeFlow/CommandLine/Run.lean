import ScopeFlow.CommandLine.Usage
import ScopeFlow.Report.Module

/-!
# What the command line does

The path names a file or a directory. A file is bound as the one entry; of a directory, all modules below it are, or those
that are named. The outcome is a report to write to a file, or a summary to print: for each entry the number of its symbols
and diagnostics, and its diagnostics.

Values that are refused, imports that fail and sources that do not parse end the run with a message; any other fault is
the outcome itself.
-/

namespace ScopeFlow.CommandLine

/-- What a run sees of the machine. -/
structure Host where
  program : String
  workingDirectory : String
  libraryPaths : List String
  disk : Disk

/-- What a run ends with: its exit code, what it prints, and the text it writes to a file. -/
structure Outcome where
  exitCode : Nat := 0
  lines : List String := []
  written : Option (String × String) := none
  deriving DecidableEq, Repr

/-- The files of a directory and of those below it that have an identifier as their name, a directory before its
subdirectories and each in order; a file is given by its directory and its name. -/
def filesBelow (disk : Disk) : Nat → String → List (String × String)
  | 0, _ => []
  | bound + 1, directory =>
    let entries := sortedNames (disk.entries directory)
    let isDirectory (name : String) : Bool := disk.isDirectory (Path.join directory name)
    let files := entries.filter fun name => !isDirectory name
    let directories := entries.filter fun name => isDirectory name && isIdentifier name
    files.map (fun name => (directory, name)) ++
      directories.flatMap fun name => filesBelow disk bound (Path.join directory name)

/-- The stem of the file of a module: an identifier before the ending. -/
def isModuleFile (name : String) : Bool :=
  name.endsWith ".py" && isIdentifier (String.ofList (name.toList.take (name.length - 3)))

/-- The modules below a directory, by their paths from it. The directory itself is no package, so its `__init__` is left
out. Every directory is entered once, so their number bounds the walk. -/
def moduleFiles (disk : Disk) (directory : String) : List String :=
  let files := filesBelow disk (disk.directories.length + 1) directory
  (files.filter fun (parent, name) => isModuleFile name && !(parent == directory && name == "__init__.py")).map
    fun (parent, name) => Path.relativeTo (Path.join parent name) directory

/-- Adds a file as an entry. A stub is registered under its name; any other file is found as a module. -/
def addFile (s : Settings) (path : String) : WorkM Unit := do
  let name := Path.lastPart path
  if s.isStub || name.endsWith ".pyi" then
    let source := match (← get).disk.read? path with
      | some (.source source) => source
      | _ => .unparsable 1 "invalid syntax"
    let i ← Workspace.register
      { name := (Path.splitExtension name).1, source := source, isStub := true, file := some path }
    modify fun w => { w with entries := w.entries ++ [i] }
  else discard (Workspace.addEntry (some name) none)

/-- Adds what the settings name as entries. -/
def addEntries (s : Settings) (path : String) : WorkM Unit := do
  let disk := (← get).disk
  if disk.isFile path then addFile s path
  else if !s.modules.isEmpty then s.modules.forM fun name => discard (Workspace.addEntry none (some name))
  else (moduleFiles disk path).forM fun file => discard (Workspace.addEntry (some file) none)

/-- Marks the packages that the entries are in as typed. -/
def markPyTyped : WorkM Unit := do
  let w ← get
  w.entries.forM fun i => do
    match (← get).find (DottedName.top (w.moduleAt i).name) with
    | .ok top => Workspace.adjust top fun m => { m with isPyTyped := true }
    | .error fault => throw fault

/-- Adds the entries and binds them. -/
def bindEntries (s : Settings) (path : String) : WorkM (List Nat) := do
  addEntries s path
  if s.isPyTyped then markPyTyped
  Workspace.bindEntries

def summary (store : Store) (m : ModuleRecord) : List String :=
  let symbols := (((m.scope.bind store.scope?).map fun s => s.symbols.length)).getD 0
  let diagnostics := (m.analysis.map Bound.diagnostics).getD []
  s!"{m.name}: {symbols} module symbols, {diagnostics.length} diagnostics" ::
    diagnostics.map fun d => "    " ++ d.print

/-- The message with which a fault ends a run, if it does not end in the fault itself. -/
def message? (fault : Fault) : Option String :=
  match fault, fault.kind with
  | .unparsable path line reason, _ => some s!"Error: {path}:{line}: {reason}"
  | _, .importing | _, .value | _, .unregistered => some ("Error: " ++ fault.message)
  | _, _ => none

/-- The workspace of a run: its root is the directory named, or that of the file. -/
def workspaceOf (h : Host) (s : Settings) (path : String) : Workspace :=
  let w : Workspace := {
    root := some (if h.disk.isDirectory path then path else Path.directory path)
    workingDirectory := h.workingDirectory
    libraryPaths := h.libraryPaths
    environment := .ofOptions s.version s.platform true
    disk := h.disk }
  w.opened

/-- What is written or printed of the modules that were bound. -/
def present (s : Settings) (w : Workspace) (modules : List ModuleRecord) : Except Fault Outcome :=
  match s.output.filter (fun target => !target.isEmpty) with
  | some target => do return { written := some (target, (← Report.ofModules w modules).pretty) }
  | none => .ok { lines := modules.flatMap (summary w.store) }

def follow (h : Host) (s : Settings) : Except Fault Outcome :=
  let path := Path.normal (Path.join h.workingDirectory (s.path.getD ""))
  match (bindEntries s path).run (workspaceOf h s path) with
  | .ok numbers w => present s w (numbers.map w.moduleAt)
  | .error fault _ =>
    match message? fault with
    | some line => .ok { exitCode := 1, lines := [line] }
    | none => .error fault

def run (h : Host) (args : List String) : Except Fault Outcome :=
  match read args with
  | .ok s => follow h s
  | .error .help => .ok { lines := helpText h.program }
  | .error .refused => .ok { exitCode := 2 }

end ScopeFlow.CommandLine
