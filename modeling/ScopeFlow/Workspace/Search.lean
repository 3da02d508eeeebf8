import ScopeFlow.Workspace.Disk

/-!
# Finding modules in directories

A module with a name is searched in directories in order: a package, which is a directory with an `__init__` file; else a
file; else, as the last resort, the directories of that name form a namespace package. Extension modules come before
source files, and these before compiled ones.
-/

namespace ScopeFlow

/-- The kinds of file that a module can be. -/
inductive FileKind where
  | extension | source | compiled
  deriving DecidableEq, Repr

/-- The endings of extension modules. -/
def extensionSuffixes : List String := [".cpython-311-x86_64-linux-gnu.so", ".abi3.so", ".so"]

/-- The endings of module files, in the order in which they are tried. -/
def moduleSuffixes : List (String × FileKind) :=
  extensionSuffixes.map (fun s => (s, .extension)) ++ [(".py", .source), (".pyc", .compiled)]

/-- Where a module was found. -/
inductive Location where
  | package (directory : String)
  | file (kind : FileKind) (path : String)
  | namespacePackage (directories : List String)
  /-- Part of the interpreter. -/
  | builtIn
  deriving DecidableEq, Repr

/-- What one directory has to offer under a name. -/
inductive Offer where
  | nothing
  | file (kind : FileKind) (path : String)
  | portion (directory : String)

namespace Disk

/-- The first file with a base path and one of the endings of modules. -/
def moduleFile? (d : Disk) (base : String) : Option (FileKind × String) :=
  moduleSuffixes.findSome? fun (suffix, kind) => if d.isFile (base ++ suffix) then some (kind, base ++ suffix) else none

/-- What a directory has to offer under a name. A name with a separator in it is the name of no entry. -/
def offer (d : Disk) (directory name : String) : Offer :=
  if name.toList.contains '/' then .nothing else
  let base := Path.child directory name
  match if name.isEmpty then none else d.moduleFile? (Path.child base "__init__") with
  | some (kind, path) => .file kind path
  | none =>
    match d.moduleFile? base with
    | some (kind, path) => .file kind path
    | none => if !name.isEmpty && d.isDirectory base then .portion base else .nothing

/-- Whether the file found under a name makes it a package. The `__init__` of a package is none itself, unless it is an
extension module. -/
def isPackageFile (kind : FileKind) (path name : String) : Bool :=
  let file := Path.lastPart path
  match kind with
  | .extension => extensionSuffixes.any (fun s => file == "__init__" ++ s)
  | .source | .compiled => (Path.splitExtension file).1 == "__init__" && name != "__init__"

/-- Searches directories for a module; `portions` are the directories of its name passed so far. -/
def findFrom (d : Disk) (name : String) : List String → List String → Option Location
  | portions, [] => if portions.isEmpty then none else some (.namespacePackage portions)
  | portions, directory :: directories =>
    match d.offer directory name with
    | .file kind path =>
      if isPackageFile kind path name then some (.package (Path.directory path)) else some (.file kind path)
    | .portion p => d.findFrom name (portions ++ [p]) directories
    | .nothing => d.findFrom name portions directories

def find? (d : Disk) (name : String) (directories : List String) : Option Location := d.findFrom name [] directories

end Disk

/-- The modules that are part of the interpreter. -/
def interpreterModules : List String :=
  ["_abc", "_ast", "_bisect", "_blake2", "_codecs", "_collections", "_csv", "_datetime", "_elementtree", "_functools",
    "_heapq", "_imp", "_io", "_locale", "_md5", "_opcode", "_operator", "_pickle", "_posixsubprocess", "_random", "_sha1",
    "_sha256", "_sha3", "_sha512", "_signal", "_socket", "_sre", "_stat", "_statistics", "_string", "_struct",
    "_symtable", "_thread", "_tokenize", "_tracemalloc", "_warnings", "_weakref", "array", "atexit", "binascii",
    "builtins", "cmath", "errno", "faulthandler", "fcntl", "gc", "grp", "itertools", "marshal", "math", "posix", "pwd",
    "pyexpat", "select", "spwd", "sys", "syslog", "time", "unicodedata", "xxsubtype", "zlib"]

end ScopeFlow
