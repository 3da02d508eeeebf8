import ScopeFlow.Path
import ScopeFlow.Table
import ScopeFlow.Tree.Basic

/-!
# Files

The part of a file system that modules are found in: files with what they hold, and directories. Paths are absolute. A
relative path leads nowhere.
-/

namespace ScopeFlow

/-- What the text of a module parses to. -/
inductive Source where
  | parsed (tree : Module)
  /-- The text is no module: the line and the reason. -/
  | unparsable (line : Int) (reason : String)

/-- What a file holds. -/
inductive FileContent where
  | source (source : Source)
  | other

/-- Files by path, and directories. -/
structure Disk where
  files : Table FileContent := []
  directories : List String := []

namespace Disk

/-- The path under which a file or directory is kept; a relative path has none. -/
def key? (path : String) : Option String := if path.startsWith "/" then some (Path.normal path) else none

def read? (d : Disk) (path : String) : Option FileContent := (key? path).bind fun key => d.files.lookup key

def isFile (d : Disk) (path : String) : Bool := (d.read? path).isSome

def isDirectory (d : Disk) (path : String) : Bool :=
  match key? path with
  | some key => key == "/" || d.directories.contains key
  | none => false

def entries (d : Disk) (path : String) : List String :=
  match key? path with
  | none => []
  | some key => ((d.files.names ++ d.directories).filter (fun p => Path.directory p == key && p != key)).map Path.lastPart

/-- All directories above a path, the path included: each non-empty start of its parts. -/
def directoriesOf (path : String) : List String :=
  (Path.parts path).foldl (fun (paths, last) part =>
    let next := last ++ "/" ++ part
    (paths ++ [next], next)) (([] : List String), "") |>.1

/-- Adds a directory and those above it. -/
def addDirectory (d : Disk) (path : String) : Disk :=
  { d with directories := d.directories ++ (directoriesOf path).filter (fun p => !d.directories.contains p) }

/-- Adds a file and the directories above it, or replaces what the file holds. -/
def addFile (d : Disk) (path : String) (content : FileContent) : Disk :=
  let d := d.addDirectory (Path.directory path)
  { d with files := d.files.put (Path.normal path) content }

/-- Removes a file, or a directory with all that is below it. -/
def remove (d : Disk) (path : String) : Disk :=
  let key := Path.normal path
  let isBelow (p : String) : Bool := p == key || p.startsWith (key ++ "/")
  { files := d.files.filter (fun f => !isBelow f.1), directories := d.directories.filter (fun p => !isBelow p) }

end Disk

end ScopeFlow
