import ScopeFlow.Tree.Reader
import ScopeFlow.Workspace.Disk

/-!
# Reading files from JSON

Parsing is not done here: what a file holds is given as the tree it parses to (`tree`), as the fact that it does not parse
(`unparsable`), or as text that is no source (`raw`). Files are given by their path below a root; a path that ends in a
separator is a directory.
-/

namespace ScopeFlow

def Source.ofJson (j : Json) : Source :=
  if (j.field "unparsable").isTrue then .unparsable 1 "'(' was never closed"
  else .parsed ((Module.ofJson? (j.field "tree")).getD { body := [] })

def FileContent.ofJson (j : Json) : FileContent := if j.hasField "raw" then .other else .source (.ofJson j)

namespace Disk

/-- Writes a file or makes a directory below a root. -/
def write (d : Disk) (root path : String) (content : Json) : Disk :=
  let path := Path.join root path
  if path.endsWith "/" then d.addDirectory path else d.addFile path (.ofJson content)

def ofJson (root : String) (files : Json) : Disk :=
  files.fields.foldl (fun d (path, content) => d.write root path content) (({} : Disk).addDirectory root)

end Disk

end ScopeFlow
