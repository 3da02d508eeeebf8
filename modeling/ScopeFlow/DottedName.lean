import ScopeFlow.Text.Split

/-!
# Dotted names

The name of a module says where it is in the tree of packages: the names of the packages above it, outermost first, then
its own, with dots between them.
-/

namespace ScopeFlow.DottedName

/-- The parts of a name, outermost first. -/
def parts (name : String) : List String := splitAt '.' name

def ofParts (parts : List String) : String := joinWith '.' parts

def top (name : String) : String := ((parts name).head?).getD ""

/-- The names of the packages above a module, outermost first. -/
def parents (name : String) : List String :=
  let parts := parts name
  (List.range (parts.length - 1)).map fun n => ofParts (parts.take (n + 1))

/-- The name of a part of a package, or of a part that stands alone. -/
def child (parent : Option String) (part : String) : String :=
  match parent with
  | some name => name ++ "." ++ part
  | none => part

/-- The last part of a name directly below a package. -/
def childOf? (parent name : String) : Option String :=
  let start := parent ++ "."
  if start.toList.isPrefixOf name.toList then
    let rest := name.toList.drop start.length
    if rest.contains '.' then none else some (String.ofList rest)
  else none

/-- The parts of a name as directories. -/
def asPath (name : String) : String := joinWith '/' (parts name)

end ScopeFlow.DottedName
