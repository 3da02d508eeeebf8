/-!
# Faults: every way an operation can fail

A fault names its cause. Its text is given in one place (`Fault.message`), and its kind (`Fault.kind`) says which
faults a caller treats alike: a look-up of exports passes over missing and unparsable sources, and the command line
reports refused values, failed imports and unknown modules in its own words.
-/

namespace ScopeFlow

/-- The kinds of fault that callers tell apart. -/
inductive FaultKind where
  | assertion | attribute | element | type | key | value | importing | unregistered | recursion | missingFile | directory
  | badSource
  deriving DecidableEq, Repr

/-- Why an operation failed. -/
inductive Fault where
  /-- The tree to bind is not the tree whose nodes were numbered. -/
  | foreignTree
  /-- A node of another tree was asked about. -/
  | foreignNode
  /-- A module stands where a statement is expected. -/
  | nestedModule
  /-- A name is assigned that no scope declares. -/
  | unboundTarget (name : String)
  /-- The container of an assignment expression has no scope. -/
  | containerWithoutScope
  /-- A member is assigned in a class that has no scope. -/
  | classWithoutScope (name : String)
  /-- A scope chain has no module or builtins scope. -/
  | rootlessScope
  /-- A key was asked for an expression that is no reference. -/
  | notReference
  /-- The importing module is not the one registered under its name. -/
  | staleCaller
  /-- A look-up came back to the scope it started from. -/
  | endlessLookup
  /-- The target of an assignment expression is not a name. -/
  | targetWithoutName
  /-- A report was asked of a module whose binding failed. -/
  | unboundReport
  /-- An entry is given by neither a file nor a name. -/
  | namelessEntry
  /-- An element of an empty list was needed. -/
  | missingElement
  /-- A relative import has no level. -/
  | missingLevel
  /-- A value of this kind has no written form. -/
  | unsupportedValue (kind : String)
  /-- A key is not in a table; the text is the key as it is quoted. -/
  | unknownKey (quoted : String)
  /-- A value is not one of an enumeration; the first text is the value as it is quoted. -/
  | notMember (quoted enumeration : String)
  /-- No module is registered under this name. -/
  | notRegistered (name : String)
  /-- A module is already registered under this name. -/
  | alreadyRegistered (name : String)
  /-- The parts of a path are not all identifiers. -/
  | notImportablePath (path : String)
  /-- An entry module was not found. -/
  | cannotImport (name : String)
  /-- A relative import climbs above the top package. -/
  | tooDeep
  /-- More modules wait for one another than there can be. -/
  | endlessBinding
  /-- A source file does not exist. -/
  | missingFile (path : String)
  /-- A directory stands where a source file is expected. -/
  | notFile (path : String)
  /-- A source could not be parsed. -/
  | unparsable (path : String) (line : Int) (text : String)
  deriving DecidableEq, Repr

namespace Fault

def kind : Fault → FaultKind
  | foreignTree | foreignNode | nestedModule | unboundTarget _ | containerWithoutScope | classWithoutScope _
  | rootlessScope | notReference | staleCaller => .assertion
  | endlessLookup | endlessBinding => .recursion
  | targetWithoutName | unboundReport | namelessEntry => .attribute
  | missingElement => .element
  | missingLevel | unsupportedValue _ => .type
  | unknownKey _ => .key
  | notMember _ _ | alreadyRegistered _ | notImportablePath _ => .value
  | notRegistered _ => .unregistered
  | cannotImport _ | tooDeep => .importing
  | missingFile _ => .missingFile
  | notFile _ => .directory
  | unparsable _ _ _ => .badSource

def message : Fault → String
  | foreignTree => "the module must be the tree the node info was built from"
  | foreignNode => "node does not belong to this tree"
  | nestedModule => "modules are bound through bindModule"
  | unboundTarget name => s!"no symbol for assignment target '{name}'"
  | containerWithoutScope => "assignment expression container has no scope"
  | classWithoutScope name => s!"class {name} has no scope"
  | rootlessScope => "every scope chain ends in a module or builtins scope"
  | notReference | staleCaller => ""
  | endlessLookup | endlessBinding => "maximum recursion depth exceeded"
  | targetWithoutName => "the target has no name"
  | unboundReport => "the module has no results"
  | namelessEntry => "the entry has no name"
  | missingElement => "list index out of range"
  | missingLevel => "can't multiply sequence by non-int of type 'NoneType'"
  | unsupportedValue kind => s!"Type {kind} not supported."
  | unknownKey quoted => quoted
  | notMember quoted enumeration => s!"{quoted} is not a valid {enumeration}"
  | notRegistered name => s!"Module {name} is not registered."
  | alreadyRegistered name => s!"Module {name} is already registered."
  | notImportablePath path => s!"{path} is not an importable module path."
  | cannotImport name => s!"Can't import {name}. Please check if this module exists."
  | tooDeep => "relative importpath too deep"
  | missingFile path => s!"[Errno 2] No such file or directory: '{path}'"
  | notFile path => s!"[Errno 21] Is a directory: '{path}'"
  | unparsable _ _ text => text

end Fault

end ScopeFlow
