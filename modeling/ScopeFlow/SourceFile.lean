import ScopeFlow.Environment
import ScopeFlow.Path

/-!
# Source files

What binding knows of the file a module comes from.
-/

namespace ScopeFlow

/-- A source file: where it is, the module it holds, and what it is bound for. -/
structure SourceFile where
  path : String
  moduleName : String
  isStub : Bool := false
  /-- Part of a package that declares itself typed. -/
  isPyTyped : Bool := false
  rules : RuleSet := {}
  environment : Environment := {}

namespace SourceFile

/-- The stub of the typing module. -/
def isTypingStub (f : SourceFile) : Bool := f.isStub && f.moduleName == "typing"

/-- The stub of the module that extends the typing module. -/
def isTypingExtensionsStub (f : SourceFile) : Bool := f.isStub && f.moduleName == "typing_extensions"

/-- The stub of the builtins. -/
def isBuiltinStub (f : SourceFile) : Bool :=
  f.isStub && (f.moduleName == "builtins" || f.moduleName == "__builtins__")

def stem (f : SourceFile) : String := Path.stem f.path

end SourceFile

end ScopeFlow
