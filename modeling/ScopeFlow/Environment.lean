import ScopeFlow.Fault
import ScopeFlow.Text.Quoted

/-!
# The environment a module is bound for

The language version and the platform decide static conditions, the rule set decides which optional diagnostics are
given, and the narrowing policy decides which calls narrow their arguments.
-/

namespace ScopeFlow

/-- The platforms that conditions can ask for. -/
inductive Platform where
  | darwin | windows | linux
  deriving DecidableEq, Repr

namespace Platform

def name : Platform → String
  | darwin => "Darwin"
  | windows => "Windows"
  | linux => "Linux"

def ofName (name : String) : Except Fault Platform :=
  match name with
  | "Darwin" => .ok darwin
  | "Windows" => .ok windows
  | "Linux" => .ok linux
  | _ => .error (.notMember (quoted name) "PythonPlatform")

/-- What `sys.platform` is on a platform. -/
def systemName : Platform → String
  | darwin => "darwin"
  | windows => "win32"
  | linux => "linux"

/-- What `os.name` is on a platform. -/
def osName : Platform → String
  | windows => "nt"
  | darwin | linux => "posix"

/-- The platform this program runs on. -/
def host : Platform := linux

end Platform

/-- The version that is assumed if none is given. -/
def defaultVersion : List Int := [3, 11]

/-- A language version, most significant part first, and a platform. Without a platform, platform checks stay open. -/
structure Environment where
  version : List Int := defaultVersion
  platform : Option Platform := some .host
  deriving DecidableEq, Repr

/-- The environment of a version and a platform that may both be left open. An empty version is the default one; a missing
platform is the host's if `useHost` says so. -/
def Environment.ofOptions (version : List Int) (platform : Option Platform) (useHost : Bool) : Environment where
  version := if version.isEmpty then defaultVersion else version
  platform := if useHost then platform <|> some .host else platform

/-- The rules that switch optional diagnostics. -/
inductive Rule where
  | missingImports | missingTypeStubs | missingModuleSource | unsupportedDunderAll | privateUsage
  deriving DecidableEq, Repr

namespace Rule

def name : Rule → String
  | missingImports => "reportMissingImports"
  | missingTypeStubs => "reportMissingTypeStubs"
  | missingModuleSource => "reportMissingModuleSource"
  | unsupportedDunderAll => "reportUnsupportedDunderAll"
  | privateUsage => "reportPrivateUsage"

def all : List Rule := [missingImports, missingTypeStubs, missingModuleSource, unsupportedDunderAll, privateUsage]

def ofName? (name : String) : Option Rule := all.find? (fun r => r.name == name)

end Rule

/-- Which rules are switched on. -/
structure RuleSet where
  missingImports : Bool := true
  missingTypeStubs : Bool := false
  missingModuleSource : Bool := true
  unsupportedDunderAll : Bool := true
  privateUsage : Bool := false
  deriving DecidableEq, Repr

namespace RuleSet

def isEnabled (rules : RuleSet) : Rule → Bool
  | .missingImports => rules.missingImports
  | .missingTypeStubs => rules.missingTypeStubs
  | .missingModuleSource => rules.missingModuleSource
  | .unsupportedDunderAll => rules.unsupportedDunderAll
  | .privateUsage => rules.privateUsage

/-- Whether the rule with a name is switched on; a name of no rule is not. -/
def enables (rules : RuleSet) (name : String) : Bool :=
  match Rule.ofName? name with
  | some rule => rules.isEnabled rule
  | none => false

/-- The rule set with one rule switched. -/
def switch (rules : RuleSet) (value : Bool) : Rule → RuleSet
  | .missingImports => { rules with missingImports := value }
  | .missingTypeStubs => { rules with missingTypeStubs := value }
  | .missingModuleSource => { rules with missingModuleSource := value }
  | .unsupportedDunderAll => { rules with unsupportedDunderAll := value }
  | .privateUsage => { rules with privateUsage := value }

end RuleSet

/-- Which calls narrow the type of their first argument. -/
structure NarrowingPolicy where
  /-- Any call with arguments narrows its first one. -/
  callArguments : Bool := true
  /-- Built-in checks also narrow to the impossible. -/
  neverBuiltinChecks : Bool := true
  deriving DecidableEq, Repr

end ScopeFlow
