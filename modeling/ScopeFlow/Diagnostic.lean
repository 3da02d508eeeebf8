import ScopeFlow.Environment
import ScopeFlow.Range
import ScopeFlow.Table
import ScopeFlow.Text.Split

/-!
# Diagnostics

A message is a key and a template; a template is text with named gaps. A diagnostic is a filled message at a range, with
the rule that can switch it off, if any, and the actions that a reader may take.
-/

namespace ScopeFlow

/-- The messages that binding can give. -/
inductive MessageKey where
  | annotationNotSupported | assignmentExprComprehension | assignmentExprContext | awaitNotInAsync | globalReassignment
  | globalRedefinition | importResolveFailure | importSourceResolveFailure | nonLocalInModule | nonLocalNoBinding
  | nonLocalReassignment | nonLocalRedefinition | raiseParams | stubFileMissing | typeAliasNotInModule
  | unsupportedDunderAllOperation | wildcardInFunction | yieldFromOutsideAsync | yieldOutsideFunction
  | yieldWithinComprehension
  deriving DecidableEq, Repr

/-- A piece of a template. -/
inductive TemplatePiece where
  | text (s : String)
  | gap (name : String)
  deriving DecidableEq, Repr

namespace MessageKey

/-- The name of a message is that of its constructor. -/
def name (key : MessageKey) : String := (splitAt '.' (reprStr key)).getLast?.getD ""

def template : MessageKey → List TemplatePiece
  | annotationNotSupported => [.text "Type annotation not supported for this type of expression"]
  | assignmentExprComprehension =>
    [.text "Assignment expression target \"", .gap "name", .text "\" cannot use same name as comprehension for target"]
  | assignmentExprContext => [.text "Assignment expression must be within module, function or lambda"]
  | awaitNotInAsync => [.text "\"await\" allowed only within async function"]
  | globalReassignment => [.text "\"", .gap "name", .text "\" is assigned before global declaration"]
  | globalRedefinition => [.text "\"", .gap "name", .text "\" was already declared global"]
  | importResolveFailure => [.text "Import \"", .gap "importName", .text "\" could not be resolved"]
  | importSourceResolveFailure => [.text "Import \"", .gap "importName", .text "\" could not be resolved from source"]
  | nonLocalInModule => [.text "Nonlocal declaration not allowed at module level"]
  | nonLocalNoBinding => [.text "No binding for nonlocal \"", .gap "name", .text "\" found"]
  | nonLocalReassignment => [.text "\"", .gap "name", .text "\" is assigned before nonlocal declaration"]
  | nonLocalRedefinition => [.text "\"", .gap "name", .text "\" was already declared nonlocal"]
  | raiseParams => [.text "\"raise\" requires one or more parameters outside of an except clause"]
  | stubFileMissing => [.text "Stub file not found for \"", .gap "importName", .text "\""]
  | typeAliasNotInModule => [.text "A TypeAlias can be defined only within a module scope"]
  | unsupportedDunderAllOperation =>
    [.text "Operation on \"__all__\" is not supported, so exported symbol list may be incorrect"]
  | wildcardInFunction => [.text "Wildcard import not allowed within a class or function"]
  | yieldFromOutsideAsync => [.text "\"yield from\" not allowed in an async function"]
  | yieldOutsideFunction => [.text "\"yield\" not allowed outside of a function or lambda"]
  | yieldWithinComprehension => [.text "\"yield\" not allowed inside a comprehension"]

def all : List MessageKey :=
  [annotationNotSupported, assignmentExprComprehension, assignmentExprContext, awaitNotInAsync, globalReassignment,
    globalRedefinition, importResolveFailure, importSourceResolveFailure, nonLocalInModule, nonLocalNoBinding,
    nonLocalReassignment, nonLocalRedefinition, raiseParams, stubFileMissing, typeAliasNotInModule,
    unsupportedDunderAllOperation, wildcardInFunction, yieldFromOutsideAsync, yieldOutsideFunction,
    yieldWithinComprehension]

def ofName (name : String) : Except Fault MessageKey :=
  match all.find? (fun k => k.name == name) with
  | some key => .ok key
  | none => .error (.unknownKey (quoted name))

/-- The text of a key, with the gaps of its template filled from a table. -/
def format (key : MessageKey) (values : Table String) : Except Fault String :=
  key.template.foldlM (fun text piece =>
    match piece with
    | .text s => .ok (text ++ s)
    | .gap gap =>
      match values.lookup gap with
      | some value => .ok (text ++ value)
      | none => .error (.unknownKey (quoted gap))) ""

/-- The text of a key, every gap filled with the same name. -/
def about (key : MessageKey) (name : String) : String :=
  key.template.foldl (fun text piece =>
    match piece with
    | .text s => text ++ s
    | .gap _ => text ++ name) ""

end MessageKey

/-- An action that a reader of a diagnostic may take. -/
inductive DiagnosticAction where
  | createTypeStub (moduleName : String)
  deriving DecidableEq, Repr

def DiagnosticAction.name : DiagnosticAction → String
  | createTypeStub _ => "createTypeStub"

/-- A message at a place. Without a rule nothing switches it off. -/
structure Diagnostic where
  key : MessageKey
  text : String
  range : Range
  rule : Option String := none
  actions : List DiagnosticAction := []
  deriving DecidableEq, Repr

/-- Range, text and, if there is one, the rule in brackets. -/
def Diagnostic.print (d : Diagnostic) : String :=
  let rule := match d.rule with
    | some rule => if rule.isEmpty then "" else s!" [{rule}]"
    | none => ""
  s!"{d.range.print}: {d.text}{rule}"

end ScopeFlow
