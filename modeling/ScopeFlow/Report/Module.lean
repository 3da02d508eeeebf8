import ScopeFlow.Json
import ScopeFlow.Tree.Source
import ScopeFlow.Workspace.Bind

/-!
# The report of modules

A report says of each module what binding found out: the scopes with their symbols and declarations, the diagnostics, and
the flow graph by the numbers of its nodes. A module that was never bound is reported as such; one whose binding failed
half-way cannot be reported.
-/

namespace ScopeFlow.Report

/-- A field that is written only if it says something. -/
def ifSaid (name : String) (value : Json) : List (String × Json) := if value.isBlank then [] else [(name, value)]

/-- What is reported of a kind of declaration. -/
def declarationFields (path : String) : DeclarationInfo → List (String × Json)
  | .imported a =>
    [("path", .str path)] ++ (a.symbolName.filter (fun n => !n.isEmpty)).toList.map (fun n => ("symbolName", .str n)) ++
      a.fallback.toList.map (fun f => ("submoduleFallback", .str f.path)) ++
      ifSaid "implicitImports" (.strs (sortedNames a.loads.names)) ++ ifSaid "isUnresolved" (.bool a.isUnresolved)
  | .intrinsic type => [("intrinsicType", .str type)]
  | .function f => [("isMethod", .bool f.isMethod), ("isGenerator", .bool f.isGenerator)]
  | .variableName v =>
    v.hint.toList.map (fun hint => ("typeAnnotation", .str hint.source)) ++ ifSaid "isFinal" (.bool v.isFinal) ++
      ifSaid "isPossibleTypeAlias" (.bool v.aliasName.isSome)
  | _ => []

def declaration (d : Declaration) : Json :=
  .obj ([("type", .str d.type), ("range", .str d.range.print), ("node", .str d.site.describe)] ++
    declarationFields d.path d.info)

def symbol (s : Symbol) : Json :=
  .obj [("id", .int s.id), ("flags", .strs s.flags.names), ("declarations", .arr (s.declarations.map declaration))]

/-- The report of a scope and the node that opens it. -/
def scope (node : Node) (s : Scope) : Json :=
  .obj [("node", .str node.site.describe), ("type", .str s.type.name),
    ("symbols", .obj (s.symbols.map fun (name, s) => (name, symbol s)))]

def diagnostic (d : Diagnostic) : Json :=
  .obj ([("messageKey", .str d.key.name), ("message", .str d.text), ("range", .str d.range.print)] ++
    (d.rule.filter (fun r => !r.isEmpty)).toList.map (fun r => ("rule", .str r)) ++
    ifSaid "actions" (.strs (d.actions.map DiagnosticAction.name)))

/-- What is reported of a flow step beside its flags and antecedents. -/
def stepFields : FlowStep → List (String × Json)
  | .assign _ key _ _ _ => [("reference", .str key)]
  | .condition _ expression _ _ => expression.toList.map fun e => ("expression", .str e.source)
  | .call _ function _ => function.toList.map fun e => ("call", .str e.source)
  | .wildcard _ names _ => [("names", .strs names)]
  | _ => []

/-- The report of the flow node at a place. -/
def flowNode (g : FlowGraph) (ref : FlowRef) : Json :=
  let step := (g.nodeAt ref).step
  .obj ([("flags", .strs (step.flags.map Prod.fst)), ("antecedents", .arr (step.antecedents.map fun a => .int (g.idAt a)))] ++
    stepFields step)

/-- The report of the flow graph: what leads to a stamp, by number. -/
def flowGraph (b : Bound) : Json := .obj (b.flowGraph.map fun ref => (toString (b.graph.idAt ref), flowNode b.graph ref))

/-- The report of the scopes of a module, in the order of the nodes that open them. -/
def scopes (b : Bound) (store : Store) : Json :=
  .arr (b.scopedNodes.filterMap fun (i, number) => do return scope (← b.outline.node? i) (← store.scope? number))

def ofModule (store : Store) (m : ModuleRecord) : Except Fault Json :=
  let header : List (String × Json) := [("module", .str m.name), ("path", Json.given .str m.file)]
  match m.analysis, m.results with
  | none, _ => .ok (.obj (header ++ [("bound", .bool false)]))
  | some _, none => .error .unboundReport
  | some b, some results =>
    .ok (.obj (header ++ [
      ("docString", Json.given .str results.doc),
      ("dunderAll", Json.given .strs results.all),
      ("scopes", scopes b store),
      ("diagnostics", .arr (b.diagnostics.map diagnostic)),
      ("flowGraph", flowGraph b)]))

def ofModules (w : Workspace) (ms : List ModuleRecord) : Except Fault Json := Json.arr <$> ms.mapM (ofModule w.store)

end ScopeFlow.Report
