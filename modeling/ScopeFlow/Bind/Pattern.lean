import ScopeFlow.Bind.Expr

/-!
# Binding patterns

A pattern binds its captures in the order in which it is matched. Alternatives join behind the pattern.
-/

namespace ScopeFlow.Bind

variable {ω : Type}

/-- Binds, assigns and declares a name that a node introduces by itself. -/
def introduce (u : Setup ω) (ctx : Context) (site : Site) (name : String) : BindM ω Unit := do
  let symbol ← bindHere u ctx name
  assignName ctx site.index name
  match symbol with
  | some ref =>
    declare ref (declarationIn u site site.mark.range
      (.variableName { isConstant := isConstantName name, source := some site.index }))
  | none => return

def capture (u : Setup ω) (ctx : Context) (site : Site) (name : Option String) : BindM ω Unit :=
  match name with
  | some name => if name.isEmpty then return else introduce u ctx site name
  | none => return

mutual

def visitPattern (u : Setup ω) (ctx : Context) (p : Pattern) : BindM ω Unit :=
  match p with
  | .value _ e => visitExpr u ctx .value e
  | .singleton .. => return
  | .sequence _ ps => visitPatterns u ctx ps
  | .mapping _ keys ps rest => do
    visitExprs u ctx .value keys
    visitPatterns u ctx ps
    unless rest == some "_" do capture u ctx p.site rest
  | .classOf _ cls ps _ attributePatterns => do
    visitExpr u ctx .value cls
    visitPatterns u ctx ps
    visitPatterns u ctx attributePatterns
  | .star _ name => capture u ctx p.site name
  | .capture _ none name => capture u ctx p.site name
  | .capture _ (some inner) name => do
    visitPattern u ctx inner
    capture u ctx p.site name
  | .alternatives _ ps => do
    let after ← newBranch
    visitAlternatives u ctx after ps
    finish after

def visitPatterns (u : Setup ω) (ctx : Context) (ps : List Pattern) : BindM ω Unit :=
  match ps with
  | [] => return
  | p :: ps => do
    visitPattern u ctx p
    visitPatterns u ctx ps

/-- Walks alternatives, each of which leads to the label behind them. -/
def visitAlternatives (u : Setup ω) (ctx : Context) (after : FlowRef) (ps : List Pattern) : BindM ω Unit :=
  match ps with
  | [] => return
  | p :: ps => do
    visitPattern u ctx p
    linkCurrent after
    visitAlternatives u ctx after ps

end

end ScopeFlow.Bind
