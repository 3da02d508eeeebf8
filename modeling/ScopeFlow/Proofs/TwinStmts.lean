import ScopeFlow.Proofs.TwinExprs

/-!
# Statements in two runs

A walk over statements takes the same way in both runs (`walkStatements_mirrors`). The layouts come from the laws that all frames
share; what is left to say here is what becomes of names and declarations.
-/

namespace ScopeFlow.Bind

open Store NodeTree

variable {ω ω' : Type} {p : Twins ω ω'} {R : State ω → State ω' → Prop}

theorem Notes.noteYield_mirrors (H : Notes p R) (ctx : Context) (s : Stmt) : Mirrors R (noteYield ctx s) (noteYield ctx s) := by
  unfold noteYield
  split
  · exact .ite (H.adjustFunction_mirrors _ _) (.pure rfl)
  · exact .pure rfl

theorem Notes.noteJump_mirrors (H : Notes p R) (ctx : Context) (f : FunctionInfo → FunctionInfo) :
    Mirrors R (noteJump ctx f) (noteJump ctx f) := by
  unfold noteJump
  split
  · exact H.adjustFunction_mirrors _ _
  · exact .pure rfl

section

variable (H : Mirror p (fun _ => True) R)
include H

theorem annotate_mirrors : Mirrors R annotate annotate := advance_mirrors H fun _ => rfl

theorem declareSpecialForm_mirrors (ctx : Context) (site : Site) (target : Expr) :
    Mirrors R (declareSpecialForm p.left ctx site target) (declareSpecialForm p.right ctx site target) := by
  unfold declareSpecialForm
  split
  · refine .ite (.seq (bindHere_mirrors H ctx _) fun symbol => ?_) (.pure rfl)
    cases symbol with
    | none => exact .pure rfl
    | some ref => exact .seq (H.declare_mirrors ref _) fun _ => .pure rfl
  · exact .pure rfl

theorem visitTargets_mirrors (ctx : Context) (source : Nat) (maybeAlias : Bool) (targets : List Expr) :
    Mirrors R (visitTargets p.left ctx source maybeAlias targets) (visitTargets p.right ctx source maybeAlias targets) := by
  induction targets with
  | nil => exact .pure rfl
  | cons target targets ih =>
    exact .seq (H.inferVariable_mirrors ctx source maybeAlias target) fun _ => .seq (H.expr ctx .target target) fun _ => ih

theorem Mirror.assignTarget (ctx : Context) (unbound : Bool) (target : Expr) :
    Mirrors R (assignTarget ctx unbound target) (assignTarget ctx unbound target) :=
  assignTarget_mirrors H ctx unbound target fun _ _ => trivial

theorem deleteTargets_mirrors (ctx : Context) (targets : List Expr) :
    Mirrors R (deleteTargets p.left ctx targets) (deleteTargets p.right ctx targets) := by
  induction targets with
  | nil => exact .pure rfl
  | cons target targets ih =>
    exact .seq (bindTarget_mirrors H ctx target).discard fun _ => .seq (H.expr ctx .value target) fun _ =>
      .seq (H.assignTarget ctx true target) fun _ => ih

theorem visitAssign_mirrors (ctx : Context) (mark : Mark) (targets : List Expr) (value : Expr) :
    Mirrors R (visitAssign p.left ctx mark targets value) (visitAssign p.right ctx mark targets value) := by
  have hrest : ∀ isForm : Bool, Mirrors R
      (do
        unless isForm do
          discard (bindTargets p.left ctx targets)
          visitExpr p.left ctx .value value
          visitTargets p.left ctx value.index (maybeTypeAlias p.left mark.index value) targets
          followAssign p.left ctx mark targets value)
      (do
        unless isForm do
          discard (bindTargets p.right ctx targets)
          visitExpr p.right ctx .value value
          visitTargets p.right ctx value.index (maybeTypeAlias p.left mark.index value) targets
          followAssign p.right ctx mark targets value) := fun _ =>
    .ite (.pure rfl) <| .seq (bindTargets_mirrors H ctx targets).discard fun _ => .seq (H.expr ctx .value value) fun _ =>
      .seq (visitTargets_mirrors H ctx _ _ targets) fun _ => H.followAssign_mirrors ctx mark targets value
  unfold visitAssign
  split
  · exact .seq (declareSpecialForm_mirrors H ctx _ _) hrest
  · exact hrest false

theorem visitAnnotatedValue_mirrors (ctx : Context) (mark : Mark) (target : Expr) (value : Option Expr) :
    Mirrors R (visitAnnotatedValue p.left ctx mark target value) (visitAnnotatedValue p.right ctx mark target value) := by
  cases value with
  | none => exact .pure rfl
  | some value =>
    exact .seq (H.expr ctx .value value) fun _ => .seq (H.inferVariable_mirrors ctx _ _ target) fun _ =>
      H.assignTarget ctx false target

theorem visitAnnAssign_mirrors (ctx : Context) (mark : Mark) (target hint : Expr) (value : Option Expr) :
    Mirrors R (visitAnnAssign p.left ctx mark target hint value) (visitAnnAssign p.right ctx mark target hint value) := by
  refine .seq (declareSpecialForm_mirrors H ctx _ target) fun _ => .ite (.pure rfl) ?_
  refine .seq (bindTarget_mirrors H ctx target).discard fun _ =>
    .seq (visitAnnotatedValue_mirrors H ctx mark target value) fun _ =>
    .seq (H.expr ctx .value hint) fun _ => .seq (annotate_mirrors H) fun _ =>
      .seq (H.annotateVariable_mirrors ctx target hint) fun _ => ?_
  have htarget := H.expr ctx .value target
  have hlast : ∀ value :
    Expr, Mirrors R (visitExpr p.left ctx .value target >>= fun _ => followAssign p.left ctx mark [target] value)
      (visitExpr p.right ctx .value target >>= fun _ => followAssign p.right ctx mark [target] value) := fun value =>
    .seq htarget fun _ => H.followAssign_mirrors ctx mark [target] value
  cases target.referenceKey with
  | error _ =>
    cases value with
    | none => exact .seq htarget fun _ => .pure rfl
    | some value => exact hlast value
  | ok key =>
    refine .seq (addKey_mirrors H ctx.owner key) fun _ => ?_
    cases value with
    | none => exact .seq htarget fun _ => .pure rfl
    | some value => exact hlast value

theorem visitWithItems_mirrors (ctx : Context) (items : List WithItem) :
    Mirrors R (visitWithItems p.left ctx items) (visitWithItems p.right ctx items) := by
  induction items with
  | nil => exact .pure rfl
  | cons item items ih =>
    refine .seq (H.expr ctx .value item.context) fun _ => ?_
    cases item.target with
    | none => exact ih
    | some target =>
      exact .seq (bindTarget_mirrors H ctx target).discard fun _ => .seq (H.inferVariable_mirrors ctx _ false target) fun _ =>
        .seq (H.expr ctx .target target) fun _ => ih

theorem visitTypeParameters_mirrors (ctx : Context) (ps : List TypeParameter) :
    Mirrors R (visitTypeParameters p.left ctx ps) (visitTypeParameters p.right ctx ps) := by
  induction ps with
  | nil => exact .pure rfl
  | cons q ps ih => exact .seq (H.given ctx q.bound) fun _ => ih

theorem visitFunction_mirrors (ctx : Context) (site : Site) (name : String) (params : Parameters) (decorators : List Expr)
    (returns : Option Expr) (body : List Stmt) :
    Mirrors R (visitFunction p.left ctx site name params decorators returns body)
      (visitFunction p.right ctx site name params decorators returns body) :=
  .seq (bindHere_mirrors H ctx name) fun _ => .seq (H.declareAt_mirrors _ _) fun _ => .seq (H.setDeclaration _ _) fun _ =>
    .seq (H.exprs ctx .value decorators) fun _ => .seq (visitDefaults_mirrors H ctx params fun _ _ => trivial) fun _ =>
      .seq (visitAnnotations_mirrors H ctx _) fun _ => .seq (H.given ctx returns) fun _ =>
        .seq (deferBody_mirrors H ctx _ _) fun inner => .when (H.addIntrinsic_mirrors inner _ _ _) fun _ =>
          assignName_mirrors H ctx (fun _ => trivial) _ _

/-! ## Layouts -/

variable {target body : BindM ω Unit} {target' body' : BindM ω' Unit} {inside : Context → BindM ω Unit}
    {inside' : Context → BindM ω' Unit}

theorem layOutClass_mirrors (ctx : Context) (site : Site) (name : String)
    (hb : ∀ scope, Mirrors R (inside { ctx with scope := scope }) (inside' { ctx with scope := scope })) :
    Mirrors R (layOutClass p.left ctx site name inside) (layOutClass p.right ctx site name inside') :=
  openScope_alike H ctx (.inr rfl) fun scope => .seq (setScope_mirrors H _ scope) fun _ =>
    .seq (hb scope) fun _ => .seq (bindHere_mirrors H ctx name).discard fun _ =>
      assignName_mirrors H ctx (fun _ => trivial) _ _

theorem layOutHandler_mirrors (ctx : Context) (after label : FlowRef) (mark : Mark) (name : Option String)
    (ht : Mirrors R target target') (hb : Mirrors R body body') :
    Mirrors R (layOutHandler p.left ctx after label mark name target body)
      (layOutHandler p.right ctx after label mark name target' body') := by
  have hend : Mirrors R (do linkCurrent after; return !(← isDead) : BindM ω Bool)
    (do linkCurrent after; return !(← isDead) : BindM ω' Bool) :=
    .seq (linkCurrent_mirrors H after) fun _ => .seq (isDead_mirrors H) fun _ => .pure rfl
  refine .seq (finish_mirrors H label) fun _ => .seq ht fun _ => ?_
  dsimp only
  cases name.filter fun n => !n.isEmpty with
  | none => exact .seq hb fun _ => hend
  | some name =>
    exact .seq (introduce_mirrors H ctx _ name) fun _ => .seq hb fun _ =>
      .seq (assignName_mirrors H ctx (fun _ => trivial) _ _) fun _ => hend

theorem visitGuard_mirrors (ctx : Context) (guard : Option Expr) (onTrue onFalse : FlowRef) :
    Mirrors R (visitGuard p.left ctx guard onTrue onFalse) (visitGuard p.right ctx guard onTrue onFalse) := by
  cases guard with
  | none => exact linkCurrent_mirrors H onTrue
  | some guard => exact H.expr ctx _ guard

/-! ## Statements -/

theorem redirect_mirrors (scope : Nat) (name : String) (r : Redirection) :
    Mirrors R (modifyStore fun store => store.adjustScope scope fun sc => (sc.redirect name r).2)
      (modifyStore fun store => store.adjustScope scope fun sc => (sc.redirect name r).2) :=
  .ofModify fun _ _ h => H.redirect h scope name r

theorem visitGlobals_mirrors (ctx : Context) (mark : Mark) (global : Nat) (names : List String) :
    Mirrors R (visitGlobals p.left ctx mark global names) (visitGlobals p.right ctx mark global names) := by
  have hreport := fun key name => H.reportError key mark name
  induction names with
  | nil => exact .pure rfl
  | cons name names ih =>
    refine .read fun s t h => ?_
    dsimp only
    rw [(H.look h).store.redirection?]
    refine Alike.when (hreport _ _) (fun _ => .bind (lookUp_alike H ctx.scope name) fun a b hab => ?_) h
    have hrest := Alike.seq (bindName_mirrors H ctx global name).discard fun _ =>
      Alike.when (c := ctx.scope != global) (redirect_mirrors H ctx.scope name .global) fun _ => ih
    cases hab with
    | none => exact hrest
    | some hab =>
      dsimp only
      rw [hab]
      exact .ite (.seq (hreport _ _) fun _ => hrest) hrest

theorem visitNonlocals_mirrors (ctx : Context) (mark : Mark) (names : List String) :
    Mirrors R (visitNonlocals ctx mark names) (visitNonlocals ctx mark names) := by
  have hreport := fun key name => H.reportError key mark name
  induction names with
  | nil => exact .pure rfl
  | cons name names ih =>
    refine .read fun s t h => ?_
    dsimp only
    rw [(H.look h).store.redirection?]
    refine Alike.when (hreport _ _) (fun _ => .bind (lookUp_alike H ctx.scope name) fun a b hab => ?_) h
    cases hab with
    | none => exact .seq (hreport _ _) fun _ => ih
    | some hab =>
      have hrest := Alike.seq (redirect_mirrors H ctx.scope name .nonlocal) fun _ => ih
      dsimp only
      rw [hab]
      refine .ite (.seq (hreport _ _) fun _ => hrest) (.read fun s t h => ?_)
      rw [(H.look h).store.type?]
      exact Alike.ite (.seq (hreport _ _) fun _ => hrest) hrest h

mutual

theorem visitStmt_mirrors (ctx : Context) (join : Option FlowRef) (s : Stmt) :
    Mirrors R (visitStmt p.left ctx join s) (visitStmt p.right ctx join s) := by
  cases s <;> rw [visitStmt, visitStmt]
  case function m isAsync name params body decorators returns =>
    exact visitFunction_mirrors H ctx _ name params decorators returns body
  case classDef m name bases keywords body decorators =>
    exact .seq (H.exprs ctx .value decorators) fun _ => .seq (bindHere_mirrors H ctx name) fun _ =>
      .seq (H.declareAt_mirrors _ _) fun _ => .seq (H.setDeclaration _ _) fun _ => .seq (H.exprs ctx .value bases) fun _ =>
        .seq (visitKeywords_mirrors H ctx keywords fun _ _ => trivial) fun _ => layOutClass_mirrors H ctx _ name fun _ =>
          walkStatements_mirrors _ body
  case returnValue m value =>
    exact .seq (H.noteJump_mirrors ctx _) fun _ => .seq (H.given ctx value) fun _ => .seq (stamp_mirrors H _) fun _ =>
      H.frames.jump _
  case delete m targets => exact deleteTargets_mirrors H ctx targets
  case assign m targets value => exact visitAssign_mirrors H ctx m targets value
  case augAssign m target op value =>
    exact .seq (H.expr ctx .value target) fun _ => .seq (H.expr ctx .value value) fun _ =>
      .seq (bindTarget_mirrors H ctx target).discard fun _ => .seq (H.inferVariable_mirrors ctx _ false target) fun _ =>
        .seq (H.assignTarget ctx false target) fun _ => H.followAdd_mirrors ctx m target op value
  case annAssign m target hint value => exact visitAnnAssign_mirrors H ctx m target hint value
  case forLoop m isAsync target iterable body orElse =>
    exact .seq (bindTarget_mirrors H ctx target).discard fun _ => .seq (H.inferVariable_mirrors ctx _ false target) fun _ =>
      .seq (H.expr ctx .value iterable) fun _ => H.frames.layOutFor trivial (H.expr ctx .target target)
        (fun _ _ _ _ => walkStatements_mirrors _ body) (walkStatements_mirrors ctx orElse)
  case whileLoop m test body orElse =>
    exact H.frames.layOutWhile trivial trivial (fun _ _ => H.expr ctx _ test) (fun _ _ _ _ => walkStatements_mirrors _ body)
      (walkStatements_mirrors ctx orElse)
  case ifElse m test body orElse =>
    exact H.frames.layOutIf trivial (fun _ _ => H.expr ctx _ test) (walkStatements_mirrors ctx body) fun after =>
      H.frames.layOutElse (linkNever_mirrors H ctx after false test) (walkStatements_mirrors ctx orElse) fun _ =>
        visitElif_mirrors ctx after orElse
  case withBlock m isAsync items body =>
    exact .seq (visitWithItems_mirrors H ctx items) fun _ => H.frames.layOutWith fun _ _ _ _ => walkStatements_mirrors _ body
  case matchOn m subject cases =>
    exact .seq (H.expr ctx .value subject) fun _ => H.frames.layOutMatch fun after => visitCases_mirrors ctx after cases
  case raise m exception cause =>
    exact .seq (H.noteJump_mirrors ctx _) fun _ => .when (H.reportError _ _ _) fun _ => .seq (H.given ctx exception) fun _ =>
      .seq (H.given ctx cause) fun _ => H.frames.jump _
  case tryBlock m isStar body handlers orElse final =>
    exact H.frames.layOutTry (fun _ _ _ _ => walkStatements_mirrors _ body) (fun _ _ _ _ => walkStatements_mirrors _ orElse)
      (fun _ _ _ _ after labels => visitHandlers_mirrors _ after labels handlers) (walkStatements_mirrors ctx final)
  case assertion m test message =>
    refine H.frames.layOutAssert (fun _ _ => H.expr ctx _ test) ?_
    cases message with
    | none => exact .none
    | some message => exact .some (H.expr ctx .value message)
  case importModules m names => exact .forM fun n _ => importModule_mirrors H ctx n
  case importFrom m source names level => exact importFrom_mirrors H ctx _ source names level
  case globals m names =>
    exact .seq (globalScope_mirrors H _) fun _ => visitGlobals_mirrors H ctx m _ names
  case nonlocals m names =>
    exact .seq (globalScope_mirrors H _) fun _ => .ite (H.reportError _ _ _) (visitNonlocals_mirrors H ctx m names)
  case expr m value => exact H.expr ctx .value value
  case pass m => exact .pure rfl
  case breakLoop m => exact H.frames.jump _
  case continueLoop m => exact H.frames.jump _
  case typeAlias m name params value =>
    exact .seq (bindTarget_mirrors H ctx name).discard fun _ => .seq (visitTypeParameters_mirrors H ctx params) fun _ =>
      .seq (H.expr ctx .value value) fun _ => .seq (H.inferVariable_mirrors ctx _ true name) fun _ => H.expr ctx .target name
  case nested m body ignores => exact .throw _

theorem walkStatements_mirrors (ctx : Context) (ss : List Stmt) :
    Mirrors R (walkStatements p.left ctx ss) (walkStatements p.right ctx ss) := by
  match ss with
  | [] =>
    rw [walkStatements, walkStatements]
    exact .pure rfl
  | s :: ss =>
    have hrest := walkStatements_mirrors ctx ss
    rw [walkStatements, walkStatements]
    exact .seq (stamp_mirrors H _) fun _ => .seq (isDead_mirrors H) fun _ =>
      .ite (.seq (H.noteYield_mirrors ctx s) fun _ => hrest) (.seq (visitStmt_mirrors ctx none s) fun _ => hrest)

theorem visitElif_mirrors (ctx : Context) (after : FlowRef) (ss : List Stmt) :
    Mirrors R (visitElif p.left ctx after ss) (visitElif p.right ctx after ss) := by
  match ss with
  | [s] =>
    rw [visitElif, visitElif]
    exact .seq (stamp_mirrors H _) fun _ => visitStmt_mirrors ctx (some after) s
  | [] | _ :: _ :: _ =>
    rw [visitElif, visitElif]
    · exact .pure rfl
    all_goals simp

theorem visitHandlers_mirrors (ctx : Context) (after : FlowRef) (labels : List FlowRef) (hs : List Handler) :
    Mirrors R (visitHandlers p.left ctx after labels hs) (visitHandlers p.right ctx after labels hs) := by
  match hs with
  | [] =>
    rw [visitHandlers, visitHandlers]
    exact .pure rfl
  | .mk m type name body :: hs =>
    rw [visitHandlers, visitHandlers]
    exact .seq (layOutHandler_mirrors H ctx after _ _ name (H.given ctx type) (walkStatements_mirrors ctx body)) fun _ =>
      .seq (visitHandlers_mirrors ctx after labels.tail hs) fun _ => .pure rfl

theorem visitCases_mirrors (ctx : Context) (after : FlowRef) (cs : List MatchCase) :
    Mirrors R (visitCases p.left ctx after cs) (visitCases p.right ctx after cs) := by
  match cs with
  | [] =>
    rw [visitCases, visitCases]
    exact .pure rfl
  | .mk m pattern guard body :: cs =>
    rw [visitCases, visitCases]
    exact .seq (H.frames.layOutCase (visitPattern_mirrors H ctx pattern) (visitGuard_mirrors H ctx guard)
      (walkStatements_mirrors ctx body)) fun _ => visitCases_mirrors ctx after cs

end

end

end ScopeFlow.Bind
