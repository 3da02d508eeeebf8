import ScopeFlow.Proofs.Still
import ScopeFlow.Proofs.StmtLaws

/-!
# What is queued

A walk puts the bodies of the functions and lambdas it meets at the end of the queue and touches the queue in no other way.
It meets each of them once: the nodes of what it queues are, with repetitions counted, nodes of what it walks (`Queues`).
Statements that it walks itself are not among them.
-/

namespace ScopeFlow.Bind

open NodeTree

variable {ω : Type} {α β : Type} {f : BindM ω α} {g : α → BindM ω β} {body : Context → BindM ω Unit} {test : Expr}
  {node : Nat}

/-- The nodes of bodies that wait. -/
def inside (tasks : List Task) : Multiset Node := (tasks.map fun t => t.body.nodes).sum

/-- The numbers of the nodes of bodies that wait, those that they belong to included. -/
def claimed (tasks : List Task) : Multiset Nat :=
  (tasks.map fun t => {t.body.mark.index} + Node.numbers t.body.nodes).sum

theorem inside_cons (t : Task) (ts : List Task) : inside (t :: ts) = t.body.nodes + inside ts := by simp [inside]

theorem claimed_cons (t : Task) (ts : List Task) :
    claimed (t :: ts) = {t.body.mark.index} + Node.numbers t.body.nodes + claimed ts := by simp [claimed]

theorem inside_append (xs ys : List Task) : inside (xs ++ ys) = inside xs + inside ys := by simp [inside]

theorem claimed_append (xs ys : List Task) : claimed (xs ++ ys) = claimed xs + claimed ys := by simp [claimed]

/-! ## Walks that queue -/

/-- A walk that queues bodies whose nodes are among the nodes `within` and leave the nodes `own` free; the numbers of those that
the bodies belong to are, with the numbers of their nodes, among the numbers of `within` as well. -/
def Queues (own within : Multiset Node) (f : BindM ω α) : Prop :=
  ∀ ⦃s x s'⦄, f.run s = .ok x s' →
    ∃ new, s'.queue = s.queue ++ new ∧ claimed new ≤ Node.numbers within ∧ own + inside new ≤ within

namespace Queues

variable {own own' within within' : Multiset Node}

theorem ofStill (h : Still f) (hle : own ≤ within) : Queues own within f :=
  fun _ _ _ hr => ⟨[], by simp [h hr], by simp [claimed], by simpa [inside] using hle⟩

theorem pure (x : α) : Queues 0 0 (Pure.pure x : BindM ω α) := ofStill (.pure x) (le_refl _)

theorem bind (hf : Queues own within f) (hg : ∀ x, Queues own' within' (g x)) :
    Queues (own + own') (within + within') (f >>= g) := by
  intro s y s' h
  obtain ⟨x, t, h1, h2⟩ := bind_ok.1 h
  obtain ⟨new, hq, hc, hi⟩ := hf h1
  obtain ⟨new', hq', hc', hi'⟩ := hg x h2
  refine ⟨new ++ new', by rw [hq', hq, List.append_assoc], ?_, ?_⟩
  · rw [claimed_append, Node.numbers_add]
    exact add_le_add hc hc'
  · rw [inside_append, add_add_add_comm]
    exact add_le_add hi hi'

/-- A step that leaves the queue alone in front of a walk. -/
theorem after (hf : Still f) (hg : ∀ x, Queues own within (g x)) :
    Queues own within (f >>= g) := by
  simpa using bind (ofStill hf (le_refl (0 : Multiset Node))) hg

/-- A step that leaves the queue alone behind a walk. -/
theorem before (hf : Queues own within f) (hg : ∀ x, Still (g x)) :
    Queues own within (f >>= g) := by
  simpa using bind hf fun x => ofStill (hg x) (le_refl (0 : Multiset Node))

theorem mono (hf : Queues own within f) (ho : own' ≤ own) (hw : within ≤ within') :
    Queues own' within' f := by
  intro s x s' h
  obtain ⟨new, hq, hc, hi⟩ := hf h
  exact ⟨new, hq, hc.trans (Node.numbers_le hw), (add_le_add_left ho _).trans (hi.trans hw)⟩

/-- Nodes that a walk leaves alone. -/
theorem withOwn (h : Queues own within f) (more : Multiset Node) : Queues (more + own) (more + within) f := by
  simpa using bind (ofStill (.pure ()) (le_refl more)) fun _ => h

/-- A walk of the parts of a simple statement is a walk of the statement. -/
theorem inStmt (h : Queues 0 within f) {n : Node} {cs : List NodeTree} (hw : within ≤ nodesIn cs) :
    Queues {n} (NodeTree.mk n cs).nodes f := by
  rw [nodes_mk]
  exact (h.withOwn {n}).mono (by simp) (add_le_add (le_refl _) hw)

theorem ite {c : Prop} [Decidable c] {f g : BindM ω α} (hf : Queues own within f) (hg : Queues own within g) :
    Queues own within (if c then f else g) := by
  split
  · exact hf
  · exact hg

end Queues

/-- A body that is queued claims its nodes and the one it belongs to. -/
theorem deferBody_queues (ctx : Context) {n : Node} {body : Body} (hm : body.mark = n.mark) :
    Queues {n} ({n} + body.nodes) (deferBody ctx n.mark body : BindM ω Context) := by
  refine .after (.ofQuiet (nonClassScope_quiet _)) fun _ => .after (.ofQuiet (newScope_quiet _ _)) fun scope => ?_
  refine .after (still.modifyFacts _ _) fun _ => .before ?_ fun _ => .bind (.ofQuiet (showKeys_quiet _)) fun _ => .pure _
  intro s x s' h
  rw [modify_ok] at h
  subst h
  refine ⟨[⟨scope, body⟩], rfl, ?_, by simp [inside]⟩
  rw [Node.numbers_add, Node.numbers_singleton]
  simp [claimed, hm]

/-- Queueing goes over to the walk of expressions, whatever the labels: only a body that is put aside is queued. -/
theorem queues_lays (u : Setup ω) :
    Lays u fun own within _ _ (α : Type) (f : BindM ω α) => Queues own within f where
  assigns _ ctx :=
    { ofQuiet := fun h => .ofStill (.ofQuiet h) (le_refl _)
      bind := fun hf hg => by simpa using Queues.bind hf hg
      takeOver := fun _ _ => .ofStill (still.takeOver _ _) (le_refl _)
      assign := fun _ _ _ _ _ _ => .ofStill (still.assign ctx _ _ _ _ _ _) (le_refl _)
      importAll := fun _ _ => .ofStill (still.importAll ctx _ _) (le_refl _) }
  bind := .bind
  mono := .mono
  frame V h := .withOwn h V
  ofModify h := .ofStill (.ofModify fun s => (h s).2.2.2.1) (le_refl _)
  rescope _ h := h
  setScope _ _ := .ofStill (still.modifyFacts _ _) (le_refl _)
  stamp _ := .ofStill (still.stamp _) (le_refl _)
  deferBody outer _ _ hm := deferBody_queues outer hm
  call _ _ := .ofStill (still.call _ _ _) (le_refl _)
  annotate := @fun _ _ => .ofStill (still.advance _) (le_refl _)
  linkCurrent _ := .ofStill (still.linkCurrent _) (le_refl _)
  linkTest _ _ _ := .ofStill (still.linkTest _ _ _ _ _) (le_refl _)
  joined h := .after still.newBranch fun l => .before (h l) fun _ => still.finish _
  choice {_ _ _ T _ _ _ _} ht hb he := by
    refine .after still.newBranch fun onTrue => .after still.newBranch fun onFalse => .after still.newBranch fun after => ?_
    exact Queues.mono (.bind (ht (fun _ => True) _ _ (fun _ _ => trivial) trivial trivial) fun _ =>
      .after (still.finish _) fun _ =>
      .bind (hb T fun _ => id) fun _ => .after (still.linkCurrent _) fun _ => .after (still.finish _) fun _ =>
        .before (he T fun _ => id) fun _ => .bind (still.linkCurrent _) fun _ => still.finish _) (by simp) (le_refl _)

/-- Walking an expression queues bodies of the expression, each once. -/
theorem visitExpr_queues (u : Setup ω) (hu : u.Steady) (ctx : Context) (role : Role) (e : Expr) :
    Queues 0 e.tree.nodes (visitExpr u ctx role e) := by
  refine visitExpr_law (T := fun _ => True) (queues_lays u) hu e role ?_
  cases role with
  | test => exact ⟨trivial, trivial⟩
  | value => trivial
  | target => trivial

theorem visitExprs_queues (u : Setup ω) (hu : u.Steady) (ctx : Context) (es : List Expr) :
    Queues 0 (nodesIn (Expr.trees es)) (visitExprs u ctx .value es) :=
  visitExprs_law (T := fun _ => True) (queues_lays u) hu es .value rfl

theorem visitGiven_queues (u : Setup ω) (hu : u.Steady) (ctx : Context) (e : Option Expr) :
    Queues 0 (nodesIn (Expr.givenTree e)) (visitGiven u ctx e) :=
  visitGiven_law (T := fun _ => True) (queues_lays u) hu e

/-! ## Compound statements -/

section Layouts

variable {u : Setup ω} {ctx : Context} {own₁ own₂ own₃ own₄ within₀ within₁ within₂ within₃ within₄ : Multiset Node}

theorem layOutClass_queues {site : Site} {name : String}
    (h : ∀ inner, Queues own₁ within₁ (body inner)) : Queues own₁ within₁ (layOutClass u ctx site name body) :=
  .after (.ofQuiet (nonClassScope_quiet _)) fun _ => .after (.ofQuiet (newScope_quiet _ _)) fun _ =>
    .after (still.modifyFacts _ _) fun _ => .before (h _) fun _ => .bind (.discard (bindHere_law still_binds _)) fun _ =>
      assignName_law (still_assigns _) (assignable_true _) _ _ _

theorem layOutFor_queues {target orElse : BindM ω Unit}
    (ht : Queues 0 within₀ target) (hb : ∀ inner, Queues own₁ within₁ (body inner)) (he : Queues own₂ within₂ orElse) :
    Queues (own₁ + own₂) (within₀ + (within₁ + within₂)) (layOutFor ctx node target body orElse) := by
  refine .after (still.newNode _) fun before => .after still.newBranch fun exhausted => .after still.newBranch fun after => ?_
  refine .after (still.linkCurrent _) fun _ => .after (still.setCurrent _) fun _ => .after (still.linkCurrent _) fun _ => ?_
  refine Queues.mono (.bind ht fun _ => .bind (hb _) fun _ => .after (still.linkCurrent _) fun _ =>
    .after (still.finish _) fun _ => .before he fun _ => ?_) (by rw [zero_add]) (le_refl _)
  exact .bind (still.linkCurrent _) fun _ => .bind (still.finish _) fun _ => still.stampAfter _

theorem layOutWhile_queues {walkTest : FlowRef → FlowRef → BindM ω Unit} {orElse : BindM ω Unit}
    (ht : ∀ onTrue onFalse, Queues 0 within₀ (walkTest onTrue onFalse))
    (hb : ∀ inner, Queues own₁ within₁ (body inner)) (he : Queues own₂ within₂ orElse) :
    Queues (own₁ + own₂) (within₀ + (within₁ + within₂)) (layOutWhile u ctx node test walkTest body orElse) := by
  refine .after still.newBranch fun onTrue => .after still.newBranch fun onFalse => .after still.newBranch fun after => ?_
  refine .after (.ofQuiet (staticValue_quiet _ _)) fun value => .after (still.newNode _) fun before => ?_
  refine .after (still.linkCurrent _) fun _ => .after (still.setCurrent _) fun _ => ?_
  refine Queues.mono (.bind (ht _ _) fun _ => .after (still.enterBranch _ _ _) fun _ => .bind (hb _) fun _ =>
    .after (still.linkCurrent _) fun _ => .after (still.enterBranch _ _ _) fun _ => .before he fun _ => ?_)
      (by rw [zero_add]) (le_refl _)
  exact .bind (still.linkCurrent _) fun _ => .bind (still.finish _) fun _ => still.stampAfter _

theorem layOutIf_queues {join : Option FlowRef} {walkTest : FlowRef → FlowRef → BindM ω Unit}
    {body : BindM ω Unit} {orElse : FlowRef → BindM ω Unit}
    (ht : ∀ onTrue onFalse, Queues 0 within₀ (walkTest onTrue onFalse)) (hb : Queues own₁ within₁ body)
    (he : ∀ after, Queues own₂ within₂ (orElse after)) :
    Queues (own₁ + own₂) (within₀ + (within₁ + within₂)) (layOutIf u join test walkTest body orElse) := by
  have hjoin : Still (joinOf join : BindM ω FlowRef) := by
    cases join with
    | none => exact still.newBranch
    | some label => exact .pure _
  refine .after hjoin fun after => .after still.newBranch fun onTrue => .after still.newBranch fun onFalse => ?_
  refine .after (.ofQuiet (staticValue_quiet _ _)) fun value => ?_
  exact Queues.mono (.bind (ht _ _) fun _ => .after (still.enterBranch _ _ _) fun _ => .bind hb fun _ =>
    .after (still.linkCurrent _) fun _ => .after (still.enterBranch _ _ _) fun _ => .before (he _) fun _ =>
      .ite (still.finish _) (.pure _)) (by rw [zero_add]) (le_refl _)

theorem layOutElse_queues {after : FlowRef} {orElse : List Stmt} {walk next : BindM ω Unit}
    (hwalk : Queues own₁ within₁ walk) (hnext : Queues own₁ within₁ next) (hle : own₁ ≤ within₁) :
    Queues own₁ within₁ (layOutElse u ctx after test orElse walk next) := by
  refine .after (.ofQuiet .isDead) fun _ => .ite hnext ?_
  exact .ite (.before (.ofStill (still.linkNever _ _ _ _ _) hle) fun _ => still.linkCurrent _)
    (.before hwalk fun _ => still.linkCurrent _)

theorem layOutWith_queues {managers : List Nat} {isAsync : Bool}
    (h : ∀ inner, Queues own₁ within₁ (body inner)) : Queues own₁ within₁ (layOutWith ctx managers isAsync body) :=
  .after (still.newNode _) fun _ => .after (still.linkCurrent _) fun _ => .after still.newBranch fun _ =>
    .after (still.link _ _) fun _ => .before (h _) fun _ => .bind (still.linkCurrent _) fun _ => still.finish _

theorem layOutMatch_queues {cases : FlowRef → BindM ω Unit} (h : ∀ after, Queues own₁ within₁ (cases after)) :
    Queues own₁ within₁ (layOutMatch cases) :=
  .after still.newBranch fun _ => .before (h _) fun _ => .bind (still.linkCurrent _) fun _ => still.finish _

theorem layOutCase_queues {after : FlowRef} {pattern : Pattern} {walkPattern body : BindM ω Unit}
    {guard : FlowRef → FlowRef → BindM ω Unit} (hp : Queues 0 within₀ walkPattern)
    (hg : ∀ onTrue onFalse, Queues 0 within₁ (guard onTrue onFalse)) (hb : Queues own₂ within₂ body) :
    Queues own₂ (within₀ + (within₁ + within₂)) (layOutCase after pattern walkPattern guard body) := by
  refine .after still.newBranch fun next => .after still.newBranch fun beforeGuard => .after still.newBranch fun beforeSuite => ?_
  have hrest : Queues own₂ (within₀ + (within₁ + within₂)) (do
      finish beforeGuard; walkPattern; guard beforeSuite next; finish beforeSuite; body; linkCurrent after
      finish next : BindM ω Unit) :=
    .after (still.finish _) fun _ => Queues.mono (.bind hp fun _ => .bind (hg _ _) fun _ => .after (still.finish _) fun _ =>
      .before hb fun _ => .bind (still.linkCurrent _) fun _ => still.finish _) (by simp) (le_refl _)
  exact .after (still.linkCurrent _) fun _ => .ite hrest (.after (still.linkCurrent _) fun _ => hrest)

theorem layOutHandler_queues {after label : FlowRef} {mark : Mark} {name : Option String} {type body : BindM ω Unit}
    (ht : Queues 0 within₀ type) (hb : Queues own₁ within₁ body) :
    Queues own₁ (within₀ + within₁) (layOutHandler u ctx after label mark name type body) := by
  have hend : Still (do linkCurrent after; return !(← isDead) : BindM ω Bool) :=
    .bind (still.linkCurrent _) fun _ => .bind (.ofQuiet .isDead) fun _ => .pure _
  refine .after (still.finish _) fun _ => ?_
  dsimp only
  cases name.filter (fun n => !n.isEmpty) with
  | none => exact Queues.mono (.bind ht fun _ => .before hb fun _ => hend) (by simp) (le_refl _)
  | some n =>
    exact Queues.mono (.bind ht fun _ => .after (introduce_law (still_assigns _) (assignable_true _) _) fun _ =>
      .before hb fun _ => .bind (assignName_law (still_assigns _) (assignable_true _) _ _ _) fun _ => hend) (by simp) (le_refl _)

theorem layOutAssert_queues {test : FlowRef → FlowRef → BindM ω Unit} {message : Option (BindM ω Unit)}
    (ht : ∀ onTrue onFalse, Queues 0 within₀ (test onTrue onFalse)) (hm : ∀ m ∈ message, Queues 0 within₁ m) :
    Queues 0 (within₀ + within₁) (layOutAssert test message) := by
  refine .after still.newBranch fun onTrue => .after still.newBranch fun onFalse => ?_
  cases message with
  | none => exact (Queues.before (ht _ _) fun _ => still.finish _).mono (le_refl _) (Multiset.le_add_right _ _)
  | some m =>
    exact Queues.mono (.bind (ht _ _) fun _ => .after (still.finish _) fun _ => .before (hm m rfl) fun _ => still.finish _)
      (by simp) (le_refl _)

theorem layOutTry_queues {handlers : List Handler} {hasFinally : Bool} {body orElse : Context → BindM ω Unit}
    {walkHandlers : Context → FlowRef → List FlowRef → BindM ω Bool} {final : BindM ω Unit}
    (hb : ∀ inner, Queues own₁ within₁ (body inner)) (he : ∀ inner, Queues own₂ within₂ (orElse inner))
    (hh : ∀ inner after labels, Queues own₃ within₃ (walkHandlers inner after labels)) (hf : Queues own₄ within₄ final)
    (hle : own₄ ≤ within₄) :
    Queues (own₁ + (own₂ + (own₃ + own₄))) (within₁ + (within₂ + (within₃ + within₄)))
      (layOutTry ctx node handlers hasFinally body orElse walkHandlers final) := by
  have hgate : ∀ beforeFinally abrupt, Still (newGate hasFinally beforeFinally abrupt : BindM ω FlowRef) :=
    fun _ _ => .ite (.bind (still.newNode _) fun _ => .bind (still.link _ _) fun _ => .pure _) (.pure _)
  have hfinally : ∀ gate ends, Queues own₄ within₄ (layOutFinally node gate ends final) :=
    fun gate ends => .before hf fun _ => .bind (.ofQuiet .current) fun _ => .bind (still.newNode _) fun _ =>
      .ite (still.setCurrent _) (still.setCurrent _)
  refine .after (still.newBranches _) fun labels => .after still.newBranch fun beforeFinally => ?_
  refine .after still.newBranch fun abrupt => .after (hgate _ _) fun gate => .after (still.linkCurrentAll _) fun _ => ?_
  refine .bind (hb _) fun _ => .bind (he _) fun _ => .after (still.linkCurrent _) fun _ => ?_
  refine .after (.ofQuiet .isDead) fun _ => .bind (hh _ _ _) fun _ => .after (still.finish _) fun _ => ?_
  exact .ite (hfinally _ _) (.ofStill (.pure _) hle)

end Layouts

section

variable (u : Setup ω) (hu : u.Steady)
include u hu

mutual

theorem visitStmt_queues (ctx : Context) (join : Option FlowRef) (s : Stmt) :
    Queues (own s) s.tree.nodes (visitStmt u ctx join s) := by
  match s with
  | .classDef m name bases keywords body decorators =>
    rw [visitStmt]
    refine Queues.mono (.bind (visitExprs_queues u hu ctx decorators) fun _ => .after (bindHere_law still_binds _) fun _ =>
      .after (.ofQuiet (declareAt_quiet _ _)) fun _ => .after (.ofQuiet (setDeclaration_quiet _ _)) fun _ =>
      .bind (visitExprs_queues u hu ctx bases) fun _ =>
      .bind (visitKeywords_law (T := fun _ => True) (queues_lays u) hu keywords) fun _ =>
        (layOutClass_queues fun inner => walkStatements_queues inner body).withOwn
          {.stmt (.classDef m name bases keywords body decorators)}) (by simp [own])
          (le_of_eq ?_)
    simp only [Stmt.tree, nodes_mk, nodesIn_append]
    abel
  | .returnValue m value =>
    rw [visitStmt]
    exact .inStmt (.after (.ofQuiet (noteJump_quiet _ _)) fun _ => .before (visitGiven_queues u hu ctx value) fun _ =>
      .bind (still.stamp _) fun _ => still.jump _) (le_refl _)
  | .forLoop m isAsync target iterable body orElse =>
    rw [visitStmt]
    refine Queues.mono (.after (.discard (bindTarget_law still_binds _)) fun _ =>
      .after (.ofQuiet (inferVariable_quiet _ _ _ _ _)) fun _ =>
      .bind (visitExpr_queues u hu ctx .value iterable) fun _ => (layOutFor_queues (visitExpr_queues u hu ctx .target target)
        (fun inner => walkStatements_queues inner body) (walkStatements_queues ctx orElse)).withOwn
          {.stmt (.forLoop m isAsync target iterable body orElse)})
          (by simp [own]) (le_of_eq ?_)
    simp only [Stmt.tree, nodes_mk, nodesIn_cons, nodesIn_append]
    abel
  | .whileLoop m test body orElse =>
    rw [visitStmt]
    refine Queues.mono ((layOutWhile_queues (fun _ _ => visitExpr_queues u hu ctx _ test)
      (fun inner => walkStatements_queues inner body) (walkStatements_queues ctx orElse)).withOwn
        {.stmt (.whileLoop m test body orElse)})
        (by simp [own]) (le_of_eq ?_)
    simp only [Stmt.tree, nodes_mk, nodesIn_cons, nodesIn_append]
  | .ifElse m test body orElse =>
    rw [visitStmt]
    refine Queues.mono ((layOutIf_queues (fun _ _ => visitExpr_queues u hu ctx _ test) (walkStatements_queues ctx body)
      fun after => layOutElse_queues (walkStatements_queues ctx orElse) (visitElif_queues ctx after orElse)
        (owns_le orElse)).withOwn {.stmt (.ifElse m test body orElse)}) (by simp [own]) (le_of_eq ?_)
    simp only [Stmt.tree, nodes_mk, nodesIn_cons, nodesIn_append]
  | .withBlock m isAsync items body =>
    rw [visitStmt]
    refine Queues.mono
      (.bind (visitWithItems_law (T := fun _ => True) ((queues_lays u).sweeps hu) items fun _ _ => trivial) fun _ =>
      (layOutWith_queues fun inner => walkStatements_queues inner body).withOwn
        {.stmt (.withBlock m isAsync items body)}) (by simp [own]) (le_of_eq ?_)
    simp only [Stmt.tree, nodes_mk, nodesIn_append]
    abel
  | .matchOn m subject cases =>
    rw [visitStmt]
    refine Queues.mono (.bind (visitExpr_queues u hu ctx .value subject) fun _ =>
      (layOutMatch_queues fun after => visitCases_queues ctx after cases).withOwn {.stmt (.matchOn m subject cases)})
        (by simp [own]) (le_of_eq ?_)
    simp only [Stmt.tree, nodes_mk, nodesIn_cons]
    abel
  | .raise m exception cause =>
    rw [visitStmt]
    have hrest : Queues 0 (nodesIn (Expr.givenTree exception ++ Expr.givenTree cause)) (do
        visitGiven u ctx exception
        visitGiven u ctx cause
        jump ctx.finallyTargets) :=
      Queues.mono (.bind (visitGiven_queues u hu ctx exception) fun _ => .before (visitGiven_queues u hu ctx cause) fun _ =>
        still.jump _) (Multiset.zero_le _) (by simp)
    exact .inStmt (.after (.ofQuiet (noteJump_quiet _ _)) fun _ =>
      .ite (.after (.ofQuiet (reportError_quiet _ _ _)) fun _ => hrest) hrest) (le_refl _)
  | .tryBlock m isGroup body handlers orElse final =>
    rw [visitStmt]
    refine Queues.mono ((layOutTry_queues (fun inner => walkStatements_queues inner body)
      (fun inner => walkStatements_queues inner orElse)
      (fun inner after labels => visitHandlers_queues inner after labels handlers)
      (walkStatements_queues ctx final) (owns_le final)).withOwn
        {.stmt (.tryBlock m isGroup body handlers orElse final)}) (le_of_eq ?_) (le_of_eq ?_)
    · simp only [own]
      abel
    · simp only [Stmt.tree, nodes_mk, nodesIn_append]
      abel
  | .assertion m test message =>
    rw [visitStmt]
    have hmessage : ∀ f ∈ message.map fun message => visitExpr u ctx .value message,
        Queues 0 (nodesIn (Expr.givenTree message)) f := by
      intro f hf
      cases message with
      | none => cases hf
      | some message =>
        obtain rfl : visitExpr u ctx .value message = f := by simpa using hf
        exact (visitExpr_queues u hu ctx .value message).mono (le_refl _) (by simp [Expr.givenTree])
    exact .inStmt (layOutAssert_queues (fun _ _ => visitExpr_queues u hu ctx _ test) hmessage) (by simp)
  | .importModules m names =>
    rw [visitStmt]
    exact .inStmt (importModules_law (T := fun _ => True) (queues_lays u) names) (Multiset.zero_le _)
  | .breakLoop m | .continueLoop m =>
    rw [visitStmt]
    exact .inStmt (.ofStill (still.jump _) (le_refl 0)) (Multiset.zero_le _)
  | .nested m body ignores =>
    rw [visitStmt]
    exact .ofStill (.ofQuiet (.throw _)) (own_le _)
  | .function .. | .delete .. | .assign .. | .augAssign .. | .annAssign .. | .importFrom ..
  | .globals .. | .nonlocals .. | .expr ..
  | .pass .. | .typeAlias .. =>
    exact visitStmt_plain_law (T := fun _ => True) (queues_lays u) hu join rfl

/-- Walking statements queues bodies of them, each once, and none of the statements themselves. -/
theorem walkStatements_queues (ctx : Context) (ss : List Stmt) :
    Queues (owns ss) (nodesIn (Stmt.trees ss)) (walkStatements u ctx ss) := by
  match ss with
  | [] =>
    rw [walkStatements]
    exact .pure _
  | s :: ss =>
    have hss := walkStatements_queues ctx ss
    rw [walkStatements]
    simp only [owns, Stmt.trees, nodesIn_cons]
    refine .after (still.stamp _) fun _ => .after (.ofQuiet .isDead) fun _ => .ite ?_ ?_
    · exact .bind (.ofStill (.ofQuiet (noteYield_quiet _ _)) (own_le s)) fun _ => hss
    · exact .bind (visitStmt_queues ctx none s) fun _ => hss

theorem visitElif_queues (ctx : Context) (after : FlowRef) (ss : List Stmt) :
    Queues (owns ss) (nodesIn (Stmt.trees ss)) (visitElif u ctx after ss) := by
  match ss with
  | [] =>
    rw [visitElif]
    · exact .pure _
    · nofun
  | [s] =>
    rw [visitElif]
    simpa [owns, Stmt.trees] using Queues.after (still.stamp _) fun _ => visitStmt_queues ctx (some after) s
  | s :: s' :: ss =>
    rw [visitElif]
    · exact .ofStill (.pure _) (owns_le _)
    · nofun

theorem visitHandlers_queues (ctx : Context) (after : FlowRef) (labels : List FlowRef)
    (hs : List Handler) :
    Queues (ownsHandlers hs) (nodesIn (Handler.trees hs)) (visitHandlers u ctx after labels hs) := by
  match hs with
  | [] =>
    rw [visitHandlers]
    exact .pure _
  | .mk m type name body :: hs =>
    rw [visitHandlers]
    refine Queues.mono (.bind (layOutHandler_queues (visitGiven_queues u hu ctx type) (walkStatements_queues ctx body))
      fun _ => .before (visitHandlers_queues ctx after labels.tail hs) fun _ => .pure _) (le_refl _) ?_
    simp only [Handler.trees, nodesIn_cons, nodes_mk, nodesIn_append]
    exact add_le_add (Multiset.le_add_left _ _) (le_refl _)

theorem visitCases_queues (ctx : Context) (after : FlowRef) (cs : List MatchCase) :
    Queues (ownsCases cs) (nodesIn (MatchCase.trees cs)) (visitCases u ctx after cs) := by
  match cs with
  | [] =>
    rw [visitCases]
    exact .pure _
  | .mk m pattern guard body :: cs =>
    rw [visitCases]
    refine Queues.mono (.bind (layOutCase_queues (visitPattern_law (T := fun _ => True) (queues_lays u) hu pattern)
      (fun _ _ => visitGuard_law (T := fun _ => True) (queues_lays u) hu guard trivial trivial)
      (walkStatements_queues ctx body)) fun _ => visitCases_queues ctx after cs) (le_refl _) ?_
    simp only [MatchCase.trees, nodesIn_cons, nodes_mk, nodesIn_append]
    exact add_le_add (Multiset.le_add_left _ _) (le_refl _)

end

end

end ScopeFlow.Bind
