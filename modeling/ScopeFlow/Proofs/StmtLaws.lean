import ScopeFlow.Proofs.ExprLaws

/-!
# Properties of the walk of simple statements

A property that goes over to the walk of expressions goes over to the walk of patterns and of the statements without suites
that lead on to the next statement (`visitStmt_plain_law`).
-/

namespace ScopeFlow.Bind

open FlowGraph NodeTree

variable {ω : Type} {u : Setup ω} {K : Node → Prop} {ctx : Context} {T : FlowRef → Prop}
  {Φ : Multiset Node → Multiset Node → (FlowRef → Prop) → Context → (α : Type) → BindM ω α → Prop}

/-! ## Patterns -/

section

variable (H : Lays u Φ) (hu : u.Steady)
include H hu

mutual

theorem visitPattern_law {T : FlowRef → Prop} (p : Pattern) :
    Φ 0 p.tree.nodes T ctx _ (visitPattern u ctx p) := by
  match p with
  | .value m e =>
    rw [visitPattern]
    exact H.inTree (visitExpr_law H hu e .value trivial) (by simp)
  | .singleton m literal =>
    rw [visitPattern]
    exact H.pure _
  | .sequence m ps =>
    rw [visitPattern]
    exact H.inTree (visitPatterns_law ps) (le_refl _)
  | .mapping m keys ps rest =>
    rw [visitPattern]
    exact H.inTree (H.both (visitExprs_law H hu keys .value rfl) fun _ => H.before (visitPatterns_law ps) fun _ =>
      H.ite (H.pure _) (capture_law (H.assigns _ _) (assignable_true _) _)) (by simp)
  | .classOf m cls ps attributes attributePatterns =>
    rw [visitPattern]
    exact H.inTree (H.both (visitExpr_law H hu cls .value trivial) fun _ =>
      H.both (visitPatterns_law ps) fun _ => visitPatterns_law attributePatterns) (by simp)
  | .star m name | .capture m none name =>
    rw [visitPattern]
    exact H.none (capture_law (H.assigns _ _) (assignable_true _) _)
  | .capture m (some inner) name =>
    rw [visitPattern]
    exact H.inTree (H.before (visitPattern_law inner) fun _ => capture_law (H.assigns _ _) (assignable_true _) _) (by simp)
  | .alternatives m ps =>
    rw [visitPattern]
    exact H.inTree (H.joined fun l => visitAlternatives_law l ps (mem_also (by simp))) (le_refl _)

theorem visitPatterns_law {T : FlowRef → Prop} (ps : List Pattern) :
    Φ 0 (nodesIn (Pattern.trees ps)) T ctx _ (visitPatterns u ctx ps) := by
  match ps with
  | [] =>
    rw [visitPatterns]
    exact H.pure _
  | p :: ps =>
    rw [visitPatterns]
    exact H.among (H.both (visitPattern_law p) fun _ => visitPatterns_law ps) (by simp [Pattern.trees])

theorem visitAlternatives_law {T : FlowRef → Prop} (after : FlowRef) (ps : List Pattern)
    (ha : T after) :
    Φ 0 (nodesIn (Pattern.trees ps)) T ctx _ (visitAlternatives u ctx after ps) := by
  match ps with
  | [] =>
    rw [visitAlternatives]
    exact H.pure _
  | p :: ps =>
    rw [visitAlternatives]
    exact H.among (H.both (visitPattern_law p) fun _ => H.after (H.linkCurrent ha) fun _ =>
      visitAlternatives_law after ps ha) (by simp [Pattern.trees])

end

end

/-- A property of measured steps that the walk of an expression has, in the role of a value or of a target. -/
structure Sweeps (u : Setup ω) (K : Node → Prop)
    (Φ : Multiset Node → Multiset Node → (FlowRef → Prop) → Context → (α : Type) → BindM ω α → Prop) :
      Prop extends Measured K Φ where
  expr : ∀ {T ctx} (e : Expr), e.tree.All K → ∀ role, role.isTest = false → Φ 0 e.tree.nodes T ctx Unit (visitExpr u ctx role e)

theorem Lays.sweeps (H : Lays u Φ) (hu : u.Steady) : Sweeps u (fun _ => True) Φ where
  toMeasured := H.toMeasured
  expr e _ role hr := visitExpr_law H hu e role (by
    cases role with
    | test => cases hr
    | value | target => trivial)

section

variable (H : Sweeps u K Φ)
include H

theorem Sweeps.given (e : Option Expr) (h : AllIn K (Expr.givenTree e)) :
    Φ 0 (nodesIn (Expr.givenTree e)) T ctx _ (visitGiven u ctx e) := by
  cases e with
  | none =>
    rw [visitGiven]
    exact H.pure _
  | some e =>
    rw [visitGiven]
    exact H.among (H.expr e (allIn_cons.1 h).1 .value rfl) (by simp [Expr.givenTree])

/-! ## Parts of statements -/

theorem visitTargets_law (source : Nat) (maybeAlias : Bool) (targets : List Expr) (h : AllIn K (Expr.trees targets)) :
    Φ 0 (nodesIn (Expr.trees targets)) T ctx _ (visitTargets u ctx source maybeAlias targets) := by
  induction targets with
  | nil => exact H.pure _
  | cons target targets ih =>
    simp only [Expr.trees, allIn_cons] at h
    exact H.among (H.after (H.ofQuiet (inferVariable_quiet _ _ _ _ _)) fun _ =>
      H.both (H.expr target h.1 .target rfl) fun _ => ih h.2) (by simp [Expr.trees])

theorem deleteTargets_law (targets : List Expr) (h : AllIn K (Expr.trees targets)) :
    Φ 0 (nodesIn (Expr.trees targets)) T ctx _ (deleteTargets u ctx targets) := by
  induction targets with
  | nil => exact H.pure _
  | cons target targets ih =>
    simp only [Expr.trees, allIn_cons] at h
    exact H.among (H.after (H.discard (bindTarget_law (H.assigns _ _).toBinds _)) fun _ =>
      H.both (H.expr target h.1 .value rfl) fun _ =>
        H.after (assignTarget_law (H.assigns _ _) _ target h.1) fun _ => ih h.2) (by simp [Expr.trees])

theorem visitAssign_law (mark : Mark) (targets : List Expr) (value : Expr)
    (h : AllIn K (Expr.trees targets ++ [value.tree])) :
    Φ 0 (nodesIn (Expr.trees targets ++ [value.tree])) T ctx _ (visitAssign u ctx mark targets value) := by
  simp only [allIn_append, allIn_cons] at h
  have hrest : Φ 0 (nodesIn (Expr.trees targets ++ [value.tree])) T ctx _ (do
      discard (bindTargets u ctx targets)
      visitExpr u ctx .value value
      visitTargets u ctx value.index (maybeTypeAlias u mark.index value) targets
      followAssign u ctx mark targets value) :=
    H.among (H.after (H.discard (bindTargets_law (H.assigns _ _).toBinds _)) fun _ =>
      H.both (H.expr value h.2.1 .value rfl) fun _ =>
        H.before (visitTargets_law H _ _ targets h.1) fun _ => H.ofQuiet (followAssign_quiet _ _ _ _ _)) (by simp [add_comm])
  unfold visitAssign
  split
  · exact H.after (declareSpecialForm_law (H.assigns _ _) _ _) fun _ => H.ite (H.pure _) hrest
  · exact hrest

theorem visitAnnAssign_law (mark : Mark) (target hint : Expr) (value : Option Expr)
    (h : AllIn K (target.tree :: hint.tree :: Expr.givenTree value)) :
    Φ 0 (nodesIn (target.tree :: hint.tree :: Expr.givenTree value)) T ctx _ (visitAnnAssign u ctx mark target hint value) := by
  simp only [allIn_cons] at h
  have hvalue : Φ 0 (nodesIn (Expr.givenTree value)) T ctx _ (visitAnnotatedValue u ctx mark target value) := by
    cases value with
    | none => exact H.pure _
    | some value =>
      simp only [Expr.givenTree, allIn_cons] at h
      exact H.among (H.before (H.expr value h.2.2.1 .value rfl) fun _ =>
        H.after (H.ofQuiet (inferVariable_quiet _ _ _ _ _)) fun _ =>
          assignTarget_law (H.assigns _ _) _ target h.1) (by simp [Expr.givenTree])
  have hend : ∀ g : PUnit → BindM ω Unit, (∀ x, IsQuiet (g x)) →
    Φ 0 target.tree.nodes T ctx _ (visitExpr u ctx .value target >>= g) :=
    fun _ hg => H.before (H.expr target h.1 .value rfl) fun x => H.ofQuiet (hg x)
  refine H.after (declareSpecialForm_law (H.assigns _ _) _ _) fun isForm => H.ite (H.pure _) ?_
  refine H.after (H.discard (bindTarget_law (H.assigns _ _).toBinds _)) fun _ => ?_
  refine H.among (H.both hvalue fun _ => H.both (H.expr hint h.2.1 .value rfl) fun _ =>
    H.after H.annotate fun _ => H.after (H.ofQuiet (annotateVariable_quiet _ _ _ _)) fun _ =>
      (?keyed : Φ 0 target.tree.nodes T ctx _ _)) (le_of_eq ?nodes)
  case nodes =>
    simp only [nodesIn_cons]
    abel
  case keyed =>
    cases target.referenceKey <;> cases value
    case ok.none => exact H.after (H.ofQuiet (addKey_quiet _ _)) fun _ => hend _ fun _ => .pure _
    case ok.some => exact H.after (H.ofQuiet (addKey_quiet _ _)) fun _ => hend _ fun _ => followAssign_quiet _ _ _ _ _
    case error.none => exact hend _ fun _ => .pure _
    case error.some => exact hend _ fun _ => followAssign_quiet _ _ _ _ _

theorem visitWithItems_law (items : List WithItem) (h : AllIn K (items.map WithItem.tree)) :
    Φ 0 (nodesIn (items.map WithItem.tree)) T ctx _ (visitWithItems u ctx items) := by
  induction items with
  | nil => exact H.pure _
  | cons item items ih =>
    simp only [List.map_cons, allIn_cons, WithItem.tree, all_mk] at h
    have hcontext : Φ 0 item.context.tree.nodes T ctx _ (visitExpr u ctx .value item.context) :=
      H.expr item.context h.1.2.1 .value rfl
    unfold visitWithItems
    simp only [List.map_cons, nodesIn_cons, WithItem.tree, nodes_mk]
    cases hgiven : item.target with
    | none =>
      refine H.among (H.both hcontext fun _ => ih h.2) ?_
      simp only [Expr.givenTree, nodesIn_nil, add_zero]
      exact add_le_add (Multiset.le_add_left _ _) (le_refl _)
    | some target =>
      simp only [hgiven, Expr.givenTree, allIn_cons] at h
      refine H.among (H.both hcontext fun _ => H.after (H.discard (bindTarget_law (H.assigns _ _).toBinds _)) fun _ =>
        H.after (H.ofQuiet (inferVariable_quiet _ _ _ _ _)) fun _ =>
          H.both (H.expr target h.1.2.2.1 .target rfl) fun _ => ih h.2) ?_
      simp only [Expr.givenTree, nodesIn_cons, nodesIn_nil, add_zero, ← add_assoc]
      exact add_le_add (add_le_add (Multiset.le_add_left _ _) (le_refl _)) (le_refl _)

theorem visitTypeParameters_law (ps : List TypeParameter) (h : AllIn K (ps.map TypeParameter.tree)) :
    Φ 0 (nodesIn (ps.map TypeParameter.tree)) T ctx _ (visitTypeParameters u ctx ps) := by
  induction ps with
  | nil => exact H.pure _
  | cons p ps ih =>
    simp only [List.map_cons, allIn_cons, TypeParameter.tree, all_mk] at h
    refine H.among (H.both (H.given p.bound h.1.2) fun _ => ih h.2) ?_
    simp only [List.map_cons, nodesIn_cons, TypeParameter.tree, nodes_mk]
    exact add_le_add (Multiset.le_add_left _ _) (le_refl _)

/-- Whether a statement has no suites and leads on to the next one. Imports of modules are not among them. -/
def isPlain : Stmt → Bool
  | .function .. | .delete .. | .assign .. | .augAssign .. | .annAssign .. | .importFrom .. | .globals ..
  | .nonlocals .. | .expr .. | .pass .. | .typeAlias .. => true
  | _ => false

/-- The walk of a plain statement that is no function has the property if the steps of the statement itself have it. -/
theorem visitStmt_simple_law (hu : u.Steady) (join : Option FlowRef) {s : Stmt} (hp : isPlain s = true)
    (hf : ∀ m isAsync name params body decorators returns, s ≠ .function m isAsync name params body decorators returns)
    (h : AllIn K s.tree.children) (hn : ∀ name, Φ 0 0 T ctx _ (assignName ctx s.mark.index name false))
    (ha : ∀ names, Φ 0 0 T ctx _ (importAll ctx s.mark.index names)) :
    Φ {.stmt s} s.tree.nodes T ctx _ (visitStmt u ctx join s) := by
  match s with
  | .function .. => exact (hf _ _ _ _ _ _ _ rfl).elim
  | .delete m targets =>
    simp only [Stmt.tree, NodeTree.children] at h
    rw [visitStmt]
    exact H.inStmt (deleteTargets_law H targets h) (le_refl _)
  | .assign m targets value =>
    simp only [Stmt.tree, NodeTree.children] at h
    rw [visitStmt]
    exact H.inStmt (visitAssign_law H m targets value h) (le_refl _)
  | .augAssign m target op value =>
    simp only [Stmt.tree, NodeTree.children, allIn_cons] at h
    rw [visitStmt]
    exact H.inStmt (H.both (H.expr target h.1 .value rfl) fun _ =>
      H.before (H.expr value h.2.1 .value rfl) fun _ =>
        H.after (H.discard (bindTarget_law (H.assigns _ _).toBinds _)) fun _ =>
          H.after (H.ofQuiet (inferVariable_quiet _ _ _ _ _)) fun _ =>
          H.after (assignTarget_law (H.assigns _ _) _ target h.1) fun _ =>
            H.ofQuiet (followAdd_quiet hu _ _ _ _ _)) (by simp)
  | .annAssign m target hint value =>
    simp only [Stmt.tree, NodeTree.children] at h
    rw [visitStmt]
    exact H.inStmt (visitAnnAssign_law H m target hint value h) (le_refl _)
  | .importFrom m source names level =>
    simp only [Stmt.tree, NodeTree.children, allIn_iff, List.mem_map] at h
    rw [visitStmt]
    have hn' : ∀ name, Φ 0 0 T ctx _ (assignName ctx (Stmt.importFrom m source names level).site.index name false) := hn
    have ha' : ∀ names', Φ 0 0 T ctx _ (importAll ctx (Stmt.importFrom m source names level).site.index names') := ha
    refine H.inStmt (importFrom_law (H.assigns _ _) hu hn' ha' source names level fun n hmem => ?_) (Multiset.zero_le _)
    have htree := h _ ⟨n, hmem, rfl⟩
    simp only [ImportName.tree, all_mk] at htree
    exact htree.1
  | .globals m names =>
    rw [visitStmt]
    exact H.inStmt (H.after (H.ofQuiet (globalScope_quiet _)) fun _ => visitGlobals_law (H.assigns _ _) _ _ _)
      (Multiset.zero_le _)
  | .nonlocals m names =>
    rw [visitStmt]
    exact H.inStmt (H.ofQuiet (.bind (globalScope_quiet _) fun _ => .ite (reportError_quiet _ _ _) (visitNonlocals_quiet _ _ _)))
      (Multiset.zero_le _)
  | .expr m value =>
    simp only [Stmt.tree, NodeTree.children, allIn_cons] at h
    rw [visitStmt]
    exact H.inStmt (H.expr value h.1 .value rfl) (by simp)
  | .pass m =>
    rw [visitStmt]
    exact H.inStmt (H.pure _) (Multiset.zero_le _)
  | .typeAlias m name params value =>
    simp only [Stmt.tree, NodeTree.children, allIn_cons, allIn_append] at h
    rw [visitStmt]
    refine H.inStmt (H.after (H.discard (bindTarget_law (H.assigns _ _).toBinds _)) fun _ =>
      H.both (visitTypeParameters_law H params h.2.1) fun _ =>
        H.both (H.expr value h.2.2.1 .value rfl) fun _ =>
          H.after (H.ofQuiet (inferVariable_quiet _ _ _ _ _)) fun _ =>
            H.expr name h.1 .target rfl) (le_of_eq ?_)
    simp only [nodesIn_cons, nodesIn_append, nodesIn_nil]
    abel

end

section

variable (H : Lays u Φ) (hu : u.Steady)
include H hu

theorem visitAnnotations_law (ps : List Parameter) : Φ 0 (annotationNodes ps) T ctx _ (visitAnnotations u ctx ps) := by
  induction ps with
  | nil => exact H.pure _
  | cons p ps ih => exact H.among (H.both (visitGiven_law H hu p.hint) fun _ => ih) (by simp [annotationNodes])

theorem visitFunction_law (site : Site) (name : String) {params : Parameters} {decorators : List Expr} {returns : Option Expr}
    {body : List Stmt} {n : Node} (hm : n.mark = site.mark) :
    Φ {n} ({n} + (params.tree.nodes + nodesIn (Stmt.trees body) + nodesIn (Expr.trees decorators) + nodesIn
      (Expr.givenTree returns))) T ctx _ (visitFunction u ctx site name params decorators returns body) := by
  have hbody : Φ {n} ({n} + (Body.function site.mark params body).nodes) T ctx _
      (deferBody ctx site.mark (.function site.mark params body)) := hm ▸ H.deferBody ctx rfl
  have hend : ∀ inner : Context, Φ 0 0 T ctx _ (do
      if (u.outline.enclosingClass site.index false).isSome then
        addIntrinsic u inner "__class__" site "class"
      assignName ctx site.index name false) := fun inner =>
    H.when (H.ofQuiet (addIntrinsic_quiet _ _ _ _ _)) fun _ => assignName_law (H.assigns _ _) (assignable_true _) _ _ _
  refine H.mono (H.after (bindHere_law (H.assigns _ _).toBinds _) fun symbol =>
    H.after (H.ofQuiet (declareAt_quiet _ _)) fun place =>
    H.after (H.ofQuiet (setDeclaration_quiet _ _)) fun _ => H.bind (visitExprs_law H hu decorators .value rfl) fun _ =>
    H.bind (visitDefaults_law H hu params) fun _ => H.bind (visitAnnotations_law H hu params.all) fun _ =>
    H.bind (visitGiven_law H hu returns) fun _ => H.before hbody hend) (by simp) ?_
  simp only [nodes_parametersTree, Body.nodes]
  refine (Multiset.le_add_right _ {Node.parameters params}).trans_eq ?_
  abel

theorem visitGuard_law (guard : Option Expr) {onTrue onFalse : FlowRef} (ht : T onTrue) (hf : T onFalse) :
    Φ 0 (nodesIn (Expr.givenTree guard)) T ctx _ (visitGuard u ctx guard onTrue onFalse) := by
  cases guard with
  | none => exact H.none (H.linkCurrent ht)
  | some guard => exact H.among (visitExpr_law H hu guard (.test onTrue onFalse) ⟨ht, hf⟩) (by simp [Expr.givenTree])

omit hu in
theorem importModules_law (names : List ImportName) : Φ 0 0 T ctx _ (names.forM (importModule u ctx)) := by
  induction names with
  | nil => exact H.pure _
  | cons n names ih =>
    have hnote : Φ 0 0 T ctx _ (noteModule n) := by
      unfold noteModule
      split
      · exact H.ite (H.ofModify fun _ => ⟨rfl, rfl, rfl, rfl, rfl⟩)
          (H.ite (H.ofModify fun _ => ⟨rfl, rfl, rfl, rfl, rfl⟩) (H.pure _))
      · exact H.pure _
    exact H.after (importModule_law (H.assigns _ _) trivial hnote) fun _ => ih

/-- The walk of a plain statement has the property, and it leaves the statement alone. -/
theorem visitStmt_plain_law (join : Option FlowRef) {s : Stmt} (hp : isPlain s = true) :
    Φ {.stmt s} s.tree.nodes T ctx _ (visitStmt u ctx join s) := by
  match s with
  | .function m isAsync name params body decorators returns =>
    rw [visitStmt]
    refine H.mono (visitFunction_law H hu _ name rfl) (le_refl _) (le_of_eq ?_)
    simp only [Stmt.tree, nodes_mk, nodesIn_cons, nodesIn_append, add_assoc]
  | .delete .. | .assign .. | .augAssign .. | .annAssign .. | .importFrom .. | .globals .. | .nonlocals .. | .expr .. | .pass ..
  | .typeAlias .. =>
    exact visitStmt_simple_law (H.sweeps hu) hu join rfl (by simp) (fun _ _ => trivial)
      (assignName_law (H.assigns _ _) (assignable_true _) · _ _) ((H.assigns _ _).importAll (assignable_true _))

end

end ScopeFlow.Bind
