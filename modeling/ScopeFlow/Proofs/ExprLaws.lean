import ScopeFlow.Proofs.Exprs
import ScopeFlow.Proofs.Nodes
import ScopeFlow.Proofs.Weaving

/-!
# Properties of the walk of an expression

The walk of an expression creates joins for its parts, leads to labels that are handed to it and puts the bodies of lambdas
aside. A property of steps that depends on a context, on the labels that may be led to, on the nodes that may be put aside and
on those of them that are left alone goes over to the walk of an expression if the steps that touch the flow graph have it
(`Lays`): a join may be led to by the part that it is created for.
-/

namespace ScopeFlow.Bind

open FlowGraph NodeTree

variable {ω : Type} {α β : Type} {u : Setup ω} {K : Node → Prop} {ctx : Context} {T : FlowRef → Prop}
  {O O' W W' V : Multiset Node} {Φ : Multiset Node → Multiset Node → (FlowRef → Prop) → Context → (α : Type) → BindM ω α → Prop}
  {f : BindM ω α} {g : α → BindM ω β} {cs : List NodeTree}

/-- A property of measured steps that goes over from steps to what is put together of them. -/
structure Measured (K : Node → Prop)
    (Φ : Multiset Node → Multiset Node → (FlowRef → Prop) → Context → (α : Type) → BindM ω α → Prop) : Prop where
  assigns : ∀ T ctx, Assigns K ctx (Φ 0 0 T ctx)
  bind : ∀ {O O' W W' T ctx} {α β : Type} {f : BindM ω α} {g : α → BindM ω β}, Φ O W T ctx α f → (∀ x, Φ O' W' T ctx β (g x)) →
    Φ (O + O') (W + W') T ctx β (f >>= g)
  mono : ∀ {O O' W W' T ctx} {α : Type} {f : BindM ω α}, Φ O W T ctx α f → O' ≤ O → W ≤ W' → Φ O' W' T ctx α f
  frame : ∀ {O W T ctx} {α : Type} {f : BindM ω α} (V : Multiset Node), Φ O W T ctx α f → Φ (V + O) (V + W) T ctx α f
  annotate : ∀ {T ctx}, Φ 0 0 T ctx Unit annotate

/-- A property of steps, in a context and with labels to lead to, that goes over to the walk of an expression. -/
structure Lays (u : Setup ω) (Φ : Multiset Node → Multiset Node → (FlowRef → Prop) → Context → (α : Type) →
    BindM ω α → Prop) : Prop extends Measured (fun _ => True) Φ where
  ofModify : ∀ {T ctx} {f : State ω → State ω}, (∀ s, (f s).graph = s.graph ∧ (f s).current = s.current ∧ (f s).facts = s.facts ∧
    (f s).queue = s.queue ∧ (f s).store.nextFlowId = s.store.nextFlowId) → Φ 0 0 T ctx Unit (modify f)
  rescope : ∀ {O W T ctx} {α : Type} {f : BindM ω α} (scope : Nat), Φ O W T { ctx with scope := scope } α f → Φ O W T ctx α f
  setScope : ∀ {T ctx} node scope, Φ 0 0 T ctx Unit (setScope node scope)
  stamp : ∀ {T ctx} node, Φ 0 0 T ctx Unit (stamp node)
  deferBody : ∀ {T ctx} (outer : Context) {n : Node} {body : Body}, body.mark = n.mark →
    Φ {n} ({n} + body.nodes) T ctx Context (deferBody outer n.mark body)
  call : ∀ {T ctx} node func, Φ 0 0 T ctx Unit (call ctx node func)
  linkCurrent : ∀ {T : FlowRef → Prop} {ctx l}, T l → Φ 0 0 T ctx Unit (linkCurrent l)
  linkTest : ∀ {T : FlowRef → Prop} {ctx onTrue onFalse} e, T onTrue → T onFalse →
    Φ 0 0 T ctx Unit (linkTest u ctx onTrue onFalse e)
  joined : ∀ {W T ctx} {part : FlowRef → BindM ω Unit}, (∀ l, Φ 0 W (also T [l]) ctx Unit (part l)) →
    Φ 0 W T ctx Unit (do let l ← newBranch; part l; finish l)
  choice : ∀ {W₁ W₂ W₃} {T : FlowRef → Prop} {ctx} {test : FlowRef → FlowRef → BindM ω Unit} {body orElse : BindM ω Unit},
    (∀ U onTrue onFalse, (∀ r, T r → U r) → U onTrue → U onFalse → Φ 0 W₁ U ctx Unit (test onTrue onFalse)) →
    (∀ U, (∀ r, T r → U r) → Φ 0 W₂ U ctx Unit body) → (∀ U, (∀ r, T r → U r) → Φ 0 W₃ U ctx Unit orElse) →
    Φ 0 (W₁ + (W₂ + W₃)) T ctx Unit (choice test body orElse)

namespace Measured

variable (H : Measured K Φ)
include H

theorem ofQuiet (hf : IsQuiet f) : Φ 0 0 T ctx _ f := (H.assigns T ctx).ofQuiet hf

/-- A step that puts nothing aside in front of a walk. -/
theorem after (hf : Φ 0 0 T ctx _ f) (hg : ∀ x, Φ O W T ctx _ (g x)) : Φ O W T ctx _ (f >>= g) := by
  simpa using H.bind hf hg

/-- A step that puts nothing aside behind a walk. -/
theorem before (hf : Φ O W T ctx _ f) (hg : ∀ x, Φ 0 0 T ctx _ (g x)) : Φ O W T ctx _ (f >>= g) := by
  simpa using H.bind hf hg

/-- A step that puts nothing aside leaves all nodes alone. -/
theorem idle (hf : Φ 0 0 T ctx _ f) (hw : O ≤ W) : Φ O W T ctx _ f := by
  have h := H.frame O hf
  rw [add_zero] at h
  exact H.mono h (le_refl _) hw

theorem none (hf : Φ 0 0 T ctx _ f) : Φ 0 W T ctx _ f := H.idle hf (Multiset.zero_le _)

theorem among (hf : Φ O W T ctx _ f) (hw : W ≤ W') : Φ 0 W' T ctx _ f := H.mono hf (Multiset.zero_le _) hw

/-- Walks one after the other. -/
theorem both (hf : Φ 0 W T ctx _ f) (hg : ∀ x, Φ 0 W' T ctx _ (g x)) :
    Φ 0 (W + W') T ctx _ (f >>= g) := H.bind hf hg

theorem pure (x : α) : Φ 0 W T ctx _ (Pure.pure x) := H.none (H.ofQuiet (.pure x))

theorem throw (fault : Fault) : Φ 0 W T ctx α (MonadExcept.throw fault) := H.none (H.ofQuiet (.throw fault))

omit H in
theorem ite (_ : Measured K Φ) {c : Prop} [Decidable c] {f g : BindM ω α} (hf : Φ O W T ctx _ f) (hg : Φ O W T ctx _ g) :
    Φ O W T ctx _ (if c then f else g) := by
  split
  · exact hf
  · exact hg

theorem when {c : Prop} [Decidable c] {f : BindM ω PUnit} {g : PUnit → BindM ω β} (hf : Φ 0 0 T ctx _ f)
    (hg : ∀ x, Φ O W T ctx _ (g x)) : Φ O W T ctx _ (if c then f >>= g else g ⟨⟩) := H.ite (H.after hf hg) (hg _)

theorem discard (hf : Φ O W T ctx _ f) : Φ O W T ctx _ (Functor.discard f : BindM ω Unit) := by
  have h : (Functor.discard f : BindM ω Unit) = f >>= fun _ => Pure.pure () := by
    rw [bind_pure_comp]
    rfl
  exact h ▸ H.before hf fun _ => H.pure _

/-- A walk of the parts of a node is a walk of the node. -/
theorem inTree (h : Φ O W T ctx _ f) {n : Node} (hw : W ≤ nodesIn cs) :
    Φ 0 (NodeTree.mk n cs).nodes T ctx _ f :=
  H.among h (hw.trans (by rw [nodes_mk]; exact Multiset.le_add_left _ _))

/-- A walk of the parts of a statement leaves the statement alone. -/
theorem inStmt (h : Φ 0 W T ctx _ f) {n : Node} (hw : W ≤ nodesIn cs) :
    Φ {n} (NodeTree.mk n cs).nodes T ctx _ f := by
  have hframe := H.frame {n} h
  rw [add_zero] at hframe
  exact H.mono hframe (le_refl _) (by rw [nodes_mk]; exact add_le_add (le_refl _) hw)

end Measured

/-- Whether what a role leads to may be led to. -/
def Role.Leads (T : FlowRef → Prop) : Role → Prop
  | .test onTrue onFalse => T onTrue ∧ T onFalse
  | _ => True

section

variable (H : Lays u Φ)
include H

theorem around_law {role : Role} {e : Expr} {parts : BindM ω Unit} (hr : role.Leads T)
    (hparts : Φ 0 W T ctx _ parts) : Φ 0 W T ctx _ (around u ctx role e parts) := by
  have henter : Φ 0 0 T ctx _ (enterExpr ctx role e) := by
    unfold enterExpr
    split
    · exact assignReference_law (H.assigns T ctx) trivial false
    · exact H.pure _
  have hleave : Φ 0 0 T ctx _ (leaveExpr u ctx role e) := by
    cases role with
    | test onTrue onFalse => exact H.ite (H.pure _) (H.linkTest e hr.1 hr.2)
    | value => exact H.pure _
    | target => exact H.pure _
  exact H.after henter fun _ => H.before hparts fun _ => hleave

theorem assignNamed_law {mark : Mark} {target value : Expr} {walk : Role → BindM ω Unit}
    (hwalk : ∀ role, role.Leads T → Φ 0 W T ctx _ (walk role)) : Φ 0 W T ctx _ (assignNamed u ctx mark target value walk) := by
  have hend : Φ 0 W T ctx _ (do inferVariable u ctx value.index false target; walk .target) :=
    H.after (H.ofQuiet (inferVariable_quiet _ _ _ _ _)) fun _ => hwalk .target trivial
  unfold assignNamed
  split
  · exact H.after (H.ofQuiet (reportError_quiet _ _ _)) fun _ => hwalk .value trivial
  · refine H.after (H.ofQuiet (.factsOf _)) fun facts => ?_
    split
    · exact H.throw _
    · split
      · exact H.after (bindNamed_law (H.assigns T ctx).toBinds _ _ _) fun _ => hend
      · exact H.after (H.throw _) fun _ => hend

/-- The scope of a comprehension: its conditions that do not hold lead behind it. -/
theorem comprehend_law {mark : Mark} {clauses : List Clause} {walk : Context → FlowRef → List (List SymbolRef) → BindM ω Unit}
    (hwalk : ∀ U scope onFalse added, U onFalse →
      Φ 0 W U { ctx with scope := scope } _ (walk { ctx with scope := scope } onFalse added)) :
    Φ 0 W T ctx _ (comprehend u ctx mark clauses walk) := by
  refine H.after (H.ofQuiet (newScope_quiet _ _)) fun scope => H.after (H.setScope _ _) fun _ => ?_
  have hpart : ∀ onFalse, Φ 0 W (also T [onFalse]) ctx _ (do
      let added ← bindClauses u { ctx with scope := scope } clauses
      walk { ctx with scope := scope } onFalse added
      linkCurrent onFalse) := fun onFalse =>
    H.after (bindClauses_law (H.assigns _ ctx).toBinds clauses) fun added =>
      H.before (H.rescope scope (hwalk _ scope onFalse added (mem_also (by simp)))) fun _ => H.linkCurrent (mem_also (by simp))
  simpa only [bind_assoc] using H.joined hpart

theorem operand_law {op : BoolOperator} {onTrue onFalse : FlowRef} {test : FlowRef → FlowRef → BindM ω Unit}
    (h : ∀ U onTrue onFalse, U onTrue → U onFalse → Φ 0 W U ctx _ (test onTrue onFalse)) (ht : T onTrue) (hf : T onFalse) :
    Φ 0 W T ctx _ (operand op onTrue onFalse test) := by
  cases op with
  | and => exact H.joined fun l => h _ l onFalse (mem_also (by simp)) (.inl hf)
  | or => exact H.joined fun l => h _ onTrue l (.inl ht) (mem_also (by simp))

/-- What is around the parts of a node, with the parts, is a walk of the node. -/
theorem within_law {role : Role} {e : Expr} {parts : BindM ω Unit} (hr : role.Leads T)
    (hparts : Φ 0 W T ctx _ parts) (hw : W ≤ nodesIn cs) : Φ 0 (mk (.expr e) cs).nodes T ctx _ (around u ctx role e parts) :=
  H.inTree (around_law H hr hparts) hw

variable (hu : u.Steady)
include hu

mutual

/-- The walk of an expression has the property. -/
theorem visitExpr_law {T : FlowRef → Prop} {ctx : Context} (e : Expr) (role : Role) (hr : role.Leads T) :
    Φ 0 e.tree.nodes T ctx _ (visitExpr u ctx role e) := by
  match e with
  | .boolOp m op values =>
    cases role with
    | test onTrue onFalse =>
      rw [visitExpr]
      exact within_law H hr (visitOperands_law op values hr.1 hr.2) (le_refl _)
    | value | target =>
      rw [visitExpr]
      · exact within_law H hr
          (H.joined fun l => visitOperands_law op values (mem_also (by simp)) (mem_also (by simp))) (le_refl _)
      · simp
  | .unaryOp m op operand =>
    have ho : ∀ role : Role, role.Leads T → Φ 0 operand.tree.nodes T ctx _ (visitExpr u ctx role operand) :=
      fun role hr => visitExpr_law operand role hr
    cases role with
    | test onTrue onFalse =>
      cases op with
      | not =>
        rw [visitExpr]
        exact within_law H hr (ho (.test onFalse onTrue) ⟨hr.2, hr.1⟩) (by simp)
      | _ =>
        rw [visitExpr]
        · exact within_law H hr (ho .value trivial) (by simp)
        · simp
    | value | target =>
      rw [visitExpr]
      · exact within_law H hr (ho .value trivial) (by simp)
      · simp
  | .named m target value =>
    rw [visitExpr]
    exact within_law H hr (H.both (visitExpr_law value .value trivial) fun _ =>
      assignNamed_law H fun r hr => visitExpr_law target r hr) (by simp [add_comm])
  | .lambda m params body =>
    rw [visitExpr]
    have hbody : Φ _ _ T ctx _ (deferBody ctx m (.lambda m params body)) :=
      H.deferBody ctx (n := .expr (.lambda m params body)) rfl
    refine around_law H hr (H.among (H.both (visitDefaults_law params) fun _ => H.discard (H.among hbody (le_refl _))) ?_)
    simp only [Expr.tree, nodes_mk, nodesIn_cons, nodesIn_nil, add_zero, nodes_parametersTree, Body.nodes]
    refine (Multiset.le_add_right _ ({Node.parameters params} + annotationNodes params.all)).trans_eq ?_
    abel
  | .ifElse m test body orElse =>
    rw [visitExpr]
    exact within_law H hr
      (H.choice (fun _ _ _ _ ht hf => visitExpr_law test _ ⟨ht, hf⟩)
        (fun _ _ => visitExpr_law body .value trivial)
        fun _ _ => visitExpr_law orElse .value trivial) (by simp)
  | .comprehension m kind elements clauses =>
    rw [visitExpr]
    refine within_law H hr (H.both (visitFirstIterable_law clauses) fun _ => comprehend_law H fun U scope onFalse added hf =>
      H.both (visitClauses_law clauses ctx.scope hf true added) fun _ => visitExprs_law elements .value rfl) ?_
    rw [nodesIn_append, ← add_assoc, add_comm]
    exact add_le_add (le_refl _) (firstIterable_add_le clauses)
  | .constant .. =>
    rw [visitExpr]
    exact around_law H hr (H.pure _)
  | .starred m value =>
    rw [visitExpr]
    exact within_law H hr (H.when (assignTarget_law (H.assigns _ _) false value fun _ _ => trivial) fun _ =>
      visitExpr_law value .value trivial) (by simp)
  | .name m id =>
    rw [visitExpr]
    exact around_law H hr (H.none (H.stamp _))
  | .list m elements | .tuple m elements =>
    rw [visitExpr]
    exact within_law H hr (visitExprs_law elements _ (by cases role <;> rfl)) (le_refl _)
  | .binOp .. | .dict .. | .set .. | .await .. | .yield .. | .yieldFrom .. | .compare .. | .call .. | .formatted .. | .joined ..
  | .member .. | .subscript .. | .slice .. =>
    -- The parts are walked one after the other.
    rw [visitExpr]
    apply within_law H hr
    repeat' first
      | intro _
      | exact visitExpr_law _ .value trivial
      | exact visitExprs_law _ .value rfl
      | exact visitGiven_law _
      | exact visitGivens_law _
      | apply H.after (H.ofQuiet (enterAwait_quiet _ _))
      | apply H.after (H.ofQuiet (enterYield_quiet _ _ _ _))
      | apply H.after (H.stamp _)
      | exact H.before (visitKeywords_law _) fun _ => H.after (H.call _ _) fun _ => H.ofQuiet (followCall_quiet hu _ _ _ _)
      | exact H.before (visitExpr_law _ .value trivial) fun _ => H.stamp _
      | exact H.before (visitGiven_law _) fun _ => H.stamp _
      | apply H.both
    all_goals simp

theorem visitExprs_law {T : FlowRef → Prop} {ctx : Context} (es : List Expr)
    (role : Role) (hr : role.isTest = false) :
    Φ 0 (nodesIn (Expr.trees es)) T ctx _ (visitExprs u ctx role es) := by
  match es with
  | [] =>
    rw [visitExprs]
    exact H.pure _
  | e :: es =>
    have hlead : role.Leads T := by
      cases role with
      | test => cases hr
      | value | target => trivial
    rw [visitExprs]
    exact H.among (H.both (visitExpr_law e role hlead) fun _ => visitExprs_law es role hr)
      (by simp [Expr.trees])

theorem visitGiven_law {T : FlowRef → Prop} {ctx : Context} (e : Option Expr) :
    Φ 0 (nodesIn (Expr.givenTree e)) T ctx _ (visitGiven u ctx e) := by
  match e with
  | none =>
    rw [visitGiven]
    exact H.pure _
  | some e =>
    rw [visitGiven]
    exact H.among (visitExpr_law e .value trivial) (by simp [Expr.givenTree])

theorem visitGivens_law {T : FlowRef → Prop} {ctx : Context} (es : List (Option Expr)) :
    Φ 0 (nodesIn (Expr.givenTrees es)) T ctx _ (visitGivens u ctx es) := by
  match es with
  | [] =>
    rw [visitGivens]
    exact H.pure _
  | e :: es =>
    rw [visitGivens]
    exact H.among (H.both (visitGiven_law e) fun _ => visitGivens_law es) (by simp [Expr.givenTrees])

theorem visitOperands_law {T : FlowRef → Prop} {ctx : Context} (op : BoolOperator) (es : List Expr)
    {onTrue onFalse : FlowRef} (ht : T onTrue) (hf : T onFalse) :
    Φ 0 (nodesIn (Expr.trees es)) T ctx _ (visitOperands u ctx op onTrue onFalse es) := by
  match es with
  | [] =>
    rw [visitOperands]
    exact H.throw _
  | [e] =>
    rw [visitOperands]
    exact H.among (visitExpr_law e (.test onTrue onFalse) ⟨ht, hf⟩) (by simp [Expr.trees])
  | e :: e' :: es =>
    rw [visitOperands]
    · exact H.among (H.both (operand_law H (fun _ _ _ ht hf => visitExpr_law e _ ⟨ht, hf⟩) ht hf)
        fun _ => visitOperands_law op (e' :: es) ht hf) (by simp [Expr.trees])
    · simp

theorem visitKeywords_law {T : FlowRef → Prop} {ctx : Context} (ks : List Keyword) :
    Φ 0 (nodesIn (Keyword.trees ks)) T ctx _ (visitKeywords u ctx ks) := by
  match ks with
  | [] =>
    rw [visitKeywords]
    exact H.pure _
  | .mk m name value :: ks =>
    rw [visitKeywords]
    refine H.among (H.both (visitExpr_law value .value trivial) fun _ => visitKeywords_law ks) ?_
    simp only [Keyword.trees, nodesIn_cons, nodes_mk, nodesIn_nil, add_zero]
    exact add_le_add (Multiset.le_add_left _ _) (le_refl _)

theorem visitFirstIterable_law {T : FlowRef → Prop} {ctx : Context} (cs : List Clause) :
    Φ 0 (firstIterable cs) T ctx _ (visitFirstIterable u ctx cs) := by
  match cs with
  | [] =>
    rw [visitFirstIterable]
    exact H.throw _
  | .mk m target iterable conditions :: cs =>
    rw [visitFirstIterable]
    exact visitExpr_law iterable .value trivial

theorem visitClauses_law {T : FlowRef → Prop} {ctx : Context} (cs : List Clause)
    (outer : Nat) {onFalse : FlowRef} (hf : T onFalse) (isFirst : Bool)
    (added : List (List SymbolRef)) :
      Φ 0 (clauseNodes isFirst cs) T ctx _ (visitClauses u ctx outer onFalse isFirst added cs) := by
  match cs with
  | [] =>
    rw [visitClauses]
    exact H.pure _
  | .mk m target iterable conditions :: cs =>
    rw [visitClauses]
    have hrest : Φ 0 _ T ctx _ _ := H.both (visitExpr_law target .target trivial) fun _ =>
      H.both (visitConditions_law conditions hf) fun _ => visitClauses_law cs outer hf false added.tail
    refine H.after (takeOverOuter_law (H.assigns _ _).toBinds _ _) fun _ => ?_
    cases isFirst with
    | true => exact H.among hrest (by simp [clauseNodes])
    | false =>
      exact H.among (H.both (visitExpr_law iterable .value trivial) fun _ => hrest)
        (by simp [clauseNodes])

theorem visitConditions_law {T : FlowRef → Prop} {ctx : Context} (es : List Expr)
    {onFalse : FlowRef} (hf : T onFalse) :
    Φ 0 (nodesIn (Expr.trees es)) T ctx _ (visitConditions u ctx onFalse es) := by
  match es with
  | [] =>
    rw [visitConditions]
    exact H.pure _
  | e :: es =>
    rw [visitConditions]
    exact H.among (H.both (H.joined fun l => visitExpr_law e (.test l onFalse)
      ⟨mem_also (by simp), .inl hf⟩) fun _ => visitConditions_law es hf) (by simp [Expr.trees])

theorem visitDefaults_law {T : FlowRef → Prop} {ctx : Context} (ps : Parameters) :
    Φ 0 (defaultNodes ps) T ctx _ (visitDefaults u ctx ps) := by
  match ps with
  | .mk m posOnly pos rest kwOnly kwDefaults kwRest defaults =>
    rw [visitDefaults]
    exact H.both (visitExprs_law defaults .value rfl) fun _ => visitGivens_law kwDefaults

end

end

end ScopeFlow.Bind
