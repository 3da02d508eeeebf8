import ScopeFlow.Proofs.Names

/-!
# Expressions in the flow graph

Walking an expression for its value, or as a target, leaves live code live; walking it as a test leads to the labels of all
outcomes that it may have (`visitExpr_sees`). The proof follows the walk: one case for each kind of expression.
-/

namespace ScopeFlow.Bind

open FlowGraph NodeTree

variable {ω : Type} {lax : Bool} {a : Nat} {A : Nat → Prop} {u : Setup ω} {ctx : Context} {e : Expr} {mark : Mark}

/-- Whether the outcome of an expression in a role is asked for. -/
def Role.isTest : Role → Bool
  | test .. => true
  | _ => false

/-- What walking an expression does in each role and context. -/
structure Sees (lax : Bool) (a : Nat) (A : Nat → Prop) (u : Setup ω) (e : Expr) : Prop where
  evaluates : ∀ (ctx : Context) (role : Role), role.isTest = false → Evaluates lax a A ctx (visitExpr u ctx role e)
  tests : ∀ ctx : Context, Tests lax a A u ctx (fun c b => c.MayBe e b) fun onTrue onFalse =>
    visitExpr u ctx (.test onTrue onFalse) e

theorem Sees.value (h : Sees lax a A u e) (ctx : Context) : Evaluates lax a A ctx (visitExpr u ctx .value e) :=
  h.evaluates ctx .value rfl

theorem Sees.target (h : Sees lax a A u e) (ctx : Context) :
    Evaluates lax a A ctx (visitExpr u ctx .target e) :=
  h.evaluates ctx .target rfl

/-! ## The parts of a walk -/

/-- What comes before and after the parts of an expression evaluates as well. -/
theorem around_evaluates {role : Role} {parts : BindM ω Unit} (hA : A e.index) (hr : role.isTest = false)
    (hp : Evaluates lax a A ctx parts) : Evaluates lax a A ctx (around u ctx role e parts) := by
  have henter : Evaluates lax a A ctx (enterExpr ctx role e : BindM ω Unit) := by
    refine .ite ?_ (.pure _)
    unfold assignReference
    split <;> exact assign_evaluates _ _ _ _ _ fun _ => hA
  refine .bind henter fun _ => .bind hp fun _ => ?_
  cases role with
  | test => cases hr
  | value | target => exact .pure _

/-- A test that is no connective is evaluated and then leads to its labels. -/
theorem visitExpr_test_leaf (hl : e.isLogical = false) (onTrue onFalse : FlowRef) :
    visitExpr u ctx (.test onTrue onFalse) e = visitExpr u ctx .value e >>= fun _ => linkTest u ctx onTrue onFalse e := by
  have haround : ∀ parts : BindM ω Unit, around u ctx (.test onTrue onFalse) e parts =
      around u ctx .value e parts >>= fun _ => linkTest u ctx onTrue onFalse e := by
    intro parts
    simp [around, enterExpr, leaveExpr, hl]
  cases e with
  | boolOp => cases hl
  | unaryOp m op operand =>
    cases op with
    | not => cases hl
    | invert | plus | minus =>
      rw [visitExpr, visitExpr]
      · exact haround _
      all_goals simp
  | _ =>
    rw [visitExpr, visitExpr]
    exact haround _

/-- A leaf that evaluates can be seen in each role. -/
theorem Sees.ofLeaf (hl : e.isLogical = false)
    (h : ∀ (ctx : Context) (role : Role), role.isTest = false → Evaluates lax a A ctx (visitExpr u ctx role e)) :
    Sees lax a A u e := by
  refine ⟨h, fun ctx => ?_⟩
  simp only [visitExpr_test_leaf hl]
  exact Tests.after (h ctx .value rfl) (linkTest_tests hl)

/-- A body that fits the set may be queued. -/
theorem deferBody_evaluates {body : Body} (hb : body.Fits lax A) :
    Evaluates lax a A ctx (deferBody ctx mark body : BindM ω Context) := by
  refine .bind (.ofQuiet (nonClassScope_quiet _)) fun _ => .bind (.ofQuiet (newScope_quiet _ _)) fun scope => ?_
  refine .bind setScope_evaluates fun _ => .bind ?_ fun _ => .bind (.ofQuiet (showKeys_quiet _)) fun _ => .pure _
  intro s x s' hs _ h
  rw [modify_ok] at h
  subst h
  exact ⟨⟨⟨⟨hs.formed, hs.fresh, hs.current⟩, Grows.refl _, fun _ _ => rfl, fun _ _ => .inl rfl, rfl, [⟨scope, body⟩], rfl,
    by simpa using hb⟩, rfl, rfl⟩, id⟩

theorem assignNamed_evaluates {target value : Expr} {walk : Role → BindM ω Unit}
    (hw : ∀ role : Role, role.isTest = false → Evaluates lax a A ctx (walk role)) :
    Evaluates lax a A ctx (assignNamed u ctx mark target value walk) := by
  unfold assignNamed
  split
  · exact .bind (.ofQuiet (reportError_quiet _ _ _)) fun _ => hw .value rfl
  · refine .bind (.ofQuiet (.factsOf _)) fun facts => ?_
    split
    · exact .ofQuiet (.throw _)
    · have hrest : Evaluates lax a A ctx (inferVariable u ctx value.index false target >>= fun _ => walk .target) :=
        .bind (.ofQuiet (inferVariable_quiet _ _ _ _ _)) fun _ => hw .target rfl
      dsimp only
      split
      · exact .bind (bindNamed_law evaluates_binds _ _ _) fun _ => hrest
      · exact .bind (.ofQuiet (.throw _)) fun _ => hrest

/-! ## Comprehensions -/

/-- A step of a comprehension: live code stays live or has led to the label of the conditions that do not hold. -/
def Sifts (lax : Bool) (a : Nat) (A : Nat → Prop) (ctx : Context) (onFalse : FlowRef) (f : BindM ω Unit) : Prop :=
  ∀ ⦃s x s'⦄, Sound lax a s → ctx.Within a s.graph → Joint a s.graph onFalse → f.run s = .ok x s' →
    Walked lax a A s s' ∧ (s.current ≠ 0 → s'.current ≠ 0 ∨ s'.graph.Live onFalse)

theorem Evaluates.sifts {f : BindM ω Unit} (h : Evaluates lax a A ctx f) (onFalse : FlowRef) :
    Sifts lax a A ctx onFalse f :=
  fun _ _ _ hs hw _ hr => ⟨(h hs hw hr).toWalked, fun h0 => .inl ((h hs hw hr).awake h0)⟩

theorem Sifts.bind {onFalse : FlowRef} {f : BindM ω Unit} {g : Unit → BindM ω Unit} (hf : Sifts lax a A ctx onFalse f)
    (hg : Sifts lax a A ctx onFalse (g ())) : Sifts lax a A ctx onFalse (f >>= g) := by
  intro s x s' hs hw hj h
  obtain ⟨_, t, h1, h2⟩ := bind_ok.1 h
  obtain ⟨w1, hlive1⟩ := hf hs hw hj h1
  obtain ⟨w2, hlive2⟩ := hg w1.sound (hw.grow w1.grows) (hj.grow w1.grows) h2
  refine ⟨w1.trans w2, fun h0 => ?_⟩
  rcases hlive1 h0 with h0' | hl
  · exact hlive2 h0'
  · exact .inr (hl.grow w2.grows)

theorem comprehend_evaluates {clauses : List Clause}
    {walk : Context → FlowRef → List (List SymbolRef) → BindM ω Unit}
    (hw : ∀ inner onFalse added, Sifts lax a A inner onFalse (walk inner onFalse added)) :
    Evaluates lax a A ctx (comprehend u ctx mark clauses walk) := by
  refine .bind (.ofQuiet (newScope_quiet _ _)) fun scope => .bind setScope_evaluates fun _ => ?_
  intro s x s' hs hwithin h
  simp only [bind_ok] at h
  obtain ⟨onFalse, t1, h1, added, t2, h2, _, t3, h3, _, t4, h4, h5⟩ := h
  obtain ⟨e1, ha, hc1, hb⟩ := newBranch_evaluated (A := A) hs h1
  have hinner : Context.Within { ctx with scope := scope } a t1.graph := hwithin.grow e1.grows
  have e2 : Evaluated lax a A _ _ := bindClauses_law evaluates_binds clauses e1.sound hinner h2
  have hj2 : Joint a t2.graph onFalse := ⟨ha, (hb.grow e2.grows).isLabel⟩
  obtain ⟨w3, hlive3⟩ := hw _ onFalse added e2.sound (hinner.grow e2.grows) hj2 h3
  obtain ⟨e4, _, hlive4⟩ := linkCurrent_evaluated (A := A) w3.sound (hj2.grow w3.grows) h4
  obtain ⟨w5, hlive5⟩ := finish_walked (A := A) e4.sound ha (hb.grow ((e2.grows.trans w3.grows).trans e4.grows)) h5
  refine ⟨((e1.trans e2).toWalked.trans (w3.trans e4.toWalked)).trans w5, fun h0 => hlive5 ?_⟩
  have h02 : t2.current ≠ 0 := e2.awake (hc1 ▸ h0)
  rcases hlive3 h02 with h03 | hl
  · exact hlive4 h03
  · exact hl.grow e4.grows

/-! ## The walk -/

section

variable (hu : u.Steady)
include hu

mutual

/-- Walking an expression whose nodes belong to a set sees it. -/
theorem visitExpr_sees (e : Expr) (h : e.tree.All (Node.Fits lax A)) : Sees lax a A u e := by
  have hA := index_of_fits h
  match e with
  | .boolOp m op values =>
    simp only [Expr.tree, all_mk] at h
    have hv := visitOperands_tests op values h.2
    refine ⟨fun ctx role hr => ?_, fun ctx => ?_⟩
    · cases role with
      | test => cases hr
      | value | target =>
        rw [visitExpr]
        · exact around_evaluates hA hr (eitherWay_evaluates (hv ctx))
        · nofun
    · intro s x s' onTrue onFalse hs hw ht hf hrun
      beta_reduce at hrun
      rw [visitExpr] at hrun
      have heq : ∀ parts : BindM ω Unit, around u ctx (.test onTrue onFalse) (.boolOp m op values) parts = parts := by
        intro parts
        simp [around, enterExpr, leaveExpr, Expr.isLogical]
      rw [heq] at hrun
      simpa only [StaticContext.MayBe] using hv ctx hs hw ht hf hrun
  | .unaryOp m .not operand =>
    simp only [Expr.tree, all_mk, allIn_cons] at h
    have ho := visitExpr_sees operand h.2.1
    refine ⟨fun ctx role hr => ?_, fun ctx => ?_⟩
    · cases role with
      | test => cases hr
      | value | target =>
        rw [visitExpr]
        · exact around_evaluates hA hr (ho.value ctx)
        · nofun
    · intro s x s' onTrue onFalse hs hw ht hf hrun
      beta_reduce at hrun
      rw [visitExpr] at hrun
      have heq : ∀ parts : BindM ω Unit, around u ctx (.test onTrue onFalse) (.unaryOp m .not operand) parts = parts := by
        intro parts
        simp [around, enterExpr, leaveExpr, Expr.isLogical]
      rw [heq] at hrun
      simpa only [StaticContext.MayBe] using (ho.tests ctx).not hs hw ht hf hrun
  | .unaryOp m .invert operand | .unaryOp m .plus operand | .unaryOp m .minus operand =>
    simp only [Expr.tree, all_mk, allIn_cons] at h
    have ho := visitExpr_sees operand h.2.1
    refine .ofLeaf rfl fun ctx role hr => ?_
    rw [visitExpr]
    · exact around_evaluates hA hr (ho.value ctx)
    · nofun
  | .named m target value =>
    simp only [Expr.tree, all_mk, allIn_cons] at h
    have ht := visitExpr_sees target h.2.1
    have hv := visitExpr_sees value h.2.2.1
    refine .ofLeaf rfl fun ctx role hr => ?_
    rw [visitExpr]
    exact around_evaluates hA hr (.bind (hv.value ctx) fun _ => assignNamed_evaluates fun r hr => ht.evaluates ctx r hr)
  | .lambda m params body =>
    simp only [Expr.tree, all_mk, allIn_cons] at h
    have hp := visitDefaults_evaluates params h.2.1
    refine .ofLeaf rfl fun ctx role hr => ?_
    rw [visitExpr]
    exact around_evaluates hA hr
      (.bind (hp ctx) fun _ => .discard (deferBody_evaluates ⟨fun p hp => (annotations_of_fits h.2.1 p hp).1, h.2.2.1⟩))
  | .ifElse m test body orElse =>
    simp only [Expr.tree, all_mk, allIn_cons] at h
    have ht := visitExpr_sees test h.2.1
    have hb := visitExpr_sees body h.2.2.1
    have ho := visitExpr_sees orElse h.2.2.2.1
    refine .ofLeaf rfl fun ctx role hr => ?_
    rw [visitExpr]
    exact around_evaluates hA hr (choice_evaluates (ht.tests ctx) (hb.value ctx) (ho.value ctx))
  | .comprehension m kind elements clauses =>
    simp only [Expr.tree, all_mk, allIn_append] at h
    have he := visitExprs_evaluates elements h.2.1
    have hi := visitFirstIterable_evaluates clauses h.2.2
    have hc := visitClauses_sifts clauses h.2.2
    refine .ofLeaf rfl fun ctx role hr => ?_
    rw [visitExpr]
    refine around_evaluates hA hr (.bind (hi ctx) fun _ => comprehend_evaluates fun inner onFalse added => ?_)
    exact .bind (hc inner ctx.scope onFalse true added) ((he inner .value rfl).sifts onFalse)
  | .starred m value =>
    simp only [Expr.tree, all_mk, allIn_cons] at h
    have hv := visitExpr_sees value h.2.1
    refine .ofLeaf rfl fun ctx role hr => ?_
    rw [visitExpr]
    refine around_evaluates hA hr (.ite ?_ (hv.value ctx))
    exact .bind (assignTarget_law evaluates_assigns false value h.2.1) fun _ => hv.value ctx
  | .list m elements | .tuple m elements =>
    simp only [Expr.tree, all_mk] at h
    have he := visitExprs_evaluates elements h.2
    refine .ofLeaf rfl fun ctx role hr => ?_
    rw [visitExpr]
    exact around_evaluates hA hr (he ctx role.ofElement (by cases role <;> rfl))
  | .binOp .. | .dict .. | .set .. | .await .. | .yield .. | .yieldFrom .. | .compare .. | .call .. | .formatted .. | .joined ..
  | .constant .. | .member .. | .subscript .. | .name .. | .slice .. =>
    -- The parts are evaluated one after the other.
    simp only [Expr.tree, all_mk, allIn_cons, allIn_append, and_assoc] at h
    repeat obtain ⟨_, h⟩ := h
    refine .ofLeaf rfl fun ctx role hr => ?_
    rw [visitExpr]
    refine around_evaluates hA hr ?_
    repeat' first
      | exact (visitExpr_sees _ ‹_›).value ctx
      | exact visitExprs_evaluates _ ‹_› ctx .value rfl
      | exact visitGiven_evaluates _ ‹_› ctx
      | exact visitGivens_evaluates _ ‹_› ctx
      | exact visitKeywords_evaluates _ ‹_› ctx
      | exact stamp_evaluates hA
      | exact call_evaluates hA
      | exact .ofQuiet (enterAwait_quiet _ _)
      | exact .ofQuiet (enterYield_quiet _ _ _ _)
      | exact .ofQuiet (followCall_quiet hu _ _ _ _)
      | exact .pure _
      | refine .bind ?_ fun _ => ?_

theorem visitExprs_evaluates (es : List Expr) (h : AllIn (Node.Fits lax A) (Expr.trees es)) :
    ∀ (ctx : Context) (role : Role), role.isTest = false → Evaluates lax a A ctx (visitExprs u ctx role es) := by
  match es with
  | [] => exact fun ctx role _ => .pure _
  | e :: es =>
    simp only [Expr.trees, allIn_cons] at h
    have he := visitExpr_sees e h.1
    have hes := visitExprs_evaluates es h.2
    exact fun ctx role hr => .bind (he.evaluates ctx role hr) fun _ => hes ctx role hr

theorem visitGiven_evaluates (e : Option Expr) (h : AllIn (Node.Fits lax A) (Expr.givenTree e)) :
    ∀ ctx : Context, Evaluates lax a A ctx (visitGiven u ctx e) := by
  match e with
  | none => exact fun ctx => .pure _
  | some e =>
    simp only [Expr.givenTree, allIn_cons] at h
    have he := visitExpr_sees e h.1
    exact fun ctx => he.value ctx

theorem visitGivens_evaluates (es : List (Option Expr))
    (h : AllIn (Node.Fits lax A) (Expr.givenTrees es)) :
    ∀ ctx : Context, Evaluates lax a A ctx (visitGivens u ctx es) := by
  match es with
  | [] => exact fun ctx => .pure _
  | e :: es =>
    simp only [Expr.givenTrees, allIn_append] at h
    have he := visitGiven_evaluates e h.1
    have hes := visitGivens_evaluates es h.2
    exact fun ctx => .bind (he ctx) fun _ => hes ctx

theorem visitOperands_tests (op : BoolOperator) (es : List Expr)
    (h : AllIn (Node.Fits lax A) (Expr.trees es)) :
    ∀ ctx : Context, Tests lax a A u ctx (fun c b => c.MayBeAll op es b) fun onTrue onFalse =>
      visitOperands u ctx op onTrue onFalse es := by
  match es with
  | [] =>
    intro ctx s x s' onTrue onFalse _ _ _ _ hrun
    beta_reduce at hrun
    rw [visitOperands] at hrun
    exact absurd hrun (by simp)
  | [e] =>
    simp only [Expr.trees, allIn_cons] at h
    have he := visitExpr_sees e h.1
    intro ctx s x s' onTrue onFalse hs hw ht hf hrun
    beta_reduce at hrun
    rw [visitOperands] at hrun
    simpa only [StaticContext.MayBeAll] using he.tests ctx hs hw ht hf hrun
  | e :: e' :: rest =>
    have hsplit : e.tree.All (Node.Fits lax A) ∧ AllIn (Node.Fits lax A) (Expr.trees (e' :: rest)) := by
      simpa only [Expr.trees, allIn_cons] using h
    have he := visitExpr_sees e hsplit.1
    have hrest := visitOperands_tests op (e' :: rest) hsplit.2
    intro ctx s x s' onTrue onFalse hs hw ht hf hrun
    beta_reduce at hrun
    rw [visitOperands] at hrun
    · simpa only [StaticContext.MayBeAll] using operand_tests (he.tests ctx) (hrest ctx) hs hw ht hf hrun
    · nofun

theorem visitKeywords_evaluates (ks : List Keyword)
    (h : AllIn (Node.Fits lax A) (Keyword.trees ks)) :
    ∀ ctx : Context, Evaluates lax a A ctx (visitKeywords u ctx ks) := by
  match ks with
  | [] => exact fun ctx => .pure _
  | .mk m name value :: ks =>
    simp only [Keyword.trees, allIn_cons, all_mk] at h
    have hv := visitExpr_sees value h.1.2.1
    have hks := visitKeywords_evaluates ks h.2
    exact fun ctx => .bind (hv.value ctx) fun _ => hks ctx

theorem visitFirstIterable_evaluates (cs : List Clause)
    (h : AllIn (Node.Fits lax A) (Clause.trees cs)) :
    ∀ ctx : Context, Evaluates lax a A ctx (visitFirstIterable u ctx cs) := by
  match cs with
  | [] => exact fun ctx => .ofQuiet (.throw _)
  | .mk m target iterable conditions :: cs =>
    simp only [Clause.trees, allIn_cons, all_mk] at h
    have hi := visitExpr_sees iterable h.1.2.2.1
    exact fun ctx => hi.value ctx

theorem visitClauses_sifts (cs : List Clause) (h : AllIn (Node.Fits lax A) (Clause.trees cs)) :
    ∀ (ctx : Context) (outer : Nat) (onFalse : FlowRef) (isFirst : Bool) (added : List (List SymbolRef)),
      Sifts lax a A ctx onFalse (visitClauses u ctx outer onFalse isFirst added cs) := by
  match cs with
  | [] => exact fun ctx outer onFalse isFirst added => (Evaluates.pure _).sifts onFalse
  | .mk m target iterable conditions :: cs =>
    simp only [Clause.trees, allIn_cons, all_mk] at h
    have ht := visitExpr_sees target h.1.2.1
    have hi := visitExpr_sees iterable h.1.2.2.1
    have hc := visitConditions_sifts conditions h.1.2.2.2
    have hcs := visitClauses_sifts cs h.2
    intro ctx outer onFalse isFirst added
    have hend : Sifts lax a A ctx onFalse (do
        visitExpr u ctx .target target
        visitConditions u ctx onFalse conditions
        visitClauses u ctx outer onFalse false added.tail cs) :=
      .bind ((ht.target ctx).sifts onFalse) (.bind (hc ctx onFalse) (hcs ctx outer onFalse false added.tail))
    rw [visitClauses]
    refine .bind ((takeOverOuter_law evaluates_binds outer _ : Evaluates lax a A ctx _).sifts onFalse) ?_
    cases isFirst with
    | true => exact hend
    | false => exact .bind ((hi.value ctx).sifts onFalse) hend

theorem visitConditions_sifts (es : List Expr) (h : AllIn (Node.Fits lax A) (Expr.trees es)) :
    ∀ (ctx : Context) (onFalse : FlowRef), Sifts lax a A ctx onFalse (visitConditions u ctx onFalse es) := by
  match es with
  | [] => exact fun ctx onFalse => (Evaluates.pure _).sifts onFalse
  | e :: es =>
    simp only [Expr.trees, allIn_cons] at h
    have he := visitExpr_sees e h.1
    have hes := visitConditions_sifts es h.2
    intro ctx onFalse
    rw [visitConditions]
    exact .bind (fun _ _ _ hs hw hj hrun => condition_walked (he.tests ctx) hs hw hj hrun) (hes ctx onFalse)

theorem visitDefaults_evaluates (ps : Parameters) (h : ps.tree.All (Node.Fits lax A)) :
    ∀ ctx : Context, Evaluates lax a A ctx (visitDefaults u ctx ps) := by
  match ps with
  | .mk m posOnly pos rest kwOnly kwDefaults kwRest defaults =>
    simp only [Parameters.tree, all_mk, allIn_append] at h
    have hd := visitExprs_evaluates defaults h.2.2
    have hk := visitGivens_evaluates kwDefaults h.2.1.1.2
    exact fun ctx => .bind (hd ctx .value rfl) fun _ => hk ctx

end

end

end ScopeFlow.Bind
