import ScopeFlow.Proofs.JobScopes

/-!
# Jobs that walk expressions

A walk of an expression upholds what holds of a job, from any place that is ready for it. In the role of a target its names have
to be known; the walk itself makes the target of an assignment expression and those of comprehension clauses known before it
assigns them.

The proof follows the walk case by case. What a node hands down to its parts is its own enclosure, but for lambdas, whose bodies
wait, and comprehensions, which are walked in a scope of their own.
-/

namespace ScopeFlow.Bind

open Store NodeTree

variable {ω : Type} {u : Setup ω} {w : Job} {low : Nat} {l : Enclosure} {s s' s₀ s₁ : State ω} {ctx : Context} {e : Expr}

/-! ## The steps around parts -/

theorem enterExpr_upholds (hv : Serves u w) (hc : Stands w ctx.scope s₀.store) {role : Role}
    (hk : role = .target → ∀ x ∈ e.targetNames, w.Known s₀.store ctx.scope x) :
    Upholds u w low s₀ (enterExpr ctx role e : BindM ω Unit) := by
  refine .branch (fun h => ?_) fun _ => .pure _
  simp only [Bool.and_eq_true, beq_iff_eq] at h
  exact assignReference_upholds hv hc (hk h.1) false

theorem leaveExpr_upholds (ctx : Context) (role : Role) (h : e.tree.Under (Admits u w) l) :
    Upholds u w low s₀ (leaveExpr u ctx role e) := by
  cases role with
  | test onTrue onFalse => exact .ite (.pure _) (linkTest_upholds ctx onTrue onFalse fun hstrict => parsed_of_under h hstrict)
  | value => exact .pure _
  | target => exact .pure _

theorem around_upholds (hv : Serves u w) (hr : Ready u w ctx.scope l s₀) {role : Role} {parts : BindM ω Unit}
    (h : e.tree.Under (Admits u w) l) (hk : role = .target → ∀ x ∈ e.targetNames, w.Known s₀.store ctx.scope x)
    (hp : Upholds u w l.low s₀ parts) : Upholds u w l.low s₀ (around u ctx role e parts) :=
  (enterExpr_upholds hv hr.stands hk).seq fun _ => hp.seq fun _ => leaveExpr_upholds ctx role h

theorem enterYield_upholds (ctx : Context) (mark : Mark) (isFrom : Bool) : Upholds u w low s₀ (enterYield u ctx mark isFrom) := by
  unfold enterYield
  refine .when (fun _ => reportError_upholds _ _ _) fun _ => ?_
  dsimp only
  -- What may be reported depends on the function around; in any case the function whose body is bound is told.
  split
  · refine .when (fun _ => reportError_upholds _ _ _) fun _ => ?_
    split
    · exact .ite (adjustFunction_upholds _ _) (.pure _)
    · exact .pure _
  · split
    · refine .when (fun _ => reportError_upholds _ _ _) fun _ => ?_
      split
      · exact .ite (adjustFunction_upholds _ _) (.pure _)
      · exact .pure _
    · split
      · exact .ite (adjustFunction_upholds _ _) (.pure _)
      · exact .pure _

theorem enterAwait_upholds (mark : Mark) : Upholds u w low s₀ (enterAwait u mark) := by
  unfold enterAwait
  split
  · exact .pure _
  · exact reportError_upholds _ _ _

theorem takeOverOuter_upholds {outer : Nat} (ho : Inside w s₀.store outer) (refs : List SymbolRef)
    (hrefs : ∀ r ∈ refs, Inside w s₀.store r.scope) : Upholds u w low s₀ (takeOverOuter outer refs : BindM ω Unit) := by
  induction refs with
  | nil => exact .pure _
  | cons ref refs ih =>
    have hnext := ih fun r hr => hrefs r (by simp [hr])
    refine (symbolIn_walks outer ref.name).bind fun source s₁ hgo₁ hsource => ?_
    refine (symbolIn_walks ref.scope ref.name).bind fun own s₂ hgo₂ hown => ?_
    have hlater := hnext.later (hgo₁.trans hgo₂)
    cases source with
    | none => exact hlater
    | some source =>
      cases own with
      | none => exact hlater
      | some own =>
        have hnames := ((hrefs ref (by simp)).mono (hgo₁.trans hgo₂).grows).names hown.symm
        have hnames' := ((ho.mono hgo₁.grows).names hsource.symm).mono hgo₂.grows
        exact (takeOver_upholds hnames hnames').seq fun _ => hlater

/-! ## Assignment expressions and comprehensions -/

/-- The target of an assignment expression is bound in its container before it is assigned. -/
theorem assignNamed_upholds (hr : Ready u w ctx.scope l s₀) {m : Mark} {target value : Expr} {walk : Role → BindM ω Unit}
    (h : (Expr.named m target value).tree.Under (Admits u w) l) (hvalue : Upholds u w l.low s₀ (walk .value))
    (htarget : ∀ s₁, Goes u w l.low s₀ s₁ → (∀ x ∈ target.targetNames, w.Known s₁.store ctx.scope x) →
      Upholds u w l.low s₁ (walk .target)) : Upholds u w l.low s₀ (assignNamed u ctx m target value walk) := by
  simp only [Expr.tree, under_mk, underIn_cons] at h
  obtain ⟨hnode, htree, _⟩ := h
  have hplain : u.outline.assignmentContainer m.index = l.plain := hnode.encloses.2.plain
  unfold assignNamed
  rw [hplain]
  cases hp : l.plain with
  | none => exact (reportError_upholds _ _ _).seq fun _ => hvalue
  | some container =>
    intro s hgo hs
    obtain ⟨_, i, hi, hthrough⟩ := (hr.mono hgo).plain container hp
    refine Runs.bind (Q := fun facts t => t = s ∧ facts = s.factsAt container) ?_ fun facts t _ ht hq => ?_
    · refine ⟨fun a t h => ?_, fun e t h => by cases h⟩
      obtain ⟨rfl, rfl⟩ := factsOf_ok.1 h
      exact ⟨.refl _, hs, rfl, rfl⟩
    obtain ⟨rfl, rfl⟩ := hq
    rw [State.scopeAt] at hi
    simp only [hi]
    have hr' := hr.mono hgo
    cases target with
    | name tm id =>
      have hbind := bindNamed_walks hr' hthrough (fun hn => hnode.named hn id (by simp [Node.named])) tm
      refine hbind.bind (fun _ s₁ hgo₁ hk => ?_) t (.refl _) ht
      have hknown : ∀ x ∈ (Expr.name tm id).targetNames, w.Known s₁.store ctx.scope x := by
        intro x hx
        rw [Expr.targetNames, List.mem_singleton] at hx
        exact hx ▸ hk
      refine (inferVariable_upholds (hr'.mono hgo₁) _ _ _ htree (by simp [Expr.assignedMembers]) hknown).seq fun _ => ?_
      exact htarget s₁ (hgo.trans hgo₁) hknown
    | _ =>
      have hstrict : w.strict = false := by
        by_contra hstrict
        cases hnode.parsed (by simpa using hstrict)
      exact (Runs.throw (Q := fun _ _ => False) hstrict _).bind fun _ _ _ _ hq => hq.elim

/-- The names that the clauses of a comprehension bind. -/
def clauseNames : List Clause → List String
  | [] => []
  | .mk _ target _ _ :: clauses => target.targetNames ++ clauseNames clauses

theorem bindClauses_walks (hr : Ready u w ctx.scope l s₀) (clauses : List Clause)
    (h : UnderIn (Admits u w) (fun _ => l) (Clause.trees clauses)) :
    Walks u w l.low s₀ (bindClauses u ctx clauses) fun added s => (∀ x ∈ clauseNames clauses, w.Known s.store ctx.scope x) ∧
      ∀ refs ∈ added, ∀ r ∈ refs, Inside w s.store r.scope := by
  induction clauses generalizing s₀ with
  | nil => exact .ret fun _ _ => ⟨fun x hx => by simp [clauseNames] at hx, by simp⟩
  | cons c clauses ih =>
    obtain ⟨m, target, iterable, conditions⟩ := c
    simp only [Clause.trees, underIn_cons, under_mk] at h
    obtain ⟨⟨hnode, htarget, _⟩, hclauses⟩ := h
    refine (bindTarget_binds hr.stands target).bind fun added s₁ hgo₁ hk₁ => ?_
    have hr₁ := hr.mono hgo₁
    refine (inferVariable_upholds hr₁ m.index false target htarget (fun x hx => hnode.members x hx) hk₁.1).bind
      fun _ s₂ hgo₂ _ => ?_
    refine (ih (hr₁.mono hgo₂) hclauses).bind fun rest s₃ hgo₃ hk₃ => .ret fun s hgo =>
      ⟨fun x hx => ?_, fun refs hrefs r hr => ?_⟩
    · rw [clauseNames, List.mem_append] at hx
      rcases hx with hx | hx
      · exact (hk₁.1 x hx).mono ((hgo₂.trans hgo₃).trans hgo).grows
      · exact (hk₃.1 x hx).mono hgo.grows
    · rcases List.mem_cons.1 hrefs with rfl | hrefs
      · exact (hk₁.2 r hr).mono ((hgo₂.trans hgo₃).trans hgo).grows
      · exact (hk₃.2 refs hrefs r hr).mono hgo.grows

/-- The parts of a comprehension are walked in its scope, where the names of its clauses are known. -/
theorem comprehend_upholds {m : Mark} {n : Node} {clauses : List Clause}
    {walk : Context → FlowRef → List (List SymbolRef) → BindM ω Unit} (hr : Ready u w ctx.scope l s₀)
    (hn : u.outline.node? m.index = some n) (hnode : n.isComprehension = true) (hlow : l.low ≤ m.index)
    (hc : UnderIn (Admits u w) (fun _ => Node.inNest l) (Clause.trees clauses))
    (hwalk : ∀ inner s₁ onFalse added, Ready u w inner.scope (Node.inNest l) s₁ →
      (∀ x ∈ clauseNames clauses, w.Known s₁.store inner.scope x) →
      (∀ refs ∈ added, ∀ r ∈ refs, Inside w s₁.store r.scope) → Inside w s₁.store ctx.scope →
      Upholds u w l.low s₁ (walk inner onFalse added)) :
    Upholds u w l.low s₀ (comprehend u ctx m clauses walk) := by
  intro s hgo hs
  have hr' := hr.mono hgo
  have hkind : (n.isFunction || n.isLambda) = false ∧ n.isClass = false := by
    cases n with
    | expr e =>
      cases e with
      | comprehension => exact ⟨rfl, rfl⟩
      | _ => cases hnode
    | _ => cases hnode
  refine (newScope_runs hs rfl hr'.stands.below fun _ => hr'.stands.here).bind fun scope s₁ hgo₁ hs₁ hq => ?_
  have hinner := (hr'.mono hgo₁).inside hq.1
  refine (setScope_runs hs₁ hn hkind.1 hlow hinner.stands.below hq.1.blank fun h => by rw [hkind.2] at h; cases h).bind
    fun _ s₂ hgo₂ hs₂ _ => ?_
  have hready : Ready u w scope (Node.inNest l) s₂ := hinner.mono hgo₂
  refine (newBranch_upholds.seq fun onFalse => ?_) s₂ (.refl _) hs₂
  refine (bindClauses_walks hready clauses hc).bind fun added s₃ hgo₃ hk => ?_
  have houter : Inside w s₃.store ctx.scope :=
    .inl (((hr'.stands.below.mono hgo₁.grows).mono hgo₂.grows).mono hgo₃.grows)
  exact (hwalk _ s₃ onFalse added (hready.mono hgo₃) hk.1 hk.2 houter).seq fun _ => (linkCurrent_upholds _).seq fun _ =>
    finish_upholds _

/-! ## The walk -/

section

variable (hv : Serves u w)
include hv

mutual

theorem visitExpr_upholds {ctx : Context} {l : Enclosure} {s₀ : State ω} (hr : Ready u w ctx.scope l s₀) (role : Role)
    (e : Expr) (h : e.tree.Under (Admits u w) l)
    (hk : role = .target → ∀ x ∈ e.targetNames, w.Known s₀.store ctx.scope x) :
    Upholds u w l.low s₀ (visitExpr u ctx role e) := by
  match e with
  | .boolOp m op values =>
    have hparts := h
    simp only [Expr.tree, under_mk] at hparts
    have hvalues := fun onTrue onFalse => visitOperands_upholds hr op onTrue onFalse values hparts.2 hparts.1.parsed
    cases role with
    | test onTrue onFalse =>
      rw [visitExpr]
      exact around_upholds hv hr h hk (hvalues _ _)
    | value | target =>
      rw [visitExpr]
      · exact around_upholds hv hr h hk (upholds_frames.eitherWay fun _ _ => ⟨rfl, hvalues _ _⟩).2
      · simp
  | .named m target value =>
    rw [visitExpr]
    refine around_upholds hv hr h hk ?_
    have hparts := h
    simp only [Expr.tree, under_mk, underIn_cons] at hparts
    obtain ⟨_, htarget, hval, _⟩ := hparts
    refine (visitExpr_upholds hr .value value hval nofun).bind fun _ s₁ hgo₁ _ => ?_
    refine assignNamed_upholds (hr.mono hgo₁) h (visitExpr_upholds (hr.mono hgo₁) .value target htarget nofun)
      fun s₂ hgo₂ hknown => ?_
    exact visitExpr_upholds ((hr.mono hgo₁).mono hgo₂) .target target htarget fun _ => hknown
  | .unaryOp m op operand =>
    have hparts := h
    simp only [Expr.tree, under_mk, underIn_cons] at hparts
    have hoperand := fun role (hrole : role ≠ .target) =>
      visitExpr_upholds hr role operand hparts.2.1 fun htarget => absurd htarget hrole
    cases role with
    | test onTrue onFalse =>
      cases op with
      | not =>
        rw [visitExpr]
        exact around_upholds hv hr h hk (hoperand _ (by simp))
      | invert | plus | minus =>
        rw [visitExpr]
        · exact around_upholds hv hr h hk (hoperand _ (by simp))
        · simp
    | value | target =>
      rw [visitExpr]
      · exact around_upholds hv hr h hk (hoperand _ (by simp))
      · simp
  | .lambda m params body =>
    rw [visitExpr]
    refine around_upholds hv hr h hk ?_
    have hnode := (under_mk.1 (by rwa [Expr.tree] at h)).1
    obtain ⟨hparams, _⟩ := Node.under_lambda h hnode.distinct
    exact (visitDefaults_upholds hr params hparams).seq fun _ => (deferLambda_walks hr h).discard
  | .comprehension m kind elements clauses =>
    rw [visitExpr]
    refine around_upholds hv hr h hk ?_
    simp only [Expr.tree, under_mk, underIn_append] at h
    obtain ⟨hnode, helements, hclauses⟩ := h
    have hne : w.strict = true → clauses ≠ [] := hnode.parsed
    refine (visitFirstIterable_upholds hr.nest clauses hclauses hne).seq fun _ => ?_
    refine comprehend_upholds (l := l) hr hnode.encloses.1 rfl hnode.encloses.2.low hclauses
      fun inner s₁ onFalse added hready hknown hadded houter => ?_
    refine (visitClauses_upholds hready ctx.scope onFalse true added clauses hclauses hknown houter hadded).seq fun _ => ?_
    exact visitExprs_upholds hready .value elements helements nofun
  | .starred m value =>
    rw [visitExpr]
    refine around_upholds hv hr h hk ?_
    simp only [Expr.tree, under_mk, underIn_cons] at h
    have hval := visitExpr_upholds hr .value value h.2.1 nofun
    refine .branch (fun htarget => ?_) fun _ => hval
    have hknown := hk (beq_iff_eq.1 htarget)
    rw [Expr.targetNames] at hknown
    exact (assignTarget_upholds hv hr.stands false value hknown).seq fun _ => hval
  | .list m elements | .tuple m elements =>
    rw [visitExpr]
    refine around_upholds hv hr h hk ?_
    simp only [Expr.tree, under_mk] at h
    rw [Expr.targetNames] at hk
    exact visitExprs_upholds hr _ elements h.2 fun hrole => hk (by cases role <;> first | rfl | cases hrole)
  | .binOp .. | .ifElse .. | .dict .. | .set .. | .await .. | .yield .. | .yieldFrom .. | .compare .. | .call ..
  | .formatted .. | .joined .. | .constant .. | .member .. | .subscript .. | .name .. | .slice .. =>
    -- The parts are walked one after the other, from places that are ready for them.
    rw [visitExpr]
    refine around_upholds hv hr h hk ?_
    simp only [Expr.tree, under_mk, underIn_cons, underIn_append, and_assoc] at h
    repeat obtain ⟨_, h⟩ := h
    repeat' first
      | with_reducible first
        | exact call_upholds _ _ _
        | exact followCall_upholds hv _ _ _ _
        | exact stamp_upholds _
        | exact enterAwait_upholds _
        | exact enterYield_upholds _ _ _
        | refine And.right (upholds_frames.choice (fun _ _ => ⟨rfl, ?_⟩) ⟨rfl, ?_⟩ ⟨rfl, ?_⟩)
        | refine Walks.seq (Q := fun _ _ => True) ?_ fun _ => ?_
      | exact visitExpr_upholds hr _ _ ‹_› nofun
      | exact visitExprs_upholds hr .value _ ‹_› nofun
      | exact visitGiven_upholds hr _ ‹_›
      | exact visitGivens_upholds hr _ ‹_›
      | exact visitKeywords_upholds hr _ ‹_›
      | exact .pure _

theorem visitExprs_upholds {ctx : Context} {l : Enclosure} {s₀ : State ω} (hr : Ready u w ctx.scope l s₀) (role : Role)
    (es : List Expr) (h : UnderIn (Admits u w) (fun _ => l) (Expr.trees es))
    (hk : role = .target → ∀ x ∈ Expr.namesTargeted es, w.Known s₀.store ctx.scope x) :
    Upholds u w l.low s₀ (visitExprs u ctx role es) := by
  match es with
  | [] =>
    rw [visitExprs]
    exact .pure _
  | e :: es =>
    rw [visitExprs]
    simp only [Expr.trees, underIn_cons] at h
    simp only [Expr.namesTargeted, List.mem_append] at hk
    exact (visitExpr_upholds hr role e h.1 fun hrole x hx => hk hrole x (.inl hx)).seq fun _ =>
      visitExprs_upholds hr role es h.2 fun hrole x hx => hk hrole x (.inr hx)

theorem visitGiven_upholds {ctx : Context} {l : Enclosure} {s₀ : State ω} (hr : Ready u w ctx.scope l s₀)
    (e : Option Expr) (h : UnderIn (Admits u w) (fun _ => l) (Expr.givenTree e)) :
    Upholds u w l.low s₀ (visitGiven u ctx e) := by
  match e with
  | none =>
    rw [visitGiven]
    exact .pure _
  | some e =>
    rw [visitGiven]
    simp only [Expr.givenTree, underIn_cons] at h
    exact visitExpr_upholds hr .value e h.1 nofun

theorem visitGivens_upholds {ctx : Context} {l : Enclosure} {s₀ : State ω} (hr : Ready u w ctx.scope l s₀)
    (es : List (Option Expr)) (h : UnderIn (Admits u w) (fun _ => l) (Expr.givenTrees es)) :
    Upholds u w l.low s₀ (visitGivens u ctx es) := by
  match es with
  | [] =>
    rw [visitGivens]
    exact .pure _
  | e :: es =>
    rw [visitGivens]
    simp only [Expr.givenTrees, underIn_append] at h
    exact (visitGiven_upholds hr e h.1).seq fun _ => visitGivens_upholds hr es h.2

theorem visitOperands_upholds {ctx : Context} {l : Enclosure} {s₀ : State ω} (hr : Ready u w ctx.scope l s₀)
    (op : BoolOperator) (onTrue onFalse : FlowRef) (es : List Expr) (h : UnderIn (Admits u w) (fun _ => l) (Expr.trees es))
    (hne : w.strict = true → es ≠ []) : Upholds u w l.low s₀ (visitOperands u ctx op onTrue onFalse es) := by
  match es with
  | [] =>
    rw [visitOperands]
    exact .throw (by by_contra hstrict; exact hne (by simpa using hstrict) rfl) _
  | [e] =>
    rw [visitOperands]
    simp only [Expr.trees, underIn_cons] at h
    exact visitExpr_upholds hr (.test onTrue onFalse) e h.1 nofun
  | e :: e' :: rest =>
    rw [visitOperands]
    · rw [Expr.trees, underIn_cons] at h
      refine (upholds_frames.operand fun onTrue onFalse =>
        ⟨rfl, visitExpr_upholds hr (.test onTrue onFalse) e h.1 nofun⟩).2.seq fun _ => ?_
      exact visitOperands_upholds hr op onTrue onFalse (e' :: rest) h.2 (by simp)
    · simp

theorem visitKeywords_upholds {ctx : Context} {l : Enclosure} {s₀ : State ω} (hr : Ready u w ctx.scope l s₀)
    (ks : List Keyword) (h : UnderIn (Admits u w) (fun _ => l) (Keyword.trees ks)) :
    Upholds u w l.low s₀ (visitKeywords u ctx ks) := by
  match ks with
  | [] =>
    rw [visitKeywords]
    exact .pure _
  | .mk m name value :: ks =>
    rw [visitKeywords]
    simp only [Keyword.trees, underIn_cons, under_mk] at h
    exact (visitExpr_upholds hr .value value h.1.2.1 nofun).seq fun _ => visitKeywords_upholds hr ks h.2

theorem visitFirstIterable_upholds {ctx : Context} {l : Enclosure} {s₀ : State ω} (hr : Ready u w ctx.scope l s₀)
    (cs : List Clause) (h : UnderIn (Admits u w) (fun _ => l) (Clause.trees cs)) (hne : w.strict = true → cs ≠ []) :
    Upholds u w l.low s₀ (visitFirstIterable u ctx cs) := by
  match cs with
  | [] =>
    rw [visitFirstIterable]
    exact .throw (by by_contra hstrict; exact hne (by simpa using hstrict) rfl) _
  | .mk m target iterable conditions :: cs =>
    rw [visitFirstIterable]
    simp only [Clause.trees, underIn_cons, under_mk] at h
    exact visitExpr_upholds hr .value iterable h.1.2.2.1 nofun

theorem visitClauses_upholds {ctx : Context} {l : Enclosure} {s₀ : State ω} (hr : Ready u w ctx.scope l s₀)
    (outer : Nat) (onFalse : FlowRef) (isFirst : Bool) (added : List (List SymbolRef)) (cs : List Clause)
    (h : UnderIn (Admits u w) (fun _ => l) (Clause.trees cs))
    (hk : ∀ x ∈ clauseNames cs, w.Known s₀.store ctx.scope x) (ho : Inside w s₀.store outer)
    (hadded : ∀ refs ∈ added, ∀ r ∈ refs, Inside w s₀.store r.scope) :
    Upholds u w l.low s₀ (visitClauses u ctx outer onFalse isFirst added cs) := by
  match cs with
  | [] =>
    rw [visitClauses]
    exact .pure _
  | .mk m target iterable conditions :: cs =>
    rw [visitClauses]
    simp only [Clause.trees, underIn_cons, under_mk] at h
    obtain ⟨⟨_, htarget, hiterable, hconditions⟩, hclauses⟩ := h
    simp only [clauseNames, List.mem_append] at hk
    have hrest : Upholds u w l.low s₀ (do
        visitExpr u ctx .target target
        visitConditions u ctx onFalse conditions
        visitClauses u ctx outer onFalse false added.tail cs) :=
      (visitExpr_upholds hr .target target htarget fun _ x hx => hk x (.inl hx)).seq fun _ =>
        (visitConditions_upholds hr onFalse conditions hconditions).seq fun _ =>
        visitClauses_upholds hr outer onFalse false added.tail cs hclauses (fun x hx => hk x (.inr hx)) ho
          fun refs hrefs => hadded refs (List.mem_of_mem_tail hrefs)
    have hhead : ∀ r ∈ added.headD [], Inside w s₀.store r.scope := by
      cases added with
      | nil => simp
      | cons refs rest => exact hadded refs (by simp)
    refine (takeOverOuter_upholds ho _ hhead).seq fun _ => .ite hrest ?_
    exact (visitExpr_upholds hr .value iterable hiterable nofun).seq fun _ => hrest

theorem visitConditions_upholds {ctx : Context} {l : Enclosure} {s₀ : State ω} (hr : Ready u w ctx.scope l s₀)
    (onFalse : FlowRef) (es : List Expr) (h : UnderIn (Admits u w) (fun _ => l) (Expr.trees es)) :
    Upholds u w l.low s₀ (visitConditions u ctx onFalse es) := by
  match es with
  | [] =>
    rw [visitConditions]
    exact .pure _
  | e :: es =>
    rw [visitConditions]
    simp only [Expr.trees, underIn_cons] at h
    exact (upholds_frames.condition fun onTrue =>
      ⟨rfl, visitExpr_upholds hr (.test onTrue onFalse) e h.1 nofun⟩).2.seq fun _ => visitConditions_upholds hr onFalse es h.2

theorem visitDefaults_upholds {ctx : Context} {l : Enclosure} {s₀ : State ω} (hr : Ready u w ctx.scope l s₀)
    (ps : Parameters) (h : ps.tree.Under (Admits u w) l) : Upholds u w l.low s₀ (visitDefaults u ctx ps) := by
  match ps with
  | .mk m posOnly pos rest kwOnly kwDefaults kwRest defaults =>
    rw [visitDefaults]
    simp only [Parameters.tree, under_mk, underIn_append] at h
    exact (visitExprs_upholds hr .value defaults h.2.2 nofun).seq fun _ => visitGivens_upholds hr kwDefaults h.2.1.1.2

end

end

end ScopeFlow.Bind
