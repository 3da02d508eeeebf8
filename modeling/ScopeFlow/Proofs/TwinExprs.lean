import ScopeFlow.Proofs.TwinImports

/-!
# Expressions and patterns in two runs

A walk over an expression takes the same way in both runs, because what it asks of the state is the same there. The node property
of `Mirror` is handed down along the tree.
-/

namespace ScopeFlow.Bind

open Store NodeTree

variable {ω ω' : Type} {p : Twins ω ω'} {N : Nat → Prop} {R : State ω → State ω' → Prop}

/-- A name clashes in both runs or in neither. -/
theorem clashes_of_like {st st' : Store} (h : st.Like st') (name : String) (container : Nat) : ∀ bound i : Nat,
    bindNamed.clashes name st' container bound i = bindNamed.clashes name st container bound i := by
  intro bound
  induction bound with
  | zero => intro i; rfl
  | succ bound ih =>
    intro i
    simp only [bindNamed.clashes, h.isSome_symbol?, h.parent?, ih]

theorem Notes.enterYield_mirrors (H : Notes p R) (ctx : Context) (mark : Mark) (isFrom : Bool) :
    Mirrors R (enterYield p.left ctx mark isFrom) (enterYield p.right ctx mark isFrom) := by
  have hreport := fun key => H.reportError key mark ""
  unfold enterYield
  dsimp only [Twins.right]
  refine .when (hreport _) fun _ => ?_
  split
  · refine .when (hreport _) fun _ => ?_
    split
    · exact .ite (H.adjustFunction_mirrors _ _) (.pure rfl)
    · exact .pure rfl
  · split
    · refine .when (hreport _) fun _ => ?_
      split
      · exact .ite (H.adjustFunction_mirrors _ _) (.pure rfl)
      · exact .pure rfl
    · split
      · exact .ite (H.adjustFunction_mirrors _ _) (.pure rfl)
      · exact .pure rfl

theorem Notes.enterAwait_mirrors (H : Notes p R) (mark : Mark) :
    Mirrors R (enterAwait p.left mark) (enterAwait p.right mark) := by
  unfold enterAwait
  dsimp only [Twins.right]
  split
  · exact .pure rfl
  · exact H.reportError _ _ _

/-- A name is one symbol in both runs, and nothing changes. -/
theorem symbolIn_meets {s : State ω} {t : State ω'} (hl : s.store.Like t.store) (scope : Nat) (name : String) :
    Meets (fun a b => a = s ∧ b = t) (Option.Rel fun x y => SameId s.store t.store x.id y.id) ((symbolIn scope name).run s)
      ((symbolIn scope name).run t) := .ok (sameId_of_like (hl.symbol? scope name)) ⟨rfl, rfl⟩

section

variable (H : Mirror p N R)
include H

theorem enterExpr_mirrors (ctx : Context) (role : Role) {e : Expr} (hn : N e.index) :
    Mirrors R (enterExpr ctx role e) (enterExpr ctx role e) :=
  .ite (assignReference_mirrors H ctx hn false) (.pure rfl)

theorem leaveExpr_mirrors (ctx : Context) (role : Role) (e : Expr) :
    Mirrors R (leaveExpr p.left ctx role e) (leaveExpr p.right ctx role e) := by
  cases role with
  | test onTrue onFalse => exact .ite (.pure rfl) (linkTest_mirrors H ctx _ _ e)
  | value | target => exact .pure rfl

theorem around_mirrors (ctx : Context) (role : Role) {e : Expr} (hn : e.tree.All (On N))
    {parts : BindM ω Unit} {parts' : BindM ω' Unit} (hp : Mirrors R parts parts') :
    Mirrors R (around p.left ctx role e parts) (around p.right ctx role e parts') :=
  .seq (enterExpr_mirrors H ctx role (e.node_of_all hn)) fun _ => .seq hp fun _ => leaveExpr_mirrors H ctx role e

theorem setScope_mirrors (node scope : Nat) : Mirrors R (setScope node scope) (setScope node scope) :=
  modifyFacts_mirrors H node fun _ => ⟨fun _ => rfl, fun _ => rfl⟩

theorem showKeys_mirrors (node : Nat) : Mirrors R (showKeys node) (showKeys node) :=
  modifyFacts_mirrors H node fun _ => ⟨fun _ => rfl, id⟩

/-- A scope that is opened below the nearest one that is no class, in front of what is done with it. -/
theorem openScope_alike {α β : Type} {V : α → β → Prop} (ctx : Context) {type : ScopeType}
    (ht : type = .function ∨ type = .classBody)
    {k : Nat → BindM ω α} {l : Nat → BindM ω' β} (hk : ∀ scope, Alike R V (k scope) (l scope)) :
    Alike R V (nonClassScope ctx >>= fun parent => newScope type parent >>= k)
      (nonClassScope ctx >>= fun parent => newScope type parent >>= l) := by
  rw [← bind_assoc, ← bind_assoc]
  exact .seq (H.openScope ctx type ht) hk

theorem enqueue_mirrors (task : Task) :
    Mirrors R (modify fun s => { s with queue := s.queue ++ [task] } : BindM ω Unit)
      (modify fun s => { s with queue := s.queue ++ [task] } : BindM ω' Unit) := by
  refine .ofModify fun s t h => ?_
  rw [(H.look h).queue]
  exact H.queue h _

theorem deferBody_mirrors (ctx : Context) (mark : Mark) (body : Body) :
    Mirrors R (deferBody ctx mark body) (deferBody ctx mark body) :=
  openScope_alike H ctx (.inl rfl) fun scope => .seq (setScope_mirrors H _ scope) fun _ =>
    .seq (enqueue_mirrors H ⟨scope, body⟩) fun _ => .seq (showKeys_mirrors H _) fun _ => .pure rfl

theorem bindNamed_mirrors (ctx : Context) (container : Nat) (mark : Mark) (name : String) :
    Mirrors R (bindNamed p.left ctx container mark name) (bindNamed p.right ctx container mark name) := by
  refine .read fun s t h => ?_
  dsimp only
  rw [clashes_of_like (H.look h).store, (H.look h).store.size]
  exact Alike.when (H.reportError _ _ _) (fun _ => (bindName_mirrors H ctx container name).discard) h

theorem bindClauses_mirrors (ctx : Context) (clauses : List Clause) :
    Mirrors R (bindClauses p.left ctx clauses) (bindClauses p.right ctx clauses) := by
  induction clauses with
  | nil => exact .pure rfl
  | cons c clauses ih =>
    obtain ⟨m, target, iterable, conditions⟩ := c
    exact .seq (bindTarget_mirrors H ctx target) fun _ => .seq (H.inferVariable_mirrors ctx m.index false target) fun _ =>
      .seq ih fun _ => .pure rfl

theorem takeOverOuter_mirrors (outer : Nat) (refs : List SymbolRef) :
    Mirrors R (takeOverOuter outer refs) (takeOverOuter outer refs) := by
  induction refs with
  | nil => exact .pure rfl
  | cons ref refs ih =>
    intro s t h
    refine (symbolIn_meets (H.look h).store outer ref.name).andThen (fun _ _ hs => by rwa [hs.1, hs.2])
      fun x x' s t hsource hs => ?_
    obtain ⟨rfl, rfl⟩ := hs
    refine (symbolIn_meets (H.look h).store ref.scope ref.name).andThen (fun _ _ hs => by rwa [hs.1, hs.2])
      fun y y' s t hown hs => ?_
    obtain ⟨rfl, rfl⟩ := hs
    cases hsource with
    | none => exact ih h
    | some hsource =>
      cases hown with
      | none => exact ih h
      | some hown => exact (H.takeOver h hown hsource).bind fun _ _ _ => ih

theorem assignNamed_mirrors (ctx : Context) (mark : Mark) (target value : Expr) {walk : Role → BindM ω Unit}
    {walk' : Role → BindM ω' Unit} (hw : ∀ role, Mirrors R (walk role) (walk' role)) :
    Mirrors R (assignNamed p.left ctx mark target value walk) (assignNamed p.right ctx mark target value walk') := by
  unfold assignNamed
  dsimp only [Twins.right]
  split
  · exact .seq (H.reportError _ _ _) fun _ => hw .value
  · refine .bind (factsOf_alike H _) fun _ _ hfacts => ?_
    rw [hfacts.scope]
    split
    · exact .throw _
    · have hrest := Alike.seq (H.inferVariable_mirrors ctx value.index false target) fun _ => hw .target
      split
      · exact .seq (bindNamed_mirrors H ctx _ _ _) fun _ => hrest
      · exact .seq (.throw _) fun _ => hrest

theorem comprehend_mirrors (ctx : Context) (mark : Mark) (clauses : List Clause)
    {walk : Context → FlowRef → List (List SymbolRef) → BindM ω Unit}
      {walk' : Context → FlowRef → List (List SymbolRef) → BindM ω' Unit}
    (hw : ∀ (inner : Context) onFalse added, Mirrors R (walk inner onFalse added) (walk' inner onFalse added)) :
    Mirrors R (comprehend p.left ctx mark clauses walk) (comprehend p.right ctx mark clauses walk') :=
  .seq (H.openComprehension _) fun scope => .seq (setScope_mirrors H _ scope) fun _ => .seq (newBranch_mirrors H) fun _ =>
    .seq (bindClauses_mirrors H _ clauses) fun _ => .seq (hw { ctx with scope := scope } _ _) fun _ =>
      .seq (linkCurrent_mirrors H _) fun _ => finish_mirrors H _

mutual

theorem visitExpr_mirrors (ctx : Context) (role : Role) (e : Expr)
    (hn : e.tree.All (On N)) : Mirrors R (visitExpr p.left ctx role e) (visitExpr p.right ctx role e) := by
  have haround := fun {f : BindM ω Unit} {g : BindM ω' Unit} (h : Mirrors R f g) => around_mirrors H ctx role hn h
  match e with
  | .boolOp m op values =>
    have hvalues := fun onTrue onFalse => visitOperands_mirrors ctx op onTrue onFalse values (all_mk.1 hn).2
    cases role with
    | test onTrue onFalse =>
      rw [visitExpr, visitExpr]
      exact haround (hvalues _ _)
    | value | target =>
      rw [visitExpr, visitExpr]
      · exact haround (H.frames.eitherWay hvalues)
      all_goals simp
  | .named m target value =>
    obtain ⟨_, ht, hv, _⟩ : _ ∧ target.tree.All (On N) ∧ value.tree.All (On N) ∧ _ :=
      by simpa only [Expr.tree, all_mk, allIn_cons] using hn
    rw [visitExpr, visitExpr]
    exact haround (.seq (visitExpr_mirrors ctx .value value hv) fun _ => assignNamed_mirrors H ctx m target value fun role =>
      visitExpr_mirrors ctx role target ht)
  | .unaryOp m op operand =>
    have hoperand := fun role => visitExpr_mirrors ctx role operand (allIn_cons.1 (all_mk.1 hn).2).1
    cases role with
    | test onTrue onFalse =>
      cases op with
      | not =>
        rw [visitExpr, visitExpr]
        exact haround (hoperand _)
      | invert | plus | minus =>
        rw [visitExpr, visitExpr]
        · exact haround (hoperand _)
        all_goals simp
    | value | target =>
      rw [visitExpr, visitExpr]
      · exact haround (hoperand _)
      all_goals simp
  | .comprehension m kind elements clauses =>
    obtain ⟨_, he, hcs⟩ : _ ∧ AllIn (On N) (Expr.trees elements) ∧ AllIn (On N) (Clause.trees clauses) := by
      simpa only [Expr.tree, all_mk, allIn_append] using hn
    rw [visitExpr, visitExpr]
    refine haround (.seq (visitFirstIterable_mirrors ctx clauses hcs) fun _ => comprehend_mirrors H ctx m clauses
      fun inner onFalse added => ?_)
    exact .seq (visitClauses_mirrors inner ctx.scope onFalse true added clauses hcs) fun _ =>
      visitExprs_mirrors inner .value elements he
  | .binOp .. | .lambda .. | .ifElse .. | .dict .. | .set .. | .await .. | .yield .. | .yieldFrom .. | .compare ..
  | .formatted .. | .joined .. | .constant .. | .member .. | .subscript .. | .name .. | .list .. | .tuple ..
  | .slice .. | .call .. | .starred .. =>
    -- The parts are walked one after the other, and the node may be stamped on the way.
    simp only [Expr.tree, all_mk, allIn_cons, allIn_append, and_assoc] at hn
    repeat obtain ⟨_, hn⟩ := hn
    rw [visitExpr, visitExpr]
    refine haround ?_
    repeat' first
      | with_reducible first
        | exact visitExpr_mirrors ctx _ _ ‹_›
        | exact visitExprs_mirrors ctx _ _ ‹_›
        | exact visitGiven_mirrors ctx _ ‹_›
        | exact visitGivens_mirrors ctx _ ‹_›
        | exact visitKeywords_mirrors ctx _ ‹_›
        | exact visitDefaults_mirrors ctx _ ‹_›
        | exact H.followCall_mirrors ctx _ _ _
        | exact (deferBody_mirrors H ctx _ _).discard
        | exact H.enterAwait_mirrors _
        | exact H.enterYield_mirrors _ _ _
        | refine H.frames.choice (fun _ _ => ?_) ?_ ?_
        | refine .seq ?_ fun _ => ?_
      | exact .pure rfl
      | exact stamp_mirrors H _
      | exact call_mirrors H ctx _ _
      | refine .when (assignTarget_mirrors H ctx false _ ‹_›) fun _ => ?_

theorem visitExprs_mirrors (ctx : Context) (role : Role) (es : List Expr)
    (hn : AllIn (On N) (Expr.trees es)) : Mirrors R (visitExprs p.left ctx role es) (visitExprs p.right ctx role es) := by
  match es with
  | [] =>
    rw [visitExprs, visitExprs]
    exact .pure rfl
  | e :: es =>
    obtain ⟨he, hes⟩ := allIn_cons.1 hn
    rw [visitExprs, visitExprs]
    exact .seq (visitExpr_mirrors ctx role e he) fun _ => visitExprs_mirrors ctx role es hes

theorem visitGiven_mirrors (ctx : Context) (e : Option Expr)
    (hn : AllIn (On N) (Expr.givenTree e)) : Mirrors R (visitGiven p.left ctx e) (visitGiven p.right ctx e) := by
  match e with
  | none =>
    rw [visitGiven, visitGiven]
    exact .pure rfl
  | some e =>
    rw [visitGiven, visitGiven]
    exact visitExpr_mirrors ctx .value e (allIn_cons.1 hn).1

theorem visitGivens_mirrors (ctx : Context) (es : List (Option Expr))
    (hn : AllIn (On N) (Expr.givenTrees es)) : Mirrors R (visitGivens p.left ctx es) (visitGivens p.right ctx es) := by
  match es with
  | [] =>
    rw [visitGivens, visitGivens]
    exact .pure rfl
  | e :: es =>
    obtain ⟨he, hes⟩ := allIn_append.1 hn
    rw [visitGivens, visitGivens]
    exact .seq (visitGiven_mirrors ctx e he) fun _ => visitGivens_mirrors ctx es hes

theorem visitOperands_mirrors (ctx : Context) (op : BoolOperator)
    (onTrue onFalse : FlowRef) (es : List Expr) (hn : AllIn (On N) (Expr.trees es)) :
    Mirrors R (visitOperands p.left ctx op onTrue onFalse es) (visitOperands p.right ctx op onTrue onFalse es) := by
  match es with
  | [] =>
    rw [visitOperands, visitOperands]
    exact .throw _
  | [e] =>
    rw [visitOperands, visitOperands]
    exact visitExpr_mirrors ctx _ e (allIn_cons.1 hn).1
  | e :: e' :: rest =>
    obtain ⟨he, hrest⟩ := allIn_cons.1 hn
    rw [visitOperands, visitOperands.eq_3 p.right]
    · exact .seq (H.frames.operand fun _ _ => visitExpr_mirrors ctx _ e he) fun _ =>
        visitOperands_mirrors ctx op onTrue onFalse (e' :: rest) hrest
    all_goals simp

theorem visitKeywords_mirrors (ctx : Context) (ks : List Keyword)
    (hn : AllIn (On N) (Keyword.trees ks)) : Mirrors R (visitKeywords p.left ctx ks) (visitKeywords p.right ctx ks) := by
  match ks with
  | [] =>
    rw [visitKeywords, visitKeywords]
    exact .pure rfl
  | .mk m name value :: ks =>
    obtain ⟨hk, hks⟩ := allIn_cons.1 hn
    rw [visitKeywords, visitKeywords]
    exact .seq (visitExpr_mirrors ctx .value value (allIn_cons.1 (all_mk.1 hk).2).1) fun _ => visitKeywords_mirrors ctx ks hks

theorem visitFirstIterable_mirrors (ctx : Context) (cs : List Clause)
    (hn : AllIn (On N) (Clause.trees cs)) : Mirrors R (visitFirstIterable p.left ctx cs) (visitFirstIterable p.right ctx cs) := by
  match cs with
  | [] =>
    rw [visitFirstIterable, visitFirstIterable]
    exact .throw _
  | .mk m target iterable conditions :: cs =>
    rw [visitFirstIterable, visitFirstIterable]
    exact visitExpr_mirrors ctx .value iterable (allIn_cons.1 (allIn_cons.1 (all_mk.1 (allIn_cons.1 hn).1).2).2).1

theorem visitClauses_mirrors (ctx : Context) (outer : Nat) (onFalse : FlowRef)
    (isFirst : Bool) (added : List (List SymbolRef)) (cs : List Clause) (hn : AllIn (On N) (Clause.trees cs)) :
    Mirrors R (visitClauses p.left ctx outer onFalse isFirst added cs)
      (visitClauses p.right ctx outer onFalse isFirst added cs) := by
  match cs with
  | [] =>
    rw [visitClauses, visitClauses]
    exact .pure rfl
  | .mk m target iterable conditions :: cs =>
    obtain ⟨hclause, hcs⟩ := allIn_cons.1 hn
    obtain ⟨_, ht, hi, hconds⟩ : _ ∧ target.tree.All (On N) ∧ iterable.tree.All (On N) ∧
      AllIn (On N) (Expr.trees conditions) := by
      simpa only [all_mk, allIn_cons] using hclause
    have hrest := Alike.seq (visitExpr_mirrors ctx .target target ht) fun _ =>
      Alike.seq (visitConditions_mirrors ctx onFalse conditions hconds) fun _ =>
        visitClauses_mirrors ctx outer onFalse false added.tail cs hcs
    rw [visitClauses, visitClauses]
    exact .seq (takeOverOuter_mirrors H outer _) fun _ =>
      .ite hrest (.seq (visitExpr_mirrors ctx .value iterable hi) fun _ => hrest)

theorem visitConditions_mirrors (ctx : Context) (onFalse : FlowRef) (es : List Expr)
    (hn : AllIn (On N) (Expr.trees es)) :
      Mirrors R (visitConditions p.left ctx onFalse es) (visitConditions p.right ctx onFalse es) := by
  match es with
  | [] =>
    rw [visitConditions, visitConditions]
    exact .pure rfl
  | e :: es =>
    obtain ⟨he, hes⟩ := allIn_cons.1 hn
    rw [visitConditions, visitConditions]
    exact .seq (H.frames.condition fun _ => visitExpr_mirrors ctx _ e he) fun _ => visitConditions_mirrors ctx onFalse es hes

theorem visitDefaults_mirrors (ctx : Context) (ps : Parameters)
    (hn : ps.tree.All (On N)) : Mirrors R (visitDefaults p.left ctx ps) (visitDefaults p.right ctx ps) := by
  match ps with
  | .mk m posOnly pos rest kwOnly kwDefaults kwRest defaults =>
    obtain ⟨_, ⟨⟨_, hk⟩, _⟩, hd⟩ : _ ∧ ((_ ∧ AllIn (On N) (Expr.givenTrees kwDefaults)) ∧ _) ∧
      AllIn (On N) (Expr.trees defaults) := by
      simpa only [Parameters.tree, all_mk, allIn_append] using hn
    rw [visitDefaults, visitDefaults]
    exact .seq (visitExprs_mirrors ctx .value defaults hd) fun _ => visitGivens_mirrors ctx kwDefaults hk

end

end

section

variable (H : Mirror p (fun _ => True) R)
include H

theorem Mirror.expr (ctx : Context) (role : Role) (e : Expr) :
    Mirrors R (visitExpr p.left ctx role e) (visitExpr p.right ctx role e) :=
  visitExpr_mirrors H ctx role e fun _ _ => trivial

theorem Mirror.exprs (ctx : Context) (role : Role) (es : List Expr) :
    Mirrors R (visitExprs p.left ctx role es) (visitExprs p.right ctx role es) :=
      visitExprs_mirrors H ctx role es fun _ _ => trivial

theorem Mirror.given (ctx : Context) (e : Option Expr) : Mirrors R (visitGiven p.left ctx e) (visitGiven p.right ctx e) :=
  visitGiven_mirrors H ctx e fun _ _ => trivial

theorem visitAnnotations_mirrors (ctx : Context) (ps : List Parameter) :
    Mirrors R (visitAnnotations p.left ctx ps) (visitAnnotations p.right ctx ps) := by
  induction ps with
  | nil => exact .pure rfl
  | cons q ps ih => exact .seq (H.given ctx q.hint) fun _ => ih

/-! ## Patterns -/

theorem introduce_mirrors (ctx : Context) (site : Site) (name : String) :
    Mirrors R (introduce p.left ctx site name) (introduce p.right ctx site name) := by
  refine .seq (bindHere_mirrors H ctx name) fun symbol => .seq (assignName_mirrors H ctx (fun _ => trivial) _ _) fun _ => ?_
  cases symbol with
  | none => exact .pure rfl
  | some ref => exact H.declare_mirrors ref _

theorem capture_mirrors (ctx : Context) (site : Site) (name : Option String) :
    Mirrors R (capture p.left ctx site name) (capture p.right ctx site name) := by
  cases name with
  | none => exact .pure rfl
  | some name => exact .ite (.pure rfl) (introduce_mirrors H ctx site name)

mutual

theorem visitPattern_mirrors (ctx : Context) (q : Pattern) :
    Mirrors R (visitPattern p.left ctx q) (visitPattern p.right ctx q) := by
  match q with
  | .value m e =>
    rw [visitPattern, visitPattern]
    exact H.expr ctx .value e
  | .singleton m value =>
    rw [visitPattern, visitPattern]
    exact .pure rfl
  | .sequence m ps =>
    rw [visitPattern, visitPattern]
    exact visitPatterns_mirrors ctx ps
  | .mapping m keys ps rest =>
    rw [visitPattern, visitPattern]
    exact .seq (H.exprs ctx .value keys) fun _ => .seq (visitPatterns_mirrors ctx ps) fun _ =>
      .ite (.pure rfl) (capture_mirrors H ctx _ rest)
  | .classOf m cls ps attributes attributePatterns =>
    rw [visitPattern, visitPattern]
    exact .seq (H.expr ctx .value cls) fun _ => .seq (visitPatterns_mirrors ctx ps) fun _ =>
      visitPatterns_mirrors ctx attributePatterns
  | .star m name | .capture m none name =>
    rw [visitPattern, visitPattern]
    exact capture_mirrors H ctx _ name
  | .capture m (some inner) name =>
    rw [visitPattern, visitPattern]
    exact .seq (visitPattern_mirrors ctx inner) fun _ => capture_mirrors H ctx _ name
  | .alternatives m ps =>
    rw [visitPattern, visitPattern]
    exact .seq (newBranch_mirrors H) fun after => .seq (visitAlternatives_mirrors ctx after ps) fun _ => finish_mirrors H after

theorem visitPatterns_mirrors (ctx : Context) (ps : List Pattern) :
    Mirrors R (visitPatterns p.left ctx ps) (visitPatterns p.right ctx ps) := by
  match ps with
  | [] =>
    rw [visitPatterns, visitPatterns]
    exact .pure rfl
  | q :: ps =>
    rw [visitPatterns, visitPatterns]
    exact .seq (visitPattern_mirrors ctx q) fun _ => visitPatterns_mirrors ctx ps

theorem visitAlternatives_mirrors (ctx : Context) (after : FlowRef) (ps : List Pattern) :
    Mirrors R (visitAlternatives p.left ctx after ps) (visitAlternatives p.right ctx after ps) := by
  match ps with
  | [] =>
    rw [visitAlternatives, visitAlternatives]
    exact .pure rfl
  | q :: ps =>
    rw [visitAlternatives, visitAlternatives]
    exact .seq (visitPattern_mirrors ctx q) fun _ => .seq (linkCurrent_mirrors H after) fun _ =>
      visitAlternatives_mirrors ctx after ps

end

end

end ScopeFlow.Bind
