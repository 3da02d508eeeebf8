import ScopeFlow.Proofs.Phases
import ScopeFlow.Proofs.ThreadLayouts

/-!
# Binding keeps the graph woven

The visitors of statements put their layouts together. A phase begins with a start of its own and leaves no label under
construction, so between phases the set of such labels is empty.
-/

namespace ScopeFlow.Bind

open FlowGraph

variable {ω : Type} {T : FlowRef → Prop} {ctx : Context} {u : Setup ω} {s s' : State ω}

/-! ## Statements -/

theorem visitGuard_threads (hu : u.Steady) (ctx : Context) (guard : Option Expr) : ThreadsTest T ctx (visitGuard u ctx guard) :=
  fun _ _ _ _ ht hf => visitGuard_law threads_lays hu guard ht hf

theorem visitTest_threads (hu : u.Steady) (ctx : Context) (test : Expr) :
    ThreadsTest T ctx fun onTrue onFalse => visitExpr u ctx (.test onTrue onFalse) test :=
  fun _ _ _ _ ht hf => visitExpr_threads hu ctx _ test ⟨ht, hf⟩

theorem noteJump_threads (f : FunctionInfo → FunctionInfo) : Threads T ctx (noteJump ctx f : BindM ω Unit) :=
    .ofQuiet (noteJump_quiet _ _)

mutual

theorem visitStmt_threads {T : FlowRef → Prop} (hu : u.Steady) (ctx : Context) (join : Option FlowRef) (s : Stmt)
    (hjoin : ∀ l ∈ join, T l) : Threads T ctx (visitStmt u ctx join s) := by
  match s with
  | .classDef m name bases keywords body decorators =>
    rw [visitStmt]
    refine .bind (visitExprs_threads hu ctx decorators) fun _ => .bind (bindHere_law threads_binds _) fun _ => ?_
    refine .bind (.ofQuiet (declareAt_quiet _ _)) fun _ => .bind (.ofQuiet (setDeclaration_quiet _ _)) fun _ => ?_
    refine .bind (visitExprs_threads hu ctx bases) fun _ => .bind (visitKeywords_law threads_lays hu keywords) fun _ => ?_
    exact layOutClass_threads fun U inner _ => walkStatements_threads hu inner body
  | .returnValue m value =>
    rw [visitStmt]
    refine .bind (noteJump_threads _) fun _ => .bind (visitGiven_threads hu ctx value) fun _ =>
      .bind (stamp_threads _) fun _ => ?_
    refine jump_threads fun l hl => ?_
    simp only [Context.labels, List.mem_append] at hl ⊢
    tauto
  | .forLoop m isAsync target iterable body orElse =>
    rw [visitStmt]
    refine .bind (.discard (bindTarget_law threads_binds _)) fun _ => .bind (.ofQuiet (inferVariable_quiet _ _ _ _ _)) fun _ => ?_
    refine .bind (visitExpr_threads hu ctx .value iterable trivial) fun _ => layOutFor_threads ?_ ?_ ?_
    · exact fun U _ => visitExpr_threads hu ctx .target target trivial
    · exact fun U inner _ => walkStatements_threads hu inner body
    · exact fun U _ => walkStatements_threads hu ctx orElse
  | .whileLoop m test body orElse =>
    rw [visitStmt]
    exact layOutWhile_threads (visitTest_threads hu ctx test) (fun U inner _ => walkStatements_threads hu inner body)
      fun U _ => walkStatements_threads hu ctx orElse
  | .ifElse m test body orElse =>
    rw [visitStmt]
    refine layOutIf_threads hjoin (visitTest_threads hu ctx test) (fun U _ => walkStatements_threads hu ctx body)
      fun U after _ ha => ?_
    exact layOutElse_threads ha (walkStatements_threads hu ctx orElse) (visitElif_threads hu ctx after orElse ha)
  | .withBlock m isAsync items body =>
    rw [visitStmt]
    exact .bind (visitWithItems_law (threads_lays.sweeps hu) items fun _ _ => trivial) fun _ =>
      layOutWith_threads fun U inner _ => walkStatements_threads hu inner body
  | .matchOn m subject cases =>
    rw [visitStmt]
    exact .bind (visitExpr_threads hu ctx .value subject trivial) fun _ =>
      layOutMatch_threads fun U after _ ha => visitCases_threads hu ctx after cases ha
  | .raise m exception cause =>
    have hrest : Threads T ctx (do
        visitGiven u ctx exception
        visitGiven u ctx cause
        jump ctx.finallyTargets) := by
      refine .bind (visitGiven_threads hu ctx exception) fun _ => .bind (visitGiven_threads hu ctx cause) fun _ => ?_
      refine jump_threads fun l hl => ?_
      simp only [Context.labels, List.mem_append]
      exact .inr hl
    rw [visitStmt]
    exact .bind (noteJump_threads _) fun _ => .when (.ofQuiet (reportError_quiet _ _ _)) fun _ => hrest
  | .tryBlock m isStar body handlers orElse final =>
    rw [visitStmt]
    refine layOutTry_threads (fun U inner _ => walkStatements_threads hu inner body)
      (fun U inner _ => walkStatements_threads hu inner orElse) ?_ (walkStatements_threads hu ctx final)
    exact fun U inner after labels _ ha hlen => visitHandlers_threads hu inner after labels handlers ha hlen
  | .assertion m test message =>
    rw [visitStmt]
    refine layOutAssert_threads (visitTest_threads hu ctx test) fun f hf => ?_
    obtain ⟨e, rfl, rfl⟩ := Option.map_eq_some_iff.1 hf
    exact visitExpr_threads hu ctx .value e trivial
  | .importModules m names =>
    rw [visitStmt]
    exact importModules_law threads_lays names
  | .breakLoop m | .continueLoop m =>
    rw [visitStmt]
    refine jump_threads fun l hl => ?_
    simp only [Context.labels, List.mem_append]
    tauto
  | .nested .. =>
    rw [visitStmt]
    exact .throw _
  | .function .. | .delete .. | .assign .. | .augAssign .. | .annAssign .. | .importFrom ..
  | .globals .. | .nonlocals .. | .expr ..
  | .pass .. | .typeAlias .. =>
    exact visitStmt_plain_law threads_lays hu join rfl

theorem walkStatements_threads {T : FlowRef → Prop} (hu : u.Steady) (ctx : Context) (ss : List Stmt) :
    Threads T ctx (walkStatements u ctx ss) := by
  match ss with
  | [] =>
    rw [walkStatements]
    exact .pure _
  | s :: ss =>
    rw [walkStatements]
    refine .bind (stamp_threads _) fun _ => .bind (.ofQuiet .isDead) fun dead => ?_
    have hnext : Threads T ctx (walkStatements u ctx ss) := walkStatements_threads hu ctx ss
    exact .ite (.bind (.ofQuiet (noteYield_quiet _ _)) fun _ => hnext)
      (.bind (visitStmt_threads hu ctx none s (by simp)) fun _ => hnext)

theorem visitElif_threads {T : FlowRef → Prop} (hu : u.Steady) (ctx : Context) (after : FlowRef) (ss : List Stmt) (ha : T after) :
    Threads T ctx (visitElif u ctx after ss) := by
  match ss with
  | [] =>
    simp only [visitElif]
    exact .pure _
  | [s] =>
    rw [visitElif]
    exact .bind (stamp_threads _) fun _ => visitStmt_threads hu ctx (some after) s (by simpa using ha)
  | _ :: _ :: _ =>
    simp only [visitElif]
    exact .pure _

theorem visitHandlers_threads {T : FlowRef → Prop} (hu : u.Steady) (ctx : Context) (after : FlowRef) (labels : List FlowRef)
    (hs : List Handler) (ha : T after) (hlen : labels.length = hs.length) ⦃s : State ω⦄ ⦃x : Bool⦄ ⦃s' : State ω⦄ (ht : Tidy T s)
    (hc : ctx.Open T s.graph) (hl : ∀ l ∈ labels, s.graph.IsBranch l ∧ ¬ T l)
    (h : (visitHandlers u ctx after labels hs).run s = .ok x s') : Weaves T s s' := by
  match hs, labels, hlen with
  | [], _, _ =>
    rw [visitHandlers] at h
    obtain ⟨_, rfl⟩ := pure_ok.1 h
    exact .refl ht
  | .mk m type name body :: hs, label :: labels, hlen =>
    rw [visitHandlers] at h
    obtain ⟨ends, t1, h1, h⟩ := bind_ok.1 h
    obtain ⟨more, t2, h2, h⟩ := bind_ok.1 h
    obtain ⟨_, rfl⟩ := pure_ok.1 h
    have w1 := layOutHandler_weaves ha (visitGiven_threads hu ctx type) (walkStatements_threads hu ctx body) ht hc
      (hl label (by simp)).1 (hl label (by simp)).2 h1
    exact w1.trans (visitHandlers_threads hu ctx after labels hs ha (Nat.succ.inj hlen) w1.tidy (hc.grow w1.grows)
      (fun l hm => ⟨(hl l (by simp [hm])).1.grow w1.grows, (hl l (by simp [hm])).2⟩) h2)

theorem visitCases_threads {T : FlowRef → Prop} (hu : u.Steady) (ctx : Context) (after : FlowRef) (cs : List MatchCase)
    (ha : T after) : Threads T ctx (visitCases u ctx after cs) := by
  match cs with
  | [] =>
    rw [visitCases]
    exact .pure _
  | .mk m pattern guard body :: cs =>
    rw [visitCases]
    refine .bind (layOutCase_threads ha (fun U _ => visitPattern_law threads_lays hu pattern) (visitGuard_threads hu ctx guard)
      (walkStatements_threads hu ctx body)) fun _ => visitCases_threads hu ctx after cs ha

end

/-! ## Bodies -/

/-- A new start is passable. -/
theorem newStart_weaves (hs : Tidy T s) {ref : FlowRef} (h : (newStart : BindM ω FlowRef).run s = .ok ref s') :
    Weaves T s s' ∧ Passable T s'.graph ref := by
  obtain ⟨w, _, rfl, id, hg⟩ := newNode_weaves hs (by simp [FlowStep.antecedents]) (by simp [FlowStep.antecedents]) h
  have hn : s'.graph[s.graph.size]? = some ⟨id, .start⟩ := by
    rw [hg]
    simp
  refine ⟨w, (Array.getElem?_eq_some_iff.1 hn).1, fun hT => absurd (hs.barred.within _ hT).2 (lt_irrefl _), ?_⟩
  rintro ⟨id', ants, hn', _⟩
  rw [hn] at hn'
  cases hn'

/-- What comes behind a new start. -/
theorem entered_threads {α : Type} {rest : BindM ω α} (hrest : Threads T ctx rest) :
    Threads T ctx (do setCurrent (← newStart); rest : BindM ω α) := by
  intro s x s' hs hc h
  obtain ⟨ref, t1, h1, h⟩ := bind_ok.1 h
  obtain ⟨_, t2, h2, h3⟩ := bind_ok.1 h
  obtain ⟨w, hp⟩ := newStart_weaves hs h1
  have w2 := w.trans (setCurrent_weaves w.tidy hp h2)
  exact w2.trans (hrest w2.tidy (hc.grow w2.grows) h3)

theorem bindParameters_threads (u : Setup ω) (ctx : Context) (ps : List Parameter) : Threads T ctx (bindParameters u ctx ps) := by
  induction ps with
  | nil => exact .pure _
  | cons p ps ih =>
    have hrest : Threads T ctx (do assignName ctx p.mark.index p.name; bindParameters u ctx ps) :=
      .bind (assign_threads _ _ _ _ _ _ _) fun _ => ih
    refine .bind (bindHere_law threads_binds _) fun symbol => .ite ?_ hrest
    exact .bind (.ofQuiet (declareAt_quiet _ _)) fun _ => .bind (.ofQuiet (setDeclaration_quiet _ _)) fun _ => hrest

/-- Behind the body of a function the join of its returns is finished. -/
theorem returning_threads (hu : u.Steady) (mark : Mark) (body : List Stmt) (hnone : ctx.labels = []) :
    Threads T ctx (do
      let returns ← newBranch
      walkStatements u { ctx with function := some mark.index, returnTarget := some returns } body
      stampAfterBody mark.index
      linkCurrent returns
      stampAfterWith mark.index (← finished returns)) := by
  refine .layout <|
    .branch fun returns => .within (fun U g hin _ _ l hl => ?_) (fun _ _ _ => walkStatements_threads hu _ body) fun _ => ?_
  · simp only [Context.labels, List.append_eq_nil_iff, Option.toList_some, List.mem_append, List.mem_singleton] at hnone hl
    obtain ⟨⟨⟨⟨_, hb⟩, hcont⟩, he⟩, hf⟩ := hnone
    simp only [hb, hcont, he, hf, List.not_mem_nil, or_false] at hl
    exact .inl (hin l (by simpa using hl))
  · refine .walk (fun _ _ _ => stampAfterBody_threads _) fun _ => .link (.inl (by simp)) fun _ s x s' hs h => ?_
    obtain ⟨ref, t, h1, h2⟩ := bind_ok.1 h
    obtain ⟨rfl, rfl⟩ := finished_ok.1 h1
    obtain ⟨hbranch, hfree⟩ := hs.joins returns (by simp)
    exact stampAfterWith_weaves hs.base (hs.base.woven.passable_finish hs.base.barred hbranch hfree) h2

/-! ## Phases -/

/-- A body that waited is bound in a context without labels. -/
theorem replay_weaves (hu : u.Steady) (hs : Tidy T s) {task : Task} {x : Unit} (h : (replay u task).run s = .ok x s') :
    Weaves T s s' := by
  unfold replay at h
  cases hbody : task.body with
  | function mark params body =>
    rw [hbody] at h
    have hrun : Threads T { scope := task.scope, owner := mark.index }
        (bindFunctionBody u { scope := task.scope, owner := mark.index } mark params body) :=
      entered_threads (.bind (bindParameters_threads _ _ _) fun _ => returning_threads hu mark body rfl)
    exact hrun hs (by simp [Context.Open, Context.labels]) h
  | lambda mark params body =>
    rw [hbody] at h
    have hrun : Threads T { scope := task.scope, owner := mark.index }
        (bindLambdaBody u { scope := task.scope, owner := mark.index } mark params body) :=
      entered_threads (.bind (bindParameters_threads _ _ _) fun _ =>
        .bind (visitExpr_threads hu _ .value body trivial) fun _ => stampAfter_threads _)
    exact hrun hs (by simp [Context.Open, Context.labels]) h

theorem bindModuleBody_weaves (hu : u.Steady) {m : Module} (hs : Tidy T s) {scope : Nat}
    (h : (bindModuleBody u m).run s = .ok scope s') : Weaves T s s' := by
  obtain ⟨scope', t1, h1, h⟩ := bind_ok.1 h
  have w1 : Weaves T s t1 := .ofQuiet hs (newScope_quiet _ _ h1)
  let ctx : Context := { scope := scope', owner := m.mark.index }
  have hopen : ctx.Open T t1.graph := by simp [ctx, Context.Open, Context.labels]
  refine w1.trans (Threads.bind (setScope_threads _ _) (fun _ => ?_) w1.tidy hopen h)
  refine .bind (.forM (fun (p : String × String) => .ofQuiet (addIntrinsic_quiet u _ p.1 _ p.2)) _) fun _ => ?_
  exact entered_threads (.bind (stamp_threads _) fun _ => .bind (walkStatements_threads hu _ m.body) fun _ =>
    .bind (.ofQuiet (showKeys_quiet _)) fun _ => .bind (stampAfter_threads _) fun _ => .pure _)

/-- The state before a module is bound is tidy: there is nothing but the sentinel. -/
theorem tidy_initial (u : Setup ω) (store : Store) (world : ω) : Tidy (fun _ => False) (State.initial u store world) := by
  have hone : ∀ (i : Nat) (n : FlowNode), (State.initial u store world).graph[i]? = some n → n = FlowGraph.sentinel := by
    intro i n hn
    have hmem : n ∈ #[FlowGraph.sentinel] := Array.mem_of_getElem? hn
    simpa using hmem
  refine ⟨⟨rfl, ?_, ?_, fun r hr => ?_, ?_⟩, ⟨by simp, by simp⟩, ⟨Nat.one_pos, id, ?_⟩, fun m i r hr => ?_⟩
  · intro i n hn x hx
    simp [hone i n hn, FlowGraph.sentinel, FlowStep.antecedents] at hx
  · intro i n hn _ x hx
    simp [hone i n hn, FlowGraph.sentinel, FlowStep.antecedents] at hx
  · obtain ⟨y, _, n, hn, _, hx⟩ := Relation.TransGen.tail'_iff.1 hr
    simp [hone r n hn, FlowGraph.sentinel, FlowStep.antecedents] at hx
  · intro i n hn _ x hx
    simp [hone i n hn, FlowGraph.sentinel, FlowStep.antecedents] at hx
  · rintro ⟨id, ants, hn, _⟩
    cases hone _ _ hn
  · rw [factsAt_initial] at hr
    cases m <;> cases hr

/-- The bodies that wait keep the state tidy, one after the other. -/
theorem Replays.tidy (hu : u.Steady) {phases : List (Phase ω)} (h : Replays u s phases s') (hs : Tidy (fun _ => False) s) :
    Tidy (fun _ => False) s' := by
  induction h with
  | done _ => exact hs
  | @next s t s' task queue phases _ hrun _ ih =>
    have hbefore : Tidy (fun _ => False) { s with queue := queue } := ⟨hs.woven, hs.barred, hs.current, hs.stamps⟩
    exact ih (replay_weaves hu hbefore hrun).tidy

/-- No label is under construction when a module has been bound. -/
theorem Phases.tidy (hu : u.Steady) {m : Module} {store : Store} {world : ω} {phases : List (Phase ω)}
    (h : Phases u m (State.initial u store world) phases s') : Tidy (fun _ => False) s' := by
  obtain ⟨hrun, hrest⟩ := h
  exact hrest.tidy hu (bindModuleBody_weaves hu (tidy_initial u store world) hrun).tidy

end ScopeFlow.Bind
