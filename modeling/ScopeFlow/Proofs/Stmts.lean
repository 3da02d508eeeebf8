import ScopeFlow.Proofs.Layouts

/-!
# Statements extend the flow graph

Walking statements whose nodes belong to a set extends a sound state (`walkStatements_extends`): the graph stays formed,
nothing older than the scope changes, and every stamp that is made is on a node of the set and points to a known place. A
statement is walked only from live code, which is what loop labels and context managers need to be rooted.
-/

namespace ScopeFlow.Bind

open FlowGraph NodeTree

variable {ω : Type} {α : Type} {lax : Bool} {a : Nat} {A : Nat → Prop} {u : Setup ω} {s s' : State ω} {ctx : Context}

/-- A step that extends sound states. -/
def Performs (lax : Bool) (a : Nat) (A : Nat → Prop) (ctx : Context) (f : BindM ω α) : Prop :=
  ∀ ⦃s x s'⦄, Sound lax a s → ctx.Within a s.graph → f.run s = .ok x s' → Extends lax a A s s'

theorem Extends.kept (h : Extends lax a A s s') : Sound lax a s' ∧ s.graph.Grows s'.graph := ⟨h.sound, h.grows⟩

theorem Performs.keeps {f : BindM ω α} (h : Performs lax a A ctx f) : Keeps lax a ctx f :=
  fun _ _ _ hs hw hr => (h hs hw hr).kept

/-- The number of a statement whose nodes may all be walked belongs to the set. -/
theorem stmt_index_of_fits {s : Stmt} (h : s.tree.All (Node.Fits lax A)) : A s.mark.index := by
  cases s <;> simp only [Stmt.tree, all_mk] at h <;> exact h.1.1

theorem stmt_children_of_fits {s : Stmt} (h : s.tree.All (Node.Fits lax A)) :
    AllIn (Node.Fits lax A) s.tree.children := by
  cases ht : s.tree with
  | mk n cs =>
    rw [ht, all_mk] at h
    exact h.2

/-- The guard of a `case` is a test. -/
theorem visitGuard_tests (hu : u.Steady) (guard : Option Expr) (ctx : Context)
    (h : AllIn (Node.Fits lax A) (Expr.givenTree guard)) :
    Tests lax a A u ctx (GuardMayBe guard) (visitGuard u ctx guard) := by
  cases guard with
  | some guard =>
    simp only [Expr.givenTree, allIn_cons] at h
    exact (visitExpr_sees hu guard h.1).tests ctx
  | none =>
    intro s x s' onTrue onFalse hs _ ht _ hrun
    obtain ⟨e, _, hlive⟩ := linkCurrent_evaluated (A := A) hs ht hrun
    refine ⟨e.toWalked, fun _ => ⟨true, rfl⟩, fun h0 b hb => ?_⟩
    obtain rfl : b = true := hb
    exact hlive h0

/-- The other side of an `if` extends a sound state if the walks of its suite and of its `elif` do. -/
theorem layOutElse_extends {after : FlowRef} {test : Expr} {orElse : List Stmt} {walk next : BindM ω Unit}
    (hwalk : Performs lax a A ctx walk) {x : Unit} (hs : Sound lax a s) (hw : ctx.Within a s.graph)
    (hj : Joint a s.graph after) (hnext : s.current ≠ 0 → next.run s = .ok () s' → Extends lax a A s s')
    (hrun : (layOutElse u ctx after test orElse walk next).run s = .ok x s') : Extends lax a A s s' := by
  rcases layOutElse_laid (B := A) hwalk.keeps hs hw hj hrun with ⟨_, h0, hr⟩ | ⟨_, w, _⟩ | ⟨t, hr, w, _⟩
  · exact hnext h0 hr
  · exact w.toExtends
  · exact (hwalk hs hw hr).trans w.toExtends

/-- A loop extends a sound state if its suites do. -/
theorem LaysLoop.toExtends {node : Nat} {body : Context → BindM ω Unit} {orElse : BindM ω Unit} {p q : Prop}
    (hbody : ∀ inner, Performs lax a A inner (body inner)) (helse : Performs lax a A ctx orElse) (hA : A node)
      (hw : ctx.Within a s.graph)
    (h : LaysLoop lax a A ctx node body orElse p q s s') : Extends lax a A s s' := by
  obtain ⟨before, after, t1, t2, t3, t4, t5, w1, _, hinner, hr1, w2, _, hr2, w3, _, hr3⟩ := h
  have x2 := hbody _ w1.sound hinner hr1
  have x4 := helse w2.sound (by grind) hr2
  have e6 := stampAfter_evaluates hA w3.sound (hw.grow (by grind)) hr3
  grind

/-! ## What is walked around the suites of a statement -/

theorem names_of_fits {names : List ImportName} (h : AllIn (Node.Fits lax A) (names.map ImportName.tree)) :
    ∀ n ∈ names, A n.mark.index := by
  intro n hn
  have hfits := allIn_iff.1 h _ (List.mem_map_of_mem hn)
  simp only [ImportName.tree, all_mk] at hfits
  exact hfits.1.1

section

variable {ctx : Context} {join : Option FlowRef} {s s' : State ω} {x : Unit} {m : Mark} {body orElse : List Stmt}
variable (hu : u.Steady) (hs : Sound lax a s) (hw : ctx.Within a s.graph)
include hu hs hw

theorem visitClass_laid {name : String} {bases decorators : List Expr} {keywords : List Keyword}
    (hd : AllIn (Node.Fits lax A) (Expr.trees decorators)) (hb : AllIn (Node.Fits lax A) (Expr.trees bases))
    (hk : AllIn (Node.Fits lax A) (Keyword.trees keywords)) (hbody : ∀ inner, Keeps lax a inner (walkStatements u inner body))
    (hrun : (visitStmt u ctx join (.classDef m name bases keywords body decorators)).run s = .ok x s') :
    ∃ scope t1 t2, Evaluated lax a A s t1 ∧ (walkStatements u { ctx with scope := scope } body).run t1 = .ok () t2 ∧
      Evaluated lax a A t2 s' := by
  simp only [visitStmt, bind_ok] at hrun
  obtain ⟨_, q1, h1, symbol, q2, h2, place, q3, h3, _, q4, h4, _, q5, h5, _, q6, h6, h7⟩ := hrun
  have e1 := visitExprs_evaluates hu decorators hd ctx .value rfl hs hw h1
  have e2 := e1.trans (bindHere_evaluates u name e1.sound (hw.grow e1.grows) h2)
  have e3 := e2.trans (.ofQuiet e2.sound (declareAt_quiet _ _ h3))
  have e4 := e3.trans (.ofQuiet e3.sound (setDeclaration_quiet _ _ h4))
  have e5 := e4.trans (visitExprs_evaluates hu bases hb ctx .value rfl e4.sound (hw.grow e4.grows) h5)
  have e6 := e5.trans (visitKeywords_evaluates hu keywords hk ctx e5.sound (hw.grow e5.grows) h6)
  obtain ⟨scope, t1, t2, e7, hr, e8⟩ := layOutClass_laid (B := A) hbody e6.sound (hw.grow e6.grows) h7
  exact ⟨scope, t1, t2, e6.trans e7, hr, e8⟩

theorem visitReturn_laid {value : Option Expr} (h : AllIn (Node.Fits lax A) (Expr.givenTree value))
    (hrun : (visitStmt u ctx join (.returnValue m value)).run s = .ok x s') :
    ∃ t1 t2, Evaluated lax a A s t1 ∧ (stamp m.index : BindM ω Unit).run t1 = .ok () t2 ∧
      (∀ l ∈ ctx.returnTarget.toList ++ ctx.finallyTargets, Joint a t2.graph l) ∧
      (jump (ctx.returnTarget.toList ++ ctx.finallyTargets) : BindM ω Unit).run t2 = .ok x s' := by
  simp only [visitStmt, bind_ok] at hrun
  obtain ⟨_, q1, h1, _, q2, h2, _, q3, h3, h4⟩ := hrun
  have e1 := Evaluated.ofQuiet (A := A) hs (noteJump_quiet _ _ h1)
  have e2 := e1.trans (visitGiven_evaluates hu value h ctx e1.sound (hw.grow e1.grows) h2)
  have e3 := stamp_evaluates (A := fun _ => True) trivial e2.sound (hw.grow e2.grows) h3
  refine ⟨q2, q3, e2, h3, fun l hl => (hw.grow e2.grows).grow e3.grows l ?_, h4⟩
  simp only [Context.labels, List.mem_append] at hl ⊢
  tauto

theorem visitFor_laid {isAsync : Bool} {target iterable : Expr} (ht : target.tree.All (Node.Fits lax A))
    (hi : iterable.tree.All (Node.Fits lax A)) (hbody : ∀ inner, Keeps lax a inner (walkStatements u inner body))
    (helse : Keeps lax a ctx (walkStatements u ctx orElse)) (h0 : s.current ≠ 0)
    (hrun : (visitStmt u ctx join (.forLoop m isAsync target iterable body orElse)).run s = .ok x s') :
    LaysLoop lax a A ctx m.index (walkStatements u · body) (walkStatements u ctx orElse) True True s s' := by
  simp only [visitStmt, bind_ok] at hrun
  obtain ⟨_, q1, h1, _, q2, h2, _, q3, h3, h4⟩ := hrun
  have e1 := Evaluates.discard (bindTarget_evaluates (A := A) u target) hs hw h1
  have e2 := e1.trans (.ofQuiet e1.sound (inferVariable_quiet _ _ _ _ _ h2))
  have e3 := e2.trans ((visitExpr_sees hu iterable hi).value ctx e2.sound (hw.grow e2.grows) h3)
  exact (layOutFor_laid ((visitExpr_sees hu target ht).target ctx) hbody helse e3.sound (hw.grow e3.grows)
    (e3.awake h0) h4).behind
    e3.toWalked

theorem visitRaise_laid {exception cause : Option Expr} (he : AllIn (Node.Fits lax A) (Expr.givenTree exception))
    (hc : AllIn (Node.Fits lax A) (Expr.givenTree cause))
    (hrun : (visitStmt u ctx join (.raise m exception cause)).run s = .ok x s') : Walked lax a A s s' := by
  rw [visitStmt] at hrun
  obtain ⟨_, q1, h1, hrun⟩ := bind_ok.1 hrun
  have e1 := Evaluated.ofQuiet (A := A) hs (noteJump_quiet _ _ h1)
  obtain ⟨q2, e2, hrun⟩ : ∃ q2, Evaluated lax a A q1 q2 ∧ (do
      visitGiven u ctx exception
      visitGiven u ctx cause
      jump ctx.finallyTargets).run q2 = .ok x s' := by
    split at hrun
    · obtain ⟨_, q2, h2, hrun⟩ := bind_ok.1 hrun
      exact ⟨q2, .ofQuiet e1.sound (reportError_quiet _ _ _ h2), hrun⟩
    · exact ⟨q1, .refl e1.sound, hrun⟩
  simp only [bind_ok] at hrun
  obtain ⟨_, q3, h3, _, q4, h4, h5⟩ := hrun
  have e3 := visitGiven_evaluates hu exception he ctx e2.sound (by grind) h3
  have e4 := visitGiven_evaluates hu cause hc ctx e3.sound (by grind) h4
  have hw4 : ctx.Within a q4.graph := by grind
  have w5 := (jump_laid (B := A) e4.sound (fun l hl => hw4 l (by simp [Context.labels, hl])) h5).1
  grind

theorem visitAssert_laid {test : Expr} {message : Option Expr} (ht : test.tree.All (Node.Fits lax A))
    (hm : AllIn (Node.Fits lax A) (Expr.givenTree message))
    (hrun : (visitStmt u ctx join (.assertion m test message)).run s = .ok x s') :
    Walked lax a A s s' ∧ (s.current ≠ 0 → (s.static u).MayBe test true → s'.current ≠ 0) := by
  rw [visitStmt] at hrun
  refine layOutAssert_laid ((visitExpr_sees hu test ht).tests ctx) (fun f hf => ?_) hs hw hrun
  obtain ⟨e, rfl, rfl⟩ := Option.map_eq_some_iff.1 hf
  exact (visitExpr_sees hu e (allIn_cons.1 hm).1).value ctx

end

section

variable (hu : u.Steady)
include hu

mutual

theorem visitStmt_extends (stmt : Stmt) (h : stmt.tree.All (Node.Fits lax A)) ⦃ctx : Context⦄
    ⦃join : Option FlowRef⦄ ⦃s s' : State ω⦄ ⦃x : Unit⦄ (hs : Sound lax a s) (hw : ctx.Within a s.graph)
    (hjoin : ∀ l ∈ join, Joint a s.graph l) (h0 : s.current ≠ 0) (hrun : (visitStmt u ctx join stmt).run s = .ok x s') :
    Extends lax a A s s' := by
  have hA := stmt_index_of_fits h
  have hall := h
  cases stmt <;> simp only [Stmt.tree, all_mk, allIn_cons, allIn_append] at h
  case function | delete | assign | augAssign | annAssign | importFrom | globals | nonlocals | expr | pass | typeAlias =>
    exact ((visitStmt_plain hu join rfl (stmt_children_of_fits hall)).evaluates hA hs hw hrun).toExtends
  case importModules m names =>
    rw [visitStmt] at hrun
    exact (importModules_completed names (names_of_fits h.2) hs hw hrun).1.toExtends
  case classDef m name bases keywords body decorators =>
    have hbody := walkStatements_extends body h.2.1.2
    obtain ⟨scope, t1, t2, e1, hr, e3⟩ :=
      visitClass_laid hu hs hw h.2.2 h.2.1.1.1 h.2.1.1.2 (fun inner => (hbody inner).keeps) hrun
    have x2 := hbody { ctx with scope := scope } e1.sound (hw.grow e1.grows) hr
    grind
  case returnValue m value =>
    obtain ⟨t1, t2, e1, h2, ht, h3⟩ := visitReturn_laid hu hs hw h.2 hrun
    have e2 := stamp_evaluates hA e1.sound (hw.grow e1.grows) h2
    have w3 := (jump_laid (B := A) e2.sound ht h3).1
    grind
  case forLoop m isAsync target iterable body orElse =>
    have hbody := walkStatements_extends body h.2.2.2.1
    have helse := walkStatements_extends orElse h.2.2.2.2 ctx
    exact (visitFor_laid hu hs hw h.2.1 h.2.2.1 (fun inner => (hbody inner).keeps) helse.keeps h0 hrun).toExtends
      hbody helse hA hw
  case whileLoop m test body orElse =>
    have hbody := walkStatements_extends body h.2.2.1
    have helse := walkStatements_extends orElse h.2.2.2
    rw [visitStmt] at hrun
    have hloop := layOutWhile_laid ((visitExpr_sees hu test h.2.1).tests ctx) (fun inner => (hbody inner).keeps) (helse ctx).keeps
      hs hw h0 hrun
    exact hloop.toExtends hbody (helse ctx) hA hw
  case ifElse m test body orElse =>
    have hbody := walkStatements_extends body h.2.2.1
    have hwalk := walkStatements_extends orElse h.2.2.2
    have helif := visitElif_extends orElse h.2.2.2
    rw [visitStmt] at hrun
    obtain ⟨after, t1, t2, t3, t4, w1, _, hr1, w2, _, hj, _, hr2, w3, _⟩ := layOutIf_laid (B := A)
      ((visitExpr_sees hu test h.2.1).tests ctx) (hbody ctx).keeps
      (fun t t' y after hs hw hj hr => (layOutElse_extends (hwalk ctx) hs hw hj (helif hs hw hj) hr).kept) hs hw hjoin h0 hrun
    have x2 := hbody ctx w1.sound (hw.grow w1.grows) hr1
    have hw2 : ctx.Within a t3.graph := by grind
    have x4 := layOutElse_extends (hwalk ctx) w2.sound hw2 hj (helif w2.sound hw2 hj) hr2
    grind
  case withBlock m isAsync items body =>
    have hbody := walkStatements_extends body h.2.2
    simp only [visitStmt, bind_ok] at hrun
    obtain ⟨_, q1, h1, h2⟩ := hrun
    have e1 := visitWithItems_evaluates hu items h.2.1 hs hw h1
    obtain ⟨swallowed, t1, t2, w1, _, hinner, hr1, w2, _⟩ := layOutWith_laid (B := A) (fun inner => (hbody inner).keeps)
      e1.sound (hw.grow e1.grows) (e1.awake h0) h2
    have x2 := hbody _ w1.sound hinner hr1
    grind
  case matchOn m subject cases =>
    have hcases := visitCases_extends cases h.2.2
    simp only [visitStmt, bind_ok] at hrun
    obtain ⟨_, q1, h1, h2⟩ := hrun
    have e1 := (visitExpr_sees hu subject h.2.1).value ctx hs hw h1
    obtain ⟨after, t1, t2, w1, _, hj, hr1, w2, _⟩ := layOutMatch_laid (B := A)
      (fun t t' y after hs hw hj hr => (hcases hs hw hj hr).kept) e1.sound
      (hw.grow e1.grows) h2
    have x2 := hcases w1.sound (by grind) hj hr1
    grind
  case raise m exception cause => exact (visitRaise_laid hu hs hw h.2.1 h.2.2 hrun).toExtends
  case tryBlock m isGroup body handlers orElse final =>
    have hlax : (!final.isEmpty) = true → lax = true := by
      intro hf
      have := hall (.stmt (.tryBlock m isGroup body handlers orElse final)) (by simp [Stmt.tree, NodeTree.preorder])
      rcases this.2 with hl | hn
      · exact hl
      · simp only [Node.hasFinally, hf] at hn
        cases hn
    have hbody := walkStatements_extends body h.2.1.1.1
    have hhandlers := visitHandlers_extends handlers h.2.1.1.2
    have helse := walkStatements_extends orElse h.2.1.2
    have hfinal := walkStatements_extends final h.2.2
    rw [visitStmt] at hrun
    obtain ⟨abrupt, targets, labels, after, handlerEnds, t1, t2, t3, t4, t5, t6, w1, _, hinner, hguarded, hr1, hr2, w4, hj, hlen,
      hlabels, hr3, w6, hfin, hnofin⟩ := layOutTry_laid (B := A) hlax (fun inner => (hbody inner).keeps)
      (fun inner => (helse inner).keeps)
      (fun t t' y inner after labels hs hw hj hlen hl hr => (hhandlers hs hw hj hlen hl hr).kept)
      (hfinal ctx).keeps hs hw h0 hrun
    have x2 := hbody _ w1.sound hinner hr1
    have x3 := helse _ x2.sound (hguarded.grow x2.grows) hr2
    have hdeeper : Context.Within { guardedBy ctx (!final.isEmpty) abrupt with exceptDepth := ctx.exceptDepth + 1 } a
        t4.graph := hguarded.grow (by grind)
    have x5 := hhandlers w4.sound hdeeper hj hlen (by grind) hr3
    cases hf : final.isEmpty with
    | true =>
      obtain ⟨rfl, _⟩ := hnofin (by simp [hf])
      grind
    | false =>
      obtain ⟨_, t7, hr4, w7, _⟩ := hfin (by simp [hf])
      have x7 := hfinal ctx w6.sound (by grind) hr4
      grind
  case assertion m test message => exact (visitAssert_laid hu hs hw h.2.1 h.2.2 hrun).1.toExtends
  case breakLoop m =>
    rw [visitStmt] at hrun
    exact (jump_laid hs (fun l hl => hw l (by simp only [Context.labels, List.mem_append]; tauto)) hrun).1.toExtends
  case continueLoop m =>
    rw [visitStmt] at hrun
    exact (jump_laid hs (fun l hl => hw l (by simp only [Context.labels, List.mem_append]; tauto)) hrun).1.toExtends
  case nested m body ignores =>
    rw [visitStmt] at hrun
    exact absurd hrun (by simp)

/-- Walking statements one after the other extends a sound state. -/
theorem walkStatements_extends (stmts : List Stmt)
    (h : AllIn (Node.Fits lax A) (Stmt.trees stmts)) (ctx : Context) :
    Performs lax a A ctx (walkStatements u ctx stmts) := by
  match stmts with
  | [] =>
    intro s x s' hs _ hrun
    obtain ⟨_, rfl⟩ := pure_ok.1 hrun
    exact .refl hs
  | stmt :: stmts =>
    simp only [Stmt.trees, allIn_cons] at h
    have hstmt := visitStmt_extends stmt h.1
    have hstmts := walkStatements_extends stmts h.2 ctx
    intro s x s' hs hw hrun
    rw [walkStatements] at hrun
    simp only [bind_ok, isDead_ok] at hrun
    obtain ⟨_, t1, h1, _, _, ⟨rfl, rfl⟩, hrun⟩ := hrun
    have e1 := stamp_evaluates (stmt_index_of_fits h.1) hs hw h1
    split at hrun
    · obtain ⟨_, t2, h2, h3⟩ := bind_ok.1 hrun
      have e2 := e1.trans (.ofQuiet e1.sound (noteYield_quiet _ _ h2))
      exact e2.toExtends.trans (hstmts e2.sound (hw.grow e2.grows) h3)
    · rename_i hd
      obtain ⟨_, t2, h2, h3⟩ := bind_ok.1 hrun
      have x2 := hstmt e1.sound (hw.grow e1.grows) (by simp) (fun h0 => hd (e1.sound.isDead_iff.2 h0)) h2
      have x3 := hstmts x2.sound (by grind) h3
      grind

theorem visitElif_extends (stmts : List Stmt) (h : AllIn (Node.Fits lax A) (Stmt.trees stmts))
    ⦃ctx : Context⦄ ⦃after : FlowRef⦄ ⦃s s' : State ω⦄ ⦃x : Unit⦄ (hs : Sound lax a s) (hw : ctx.Within a s.graph)
    (hj : Joint a s.graph after) (h0 : s.current ≠ 0) (hrun : (visitElif u ctx after stmts).run s = .ok x s') :
    Extends lax a A s s' := by
  match stmts with
  | [] =>
    rw [visitElif] at hrun
    · obtain ⟨_, rfl⟩ := pure_ok.1 hrun
      exact .refl hs
    · nofun
  | [stmt] =>
    simp only [Stmt.trees, allIn_cons] at h
    have hstmt := visitStmt_extends stmt h.1
    rw [visitElif] at hrun
    obtain ⟨_, t1, h1, h2⟩ := bind_ok.1 hrun
    have e1 := stamp_evaluates (stmt_index_of_fits h.1) hs hw h1
    refine e1.toExtends.trans (hstmt e1.sound (hw.grow e1.grows) (fun l hl => ?_) (e1.awake h0) h2)
    obtain rfl : after = l := by simpa using hl
    exact hj.grow e1.grows
  | _ :: _ :: _ =>
    rw [visitElif] at hrun
    · obtain ⟨_, rfl⟩ := pure_ok.1 hrun
      exact .refl hs
    · nofun

theorem visitHandlers_extends (handlers : List Handler)
    (h : AllIn (Node.Fits lax A) (Handler.trees handlers)) ⦃ctx : Context⦄ ⦃after : FlowRef⦄
    ⦃labels : List FlowRef⦄ ⦃s s' : State ω⦄ ⦃x : Bool⦄ (hs : Sound lax a s) (hw : ctx.Within a s.graph)
    (hj : Joint a s.graph after) (hlen : labels.length = handlers.length)
    (hlabels : ∀ l ∈ labels, a ≤ l ∧ s.graph.IsBranch l)
    (hrun : (visitHandlers u ctx after labels handlers).run s = .ok x s') : Extends lax a A s s' := by
  match handlers, labels with
  | [], labels =>
    rw [visitHandlers] at hrun
    obtain ⟨_, rfl⟩ := pure_ok.1 hrun
    exact .refl hs
  | .mk m type name body :: handlers, label :: labels =>
    simp only [Handler.trees, allIn_cons, all_mk, allIn_append] at h
    have hbody := walkStatements_extends body h.1.2.2 ctx
    have hhandlers := visitHandlers_extends handlers h.2
    rw [visitHandlers] at hrun
    simp only [bind_ok, pure_ok, List.headD_cons, List.tail_cons] at hrun
    obtain ⟨ends, t1, h1, more, t2, h2, _, rfl⟩ := hrun
    obtain ⟨t3, t4, w3, _, hr, w4, _⟩ := layOutHandler_laid (B := A) h.1.1.1 (visitGiven_evaluates hu type h.1.2.1 ctx)
      hbody.keeps hs hw hj (hlabels label (by simp)).1 (hlabels label (by simp)).2 h1
    have x1 := hbody w3.sound (hw.grow w3.grows) hr
    have x2 := hhandlers w4.sound (by grind) (by grind) (by simpa using hlen) (by grind) h2
    grind
  | .mk .. :: _, [] => simp at hlen

theorem visitCases_extends (cases : List MatchCase)
    (h : AllIn (Node.Fits lax A) (MatchCase.trees cases)) ⦃ctx : Context⦄ ⦃after : FlowRef⦄ ⦃s s' : State ω⦄
    ⦃x : Unit⦄ (hs : Sound lax a s) (hw : ctx.Within a s.graph) (hj : Joint a s.graph after)
    (hrun : (visitCases u ctx after cases).run s = .ok x s') : Extends lax a A s s' := by
  match cases with
  | [] =>
    rw [visitCases] at hrun
    obtain ⟨_, rfl⟩ := pure_ok.1 hrun
    exact .refl hs
  | .mk m pattern guard body :: cases =>
    simp only [MatchCase.trees, allIn_cons, all_mk, allIn_append] at h
    have hbody := walkStatements_extends body h.1.2.2.2 ctx
    have hcases := visitCases_extends cases h.2
    rw [visitCases] at hrun
    obtain ⟨_, t3, h1, h2⟩ := bind_ok.1 hrun
    obtain ⟨t1, t2, w1, _, hr, w2, _⟩ := layOutCase_laid (B := A) (visitPattern_walksIf hu pattern h.1.2.1)
      (visitGuard_tests hu guard ctx h.1.2.2.1) hbody.keeps hs hw hj h1
    have x1 := hbody w1.sound (hw.grow w1.grows) hr
    have x3 := hcases w2.sound (by grind) (by grind) h2
    grind

end

end

end ScopeFlow.Bind
