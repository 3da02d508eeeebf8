import ScopeFlow.Proofs.StmtLaws

/-!
# Patterns, imports and simple statements in the flow graph

Statements without suites evaluate in the sense of `Evaluates`, except that an `import` may give a module a new name. A
pattern evaluates as well, as long as its alternatives are not empty: behind none, the code would be dead.
-/

namespace ScopeFlow.Bind

open FlowGraph NodeTree

variable {ω : Type} {lax : Bool} {a : Nat} {A : Nat → Prop} {u : Setup ω} {ctx : Context} {f : BindM ω Unit} {s s' : State ω}

/-! ## Patterns -/

/-- A step that walks, and that keeps live code live under a condition. -/
def WalksIf (lax : Bool) (a : Nat) (A : Nat → Prop) (ctx : Context) (p : Prop) (f : BindM ω Unit) : Prop :=
  ∀ ⦃s x s'⦄, Sound lax a s → ctx.Within a s.graph → f.run s = .ok x s' →
    Walked lax a A s s' ∧ (p → s.current ≠ 0 → s'.current ≠ 0)

theorem Evaluates.walksIf (h : Evaluates lax a A ctx f) (p : Prop) : WalksIf lax a A ctx p f :=
  fun _ _ _ hs hw hr => ⟨(h hs hw hr).toWalked, fun _ => (h hs hw hr).awake⟩

theorem WalksIf.bind {p : Prop} {g : Unit → BindM ω Unit} (hf : WalksIf lax a A ctx p f)
    (hg : WalksIf lax a A ctx p (g ())) : WalksIf lax a A ctx p (f >>= g) := by
  intro s x s' hs hw h
  obtain ⟨_, t, h1, h2⟩ := bind_ok.1 h
  obtain ⟨w1, a1⟩ := hf hs hw h1
  obtain ⟨w2, a2⟩ := hg w1.sound (hw.grow w1.grows) h2
  exact ⟨w1.trans w2, fun hp => a2 hp ∘ a1 hp⟩

theorem WalksIf.imp {p q : Prop} (hf : WalksIf lax a A ctx p f) (hi : q → p) :
    WalksIf lax a A ctx q f :=
  fun _ _ _ hs hw hr => ⟨(hf hs hw hr).1, fun hq => (hf hs hw hr).2 (hi hq)⟩

/-- Whether a node, if it is a pattern with alternatives, has some. -/
def HasAlternatives : Node → Prop
  | .pattern (.alternatives _ ps) => ps ≠ []
  | _ => True

mutual

theorem visitPattern_walksIf (hu : u.Steady) (p : Pattern) (h : p.tree.All (Node.Fits lax A)) :
    WalksIf lax a A ctx (p.tree.All HasAlternatives) (visitPattern u ctx p) := by
  match p with
  | .value m e =>
    simp only [Pattern.tree, all_mk, allIn_cons] at h
    rw [visitPattern]
    exact ((visitExpr_sees hu e h.2.1).value ctx).walksIf _
  | .singleton m literal =>
    rw [visitPattern]
    exact (Evaluates.pure _).walksIf _
  | .sequence m ps =>
    simp only [Pattern.tree, all_mk] at h
    rw [visitPattern]
    exact (visitPatterns_walksIf hu ps h.2).imp fun hp => by simpa [Pattern.tree, HasAlternatives] using hp
  | .mapping m keys ps rest =>
    simp only [Pattern.tree, all_mk, allIn_append] at h
    rw [visitPattern]
    refine .bind ((visitExprs_evaluates hu keys h.2.1 ctx .value rfl).walksIf _) (.bind ?_ ?_)
    · refine (visitPatterns_walksIf hu ps h.2.2).imp fun hp => ?_
      simp only [Pattern.tree, all_mk, allIn_append] at hp
      exact hp.2.2
    · exact Evaluates.walksIf (.ite (.pure _) (capture_law evaluates_assigns ⟨_, h.1, rfl⟩ rest)) _
  | .classOf m cls ps attributes attributePatterns =>
    simp only [Pattern.tree, all_mk, allIn_cons, allIn_append] at h
    rw [visitPattern]
    refine .bind (((visitExpr_sees hu cls h.2.1).value ctx).walksIf _) (.bind ?_ ?_)
    · refine (visitPatterns_walksIf hu ps h.2.2.1).imp fun hp => ?_
      simp only [Pattern.tree, all_mk, allIn_cons, allIn_append] at hp
      exact hp.2.2.1
    · refine (visitPatterns_walksIf hu attributePatterns h.2.2.2).imp fun hp => ?_
      simp only [Pattern.tree, all_mk, allIn_cons, allIn_append] at hp
      exact hp.2.2.2
  | .star m name | .capture m none name =>
    simp only [Pattern.tree, all_mk] at h
    rw [visitPattern]
    exact (capture_law evaluates_assigns ⟨_, h.1, rfl⟩ name).walksIf _
  | .capture m (some inner) name =>
    simp only [Pattern.tree, all_mk, allIn_cons] at h
    rw [visitPattern]
    refine .bind ((visitPattern_walksIf hu inner h.2.1).imp fun hp => ?_)
      ((capture_law evaluates_assigns ⟨_, h.1, rfl⟩ name).walksIf _)
    simp only [Pattern.tree, all_mk, allIn_cons] at hp
    exact hp.2.1
  | .alternatives m ps =>
    simp only [Pattern.tree, all_mk] at h
    have hps := visitAlternatives_walked hu ps h.2
    intro s x s' hs hw hrun
    simp only [visitPattern, bind_ok] at hrun
    obtain ⟨after, t1, h1, _, t2, h2, h3⟩ := hrun
    obtain ⟨e1, ha, hc1, hb⟩ := newBranch_evaluated (A := A) hs h1
    obtain ⟨w2, hlive2⟩ := hps e1.sound (hw.grow e1.grows) ⟨ha, hb.isLabel⟩ h2
    obtain ⟨w3, hlive3⟩ := finish_walked (A := A) w2.sound ha (hb.grow w2.grows) h3
    refine ⟨(e1.toWalked.trans w2).trans w3, fun hp h0 => hlive3 (hlive2 ?_ ?_ (hc1 ▸ h0))⟩
    · simp only [Pattern.tree, all_mk, HasAlternatives] at hp
      exact hp.1
    · simp only [Pattern.tree, all_mk] at hp
      exact hp.2

theorem visitPatterns_walksIf (hu : u.Steady) (ps : List Pattern) (h : AllIn (Node.Fits lax A) (Pattern.trees ps)) :
    WalksIf lax a A ctx (AllIn HasAlternatives (Pattern.trees ps)) (visitPatterns u ctx ps) := by
  match ps with
  | [] => exact (Evaluates.pure _).walksIf _
  | p :: ps =>
    simp only [Pattern.trees, allIn_cons] at h
    rw [visitPatterns]
    refine .bind ((visitPattern_walksIf hu p h.1).imp fun hp => ?_) ((visitPatterns_walksIf hu ps h.2).imp fun hp => ?_)
    · simp only [Pattern.trees, allIn_cons] at hp
      exact hp.1
    · simp only [Pattern.trees, allIn_cons] at hp
      exact hp.2

/-- Alternatives lead to the label behind them, if there are any. -/
theorem visitAlternatives_walked (hu : u.Steady) (ps : List Pattern)
    (h : AllIn (Node.Fits lax A) (Pattern.trees ps)) ⦃s s' : State ω⦄ ⦃x : Unit⦄ ⦃after : FlowRef⦄
    (hs : Sound lax a s) (hw : ctx.Within a s.graph) (hj : Joint a s.graph after)
    (hrun : (visitAlternatives u ctx after ps).run s = .ok x s') :
    Walked lax a A s s' ∧
      (ps ≠ [] → AllIn HasAlternatives (Pattern.trees ps) → s.current ≠ 0 → s'.graph.Live after) := by
  match ps with
  | [] =>
    obtain ⟨_, rfl⟩ := pure_ok.1 hrun
    exact ⟨.refl hs, fun hne => absurd rfl hne⟩
  | p :: ps =>
    simp only [Pattern.trees, allIn_cons] at h ⊢
    simp only [visitAlternatives, bind_ok] at hrun
    obtain ⟨_, t1, h1, _, t2, h2, h3⟩ := hrun
    obtain ⟨w1, a1⟩ := visitPattern_walksIf hu p h.1 hs hw h1
    obtain ⟨e2, _, hlive2⟩ := linkCurrent_evaluated (A := A) w1.sound (hj.grow w1.grows) h2
    have w12 := w1.trans e2.toWalked
    obtain ⟨w3, _⟩ := visitAlternatives_walked hu ps h.2 e2.sound (hw.grow w12.grows) (hj.grow w12.grows) h3
    exact ⟨w12.trans w3, fun _ hp h0 => (hlive2 (a1 hp.1 h0)).grow w3.grows⟩

end

/-! ## Imports -/

theorem declareImport_evaluates (n : ImportName) : Evaluates lax a A ctx (declareImport u ctx n) := by
  refine .bind (bindHere_evaluates u _) fun symbol => ?_
  have hdeclare : ∀ ref, IsQuiet (do
      reportImport u n.mark (importRecord u n.mark.index)
      declareModule n.site n.asName (importRecord u n.mark.index) ref (DottedName.parts n.name)) :=
    fun ref => .bind (reportImport_quiet _ _ _) fun _ => declareModule_quiet _ _ _ _ _
  cases symbol with
  | none => exact .ofQuiet (reportImport_quiet _ _ _)
  | some ref =>
    exact .ofQuiet (.ite (hdeclare ref) (.bind (hideImported_quiet _ _ _ _) fun _ => hdeclare ref))

/-! ## Simple statements -/

/-- What a run does that leaves live code live. -/
structure Completed (lax : Bool) (a : Nat) (A : Nat → Prop) (s s' : State ω) : Prop extends Extends lax a A s s' where
  awake : s.current ≠ 0 → s'.current ≠ 0

theorem Evaluated.completed (h : Evaluated lax a A s s') : Completed lax a A s s' :=
  ⟨h.toExtends, h.awake⟩

theorem Completed.trans {s t s' : State ω} (h : Completed lax a A s t) (h' : Completed lax a A t s') :
    Completed lax a A s s' :=
  ⟨h.toExtends.trans h'.toExtends, h'.awake ∘ h.awake⟩

/-- Noting a module leaves live code live, and teaches what the import teaches. -/
theorem noteModule_completed (hs : Sound lax a s) {n : ImportName} {x : Unit}
    (h : (noteModule n : BindM ω Unit).run s = .ok x s') :
    Completed lax a A s s' ∧ s'.static u = (s.static u).learn n := by
  have hsame : ∀ t : State ω, t.graph = s.graph → t.current = s.current → t.store = s.store → t.facts = s.facts →
      t.queue = s.queue → Completed lax a A s t := by
    intro t hg hc hst hf hq
    refine ⟨⟨⟨hg ▸ hs.formed, hg ▸ hst ▸ hs.fresh, hg ▸ hc ▸ hs.current⟩, hg ▸ Grows.refl _, fun _ _ => by rw [hg],
      fun _ _ => .inl (by simp only [State.factsAt, hf]), by rw [hf], [], by simp [hq], by simp⟩, fun h0 => hc ▸ h0⟩
  -- One part of a name is a module that may teach something; no part or several teach nothing.
  rcases hparts : DottedName.parts n.name with _ | ⟨first, _ | ⟨second, rest⟩⟩
  · simp only [noteModule, StaticContext.learn, hparts] at h ⊢
    obtain ⟨_, rfl⟩ := pure_ok.1 h
    exact ⟨(Evaluated.refl hs).completed, rfl⟩
  · simp only [noteModule, StaticContext.learn, hparts] at h ⊢
    split at h
    · rename_i ht
      rw [modify_ok] at h
      subst h
      rw [if_pos ht]
      exact ⟨hsame _ rfl rfl rfl rfl rfl, rfl⟩
    · rename_i ht
      rw [if_neg ht]
      split at h
      · rename_i hsys
        rw [modify_ok] at h
        subst h
        rw [if_pos hsys]
        exact ⟨hsame _ rfl rfl rfl rfl rfl, rfl⟩
      · rename_i hsys
        obtain ⟨_, rfl⟩ := pure_ok.1 h
        rw [if_neg hsys]
        exact ⟨(Evaluated.refl hs).completed, rfl⟩
  · simp only [noteModule, StaticContext.learn, hparts] at h ⊢
    obtain ⟨_, rfl⟩ := pure_ok.1 h
    exact ⟨(Evaluated.refl hs).completed, rfl⟩

/-- Importing modules leaves live code live, and teaches what the imports teach. -/
theorem importModules_completed (names : List ImportName) (hA : ∀ n ∈ names, A n.mark.index)
    (hs : Sound lax a s) (hw : ctx.Within a s.graph) {x : Unit}
    (h : (names.forM (importModule u ctx)).run s = .ok x s') :
    Completed lax a A s s' ∧ s'.static u = names.foldl StaticContext.learn (s.static u) := by
  induction names generalizing s with
  | nil =>
    obtain rfl := forM_nil_ok.1 h
    exact ⟨(Evaluated.refl hs).completed, rfl⟩
  | cons n names ih =>
    obtain ⟨t, h1, h2⟩ := forM_cons_ok.1 h
    simp only [importModule, bind_ok] at h1
    obtain ⟨_, t1, hd, _, t2, ha, hn⟩ := h1
    have e1 := declareImport_evaluates (A := A) n hs hw hd
    have e2 := e1.trans (assignName_evaluates _ _ _ (fun _ => hA n (by simp)) e1.sound (hw.grow e1.grows) ha)
    obtain ⟨c3, hlearn⟩ := noteModule_completed (A := A) (u := u) e2.sound hn
    have c13 := e2.completed.trans c3
    obtain ⟨c4, hlearn'⟩ := ih (fun n' hn' => hA n' (by simp [hn'])) c13.sound (hw.grow c13.grows) h2
    refine ⟨c13.trans c4, ?_⟩
    rw [hlearn', hlearn, e2.static, List.foldl_cons]

/-- What evaluates goes over to simple statements. -/
theorem evaluates_sweeps (hu : u.Steady) :
    Sweeps u (Node.Fits lax A) fun _ _ _ ctx (α : Type) (f : BindM ω α) => Evaluates lax a A ctx f where
  assigns _ _ := evaluates_assigns
  bind := .bind
  mono h _ _ := h
  frame _ h := h
  annotate := @fun _ _ => annotate_evaluates
  expr e h role hr := (visitExpr_sees hu e h).evaluates _ role hr

theorem evaluatesAt_sweeps (hu : u.Steady) (node : Nat) :
    Sweeps u (Node.Fits lax A) fun _ _ _ ctx (α : Type) (f : BindM ω α) => EvaluatesAt lax a A ctx node f where
  assigns _ _ :=
    { ofQuiet := fun h => .ofEvaluates (.ofQuiet h)
      bind := .bind
      takeOver := fun x y => .ofEvaluates (evaluates_assigns.takeOver x y)
      assign := fun hn x y z w v => .ofEvaluates (evaluates_assigns.assign hn x y z w v)
      importAll := fun hn names => .ofEvaluates (evaluates_assigns.importAll hn names) }
  bind := .bind
  mono h _ _ := h
  frame _ h := h
  annotate := @fun _ _ => .ofEvaluates annotate_evaluates
  expr e h role hr := .ofEvaluates ((visitExpr_sees hu e h).evaluates _ role hr)

theorem visitWithItems_evaluates (hu : u.Steady) (items : List WithItem)
    (h : AllIn (Node.Fits lax A) (items.map WithItem.tree)) : Evaluates lax a A ctx (visitWithItems u ctx items) :=
  visitWithItems_law (T := fun _ => True) (evaluates_sweeps hu) items h

theorem visitAnnotations_evaluates (hu : u.Steady) (ps : List Parameter)
    (h : ∀ p ∈ ps, AllIn (Node.Fits lax A) (Expr.givenTree p.hint)) :
    Evaluates lax a A ctx (visitAnnotations u ctx ps) := by
  induction ps with
  | nil => exact .pure _
  | cons p ps ih =>
    exact .bind (visitGiven_evaluates hu p.hint (h p (by simp)) ctx) fun _ => ih fun q hq => h q (by simp [hq])

theorem visitFunction_evaluates (hu : u.Steady) (site : Site) (name : String) {params : Parameters}
    {decorators : List Expr} {returns : Option Expr} {body : List Stmt} (hp : params.tree.All (Node.Fits lax A))
    (hd : AllIn (Node.Fits lax A) (Expr.trees decorators))
    (hr : AllIn (Node.Fits lax A) (Expr.givenTree returns))
    (hb : AllIn (Node.Fits lax A) (Stmt.trees body)) :
    Evaluates lax a A ctx (visitFunction u ctx site name params decorators returns body) := by
  refine .bind (bindHere_evaluates u name) fun symbol => .bind (.ofQuiet (declareAt_quiet _ _)) fun place => ?_
  refine .bind (.ofQuiet (setDeclaration_quiet _ _)) fun _ => .bind (visitExprs_evaluates hu _ hd ctx .value rfl) fun _ => ?_
  refine .bind (visitDefaults_evaluates hu params hp ctx) fun _ => ?_
  refine .bind (visitAnnotations_evaluates hu _ fun p h => (annotations_of_fits hp p h).2) fun _ => ?_
  refine .bind (visitGiven_evaluates hu returns hr ctx) fun _ =>
    .bind (deferBody_evaluates ⟨fun p h => (annotations_of_fits hp p h).1, hb⟩) fun inner => ?_
  refine .ite (.bind (.ofQuiet (addIntrinsic_quiet _ _ _ _ _)) fun _ => ?_) ?_
  · exact assignName_evaluates _ _ _ nofun
  · exact assignName_evaluates _ _ _ nofun

/-- A simple statement evaluates; it may stamp itself once more. -/
theorem visitStmt_plain (hu : u.Steady) (join : Option FlowRef) {s : Stmt} (hp : isPlain s = true)
    (h : AllIn (Node.Fits lax A) s.tree.children) :
    EvaluatesAt lax a A ctx s.mark.index (visitStmt u ctx join s) := by
  match s with
  | .function m isAsync name params body decorators returns =>
    simp only [Stmt.tree, NodeTree.children, allIn_cons, allIn_append] at h
    rw [visitStmt]
    exact .ofEvaluates (visitFunction_evaluates hu _ name h.1 h.2.1.2 h.2.2 h.2.1.1)
  | .delete .. | .assign .. | .augAssign .. | .annAssign .. | .importFrom .. | .globals .. | .nonlocals .. | .expr .. | .pass ..
  | .typeAlias .. =>
    exact visitStmt_simple_law (T := fun _ => True) (evaluatesAt_sweeps hu _) hu join rfl (by simp) h
      (fun name => .ofEvaluates (assignName_evaluates name _ _ (by simp))) fun _ => importAll_evaluatesAt

end ScopeFlow.Bind
