import ScopeFlow.Proofs.Queue
import ScopeFlow.Proofs.Stmts

/-!
# Binding one execution scope

The body of the module, of a function and of a lambda are each bound from a start of their own. Each lemma takes such a run
apart at the walk of the body: the walk begins as live code, and what the scope is stamped with in the end is the place where
the walk ended and, for a function, the join of that place with its returns.
-/

namespace ScopeFlow.Bind

open FlowGraph

variable {ω : Type} {lax : Bool} {a : Nat} {A B : Nat → Prop} {u : Setup ω} {s s' : State ω} {x : Unit} {ctx : Context}
  {mark : Mark}

/-- What holds between two execution scopes: the graph is formed, and its numbers have been handed out. -/
structure Settled (lax : Bool) (s : State ω) : Prop where
  formed : s.graph.Formed lax s.graph.size
  fresh : ∀ (i : Nat) (n : FlowNode), s.graph[i]? = some n → n.id < s.store.nextFlowId

theorem Sound.settled (h : Sound lax a s) : Settled lax s := ⟨h.formed.rebase, h.fresh⟩

/-- Before anything is bound, the graph holds the sentinel alone. -/
theorem sound_initial (u : Setup ω) {store : Store} (hid : 0 < store.nextFlowId) (world : ω) :
    Sound lax 1 (State.initial u store world) := by
  refine ⟨formed_initial lax, fun i n hn => ?_, .inl rfl⟩
  have hsentinel : n = FlowGraph.sentinel := by
    cases i with
    | zero => exact (Option.some.inj hn).symm
    | succ i => simp [State.initial, FlowGraph.initial] at hn
  exact hsentinel ▸ hid

/-- Whether an execution scope begins at a place. -/
def BeginsAt (g : FlowGraph) (r : FlowRef) : Prop := ∃ id, g[r]? = some ⟨id, .start⟩

theorem BeginsAt.grow {g g' : FlowGraph} {r : FlowRef} (h : BeginsAt g r) (hg : g.Grows g') : BeginsAt g' r := by
  obtain ⟨id, hn⟩ := h
  obtain ⟨more, hm⟩ := hg r _ hn
  exact ⟨id, hm⟩

/-- A new start begins an execution scope with live code. -/
theorem enterScope_walked (hs : Settled lax s)
    (h : (do setCurrent (← newStart) : BindM ω Unit).run s = .ok x s') :
    Walked lax s.graph.size B s s' ∧ s'.current ≠ 0 ∧ BeginsAt s'.graph s.graph.size := by
  obtain ⟨ref, t, h1, h2⟩ := bind_ok.1 h
  obtain ⟨rfl, rfl⟩ := newNode_ok.1 h1
  obtain rfl := setCurrent_ok.1 h2
  have hgrow := Grows.push s.graph ⟨s.store.nextFlowId, .start⟩
  have hnode : (s.graph.push ⟨s.store.nextFlowId, .start⟩)[s.graph.size]? = some ⟨s.store.nextFlowId, .start⟩ := by simp
  have hfresh : ∀ (i : Nat) (n : FlowNode), (s.graph.push ⟨s.store.nextFlowId, .start⟩)[i]? = some n →
      n.id < s.store.nextFlowId + 1 := by
    intro i n hn
    rw [Array.getElem?_push] at hn
    split at hn
    · obtain rfl := Option.some.inj hn
      exact Int.lt_succ _
    · exact (hs.fresh i n hn).trans (Int.lt_succ _)
  have hformed : Formed lax s.graph.size (s.graph.push ⟨s.store.nextFlowId, .start⟩) :=
    hs.formed.push hs.fresh rfl (by simp [FlowStep.isLabel]) (by simp [FlowStep.antecedents]) fun _ => rfl
  refine ⟨⟨⟨⟨hformed, hfresh, .inr ⟨le_refl _, .start hnode rfl⟩⟩, hgrow, fun i hi => ?_, fun _ _ => .inl rfl, rfl, [],
    by simp, by simp⟩, rfl, rfl⟩, Nat.pos_iff_ne_zero.1 hs.formed.base, _, hnode⟩
  show (s.graph.push _)[i]? = s.graph[i]?
  rw [Array.getElem?_push_lt hi]
  simp [hi]

theorem bindParameters_evaluates (ps : List Parameter) (hA : ∀ p ∈ ps, A p.mark.index) :
    Evaluates lax a A ctx (bindParameters u ctx ps) := by
  induction ps with
  | nil => exact .pure _
  | cons p ps ih =>
    have hrest : Evaluates lax a A ctx (do assignName ctx p.mark.index p.name; bindParameters u ctx ps) :=
      .bind (assignName_evaluates _ _ _ fun _ => hA p (by simp)) fun _ => ih fun q hq => hA q (by simp [hq])
    refine .bind (bindHere_evaluates u _) fun symbol => .ite ?_ hrest
    exact .bind (.ofQuiet (declareAt_quiet _ _)) fun _ => .bind (.ofQuiet (setDeclaration_quiet _ _)) fun _ => hrest

/-- A change of what is known of a node that keeps the flow node in force at it keeps all of them. -/
theorem flow_of_modifyFacts {node : Nat} {f : NodeFacts → NodeFacts}
    (h : (modifyFacts node f : BindM ω Unit).run s = .ok x s') (hf : ∀ x, (f x).flow = x.flow) (i : Nat) :
    (s'.factsAt i).flow = (s.factsAt i).flow := by
  rw [modifyFacts_ok] at h
  subst h
  rw [State.factsAt_modify]
  split
  · exact hf _
  · rfl

/-- A node whose facts are changed has the changed facts. -/
theorem factsAt_of_modifyFacts {node : Nat} {f : NodeFacts → NodeFacts}
    (h : (modifyFacts node f : BindM ω Unit).run s = .ok x s') (hlt : node < s.facts.size) :
    s'.factsAt node = f (s.factsAt node) := by
  rw [modifyFacts_ok] at h
  subst h
  rw [State.factsAt_modify, if_pos ⟨rfl, hlt⟩]

/-- The last steps of the body of a function: the place where it ended is kept, and joined with its returns. -/
theorem leaveFunction_laid {returns : FlowRef} (hs : Sound lax a s) (ha : a ≤ returns)
    (hb : s.graph.IsBranch returns) (hA : A mark.index) (h : (do
      stampAfterBody mark.index
      linkCurrent returns
      stampAfterWith mark.index (← finished returns) : BindM ω Unit).run s = .ok x s') :
    Walked lax a A s s' ∧ (∀ i, (s'.factsAt i).flow = (s.factsAt i).flow) ∧
      (mark.index < s.facts.size → (s'.factsAt mark.index).afterBody = some s.current ∧
        ∃ r, (s'.factsAt mark.index).after = some r ∧ (s.current ≠ 0 ∨ s.graph.Live returns → r ≠ 0)) := by
  simp only [bind_ok, stampAfterBody, current_ok, finished_ok] at h
  obtain ⟨_, t1, ⟨_, _, ⟨rfl, rfl⟩, h1⟩, _, t2, h2, _, _, ⟨rfl, rfl⟩, h3⟩ := h
  obtain ⟨e1, _⟩ := modifyFacts_evaluated hs hA (fun f m => by
    cases m
    · exact .inl rfl
    · exact .inl rfl
    · exact .inr ⟨s.current, rfl, hs.current⟩) h1
  obtain ⟨e2, _, hlive⟩ := linkCurrent_evaluated (A := A) e1.sound ⟨ha, (hb.grow e1.grows).isLabel⟩ h2
  have hbranch := hb.grow (e1.trans e2).grows
  obtain ⟨e3, _⟩ := stampAfterWith_evaluated e2.sound hA (e2.sound.formed.finish_known hbranch ha) h3
  have hfacts : ∀ i, t2.factsAt i = t1.factsAt i := by
    have hsame : t2.facts = t1.facts := by
      rw [link_ok.1 (linkCurrent_ok.1 h2)]
      split <;> rfl
    intro i
    simp only [State.factsAt, hsame]
  have hsize : t2.facts.size = s.facts.size := (e1.trans e2).nodes
  refine ⟨((e1.trans e2).trans e3).toWalked, fun i => ?_, fun hlt => ?_⟩
  · rw [flow_of_modifyFacts h3 fun _ => rfl, hfacts, flow_of_modifyFacts h1 fun _ => rfl]
  · rw [factsAt_of_modifyFacts h3 (hsize ▸ hlt), hfacts, factsAt_of_modifyFacts h1 hlt]
    refine ⟨rfl, _, rfl, fun hor => e2.sound.formed.finish_ne_zero hbranch ha ?_⟩
    rcases hor with h0 | hl
    · exact hlive (e1.awake h0)
    · exact hl.grow (e1.trans e2).grows

/-- The labels of a function in whose body no statement has been entered yet. -/
theorem Context.Within.entered {g : FlowGraph} {returns : FlowRef} (h : ctx.labels = [])
    (hr : Joint a g returns) (function : Option Nat) :
    Context.Within { ctx with function := function, returnTarget := some returns } a g := by
  intro l hl
  simp only [Context.labels, List.append_eq_nil_iff] at h
  obtain ⟨⟨⟨⟨_, hbreak⟩, hcontinue⟩, hexcept⟩, hfinally⟩ := h
  simp only [Context.labels, hbreak, hcontinue, hexcept, hfinally, Option.toList_some, List.append_nil,
    List.mem_singleton] at hl
  exact hl ▸ hr

/-- The body of a function: its walk begins as live code, and its end and its returns are stamped on the function. -/
theorem bindFunctionBody_laid {params : Parameters} {body : List Stmt} (hs : Settled lax s)
    (hctx : ctx.labels = []) (hB : ∀ p ∈ params.all, B p.mark.index)
    (hbody : ∀ inner, Performs lax s.graph.size A inner (walkStatements u inner body))
    (h : (bindFunctionBody u ctx mark params body).run s = .ok x s') :
    ∃ returns t1 t2, Walked lax s.graph.size B s t1 ∧ t1.current ≠ 0 ∧ BeginsAt t1.graph s.graph.size ∧
      Context.Within { ctx with function := some mark.index, returnTarget := some returns } s.graph.size t1.graph ∧
      (walkStatements u { ctx with function := some mark.index, returnTarget := some returns } body).run t1 = .ok () t2 ∧
      Walked lax s.graph.size (fun i => i = mark.index) t2 s' ∧ (∀ i, (s'.factsAt i).flow = (t2.factsAt i).flow) ∧
      (mark.index < s.facts.size → (s'.factsAt mark.index).afterBody = some t2.current ∧
        ∃ r, (s'.factsAt mark.index).after = some r ∧ (t2.current ≠ 0 ∨ t2.graph.Live returns → r ≠ 0)) := by
  obtain ⟨start, q1, h1, h⟩ := bind_ok.1 h
  obtain ⟨_, q2, h2, h⟩ := bind_ok.1 h
  obtain ⟨_, q3, h3, h⟩ := bind_ok.1 h
  obtain ⟨returns, q4, h4, h⟩ := bind_ok.1 h
  obtain ⟨_, q5, h5, h⟩ := bind_ok.1 h
  obtain ⟨w2, h02, hstart⟩ := enterScope_walked (B := B) hs (bind_ok.2 ⟨start, q1, h1, h2⟩)
  have hnone : ∀ g, ctx.Within s.graph.size g := by
    intro g l hl
    rw [hctx] at hl
    cases hl
  have e3 := bindParameters_evaluates params.all hB w2.sound (hnone _) h3
  obtain ⟨e4, ha4, _, hb4⟩ := newBranch_evaluated (A := B) e3.sound h4
  have e34 := e3.trans e4
  have hinner := Context.Within.entered hctx ⟨ha4, hb4.isLabel⟩ (some mark.index)
  have x5 := hbody _ e4.sound hinner h5
  obtain ⟨w6, hflow, hends⟩ := leaveFunction_laid (A := fun i => i = mark.index) x5.sound ha4 (hb4.grow x5.grows) rfl h
  refine ⟨returns, q4, q5, w2.trans e34.toWalked, e34.awake h02, hstart.grow e34.grows, hinner, h5, w6, hflow, fun hlt => ?_⟩
  rw [← w2.nodes, ← e34.nodes, ← x5.nodes] at hlt
  exact hends hlt

/-- The body of a lambda: its end is live code. -/
theorem bindLambdaBody_laid (hu : u.Steady) {params : Parameters} {body : Expr}
    (hs : Settled lax s) (hctx : ctx.labels = []) (hp : ∀ p ∈ params.all, A p.mark.index)
    (hb : body.tree.All (Node.Fits lax A))
    (h : (bindLambdaBody u ctx mark params body).run s = .ok x s') :
    ∃ t1, Walked lax s.graph.size A s t1 ∧ t1.current ≠ 0 ∧ BeginsAt t1.graph s.graph.size ∧
      (stampAfter mark.index : BindM ω Unit).run t1 = .ok () s' := by
  obtain ⟨start, q1, h1, h⟩ := bind_ok.1 h
  obtain ⟨_, q2, h2, h⟩ := bind_ok.1 h
  obtain ⟨_, q3, h3, h⟩ := bind_ok.1 h
  obtain ⟨_, q4, h4, h5⟩ := bind_ok.1 h
  obtain ⟨w2, h02, hstart⟩ := enterScope_walked (B := A) hs (bind_ok.2 ⟨start, q1, h1, h2⟩)
  have hnone : ∀ g, ctx.Within s.graph.size g := by
    intro g l hl
    rw [hctx] at hl
    cases hl
  have e3 := bindParameters_evaluates params.all hp w2.sound (hnone _) h3
  have e4 := e3.trans ((visitExpr_sees hu body hb).value ctx e3.sound (hnone _) h4)
  exact ⟨q4, w2.trans e4.toWalked, e4.awake h02, hstart.grow e4.grows, h5⟩

/-- The body of the module: its walk begins as live code, and its end is stamped on the module. -/
theorem bindModuleBody_laid {m : Module} (hs : Sound lax s.graph.size s) (hB : B m.mark.index)
    (hbody : ∀ inner, Performs lax s.graph.size A inner (walkStatements u inner m.body)) {scope : Nat}
    (h : (bindModuleBody u m).run s = .ok scope s') :
    ∃ t1 t2, Walked lax s.graph.size B s t1 ∧ t1.current ≠ 0 ∧ BeginsAt t1.graph s.graph.size ∧
      (walkStatements u { scope := scope, owner := m.mark.index } m.body).run t1 = .ok () t2 ∧
      Walked lax s.graph.size (fun i => i = m.mark.index) t2 s' ∧ (∀ i, (s'.factsAt i).flow = (t2.factsAt i).flow) ∧
      (m.mark.index < s.facts.size → (s'.factsAt m.mark.index).after = some t2.current) := by
  simp only [bindModuleBody] at h
  obtain ⟨scope', q1, h1, h⟩ := bind_ok.1 h
  obtain ⟨_, q2, h2, h⟩ := bind_ok.1 h
  obtain ⟨_, q3, h3, h⟩ := bind_ok.1 h
  obtain ⟨start, q4, h4, h⟩ := bind_ok.1 h
  obtain ⟨_, q5, h5, h⟩ := bind_ok.1 h
  obtain ⟨_, q6, h6, h⟩ := bind_ok.1 h
  obtain ⟨_, q7, h7, h⟩ := bind_ok.1 h
  obtain ⟨_, q8, h8, h⟩ := bind_ok.1 h
  obtain ⟨_, q9, h9, h⟩ := bind_ok.1 h
  obtain ⟨rfl, rfl⟩ := pure_ok.1 h
  have hnone : ∀ g, Context.Within { scope := scope', owner := m.mark.index } s.graph.size g := fun _ => .bare _ _
  have hquiet1 := newScope_quiet _ _ h1
  have hquiet3 := Along.forM (fun p => addIntrinsic_quiet u _ p.1 _ p.2) moduleIntrinsics h3
  have e1 := Evaluated.ofQuiet (A := B) hs hquiet1
  have e2 := e1.trans (setScope_evaluates e1.sound (hnone _) h2)
  have e3 := e2.trans (.ofQuiet e2.sound hquiet3)
  -- Nothing before the start touches the graph, so the start has the place where the scope begins.
  have hgraph : q3.graph = s.graph := by
    rw [hquiet3.graph, modifyFacts_ok.1 h2]
    exact hquiet1.graph
  obtain ⟨w5, h05, hstart⟩ := enterScope_walked (B := B) e3.sound.settled (bind_ok.2 ⟨start, q4, h4, h5⟩)
  rw [hgraph] at w5 hstart
  have e6 := stamp_evaluates hB w5.sound (hnone _) h6
  have w16 := (e3.toWalked.trans w5).trans e6.toWalked
  have x7 := hbody _ w16.sound (hnone _) h7
  have hquiet8 := showKeys_quiet _ h8
  have e8 := Evaluated.ofQuiet (A := fun i => i = m.mark.index) x7.sound hquiet8
  have e9 := stampAfter_evaluates (A := fun i => i = m.mark.index) rfl e8.sound (hnone _) h9
  simp only [stampAfter, bind_ok, current_ok] at h9
  obtain ⟨_, _, ⟨rfl, rfl⟩, h9⟩ := h9
  have hflow8 : ∀ i, (q8.factsAt i).flow = (q7.factsAt i).flow := fun i => congrArg (fun marks => marks.2.1) (hquiet8.marks i)
  refine ⟨q6, q7, w16, e6.awake h05, hstart.grow e6.grows, h7, (e8.trans e9).toWalked, fun i => ?_, fun hlt => ?_⟩
  · rw [flow_of_modifyFacts h9 fun _ => rfl, hflow8]
  · rw [← w16.nodes, ← x7.nodes, ← e8.nodes] at hlt
    rw [factsAt_of_modifyFacts h9 hlt, hquiet8.current]

end ScopeFlow.Bind
