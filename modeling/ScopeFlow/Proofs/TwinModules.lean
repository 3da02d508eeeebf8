import ScopeFlow.Proofs.Phases
import ScopeFlow.Proofs.TwinStmts

/-!
# Modules in two runs

The whole binding of a module is alike in both runs (`bindTree_mirrors`). The relations that all flow nodes, stamps and keys keep,
and that leave the numbers of symbols the same, are the simplest ones (`Plain`).
-/

namespace ScopeFlow.Bind

open Store NodeTree

variable {ω ω' : Type} {p : Twins ω ω'} {N : Nat → Prop} {R : State ω → State ω' → Prop}

/-! ## Bodies -/

theorem bindParameters_mirrors (H : Mirror p (fun _ => True) R) (ctx : Context) (ps : List Parameter) :
    Mirrors R (bindParameters p.left ctx ps) (bindParameters p.right ctx ps) := by
  induction ps with
  | nil => exact .pure rfl
  | cons q ps ih =>
    have hname : Mirrors R (assignName ctx q.mark.index q.name) (assignName ctx q.mark.index q.name) :=
      assignName_mirrors H ctx (fun _ => trivial) q.name false
    have hassign := Alike.seq hname fun _ => ih
    refine .seq (bindHere_mirrors H ctx _) fun symbol => .ite ?_ hassign
    exact .seq (H.declareAt_mirrors _ _) fun _ => .seq (H.setDeclaration _ _) fun _ => hassign

theorem newStart_mirrors (H : Mirror p N R) : Mirrors R newStart newStart := H.newNode _ rfl

theorem bindLambdaBody_mirrors (H : Mirror p (fun _ => True) R) (ctx : Context) (mark : Mark) (params : Parameters)
    (body : Expr) : Mirrors R (bindLambdaBody p.left ctx mark params body) (bindLambdaBody p.right ctx mark params body) :=
  .seq (newStart_mirrors H) fun _ => .seq (setCurrent_mirrors H _) fun _ => .seq (bindParameters_mirrors H ctx _) fun _ =>
    .seq (H.expr ctx .value body) fun _ => stampAfter_mirrors H _

/-! ## Modules -/

/-- Binds a module whose scope has been opened. -/
def bindInScope (u : Setup ω) (m : Module) (scope : Nat) : BindM ω BindResults := do
  let ctx : Context := { scope := scope, owner := m.mark.index }
  moduleIntrinsics.forM fun (name, type) => addIntrinsic u ctx name ⟨m.mark, "Module"⟩ type
  setCurrent (← newStart)
  stamp m.mark.index
  walkStatements u ctx m.body
  showKeys m.mark.index
  stampAfter m.mark.index
  bindDeferred u
  hidePrivates
  markListed scope
  return ⟨docString? m.body, (← get).all⟩

/-- A module is bound in a new scope, which is noted at its root. -/
theorem bindTree_eq (u : Setup ω) (m : Module) : bindTree u m = (do
    let scope ← newScope (if u.builtins.isNone then .builtin else .moduleBody) u.builtins
    setScope m.mark.index scope
    bindInScope u m scope) := by
  simp only [bindTree, bindModuleBody, bindInScope, bind_assoc, pure_bind]

/-- A relation that the binding of a module keeps. -/
structure ModuleMirror (p : Twins ω ω') (R : State ω → State ω' → Prop) : Prop extends Mirror p (fun _ => True) R where
  openModule : ∀ type, Mirrors R (newScope type p.left.builtins) (newScope type p.left.builtins)

section

variable (H : ModuleMirror p R)
include H

theorem nextTask_mirrors : Mirrors R nextTask nextTask := by
  intro s t h
  have hM := H.toMirror
  have hqueue := (hM.look h).queue
  cases hq : s.queue with
  | nil =>
    rw [nextTask_nil hq, nextTask_nil (hqueue.trans hq)]
    exact .ok rfl h
  | cons task queue =>
    rw [nextTask_cons hq, nextTask_cons (hqueue.trans hq)]
    exact .ok rfl (hM.queue h queue)

theorem hidePrivates_mirrors : Mirrors R hidePrivates hidePrivates := by
  refine .read fun s t h => ?_
  have hM := H.toMirror
  rw [(hM.look h).privates, (hM.look h).all]
  exact Alike.forM (fun entry _ => .ite (.pure rfl) (hM.adjustSymbol _ _ fun _ _ _ => rfl)) h

theorem markListed_mirrors (scope : Nat) : Mirrors R (markListed scope) (markListed scope) := by
  refine .read fun s t h => ?_
  have hM := H.toMirror
  rw [(hM.look h).all]
  exact Alike.forM (fun name _ => hM.adjustSymbol _ _ fun _ _ _ => rfl) h

theorem replay_mirrors (task : Task) : Mirrors R (replay p.left task) (replay p.right task) := by
  have hM := H.toMirror
  unfold replay
  split
  · exact .seq (newStart_mirrors hM) fun _ => .seq (setCurrent_mirrors hM _) fun _ =>
      .seq (bindParameters_mirrors hM _ _) fun _ => .seq (newBranch_mirrors hM) fun _ =>
        .seq (walkStatements_mirrors hM _ _) fun _ =>
        .seq (.seq (current_mirrors hM) fun _ => modifyFacts_mirrors hM _ fun _ => ⟨fun _ => rfl, id⟩) fun _ =>
          .seq (linkCurrent_mirrors hM _) fun _ => .seq (finished_mirrors hM _) fun _ => modifyFacts_mirrors hM _ fun _ =>
            ⟨fun _ => rfl, id⟩
  · exact bindLambdaBody_mirrors hM _ _ _ _

theorem drain_mirrors (bound : Nat) :
    Mirrors R (drain nextTask (replay p.left) bound) (drain nextTask (replay p.right) bound) := by
  induction bound with
  | zero => exact .pure rfl
  | succ bound ih =>
    refine .seq (nextTask_mirrors H) fun task => ?_
    cases task with
    | none => exact .pure rfl
    | some task => exact .seq (replay_mirrors H task) fun _ => .seq ih fun _ => .pure rfl

theorem bindInScope_mirrors (m : Module) (scope : Nat) :
    Mirrors R (bindInScope p.left m scope) (bindInScope p.right m scope) := by
  have hM := H.toMirror
  refine .seq (.forM fun entry _ => hM.addIntrinsic_mirrors _ _ _ _) fun _ => .seq (newStart_mirrors hM) fun _ =>
    .seq (setCurrent_mirrors hM _) fun _ => .seq (stamp_mirrors hM _) fun _ => .seq (walkStatements_mirrors hM _ _) fun _ =>
      .seq (showKeys_mirrors hM _) fun _ => .seq (stampAfter_mirrors hM _) fun _ => .seq (drain_mirrors H _).discard fun _ =>
        .seq (hidePrivates_mirrors H) fun _ => .seq (markListed_mirrors H scope) fun _ => .read fun s t h => ?_
  rw [(H.look h).all]
  exact .ok rfl h

/-- The binding of a module is alike in both runs. -/
theorem bindTree_mirrors (m : Module) : Mirrors R (bindTree p.left m) (bindTree p.right m) := by
  rw [bindTree_eq, bindTree_eq]
  exact .seq (H.openModule _) fun scope => .seq (setScope_mirrors H.toMirror _ scope) fun _ => bindInScope_mirrors H m scope

/-- From related states a module is bound with the same outcome, and to related states. -/
theorem bindModule_mirrors (m : Module) {st st' : Store} {w : ω} {w' : ω'}
    (h : R (State.initial p.left st w) (State.initial p.right st' w')) :
    (bindModule p.right m st' w').1 = (bindModule p.left m st w).1 ∧ R (bindModule p.left m st w).2
      (bindModule p.right m st' w').2 := by
  have hmeets := bindTree_mirrors H m h
  unfold bindModule
  generalize (bindTree p.left m).run (State.initial p.left st w) = x at hmeets
  generalize (bindTree p.right m).run (State.initial p.right st' w') = y at hmeets
  cases hmeets with
  | ok hresults hstates => exact ⟨by rw [hresults], hstates⟩
  | error hstates => exact ⟨rfl, hstates⟩

end

/-! ## Conditions -/

theorem addKeys_mirrors {owner : Nat} (hkey : ∀ key, Mirrors R (addKey owner key) (addKey owner key)) (references : List Expr) :
    Mirrors R (addKeys owner references) (addKeys owner references) := by
  induction references with
  | nil => exact .pure rfl
  | cons reference references ih => exact .seq (ofExcept_mirrors _) fun _ => .seq (hkey _) fun _ => ih

/-- A relation that keys and the nodes of conditions do not matter to is kept by conditions. -/
theorem conditional_mirrors (hF : Flows R) {ctx : Context} (hkey : ∀ key, Mirrors R (addKey ctx.owner key) (addKey ctx.owner key))
    (hnode : ∀ kind e reference antecedent,
      Mirrors R (newNode (.condition kind e reference antecedent)) (newNode (.condition kind e reference antecedent)))
    (kind : ConditionKind) (antecedent : FlowRef) (e : Expr) :
    Mirrors R (conditional p.left ctx kind antecedent e) (conditional p.right ctx kind antecedent e) := by
  refine .read fun s t h => ?_
  rw [(hF.look h).dead]
  refine Alike.ite (.pure rfl) ?_ h
  refine .seq (staticValue_mirrors hF e) fun value => .ite (.pure rfl) (.seq (ofExcept_mirrors _) fun narrowing => ?_)
  refine .ite ?_ (.pure rfl)
  exact .seq (addKeys_mirrors hkey _) fun _ => .seq (hnode _ _ _ _) fun ref =>
    .seq (linkRaise_mirrors hF ctx ref) fun _ => .pure rfl

/-! ## Relations that leave numbers the same -/

/-- A relation that the primitive steps of binding keep, whatever the flow nodes and keys are. Symbols have the same numbers in
related states. -/
structure Plain (p : Twins ω ω') (R : State ω → State ω' → Prop) : Prop extends Names p R where
  sameId : ∀ {s t}, R s t → ∀ {a b}, SameId s.store t.store a b → a = b
  stamped : ∀ {s t}, R s t → ∀ i, (t.factsAt i).flow = (s.factsAt i).flow
  newNode : ∀ step : FlowStep, Mirrors R (newNode step) (newNode step)
  facts : ∀ {s t}, R s t → ∀ (node : Nat) (f : NodeFacts → NodeFacts), (∀ x, x.scope.isSome → (f x).scope.isSome) →
    R { s with facts := s.facts.modify node f } { t with facts := t.facts.modify node f }
  openModule : ∀ type, Mirrors R (newScope type p.left.builtins) (newScope type p.left.builtins)

namespace Plain

variable (H : Plain p R)
include H

theorem addKey (owner : Nat) (key : String) : Mirrors R (Bind.addKey owner key) (Bind.addKey owner key) :=
  .ofModify fun _ _ h => H.facts h owner _ fun _ => id

theorem assignKey (ctx : Context) (node : Nat) (key : String) (target : Option Int) (raises unbound : Bool) :
    Mirrors R (Bind.assignKey ctx node key target raises unbound) (Bind.assignKey ctx node key target raises unbound) := by
  have hF := H.toFlows
  refine .seq (isDead_mirrors hF) fun _ => .ite (.pure rfl) (.seq (current_mirrors hF) fun _ => .seq (H.newNode _) fun ref => ?_)
  exact .seq (H.addKey _ key) fun _ => .when (linkRaise_mirrors hF ctx ref) fun _ => setCurrent_mirrors hF ref

theorem conditional (ctx : Context) (kind : ConditionKind) (antecedent : FlowRef) (e : Expr) :
    Mirrors R (Bind.conditional p.left ctx kind antecedent e) (Bind.conditional p.right ctx kind antecedent e) :=
  conditional_mirrors H.toFlows (H.addKey ctx.owner) (fun _ _ _ _ => H.newNode _) kind antecedent e

theorem module : ModuleMirror p R where
  toNames := H.toNames
  newNode step _ := H.newNode step
  facts h node f hf := H.facts h node f fun x => (hf x).2
  stamped h node _ := H.stamped h node
  stampWith h node _ := H.facts h node _ fun _ => id
  takeOver := by
    intro s t h a a' b b' ha hb
    rw [← H.sameId h ha, ← H.sameId h hb]
    exact advance_of_newNode H.toFlows (fun _ => H.newNode _) h
  assignKey := by
    intro s t h ctx target target' hrel node key raises unbound
    obtain rfl : target = target' := by
      cases hrel with
      | none => rfl
      | some hab => rw [H.sameId h hab]
    exact H.assignKey ctx node key target raises unbound h
  conditional := H.conditional
  openModule := H.openModule

end Plain

end ScopeFlow.Bind
