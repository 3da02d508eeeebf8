import ScopeFlow.Proofs.StepLaws

/-!
# Steps that extend the flow graph

A relation that is kept when flow nodes are added and linked, when control goes on elsewhere and when nodes are marked is kept
by the steps of binding that are put together from these (`Flowing`). What they leave alone are the queue, the reports and the
exported names. Only what defines a function or lambda touches the queue; all other steps are still.
-/

namespace ScopeFlow.Bind

variable {ω : Type} {α β : Type}

/-- A relation that is kept by steps that extend the flow graph. -/
structure Flowing (r : State ω → State ω → Prop) : Prop where
  newNode : ∀ step : FlowStep, Along r (newNode step)
  modifyFacts : ∀ (node : Nat) (f : NodeFacts → NodeFacts), Along r (modifyFacts node f)
  setCurrent : ∀ ref : FlowRef, Along r (setCurrent ref)
  addAntecedent : ∀ (s : State ω) (label ref : FlowRef), r s { s with graph := s.graph.addAntecedent label ref }

namespace Flowing

variable {r : State ω → State ω → Prop} [IsPreorder (State ω) r] (H : Flowing r)
include H

omit [IsPreorder (State ω) r] in
theorem newBranch : Along r (Bind.newBranch : BindM ω FlowRef) := H.newNode _

theorem newBranches (n : Nat) : Along r (Bind.newBranches n : BindM ω (List FlowRef)) := by
  induction n with
  | zero => exact .pure _
  | succ n ih => exact .bind H.newBranch fun _ => .bind ih fun _ => .pure _

theorem link (label ref : FlowRef) : Along r (Bind.link label ref : BindM ω Unit) :=
  .bind .isDead fun _ => .ite (.pure _) (.ofModify fun s => H.addAntecedent s label ref)

theorem linkCurrent (label : FlowRef) : Along r (Bind.linkCurrent label : BindM ω Unit) := .bind .current fun _ => H.link _ _

theorem linkCurrentAll (labels : List FlowRef) : Along r (Bind.linkCurrentAll labels : BindM ω Unit) := by
  induction labels with
  | nil => exact .pure _
  | cons l ls ih => exact .bind (H.linkCurrent l) fun _ => ih

theorem linkRaise (ctx : Context) (ref : FlowRef) : Along r (Bind.linkRaise ctx ref : BindM ω Unit) :=
    .forM (fun _ => H.link _ _) _

theorem finish (label : FlowRef) : Along r (Bind.finish label : BindM ω Unit) :=
  .bind (.bind .get fun _ => .pure _) fun _ => H.setCurrent _

theorem stamp (node : Nat) : Along r (Bind.stamp node : BindM ω Unit) := .bind .current fun _ => H.modifyFacts _ _

theorem stampAfter (node : Nat) : Along r (Bind.stampAfter node : BindM ω Unit) := .bind .current fun _ => H.modifyFacts _ _

theorem advance (step : FlowRef → FlowStep) : Along r (Bind.advance step : BindM ω Unit) :=
  .bind .isDead fun _ => .ite (.pure _) <| .bind .current fun _ => .bind (H.newNode _) fun _ => H.setCurrent _

theorem call (ctx : Context) (node : Nat) (function : Expr) : Along r (Bind.call ctx node function : BindM ω Unit) :=
  .bind (H.advance _) fun _ => .bind (H.stamp _) fun _ => .bind .isDead fun _ =>
    .ite (.pure _) (.bind .current fun _ => H.linkRaise _ _)

theorem importAll (ctx : Context) (node : Nat) (names : List String) : Along r (Bind.importAll ctx node names : BindM ω Unit) :=
  .bind .isDead fun _ => .ite (H.stamp _) <| .bind .current fun _ =>
    .bind (H.newNode _) fun _ => .bind (H.linkRaise _ _) fun _ => .bind (H.setCurrent _) fun _ => H.stamp _

theorem enterBranch (label : FlowRef) (value : Option Bool) (ruledOut : Bool) :
    Along r (Bind.enterBranch label value ruledOut : BindM ω Unit) := .ite (H.setCurrent _) (H.finish _)

theorem jump (targets : List FlowRef) : Along r (Bind.jump targets : BindM ω Unit) :=
  .bind (H.linkCurrentAll _) fun _ => H.setCurrent _

/-! ## Conditions -/

theorem addKeys (owner : Nat) (es : List Expr) : Along r (Bind.addKeys owner es : BindM ω Unit) := by
  induction es with
  | nil => exact .pure _
  | cons e es ih => exact .bind (.ofExcept _) fun _ => .bind (H.modifyFacts _ _) fun _ => ih

theorem conditional (u : Setup ω) (ctx : Context) (kind : ConditionKind) (antecedent : FlowRef) (e : Expr) :
    Along r (Bind.conditional u ctx kind antecedent e) := by
  have hnode : ∀ step :
    FlowStep, Along r (do let ref ← Bind.newNode step; Bind.linkRaise ctx ref; return ref : BindM ω FlowRef) :=
    fun step => .bind (H.newNode _) fun _ => .bind (H.linkRaise _ _) fun _ => .pure _
  refine .bind .get fun s => .ite (.pure _) (.bind (.bind .get fun _ => .ofExcept _) fun value => .ite (.pure _) ?_)
  exact .bind (.ofExcept _) fun narrowing => .ite (.bind (H.addKeys _ _) fun _ => hnode _) (.pure _)

theorem linkTest (u : Setup ω) (ctx : Context) (onTrue onFalse : FlowRef) (e : Expr) :
    Along r (Bind.linkTest u ctx onTrue onFalse e) :=
  .bind .current fun _ => .bind (H.conditional _ _ _ _ _) fun _ => .bind (H.link _ _) fun _ =>
    .bind .current fun _ => .bind (H.conditional _ _ _ _ _) fun _ => H.link _ _

theorem linkNever (u : Setup ω) (ctx : Context) (target : FlowRef) (positive : Bool) (e : Expr) :
    Along r (Bind.linkNever u ctx target positive e) := by
  refine linkNever_law (u := u) (v := u) (Q := fun _ => True) (Φ := fun _ f _ => Along r f) ?_ e trivial target positive
  refine ⟨.pure _, .bind, .current, H.setCurrent, H.newBranch, H.finish, ?_, fun _ => trivial, fun _ _ _ => trivial,
    fun _ => .throw _⟩
  intro e hl _ target positive
  rw [linkNever_leaf hl]
  refine .bind (.ofExcept _) fun narrowing => .ite ?_ (H.linkCurrent _)
  exact .bind .current fun _ => .bind (H.conditional _ _ _ _ _) fun _ => .bind (H.setCurrent _) fun _ => H.linkCurrent _

/-! ## Names -/

theorem takeOver (target source : Int) : Along r (Bind.takeOver target source : BindM ω Unit) := H.advance _

theorem assign (ctx : Context) (node : Nat) (name key : Option String) (raises stamps unbound : Bool) :
    Along r (Bind.assign ctx node name key raises stamps unbound : BindM ω Unit) := by
  have hstamp : ∀ before, Along r (if stamps then stampAssigned node before unbound else pure () : BindM ω Unit) := by
    refine fun before => .ite ?_ (.pure _)
    exact .ite (.bind (.factsOf _) fun _ => .ite (H.modifyFacts _ _) (.pure _)) (H.stamp _)
  have hname : Along r (assignedSymbol ctx name : BindM ω (Option Int)) := by
    unfold assignedSymbol
    split
    · exact .pure _
    · refine .bind (.consult _) fun found => ?_
      cases found with
      | none => exact .throw _
      | some found => exact .pure _
  refine .bind hname fun target => .bind .current fun before => ?_
  cases key with
  | none => exact hstamp before
  | some key =>
    have hkey : Along r (assignKey ctx node key target raises unbound : BindM ω Unit) := by
      refine .bind .isDead fun _ => .ite (.pure _) (.bind .current fun _ => ?_)
      refine .bind (H.newNode _) fun ref => .bind (H.modifyFacts _ _) fun _ => ?_
      exact .ite (.bind (H.linkRaise _ _) fun _ => H.setCurrent ref) (H.setCurrent ref)
    exact .bind hkey fun _ => hstamp before

end Flowing

/-- What can be seen without the flow graph, its counter and the marks of nodes is left alone. -/
theorem flowing_of_view {γ : Type} {view : State ω → γ} (h : ∀ (s : State ω) graph current facts flow past, view { s with
    graph := graph, current := current, facts := facts, store := { s.store with nextFlowId := flow }, past := past } = view s) :
    Flowing (Keeping view) where
  newNode step s _ _ hrun := by
    obtain ⟨_, rfl⟩ := newNode_ok.1 hrun
    exact h s _ s.current s.facts _ _
  modifyFacts _ _ := .ofModify fun s => h s s.graph s.current _ s.store.nextFlowId s.past
  setCurrent _ := .ofModify fun s => h s s.graph _ s.facts s.store.nextFlowId s.past
  addAntecedent s _ _ := h s _ s.current s.facts s.store.nextFlowId s.past

/-! ## The queue -/

/-- A step that leaves the queue as it is. -/
abbrev Still (f : BindM ω α) : Prop := Along (Keeping State.queue) f

/-- A quiet step leaves the queue as it is. -/
theorem Along.ofQuiet {f : BindM ω α} (h : IsQuiet f) : Still f := fun _ _ _ hr => (h hr).queue

theorem still : Flowing (Keeping (State.queue (ω := ω))) := flowing_of_view fun _ _ _ _ _ _ => rfl

/-- Binding names leaves the queue alone. -/
theorem still_binds : Binds fun (α : Type) (f : BindM ω α) => Still f where
  ofQuiet := .ofQuiet
  bind := .bind
  takeOver := still.takeOver

/-- So do assigning and importing. -/
theorem still_assigns (ctx : Context) : Assigns (fun _ => True) ctx fun (α : Type) (f : BindM ω α) => Still f where
  toBinds := still_binds
  assign _ := still.assign ctx _
  importAll _ := still.importAll ctx _

end ScopeFlow.Bind
