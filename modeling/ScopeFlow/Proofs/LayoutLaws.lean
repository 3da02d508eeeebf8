import ScopeFlow.Proofs.Run

/-!
# Properties of layouts

A compound statement creates labels, leads to them and walks its suites in between. A property of pairs of steps, in two runs
that may have different setups, goes over to a layout from its suites if the steps that create labels and lead to them have it
(`Frames`).
-/

namespace ScopeFlow

/-- Whether a flow node is one that a layout creates: a label, or the entry or the end of a `finally` suite. -/
def FlowStep.isFrame : FlowStep → Bool
  | .branch [] | .loop [] | .contextManager _ _ [] | .gate .. | .postFinally .. => true
  | _ => false

namespace Bind

variable {ω ω' : Type} {u : Setup ω} {v : Setup ω'} {E : Expr → Prop} {S : Nat → Prop}
  {Φ : (α : Type) → BindM ω α → BindM ω' α → Prop}

/-- A property of pairs of steps that goes over to layouts, of tests with `E` and of nodes with `S`. -/
structure Frames (u : Setup ω) (v : Setup ω') (E : Expr → Prop) (S : Nat → Prop)
    (Φ : (α : Type) → BindM ω α → BindM ω' α → Prop) : Prop where
  bind : ∀ {α β : Type} {f : BindM ω α} {f' : BindM ω' α} {g : α → BindM ω β} {g' : α → BindM ω' β}, Φ α f f' →
    (∀ x, Φ β (g x) (g' x)) → Φ β (f >>= g) (f' >>= g')
  pure : ∀ {α : Type} (x : α), Φ α (pure x) (pure x)
  current : Φ FlowRef current current
  isDead : Φ Bool isDead isDead
  newNode : ∀ {step : FlowStep}, step.isFrame = true → Φ FlowRef (newNode step) (newNode step)
  setCurrent : ∀ ref, Φ Unit (setCurrent ref) (setCurrent ref)
  link : ∀ label ref, Φ Unit (link label ref) (link label ref)
  finish : ∀ label, Φ Unit (finish label) (finish label)
  stampAfter : ∀ {node}, S node → Φ Unit (stampAfter node) (stampAfter node)
  staticValue : ∀ {e}, E e → Φ (Option Bool) (staticValue u e) (staticValue v e)

namespace Frames

variable (H : Frames u v E S Φ) {α : Type}
include H

omit H in
theorem ite (_ : Frames u v E S Φ) {c : Prop} [Decidable c] {f g : BindM ω α} {f' g' : BindM ω' α} (hf : Φ α f f')
    (hg : Φ α g g') : Φ α (if c then f else g) (if c then f' else g') := by
  split
  · exact hf
  · exact hg

theorem newBranch : Φ FlowRef newBranch newBranch := H.newNode rfl

theorem newBranches (n : Nat) : Φ (List FlowRef) (newBranches n) (newBranches n) := by
  induction n with
  | zero => exact H.pure _
  | succ n ih => exact H.bind H.newBranch fun _ => H.bind ih fun _ => H.pure _

theorem linkCurrent (label : FlowRef) : Φ Unit (linkCurrent label) (linkCurrent label) := H.bind H.current fun _ => H.link _ _

theorem linkCurrentAll (labels : List FlowRef) : Φ Unit (linkCurrentAll labels) (linkCurrentAll labels) := by
  induction labels with
  | nil => exact H.pure _
  | cons label labels ih => exact H.bind (H.linkCurrent label) fun _ => ih

theorem jump (targets : List FlowRef) : Φ Unit (jump targets) (jump targets) :=
  H.bind (H.linkCurrentAll targets) fun _ => H.setCurrent 0

theorem enterBranch (label : FlowRef) (value : Option Bool) (ruledOut : Bool) :
    Φ Unit (enterBranch label value ruledOut) (enterBranch label value ruledOut) := H.ite (H.setCurrent 0) (H.finish label)

variable {ctx : Context} {node : Nat} {e : Expr} {after : FlowRef} {target orElse walk next body final : BindM ω Unit}
  {target' orElse' walk' next' body' final' : BindM ω' Unit} {inside other : Context → BindM ω Unit}
    {inside' other' : Context → BindM ω' Unit}
  {test : FlowRef → FlowRef → BindM ω Unit} {test' : FlowRef → FlowRef → BindM ω' Unit}

variable (Φ test test') in
/-- Tests are related wherever they lead. -/
abbrev Tests : Prop := ∀ onTrue onFalse, Φ Unit (test onTrue onFalse) (test' onTrue onFalse)

/-! ## Expressions -/

theorem choice (ht : Tests Φ test test') (hb : Φ Unit body body')
    (ho : Φ Unit orElse orElse') : Φ Unit (choice test body orElse) (choice test' body' orElse') := by
  refine H.bind H.newBranch fun _ => H.bind H.newBranch fun _ => H.bind H.newBranch fun _ => H.bind (ht _ _) fun _ => ?_
  refine H.bind (H.finish _) fun _ => H.bind hb fun _ => H.bind (H.linkCurrent _) fun _ => H.bind (H.finish _) fun _ => ?_
  exact H.bind ho fun _ => H.bind (H.linkCurrent _) fun _ => H.finish _

theorem eitherWay (ht : Tests Φ test test') :
    Φ Unit (eitherWay test) (eitherWay test') := H.bind H.newBranch fun _ => H.bind (ht _ _) fun _ => H.finish _

theorem condition {onFalse : FlowRef} (ht : ∀ onTrue, Φ Unit (test onTrue onFalse) (test' onTrue onFalse)) :
    Φ Unit (condition onFalse test) (condition onFalse test') := H.bind H.newBranch fun _ => H.bind (ht _) fun _ => H.finish _

theorem operand {op : BoolOperator} {onTrue onFalse : FlowRef} (ht : Tests Φ test test') :
    Φ Unit (operand op onTrue onFalse test) (operand op onTrue onFalse test') := by
  refine H.bind H.newBranch fun next => ?_
  cases op with
  | and | or => exact H.bind (ht _ _) fun _ => H.finish next

/-! ## Loops -/

theorem layOutFor (hnode : S node) (ht : Φ Unit target target')
    (hb : ∀ inner : Context, inner.scope = ctx.scope → inner.owner = ctx.owner →
      (∃ c b, inner = { ctx with continueTarget := c, breakTarget := b }) → Φ Unit (inside inner) (inside' inner))
    (ho : Φ Unit orElse orElse') :
    Φ Unit (layOutFor ctx node target inside orElse) (layOutFor ctx node target' inside' orElse') := by
  refine H.bind (H.newNode rfl) fun _ => H.bind H.newBranch fun _ => H.bind H.newBranch fun _ => ?_
  refine H.bind (H.linkCurrent _) fun _ => H.bind (H.setCurrent _) fun _ => H.bind (H.linkCurrent _) fun _ =>
    H.bind ht fun _ => ?_
  refine H.bind (hb _ rfl rfl ⟨_, _, rfl⟩) fun _ => H.bind (H.linkCurrent _) fun _ => H.bind (H.finish _) fun _ =>
    H.bind ho fun _ => ?_
  exact H.bind (H.linkCurrent _) fun _ => H.bind (H.finish _) fun _ => H.stampAfter hnode

theorem layOutWhile (he : E e) (hnode : S node) (ht : Tests Φ test test')
    (hb : ∀ inner : Context, inner.scope = ctx.scope → inner.owner = ctx.owner →
      (∃ c b, inner = { ctx with continueTarget := c, breakTarget := b }) → Φ Unit (inside inner) (inside' inner))
    (ho : Φ Unit orElse orElse') :
    Φ Unit (layOutWhile u ctx node e test inside orElse) (layOutWhile v ctx node e test' inside' orElse') := by
  refine H.bind H.newBranch fun _ => H.bind H.newBranch fun _ => H.bind H.newBranch fun _ => H.bind (H.staticValue he) fun _ => ?_
  refine H.bind (H.newNode rfl) fun _ => H.bind (H.linkCurrent _) fun _ => H.bind (H.setCurrent _) fun _ =>
    H.bind (ht _ _) fun _ => ?_
  refine H.bind (H.enterBranch _ _ _) fun _ => H.bind (hb _ rfl rfl ⟨_, _, rfl⟩) fun _ => H.bind (H.linkCurrent _) fun _ => ?_
  refine H.bind (H.enterBranch _ _ _) fun _ => H.bind ho fun _ => ?_
  exact H.bind (H.linkCurrent _) fun _ => H.bind (H.finish _) fun _ => H.stampAfter hnode

/-! ## Branches -/

theorem layOutElse {stmts : List Stmt} (hnever : Φ Unit (linkNever u ctx after false e) (linkNever v ctx after false e))
    (hwalk : Φ Unit walk walk') (hnext : isElif stmts = true → Φ Unit next next') :
    Φ Unit (layOutElse u ctx after e stmts walk next) (layOutElse v ctx after e stmts walk' next') := by
  refine H.bind H.isDead fun dead => ?_
  split
  · rename_i helif
    exact hnext (by revert helif; cases isElif stmts <;> simp)
  · exact H.ite (H.bind hnever fun _ => H.linkCurrent after) (H.bind hwalk fun _ => H.linkCurrent after)

theorem layOutIf {join : Option FlowRef} {rest : FlowRef → BindM ω Unit} {rest' : FlowRef → BindM ω' Unit} (he : E e)
    (ht : Tests Φ test test') (hb : Φ Unit body body')
    (ho : ∀ after, Φ Unit (rest after) (rest' after)) :
    Φ Unit (layOutIf u join e test body rest) (layOutIf v join e test' body' rest') := by
  have hjoin : Φ FlowRef (joinOf join) (joinOf join) := by
    cases join with
    | none => exact H.newBranch
    | some label => exact H.pure _
  refine H.bind hjoin fun _ => H.bind H.newBranch fun _ => H.bind H.newBranch fun _ => H.bind (H.staticValue he) fun _ => ?_
  refine H.bind (ht _ _) fun _ => H.bind (H.enterBranch _ _ _) fun _ => H.bind hb fun _ => H.bind (H.linkCurrent _) fun _ => ?_
  exact H.bind (H.enterBranch _ _ _) fun _ => H.bind (ho _) fun _ => H.ite (H.finish _) (H.pure _)

theorem layOutMatch {cases cases' : _} (hc : ∀ after, Φ Unit (cases after) (cases' after)) :
    Φ Unit (layOutMatch cases) (layOutMatch cases') :=
  H.bind H.newBranch fun _ => H.bind (hc _) fun _ => H.bind (H.linkCurrent _) fun _ => H.finish _

theorem layOutCase {pattern : Pattern} (hw : Φ Unit walk walk')
    (hg : Tests Φ test test') (hb : Φ Unit body body') :
    Φ Unit (layOutCase after pattern walk test body) (layOutCase after pattern walk' test' body') := by
  refine H.bind H.newBranch fun next => H.bind H.newBranch fun _ => H.bind H.newBranch fun _ =>
    H.bind (H.linkCurrent _) fun _ => ?_
  have hrest := fun beforeGuard beforeSuite => H.bind (H.finish beforeGuard) fun _ => H.bind hw fun _ =>
    H.bind (hg beforeSuite next) fun _ => H.bind (H.finish beforeSuite) fun _ => H.bind hb fun _ =>
      H.bind (H.linkCurrent after) fun _ => H.finish next
  exact H.ite (hrest _ _) (H.bind (H.linkCurrent next) fun _ => hrest _ _)

theorem layOutAssert {message : Option (BindM ω Unit)} {message' : Option (BindM ω' Unit)}
    (ht : Tests Φ test test') (hm : Option.Rel (Φ Unit) message message') :
    Φ Unit (layOutAssert test message) (layOutAssert test' message') := by
  refine H.bind H.newBranch fun _ => H.bind H.newBranch fun _ => H.bind (ht _ _) fun _ => ?_
  cases hm with
  | none => exact H.finish _
  | some hm => exact H.bind (H.finish _) fun _ => H.bind hm fun _ => H.finish _

/-! ## Exceptions -/

theorem layOutWith {managers : List Nat} {isAsync : Bool}
    (hb : ∀ inner : Context, inner.scope = ctx.scope → inner.owner = ctx.owner → (∃ e, inner = { ctx with exceptTargets := e }) →
      Φ Unit (inside inner) (inside' inner)) :
    Φ Unit (layOutWith ctx managers isAsync inside) (layOutWith ctx managers isAsync inside') := by
  refine H.bind (H.newNode rfl) fun _ => H.bind (H.linkCurrent _) fun _ => H.bind H.newBranch fun _ =>
    H.bind (H.link _ _) fun _ => ?_
  exact H.bind (hb _ rfl rfl ⟨_, rfl⟩) fun _ => H.bind (H.linkCurrent _) fun _ => H.finish _

theorem layOutTry {handlers : List Handler} {hasFinally : Bool} {walkHandlers : Context → FlowRef → List FlowRef → BindM ω Bool}
    {walkHandlers' : Context → FlowRef → List FlowRef → BindM ω' Bool}
    (hb : ∀ inner : Context, inner.scope = ctx.scope → inner.owner = ctx.owner →
      (∃ e f, inner = { ctx with exceptTargets := e, finallyTargets := f }) → Φ Unit (inside inner) (inside' inner))
    (ho : ∀ inner : Context, inner.scope = ctx.scope → inner.owner = ctx.owner → (∃ f, inner = { ctx with finallyTargets := f }) →
      Φ Unit (other inner) (other' inner))
    (hh : ∀ inner : Context, inner.scope = ctx.scope → inner.owner = ctx.owner →
      (∃ f, inner = { ctx with finallyTargets := f, exceptDepth := ctx.exceptDepth + 1 }) → ∀ after labels,
      Φ Bool (walkHandlers inner after labels) (walkHandlers' inner after labels))
    (hf : Φ Unit final final') :
    Φ Unit (layOutTry ctx node handlers hasFinally inside other walkHandlers final)
      (layOutTry ctx node handlers hasFinally inside' other' walkHandlers' final') := by
  have hgate : ∀ beforeFinally abrupt,
    Φ FlowRef (newGate hasFinally beforeFinally abrupt) (newGate hasFinally beforeFinally abrupt) :=
    fun _ _ => H.ite (H.bind (H.newNode rfl) fun _ => H.bind (H.link _ _) fun _ => H.pure _) (H.pure _)
  have hfinally : ∀ gate ends, Φ Unit (layOutFinally node gate ends final) (layOutFinally node gate ends final') :=
    fun _ _ => H.bind hf fun _ => H.bind H.current fun _ => H.bind (H.newNode rfl) fun _ =>
      H.ite (H.setCurrent _) (H.setCurrent _)
  refine H.bind (H.newBranches _) fun labels => H.bind H.newBranch fun beforeFinally => H.bind H.newBranch fun abrupt => ?_
  refine H.bind (hgate _ _) fun gate => H.bind (H.linkCurrentAll _) fun _ => ?_
  obtain ⟨f, hinner⟩ : ∃ f, (if hasFinally then { ctx with finallyTargets := ctx.finallyTargets ++ [abrupt] } else ctx) =
      { ctx with finallyTargets := f } := by
    cases hasFinally <;> exact ⟨_, rfl⟩
  have hscope := congrArg Context.scope hinner
  have howner := congrArg Context.owner hinner
  refine H.bind (hb _ (by exact hscope) (by exact howner) ⟨_, f, by rw [hinner]⟩) fun _ =>
    H.bind (ho _ hscope howner ⟨f, hinner⟩) fun _ => ?_
  refine H.bind (H.linkCurrent _) fun _ => H.bind H.isDead fun _ => ?_
  refine H.bind (hh _ (by exact hscope) (by exact howner) ⟨f, by rw [hinner]⟩ _ _) fun _ => ?_
  exact H.bind (H.finish _) fun _ => H.ite (hfinally _ _) (H.pure _)

end Frames

end Bind

end ScopeFlow
