import ScopeFlow.Proofs.Narrowing
import ScopeFlow.Proofs.ReferenceKeys

/-!
# Jobs and the flow graph

What extends the flow graph, stamps nodes or reports does not touch scopes and symbols, so a job that does so keeps what holds.
Conditions are decided and searched for references without a failure if the tree has the form that a parser gives it.
-/

namespace ScopeFlow

open NodeTree

/-! ## Conditions of parsed trees -/

namespace StaticContext

mutual

/-- A parsed condition has a value or is open. -/
theorem evaluate_parsed (c : StaticContext) (e : Expr) (h : e.tree.All Node.Parsed) : ∃ r, c.evaluate e = .ok r := by
  match e with
  | .unaryOp m op operand =>
    simp only [Expr.tree, all_mk, allIn_cons] at h
    obtain ⟨r, hr⟩ := evaluate_parsed c operand h.2.1
    cases op with
    | not =>
      rw [evaluate]
      split
      · exact ⟨_, rfl⟩
      · rw [hr]
        exact ⟨_, rfl⟩
    | invert | plus | minus => exact ⟨none, by simp [evaluate]⟩
  | .boolOp m op values =>
    simp only [Expr.tree, all_mk] at h
    obtain ⟨r, hr⟩ := evaluateAll_parsed c values h.2
    rw [evaluate, hr]
    cases r with
    | none => exact ⟨_, rfl⟩
    | some truths => cases op <;> exact ⟨_, rfl⟩
  | .compare m left ops comparators =>
    simp only [Expr.tree, all_mk] at h
    have hshape : ops.length = comparators.length ∧ ops ≠ [] := h.1
    match ops, comparators with
    | [], _ => exact ⟨none, by simp [evaluate]⟩
    | [op], [] => simp at hshape
    | [op], right :: rest => exact ⟨_, by rw [evaluate]⟩
    | _ :: _ :: _, _ => exact ⟨none, by simp [evaluate]⟩
  | .constant m value kind =>
    cases value with
    | bool b => exact ⟨some b, by simp [evaluate]⟩
    | _ => exact ⟨none, by simp [evaluate]⟩
  | .name m id => exact ⟨_, by rw [evaluate]⟩
  | .member m value attr =>
    by_cases hv : ∃ vm id, value = .name vm id
    · obtain ⟨vm, id, rfl⟩ := hv
      exact ⟨_, by rw [evaluate]⟩
    · exact ⟨none, by rw [evaluate]; exact fun vm id heq => hv ⟨vm, id, heq⟩⟩
  | .named .. | .binOp .. | .lambda .. | .ifElse .. | .dict .. | .set .. | .comprehension .. | .await .. | .yield ..
  | .yieldFrom .. | .call .. | .formatted .. | .joined .. | .subscript .. | .starred .. | .list .. | .tuple .. | .slice .. =>
    exact ⟨none, by simp [evaluate]⟩

theorem evaluateAll_parsed (c : StaticContext) (es : List Expr) (h : AllIn Node.Parsed (Expr.trees es)) :
    ∃ r, c.evaluateAll es = .ok r := by
  match es with
  | [] =>
    rw [evaluateAll]
    exact ⟨_, rfl⟩
  | e :: es =>
    simp only [Expr.trees, allIn_cons] at h
    obtain ⟨r, hr⟩ := evaluate_parsed c e h.1
    obtain ⟨rs, hrs⟩ := evaluateAll_parsed c es h.2
    rw [evaluateAll, hr, hrs]
    exact ⟨_, rfl⟩

end

theorem evaluateLoosely_parsed (c : StaticContext) (e : Expr) (h : e.tree.All Node.Parsed) :
    ∃ r, c.evaluateLoosely e = .ok r := by
  unfold evaluateLoosely
  split
  · exact ⟨_, rfl⟩
  · exact c.evaluate_parsed e h

end StaticContext

namespace Bind

variable {ω : Type} {u : Setup ω} {w : Job} {low : Nat} {s₀ : State ω} {e : Expr}

/-! ## Steps of the flow graph -/

theorem current_upholds : Upholds u w low s₀ (current : BindM ω FlowRef) := Walks.get.seq fun _ => .pure _

theorem setCurrent_upholds (ref : FlowRef) : Upholds u w low s₀ (setCurrent ref : BindM ω Unit) :=
  .ofModify fun _ _ => .ofRest rfl rfl rfl rfl fun _ => id

theorem isDead_upholds : Upholds u w low s₀ (isDead : BindM ω Bool) :=
  Walks.get.seq fun _ => Walks.get.seq fun _ => .pure _

/-- A new node mentions symbols of the module or of the builtins. -/
theorem newNode_upholds (step : FlowStep) (hstep : ∀ id ∈ step.symbols, w.Names s₀.store id) :
    Upholds u w low s₀ (newNode step : BindM ω FlowRef) := by
  refine fun s hgo hs => .ofModifyGet hs ?_ trivial
  refine ⟨Passes.trail_record (.count _) rfl, rfl, fun _ => rfl, fun _ => rfl, fun _ _ _ _ => rfl, rfl, rfl, ?_⟩
  rintro id ⟨i, n, hn, hid⟩
  have hn : (s.graph.push ⟨s.store.nextFlowId, step⟩)[i]? = some n := hn
  rw [Array.getElem?_push] at hn
  split at hn
  · cases hn
    exact .inr ((hstep id hid).mono hgo.grows)
  · exact .inl ⟨i, n, hn, hid⟩

/-- A node that mentions no symbol. -/
theorem newPlain_upholds (step : FlowStep) (hstep : step.symbols = []) : Upholds u w low s₀ (newNode step : BindM ω FlowRef) :=
  newNode_upholds step (by simp [hstep])

theorem newBranch_upholds : Upholds u w low s₀ (newBranch : BindM ω FlowRef) := newPlain_upholds _ rfl

/-- An edge to a label mentions no symbol. -/
theorem mentions_addAntecedent {s : State ω} {label ref : FlowRef} {id : Int}
    (h : State.Mentions { s with graph := s.graph.addAntecedent label ref } id) : s.Mentions id := by
  obtain ⟨i, n, hn, hid⟩ := h
  simp only [FlowGraph.addAntecedent] at hn
  split at hn
  · exact ⟨i, n, hn, hid⟩
  · rw [Array.getElem?_modify] at hn
    split at hn
    · obtain ⟨n', hn', rfl⟩ := Option.map_eq_some_iff.1 hn
      refine ⟨i, n', hn', ?_⟩
      obtain ⟨_, step⟩ := n'
      cases step <;> exact hid
    · exact ⟨i, n, hn, hid⟩

theorem link_upholds (label ref : FlowRef) : Upholds u w low s₀ (link label ref : BindM ω Unit) :=
  isDead_upholds.seq fun _ => .ite (.pure _) (.ofModify fun _ _ => .ofRest rfl rfl rfl rfl fun _ => mentions_addAntecedent)

theorem linkCurrent_upholds (label : FlowRef) : Upholds u w low s₀ (linkCurrent label : BindM ω Unit) :=
  current_upholds.seq fun _ => link_upholds _ _

theorem linkRaise_upholds (ctx : Context) (ref : FlowRef) : Upholds u w low s₀ (linkRaise ctx ref : BindM ω Unit) :=
  .forM _ fun _ _ => link_upholds _ _

theorem finished_upholds (label : FlowRef) : Upholds u w low s₀ (finished label : BindM ω FlowRef) :=
  Walks.get.seq fun _ => .pure _

theorem finish_upholds (label : FlowRef) : Upholds u w low s₀ (finish label : BindM ω Unit) :=
  (finished_upholds label).seq fun _ => setCurrent_upholds _

theorem modifyFacts_upholds (node : Nat) {f : NodeFacts → NodeFacts} (hscope : ∀ x, (f x).scope = x.scope)
    (hdeclaration : ∀ x, (f x).declaration = x.declaration)
    (hafter : (∀ x, (f x).after = x.after) ∨ ∀ n, u.outline.node? node = some n → (n.isFunction || n.isLambda) = false) :
    Upholds u w low s₀ (modifyFacts node f : BindM ω Unit) := .ofModify fun _ _ => .ofFacts hscope hdeclaration hafter

theorem stampWith_upholds (node : Nat) (ref : FlowRef) : Upholds u w low s₀ (stampWith node ref : BindM ω Unit) :=
  modifyFacts_upholds node (fun _ => rfl) (fun _ => rfl) (.inl fun _ => rfl)

theorem stamp_upholds (node : Nat) : Upholds u w low s₀ (stamp node : BindM ω Unit) :=
  current_upholds.seq fun _ => stampWith_upholds _ _

/-- Functions and lambdas are not stamped behind themselves by a walk. -/
theorem stampAfter_upholds {node : Nat} (h : ∀ n, u.outline.node? node = some n → (n.isFunction || n.isLambda) = false) :
    Upholds u w low s₀ (stampAfter node : BindM ω Unit) :=
  current_upholds.seq fun _ => modifyFacts_upholds node (fun _ => rfl) (fun _ => rfl) (.inr h)

theorem stampAfterBody_upholds (node : Nat) : Upholds u w low s₀ (stampAfterBody node : BindM ω Unit) :=
  current_upholds.seq fun _ => modifyFacts_upholds node (fun _ => rfl) (fun _ => rfl) (.inl fun _ => rfl)

theorem addKey_upholds (owner : Nat) (key : String) : Upholds u w low s₀ (addKey owner key : BindM ω Unit) :=
  modifyFacts_upholds owner (fun _ => rfl) (fun _ => rfl) (.inl fun _ => rfl)

theorem showKeys_upholds (owner : Nat) : Upholds u w low s₀ (showKeys owner : BindM ω Unit) :=
  modifyFacts_upholds owner (fun _ => rfl) (fun _ => rfl) (.inl fun _ => rfl)

theorem advance_upholds (step : FlowRef → FlowStep) (hstep : ∀ r, ∀ id ∈ (step r).symbols, w.Names s₀.store id) :
    Upholds u w low s₀ (advance step : BindM ω Unit) :=
  isDead_upholds.seq fun _ => .ite (.pure _) <| current_upholds.seq fun _ => (newNode_upholds _ (hstep _)).seq fun _ =>
    setCurrent_upholds _

theorem call_upholds (ctx : Context) (node : Nat) (function : Expr) :
    Upholds u w low s₀ (call ctx node function : BindM ω Unit) :=
  (advance_upholds _ fun _ => by simp [FlowStep.symbols]).seq fun _ => (stamp_upholds _).seq fun _ => isDead_upholds.seq fun _ =>
    .ite (.pure _) (current_upholds.seq fun _ => linkRaise_upholds _ _)

theorem importAll_upholds (ctx : Context) (node : Nat) (names : List String) :
    Upholds u w low s₀ (importAll ctx node names : BindM ω Unit) :=
  isDead_upholds.seq fun _ => .ite (stamp_upholds _) <| current_upholds.seq fun _ => (newPlain_upholds _ rfl).seq fun _ =>
    (linkRaise_upholds _ _).seq fun _ => (setCurrent_upholds _).seq fun _ => stamp_upholds _

/-! ## Reports -/

theorem report_upholds (d : Diagnostic) : Upholds u w low s₀ (report d : BindM ω Unit) :=
  .ofModify fun _ _ => .ofRest rfl rfl rfl rfl fun _ => id

theorem reportError_upholds (key : MessageKey) (mark : Mark) (name : String) :
    Upholds u w low s₀ (reportError key mark name : BindM ω Unit) := report_upholds _

theorem reportRule_upholds (rule : Rule) (key : MessageKey) (mark : Mark) (name : String) (actions : List DiagnosticAction) :
    Upholds u w low s₀ (reportRule u rule key mark name actions) := .ite (report_upholds _) (.pure _)

/-! ## Conditions -/

/-- A computation that has a result if the job is strict. -/
theorem ofExcept_walks {α : Type} {x : Except Fault α} {P : α → Prop} (hx : w.strict = true → ∃ a, x = .ok a ∧ P a) :
    Walks u w low s₀ (ofExcept x : BindM ω α) fun a _ => w.strict = true → P a := by
  cases x with
  | ok a =>
    refine .ret fun _ _ hstrict => ?_
    obtain ⟨b, hb, hp⟩ := hx hstrict
    cases hb
    exact hp
  | error fault =>
    refine .throw ?_ fault
    by_contra hstrict
    obtain ⟨a, ha, _⟩ := hx (by simpa using hstrict)
    cases ha

theorem staticValue_upholds (he : w.strict = true → e.tree.All Node.Parsed) :
    Upholds u w low s₀ (staticValue u e) := by
  refine Walks.get.seq fun s => (ofExcept_walks (P := fun _ => True) fun hstrict => ?_).upholds
  obtain ⟨r, hr⟩ := StaticContext.evaluateLoosely_parsed _ e (he hstrict)
  exact ⟨r, hr, trivial⟩

/-- What a job upholds goes over to layouts. -/
theorem upholds_frames : Frames u u (fun e => w.strict = true → e.tree.All Node.Parsed)
    (fun node => ∀ n, u.outline.node? node = some n → (n.isFunction || n.isLambda) = false)
    fun _ f g => f = g ∧ Upholds u w low s₀ f where
  bind hf hg := ⟨by rw [hf.1, funext fun x => (hg x).1], hf.2.seq fun x => (hg x).2⟩
  pure _ := ⟨rfl, .pure _⟩
  current := ⟨rfl, current_upholds⟩
  isDead := ⟨rfl, isDead_upholds⟩
  newNode {step} h := ⟨rfl, newPlain_upholds step (by cases step <;> first | rfl | cases h)⟩
  setCurrent _ := ⟨rfl, setCurrent_upholds _⟩
  link _ _ := ⟨rfl, link_upholds _ _⟩
  finish _ := ⟨rfl, finish_upholds _⟩
  stampAfter h := ⟨rfl, stampAfter_upholds h⟩
  staticValue h := ⟨rfl, staticValue_upholds h⟩

theorem addKeys_upholds (owner : Nat) (references : List Expr)
    (hr : w.strict = true → ∀ r ∈ references, r.isReference = true) :
      Upholds u w low s₀ (addKeys owner references : BindM ω Unit) := by
  induction references with
  | nil => exact .pure _
  | cons r rs ih =>
    refine (ofExcept_walks (P := fun _ => True) fun hstrict => ?_).seq fun key => (addKey_upholds _ _).seq fun _ =>
      ih fun hstrict r' hr' => hr hstrict r' (by simp [hr'])
    obtain ⟨key, hkey⟩ := r.referenceKey_isReference (hr hstrict r (by simp))
    exact ⟨key, hkey, trivial⟩

theorem conditional_upholds (ctx : Context) (kind : ConditionKind) (antecedent : FlowRef)
    (he : w.strict = true → e.tree.All Node.Parsed) : Upholds u w low s₀ (conditional u ctx kind antecedent e) := by
  refine Walks.get.seq fun s => .ite (.pure _) ?_
  refine (staticValue_upholds he).seq fun value => .ite (.pure _) ?_
  refine (ofExcept_walks (P := fun n : Narrowing => ∀ r ∈ n.references, r.isReference = true) fun hstrict =>
    NarrowingMode.classify_parsed _ e (he hstrict)).bind fun narrowing s₁ _ hrefs => ?_
  exact Walks.ite ((addKeys_upholds _ _ hrefs).seq fun _ => (newPlain_upholds _ rfl).seq fun _ =>
    (linkRaise_upholds _ _).seq fun _ => .pure _)
    (.pure _)

theorem linkTest_upholds (ctx : Context) (onTrue onFalse : FlowRef)
    (he : w.strict = true → e.tree.All Node.Parsed) : Upholds u w low s₀ (linkTest u ctx onTrue onFalse e) :=
  current_upholds.seq fun _ => (conditional_upholds ctx _ _ he).seq fun _ => (link_upholds _ _).seq fun _ =>
    current_upholds.seq fun _ => (conditional_upholds ctx _ _ he).seq fun _ => link_upholds _ _

theorem linkNever_upholds (ctx : Context) (target : FlowRef) (positive : Bool) (e : Expr)
    (he : w.strict = true → e.tree.All Node.Parsed) : Upholds u w low s₀ (linkNever u ctx target positive e) := by
  refine linkNever_law (v := u) (Q := fun e => w.strict = true → e.tree.All Node.Parsed)
    (Φ := fun _ f _ => Upholds u w low s₀ f) ?_ e he target positive
  refine ⟨.pure _, .seq, current_upholds, setCurrent_upholds, newBranch_upholds, finish_upholds, ?_, ?_, ?_, ?_⟩
  · intro e hl he target positive
    rw [linkNever_leaf hl]
    refine (ofExcept_walks (P := fun _ => True) fun hstrict => ?_).seq fun narrowing => ?_
    · obtain ⟨n, hn, _⟩ := NarrowingMode.classify_parsed ⟨u.policy, true⟩ e (he hstrict)
      exact ⟨n, hn, trivial⟩
    · exact Walks.ite (current_upholds.seq fun _ => (conditional_upholds ctx _ _ he).seq fun _ =>
        (setCurrent_upholds _).seq fun _ => linkCurrent_upholds _) (linkCurrent_upholds _)
  · exact fun h hstrict => Expr.all_operand (h hstrict)
  · exact fun h e he hstrict => Expr.all_value (h hstrict) he
  · exact fun h => .throw (by_contra fun hstrict => Expr.node_of_all _ (h (by simpa using hstrict)) rfl) _

end Bind

end ScopeFlow
