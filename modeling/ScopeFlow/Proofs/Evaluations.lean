import ScopeFlow.Proofs.Truth
import ScopeFlow.Proofs.Run

/-!
# Short-circuit evaluation

A test is made of leaves by `and`, `or` and `not`. A truth assignment to the leaves gives it an outcome, and the leaves that are
evaluated until the outcome is decided (`evaluation`).

The edge past an `if` is put together along the test. What holds of the edges for leaves and of the steps between them holds
of the edge for the whole test, also of two runs side by side (`Bind.linkNever_law`).
-/

namespace ScopeFlow

namespace Expr

mutual

/-- The short-circuit evaluation of a test under a truth assignment to its leaves: its outcome, and the leaves that are evaluated
with their values, in order. -/
def evaluation (σ : Nat → Bool) (e : Expr) : Bool × List (Expr × Bool) :=
  match e with
  | .unaryOp _ .not operand => (!(operand.evaluation σ).1, (operand.evaluation σ).2)
  | .boolOp _ op values => evaluationAll σ op values
  | e => (σ e.index, [(e, σ e.index)])

/-- The evaluation of operands of `and` or `or` until one decides. -/
def evaluationAll (σ : Nat → Bool) (op : BoolOperator) (es : List Expr) : Bool × List (Expr × Bool) :=
  match es with
  | [] => (!op.decider, [])
  | [e] => e.evaluation σ
  | e :: rest =>
    if (e.evaluation σ).1 = op.decider then e.evaluation σ
    else ((evaluationAll σ op rest).1, (e.evaluation σ).2 ++ (evaluationAll σ op rest).2)

end

theorem evaluation_leaf {σ : Nat → Bool} {e : Expr} (hl : e.isLogical = false) :
    e.evaluation σ = (σ e.index, [(e, σ e.index)]) := by
  rw [evaluation]
  · rintro _ _ rfl
    cases hl
  · rintro _ _ _ rfl
    cases hl

mutual

/-- Induction on a test: leaves, negations and connections of operands. -/
@[elab_as_elim]
theorem induction_on_test {P : Expr → Prop} (e : Expr) (leaf : ∀ e : Expr, e.isLogical = false → P e)
    (not : ∀ m operand, P operand → P (.unaryOp m .not operand))
    (boolOp : ∀ m op values, (∀ e ∈ values, P e) → P (.boolOp m op values)) : P e := by
  match e with
  | .unaryOp m .not operand => exact not m operand (induction_on_test operand leaf not boolOp)
  | .boolOp m op values => exact boolOp m op values (induction_on_tests values leaf not boolOp)
  | .unaryOp _ .invert _ | .unaryOp _ .plus _ | .unaryOp _ .minus _ | .named .. | .binOp .. | .lambda .. | .ifElse ..
  | .dict .. | .set .. | .comprehension .. | .await .. | .yield .. | .yieldFrom .. | .compare .. | .call ..
  | .formatted .. | .joined .. | .constant .. | .member .. | .subscript .. | .starred .. | .name .. | .list ..
  | .tuple .. | .slice .. => exact leaf _ rfl

theorem induction_on_tests {P : Expr → Prop} (es : List Expr) (leaf : ∀ e : Expr, e.isLogical = false → P e)
    (not : ∀ m operand, P operand → P (.unaryOp m .not operand))
    (boolOp : ∀ m op values, (∀ e ∈ values, P e) → P (.boolOp m op values)) : ∀ e ∈ es, P e := by
  match es with
  | [] => simp
  | e :: es =>
    have he := induction_on_test e leaf not boolOp
    have hes := induction_on_tests es leaf not boolOp
    simpa using ⟨he, hes⟩

end

end Expr

/-- Whether a condition narrows references. -/
def NarrowingPolicy.Narrows (policy : NarrowingPolicy) (e : Expr) : Bool :=
  match (NarrowingMode.mk policy false).classify e with
  | .ok narrowing => narrowing.isNarrowing
  | .error _ => false

namespace Bind

variable {ω ω' : Type} {u : Setup ω} {v : Setup ω'} {ctx : Context} {target : FlowRef} {s s' : State ω} {Q : Expr → Prop}
  {Φ : (α : Type) → BindM ω α → BindM ω' α → Prop}

/-- The edge for a leaf leads on from the leaf, if it is marked, and from the current node otherwise. -/
theorem linkNever_leaf {e : Expr} (hl : e.isLogical = false) (positive : Bool) :
    linkNever u ctx target positive e = (do
      let narrowing ← ofExcept ((NarrowingMode.mk u.policy true).classify e)
      if narrowing.isNarrowing && !narrowing.nameReferences.isEmpty then
        setCurrent (← conditional u ctx (if positive then .trueNever else .falseNever) (← current) e)
      linkCurrent target) := by
  rw [linkNever]
  · rintro _ _ rfl
    cases hl
  · rintro _ _ _ rfl
    cases hl

/-- The operands of `and` start from one place. -/
theorem linkNevers_and_run {positive : Bool} {e e' : Expr} {rest : List Expr} {x : Unit}
    (h : (linkNevers u ctx .and target positive (e :: e' :: rest)).run s = .ok x s') :
    ∃ t, (linkNever u ctx target positive e).run s = .ok () t ∧
      (linkNevers u ctx .and target positive (e' :: rest)).run { t with current := s.current } = .ok () s' := by
  rw [linkNevers] at h
  · simp only [bind_ok, current_ok, setCurrent_ok] at h
    obtain ⟨_, _, ⟨rfl, rfl⟩, _, t, h1, _, _, rfl, h2⟩ := h
    exact ⟨t, h1, h2⟩
  · simp

/-- The operands of `or` start one behind the other, until one of them stays where it starts. -/
theorem linkNevers_or_run {positive : Bool} {e e' : Expr} {rest : List Expr} {x : Unit}
    (h : (linkNevers u ctx .or target positive (e :: e' :: rest)).run s = .ok x s') :
    ∃ after t1 t2, (newBranch : BindM ω FlowRef).run s = .ok after t1 ∧ (linkNever u ctx after positive e).run t1 = .ok () t2 ∧
      (t2.current = s.current ∧ s' = t2 ∨ t2.current ≠ s.current ∧ ∃ t3 t4, (finish after : BindM ω Unit).run t2 = .ok () t3 ∧
        (linkNevers u ctx .or target positive (e' :: rest)).run t3 = .ok () t4 ∧
        (t4.current = t3.current ∧ s' = { t4 with current := s.current } ∨ t4.current ≠ t3.current ∧ s' = t4)) := by
  rw [linkNevers] at h
  · simp only [bind_ok, current_ok] at h
    obtain ⟨_, _, ⟨rfl, rfl⟩, after, t1, h1, _, t2, h2, _, _, ⟨rfl, rfl⟩, h⟩ := h
    refine ⟨after, t1, t2, h1, h2, ?_⟩
    split at h
    · rename_i hne
      simp only [bind_ok, current_ok] at h
      obtain ⟨_, t3, h3, _, _, ⟨rfl, rfl⟩, _, t4, h4, _, _, ⟨rfl, rfl⟩, h5⟩ := h
      refine .inr ⟨fun heq => by simp [heq] at hne, t3, t4, h3, h4, ?_⟩
      split at h5
      · rename_i heq
        exact .inl ⟨(beq_iff_eq.1 heq).symm, setCurrent_ok.1 h5⟩
      · rename_i hne'
        obtain ⟨_, rfl⟩ := pure_ok.1 h5
        exact .inr ⟨fun heq => hne' (by simp [heq]), rfl⟩
    · rename_i heq
      obtain ⟨_, rfl⟩ := pure_ok.1 h
      have hstay : s.current = t2.current := by simpa using heq
      exact .inl ⟨hstay.symm, rfl⟩
  · simp

/-- A property of pairs of steps that the edge past an `if` has in two runs, for tests with `Q`. -/
structure NeverLaws (u : Setup ω) (v : Setup ω') (ctx : Context) (Q : Expr → Prop)
    (Φ : (α : Type) → BindM ω α → BindM ω' α → Prop) : Prop where
  pure : Φ Unit (pure ()) (pure ())
  bind : ∀ {α β : Type} {f : BindM ω α} {f' : BindM ω' α} {g : α → BindM ω β} {g' : α → BindM ω' β}, Φ α f f' →
    (∀ x, Φ β (g x) (g' x)) → Φ β (f >>= g) (f' >>= g')
  current : Φ FlowRef current current
  setCurrent : ∀ ref, Φ Unit (setCurrent ref) (setCurrent ref)
  newBranch : Φ FlowRef newBranch newBranch
  finish : ∀ label, Φ Unit (finish label) (finish label)
  leaf : ∀ {e : Expr}, e.isLogical = false → Q e → ∀ target positive,
    Φ Unit (linkNever u ctx target positive e) (linkNever v ctx target positive e)
  operand : ∀ {m e}, Q (.unaryOp m .not e) → Q e
  values : ∀ {m op es}, Q (.boolOp m op es) → ∀ e ∈ es, Q e
  missing : ∀ {m op}, Q (.boolOp m op []) → Φ Unit (throw .missingElement) (throw .missingElement)

variable (H : NeverLaws u v ctx Q Φ)
include H

theorem linkNevers_law (op : BoolOperator) (target : FlowRef) (positive : Bool) (es : List Expr)
    (hmissing : es = [] → Φ Unit (throw .missingElement) (throw .missingElement))
    (hes : ∀ e ∈ es, ∀ target positive, Φ Unit (linkNever u ctx target positive e) (linkNever v ctx target positive e)) :
    Φ Unit (linkNevers u ctx op target positive es) (linkNevers v ctx op target positive es) := by
  induction es with
  | nil =>
    rw [linkNevers, linkNevers]
    exact hmissing rfl
  | cons e es ih =>
    have he := fun target => hes e (by simp) target positive
    by_cases hlast : es = []
    · subst hlast
      rw [linkNevers, linkNevers]
      exact he target
    · have hrest := ih (fun hnil => absurd hnil hlast) fun e he => hes e (by simp [he])
      cases op with
      | and =>
        rw [linkNevers, linkNevers]
        · exact H.bind H.current fun saved => H.bind (he target) fun _ => H.bind (H.setCurrent saved) fun _ => hrest
        all_goals exact hlast
      | or =>
        rw [linkNevers, linkNevers]
        · refine H.bind H.current fun initial => H.bind H.newBranch fun after => H.bind (he after) fun _ =>
            H.bind H.current fun now => ?_
          split
          · refine H.bind (H.finish after) fun _ => H.bind H.current fun before => H.bind hrest fun _ =>
              H.bind H.current fun last => ?_
            split
            · exact H.setCurrent initial
            · exact H.pure
          · exact H.pure
        all_goals exact hlast

/-- The edge past an `if` has what the edges for the leaves of its test have. -/
theorem linkNever_law (e : Expr) (hq : Q e) : ∀ target positive,
    Φ Unit (linkNever u ctx target positive e) (linkNever v ctx target positive e) := by
  induction e using Expr.induction_on_test with
  | leaf e hl => exact H.leaf hl hq
  | not m operand ih =>
    intro target positive
    rw [linkNever, linkNever]
    exact ih (H.operand hq) target (!positive)
  | boolOp m op values ih =>
    intro target positive
    rw [linkNever, linkNever]
    exact linkNevers_law H op target positive values (fun hnil => H.missing (hnil ▸ hq)) fun e he => ih e he (H.values hq e he)

end Bind

end ScopeFlow
