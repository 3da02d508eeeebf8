import Mathlib
import ScopeFlow.Bind.Import
import ScopeFlow.Condition.Static

/-!
# The outcomes that a test may have

`and`, `or` and `not` make the outcome of a test of the outcomes of its leaves. A leaf that the environment decides has the
value that it decides; any other leaf may come out either way, each time it is evaluated. `MayBe` are the outcomes that are
left for the whole test. Where the environment decides the whole test, that outcome is the only one (`eq_of_mayBe`).

What the environment decides depends on the local names of the typing modules and of the system module, which imports add
to (`learn`).
-/

namespace ScopeFlow

variable {c : StaticContext} {e : Expr}

/-- The value of an operand that decides the outcome of `and` or `or` by itself. -/
def BoolOperator.decider : BoolOperator → Bool
  | and => false
  | or => true

namespace StaticContext

mutual

/-- Whether a test may come out as a value. -/
def MayBe (c : StaticContext) (e : Expr) (b : Bool) : Prop :=
  match e with
  | .unaryOp _ .not operand => c.MayBe operand (!b)
  | .boolOp _ op values => c.MayBeAll op values b
  | e => c.evaluateLoosely e = .ok none ∨ c.evaluateLoosely e = .ok (some b)

/-- Whether operands of `and` or `or`, evaluated until one decides, may come out as a value. -/
def MayBeAll (c : StaticContext) (op : BoolOperator) (es : List Expr) (b : Bool) : Prop :=
  match es with
  | [] => False
  | [e] => c.MayBe e b
  | e :: rest => b = op.decider ∧ c.MayBe e op.decider ∨ c.MayBe e (!op.decider) ∧ c.MayBeAll op rest b

end

/-- A leaf may come out as what the environment does not rule out. -/
theorem mayBe_leaf {b : Bool} (h : e.isLogical = false) :
    c.MayBe e b ↔ c.evaluateLoosely e = .ok none ∨ c.evaluateLoosely e = .ok (some b) := by
  rw [MayBe]
  · rintro _ _ rfl
    cases h
  · rintro _ _ _ rfl
    cases h

theorem evaluateLoosely_of_evaluate {v : Bool} (h : c.evaluate e = .ok (some v)) :
    c.evaluateLoosely e = .ok (some v) := by
  unfold evaluateLoosely
  split
  · rename_i hn
    unfold Expr.isNone at hn
    split at hn
    · simp [evaluate] at h
    · cases hn
  · exact h

theorem eq_of_mayBe_leaf {v b : Bool} (hl : e.isLogical = false)
    (he : c.evaluateLoosely e = .ok (some v)) (hb : c.MayBe e b) : b = v := by
  rw [mayBe_leaf hl, he] at hb
  simpa [eq_comm] using hb

mutual

/-- A test that is decided has no other outcome. -/
theorem eq_of_mayBe_of_evaluate (c : StaticContext) (e : Expr) {v b : Bool} (he : c.evaluate e = .ok (some v))
    (hb : c.MayBe e b) : b = v := by
  match e with
  | .unaryOp _ .not operand =>
    simp only [MayBe] at hb
    rw [evaluate] at he
    split at he
    · rename_i hn
      have hv : v = true := by simpa [pure, Except.pure] using he.symm
      have hl : operand.isLogical = false := by
        unfold Expr.isNone at hn
        split at hn
        · rfl
        · cases hn
      have := eq_of_mayBe_leaf hl (v := false) (by simp [evaluateLoosely, hn]) hb
      simp_all
    · cases ho : c.evaluate operand with
      | error fault => simp [ho, bind, Except.bind] at he
      | ok w =>
        cases w with
        | none => simp [ho, bind, Except.bind, pure, Except.pure] at he
        | some w =>
          have hw := eq_of_mayBe_of_evaluate c operand ho hb
          have hv : (!w) = v := by simpa [ho, bind, Except.bind, pure, Except.pure] using he
          rw [← hv, ← hw, Bool.not_not]
  | .boolOp _ op values =>
    simp only [MayBe] at hb
    rw [evaluate] at he
    cases ht : c.evaluateAll values with
    | error fault => simp [ht, bind, Except.bind] at he
    | ok w =>
      cases w with
      | none => simp [ht, bind, Except.bind, pure, Except.pure] at he
      | some truths =>
        have := eq_of_mayBeAll c op values ht hb
        cases op <;> simp_all [bind, Except.bind, pure, Except.pure, BoolOperator.decider]
  | .unaryOp _ .invert _ | .unaryOp _ .plus _ | .unaryOp _ .minus _ | .named .. | .binOp .. | .lambda .. | .ifElse ..
  | .dict .. | .set .. | .comprehension .. | .await .. | .yield .. | .yieldFrom .. | .compare .. | .call ..
  | .formatted .. | .joined .. | .constant .. | .member .. | .subscript .. | .starred .. | .name .. | .list ..
  | .tuple .. | .slice .. => exact eq_of_mayBe_leaf rfl (evaluateLoosely_of_evaluate he) hb

/-- Operands that are all decided have no other outcome. -/
theorem eq_of_mayBeAll (c : StaticContext) (op : BoolOperator) (es : List Expr) {truths : List Bool} {b : Bool}
    (he : c.evaluateAll es = .ok (some truths)) (hb : c.MayBeAll op es b) :
    b = if op.decider then truths.any id else truths.all id := by
  match es with
  | [] => simp [MayBeAll] at hb
  | e :: rest =>
    rw [evaluateAll] at he
    cases hv : c.evaluate e with
    | error fault => simp [hv, bind, Except.bind] at he
    | ok w =>
      cases hr : c.evaluateAll rest with
      | error fault => simp [hv, hr, bind, Except.bind] at he
      | ok ws =>
        cases w with
        | none => simp [hv, hr, bind, Except.bind, pure, Except.pure] at he
        | some v =>
          cases ws with
          | none => simp [hv, hr, bind, Except.bind, pure, Except.pure] at he
          | some vs =>
            obtain rfl : v :: vs = truths := by simpa [hv, hr, bind, Except.bind, pure, Except.pure] using he
            have hfirst := fun b => eq_of_mayBe_of_evaluate c e (b := b) hv
            cases rest with
            | nil =>
              obtain rfl : [] = vs := by simpa [evaluateAll] using hr
              simp only [MayBeAll] at hb
              simpa using hfirst b hb
            | cons e' rest =>
              simp only [MayBeAll] at hb
              rcases hb with ⟨rfl, hb⟩ | ⟨hne, hb⟩
              · have := hfirst _ hb
                cases op <;> simp_all [BoolOperator.decider]
              · have := hfirst _ hne
                have := eq_of_mayBeAll c op (e' :: rest) hr (by simpa only [MayBeAll] using hb)
                cases op <;> simp_all [BoolOperator.decider]

end

/-- A test that the environment decides, `None` taken for false, has no other outcome. -/
theorem eq_of_mayBe {v b : Bool} (he : c.evaluateLoosely e = .ok (some v))
    (hb : c.MayBe e b) : b = v := by
  by_cases hn : e.isNone
  · have hl : e.isLogical = false := by
      unfold Expr.isNone at hn
      split at hn
      · rfl
      · cases hn
    exact eq_of_mayBe_leaf hl he hb
  · exact eq_of_mayBe_of_evaluate c e (by simpa [evaluateLoosely, hn] using he) hb

/-- A static value does not rule out what a test may come to. -/
theorem ne_of_mayBe {v : Option Bool} {b : Bool} (hv : c.evaluateLoosely e = .ok v) (hb : c.MayBe e b) :
    v ≠ some (!b) := by
  rintro rfl
  simpa using eq_of_mayBe hv hb

/-- What decides static conditions behind the import of a module. -/
def learn (c : StaticContext) (n : ImportName) : StaticContext :=
  match DottedName.parts n.name with
  | [first] =>
    if Bind.isTypingModule first then { c with typingNames := c.typingNames ++ [n.boundName] }
    else if first == "sys" then { c with systemNames := c.systemNames ++ [n.boundName] }
    else c
  | _ => c

end StaticContext

/-- How the guard of a `case` may come out; without a guard it is passed. -/
def GuardMayBe (guard : Option Expr) (c : StaticContext) (b : Bool) : Prop :=
  match guard with
  | some guard => c.MayBe guard b
  | none => b = true

end ScopeFlow
