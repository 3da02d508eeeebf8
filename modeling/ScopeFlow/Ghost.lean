/-!
# Values for reasoning

A ghost value is given by the property of being that value. It can be reasoned about, and nothing of it is kept when a program
runs, so a state can carry its own history.
-/

namespace ScopeFlow

/-- A value of a type that is there for reasoning only. -/
structure Ghost (α : Type) where
  is : α → Prop
  single : ∃ a, is = (a = ·)

namespace Ghost

variable {α β : Type}

@[inline] def of (a : α) : Ghost α := ⟨(a = ·), a, rfl⟩

/-- The value, which no program can ask for. -/
noncomputable def value (g : Ghost α) : α := Classical.choose g.single

@[inline] def map (f : α → β) (g : Ghost α) : Ghost β := ⟨(f g.value = ·), f g.value, rfl⟩

@[simp] theorem value_of (a : α) : (of a).value = a := by
  have h : (a = ·) = ((of a).value = ·) := Classical.choose_spec (of a).single
  exact (congrFun h a).mp rfl

@[simp] theorem value_map (f : α → β) (g : Ghost α) : (g.map f).value = f g.value := value_of (f g.value)

/-- A ghost value is known by its value. -/
theorem eq_of_value {g g' : Ghost α} (h : g.value = g'.value) : g = g' := by
  have his : g.is = g'.is := by
    rw [Classical.choose_spec g.single, Classical.choose_spec g'.single]
    exact congrArg (fun a b => a = b) h
  cases g
  cases g'
  cases his
  rfl

end Ghost

end ScopeFlow
