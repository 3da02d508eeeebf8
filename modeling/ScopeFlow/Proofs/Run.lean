import Mathlib
import ScopeFlow.Bind.Module

/-!
# Runs of binding steps

A step of binding that succeeds is taken apart into the runs of its parts: `bind_ok` inverts one line of a `do` block, and
the steps that cannot fail are given as functions of the state. What
each step does to the state is a relation along the run (`Along`).
-/

namespace ScopeFlow.Bind

variable {ω : Type} {α β : Type} {s s' : State ω} {ref : FlowRef} {node : Nat} {a : α}

/-! ## Taking runs apart -/

/-- A run of two steps is a run of the first and then one of the second. -/
theorem bind_ok {f : BindM ω α} {g : α → BindM ω β} {b : β} :
    (f >>= g).run s = .ok b s' ↔ ∃ a t, f.run s = .ok a t ∧ (g a).run t = .ok b s' := by
  show EStateM.bind f g s = _ ↔ ∃ a t, f s = .ok a t ∧ g a t = .ok b s'
  unfold EStateM.bind
  cases f s <;> simp

theorem pure_ok {a b : α} : (pure a : BindM ω α).run s = .ok b s' ↔ a = b ∧ s = s' := by
  show EStateM.Result.ok a s = EStateM.Result.ok b s' ↔ _
  simp

theorem map_ok {f : α → β} {x : BindM ω α} {b : β} :
    (f <$> x).run s = .ok b s' ↔ ∃ a, x.run s = .ok a s' ∧ f a = b := by
  show EStateM.map f x s = _ ↔ ∃ a, x s = .ok a s' ∧ f a = b
  unfold EStateM.map
  cases x s <;> simp
  grind

theorem discard_ok {x : BindM ω α} {a : Unit} :
    (discard x : BindM ω Unit).run s = .ok a s' ↔ ∃ b, x.run s = .ok b s' := by
  show (Function.const α () <$> x).run s = .ok a s' ↔ _
  rw [map_ok]
  simp [Function.const]

@[simp] theorem throw_ne_ok {fault : Fault} {a : α} {s s' : State ω} :
    (throw fault : BindM ω α).run s = .ok a s' ↔ False := by
  show EStateM.Result.error fault s = EStateM.Result.ok a s' ↔ False
  simp

theorem get_ok {t s s' : State ω} : (get : BindM ω (State ω)).run s = .ok t s' ↔ s = t ∧ s = s' := by
  show EStateM.Result.ok s s = EStateM.Result.ok t s' ↔ _
  simp

theorem modify_ok {f : State ω → State ω} {a : Unit} :
    (modify f : BindM ω Unit).run s = .ok a s' ↔ s' = f s := by
  show EStateM.Result.ok () (f s) = EStateM.Result.ok a s' ↔ _
  simp [eq_comm]

theorem modifyGet_ok {f : State ω → α × State ω} :
    (modifyGet f : BindM ω α).run s = .ok a s' ↔ a = (f s).1 ∧ s' = (f s).2 := by
  show EStateM.Result.ok (f s).1 (f s).2 = EStateM.Result.ok a s' ↔ _
  simp [eq_comm]

theorem forM_nil_ok {f : α → BindM ω Unit} {a : Unit} :
    (([] : List α).forM f).run s = .ok a s' ↔ s' = s := by
  show (pure () : BindM ω Unit).run s = .ok a s' ↔ _
  simp [eq_comm]

theorem forM_cons_ok {f : α → BindM ω Unit} {x : α} {xs : List α} {a : Unit} :
    ((x :: xs).forM f).run s = .ok a s' ↔ ∃ t, (f x).run s = .ok () t ∧ (xs.forM f).run t = .ok a s' := by
  show (f x >>= fun _ => xs.forM f).run s = .ok a s' ↔ _
  rw [bind_ok]
  exact ⟨fun ⟨_, t, h⟩ => ⟨t, h⟩, fun ⟨t, h⟩ => ⟨(), t, h⟩⟩

theorem ofExcept_ok {x : Except Fault α} :
    (ofExcept x : BindM ω α).run s = .ok a s' ↔ x = .ok a ∧ s = s' := by
  cases x with
  | error fault => simp [ofExcept]
  | ok b => simp only [ofExcept, pure_ok, Except.ok.injEq]

theorem consult_ok {f : Store → Except Fault α} :
    (consult f : BindM ω α).run s = .ok a s' ↔ f s.store = .ok a ∧ s = s' := by
  simp only [consult, bind_ok, get_ok]
  constructor
  · rintro ⟨_, _, ⟨rfl, rfl⟩, h⟩
    split at h
    · rename_i b hf
      obtain ⟨rfl, rfl⟩ := pure_ok.1 h
      exact ⟨hf, rfl⟩
    · simp at h
  · rintro ⟨h, rfl⟩
    refine ⟨s, s, ⟨rfl, rfl⟩, ?_⟩
    simp [h]

/-! ## Steps that cannot fail -/

/-- A step that only reads the state. -/
theorem read_ok (f : State ω → α) : (do return f (← get) : BindM ω α).run s = .ok a s' ↔ a = f s ∧ s = s' := by
  simp only [bind_ok, get_ok, pure_ok]
  constructor
  · rintro ⟨t, t', ⟨rfl, rfl⟩, h, h'⟩
    exact ⟨h.symm, h'⟩
  · rintro ⟨h, rfl⟩
    exact ⟨s, s, ⟨rfl, rfl⟩, h.symm, rfl⟩

/-- What is known of a node in a state. -/
def State.factsAt (s : State ω) (node : Nat) : NodeFacts := (s.facts[node]?).getD {}

theorem factsOf_ok {f : NodeFacts} :
    (factsOf node : BindM ω NodeFacts).run s = .ok f s' ↔ f = s.factsAt node ∧ s = s' := read_ok (·.factsAt node)

theorem current_ok :
    (current : BindM ω FlowRef).run s = .ok ref s' ↔ ref = s.current ∧ s = s' := read_ok State.current

theorem setCurrent_ok {a : Unit} :
    (setCurrent ref : BindM ω Unit).run s = .ok a s' ↔ s' = { s with current := ref } := by
  rw [setCurrent, modify_ok]

theorem isDead_ok {b : Bool} :
    (isDead : BindM ω Bool).run s = .ok b s' ↔ b = (s.graph.nodeAt s.current).step.isUnreachable ∧ s = s' :=
  read_ok fun s => (s.graph.nodeAt s.current).step.isUnreachable

theorem newNode_ok {step : FlowStep} :
    (newNode step : BindM ω FlowRef).run s = .ok ref s' ↔
      ref = s.graph.size ∧
        s' = { s with
          graph := s.graph.push ⟨s.store.nextFlowId, step⟩
          store := { s.store with nextFlowId := s.store.nextFlowId + 1 }
          past := s.past.map (s.store :: ·) } := by
  rw [newNode, modifyGet_ok]

theorem finished_ok {label ref : FlowRef} :
    (finished label : BindM ω FlowRef).run s = .ok ref s' ↔ ref = s.graph.finish label ∧ s = s' := read_ok (·.graph.finish label)

theorem finish_ok {label : FlowRef} {a : Unit} :
    (finish label : BindM ω Unit).run s = .ok a s' ↔ s' = { s with current := s.graph.finish label } := by
  simp only [finish, bind_ok, finished_ok, setCurrent_ok]
  constructor
  · rintro ⟨r, t, ⟨rfl, rfl⟩, h⟩
    exact h
  · rintro h
    exact ⟨_, _, ⟨rfl, rfl⟩, h⟩

theorem link_ok {label ref : FlowRef} {a : Unit} :
    (link label ref : BindM ω Unit).run s = .ok a s' ↔
      s' = if (s.graph.nodeAt s.current).step.isUnreachable then s
        else { s with graph := s.graph.addAntecedent label ref } := by
  simp only [link, bind_ok, isDead_ok]
  constructor
  · rintro ⟨b, t, ⟨rfl, rfl⟩, h⟩
    split at h
    · rename_i hd
      rw [if_pos hd]
      exact (pure_ok.1 h).2.symm
    · rename_i hd
      rw [if_neg hd]
      exact modify_ok.1 h
  · intro h
    refine ⟨_, _, ⟨rfl, rfl⟩, ?_⟩
    split
    · rename_i hd
      rw [if_pos hd] at h
      exact pure_ok.2 ⟨rfl, h.symm⟩
    · rename_i hd
      rw [if_neg hd] at h
      exact modify_ok.2 h

theorem linkCurrent_ok {label : FlowRef} {a : Unit} :
    (linkCurrent label : BindM ω Unit).run s = .ok a s' ↔ (link label s.current : BindM ω Unit).run s = .ok a s' := by
  simp only [linkCurrent, bind_ok, current_ok]
  constructor
  · rintro ⟨r, t, ⟨rfl, rfl⟩, h⟩
    exact h
  · intro h
    exact ⟨_, _, ⟨rfl, rfl⟩, h⟩

theorem modifyFacts_ok {f : NodeFacts → NodeFacts} {a : Unit} :
    (modifyFacts node f : BindM ω Unit).run s = .ok a s' ↔ s' = { s with facts := s.facts.modify node f } := by
  rw [modifyFacts, modify_ok]

theorem stamp_ok {a : Unit} :
    (stamp node : BindM ω Unit).run s = .ok a s' ↔ (stampWith node s.current : BindM ω Unit).run s = .ok a s' := by
  simp only [stamp, bind_ok, current_ok]
  constructor
  · rintro ⟨r, t, ⟨rfl, rfl⟩, h⟩
    exact h
  · intro h
    exact ⟨_, _, ⟨rfl, rfl⟩, h⟩

/-- A changed fact is found at the node it was changed at, if there is such a node, and nowhere else. -/
theorem State.factsAt_modify (s : State ω) (node : Nat) (f : NodeFacts → NodeFacts) (i : Nat) :
    State.factsAt { s with facts := s.facts.modify node f } i =
      if i = node ∧ node < s.facts.size then f (s.factsAt i) else s.factsAt i := by
  simp only [State.factsAt, Array.getElem?_modify]
  by_cases h : node = i
  · subst h
    by_cases hs : node < s.facts.size
    · simp [hs]
    · simp [hs]
  · simp [h, Ne.symm h]

/-! ## Relations along a run -/

/-- A step that leads to a related state, unless it fails. -/
def Along (r : State ω → State ω → Prop) (f : BindM ω α) : Prop := ∀ ⦃s a s'⦄, f.run s = .ok a s' → r s s'

namespace Along

variable {r : State ω → State ω → Prop} [IsPreorder (State ω) r] {f : BindM ω α} {g : α → BindM ω β}

/-- A step that only reads. -/
theorem ofReads (h : ∀ ⦃s a s'⦄, f.run s = .ok a s' → s = s') : Along r f := fun s _ _ hrun => h hrun ▸ Std.Refl.refl s

theorem pure (a : α) : Along r (Pure.pure a : BindM ω α) := ofReads fun _ _ _ h => (pure_ok.1 h).2

theorem get : Along r (MonadState.get : BindM ω (State ω)) := ofReads fun _ _ _ h => (get_ok.1 h).2

theorem consult (f : Store → Except Fault α) : Along r (Bind.consult f : BindM ω α) := ofReads fun _ _ _ h => (consult_ok.1 h).2

theorem ofExcept (x : Except Fault α) : Along r (Bind.ofExcept x : BindM ω α) := ofReads fun _ _ _ h => (ofExcept_ok.1 h).2

theorem current : Along r (Bind.current : BindM ω FlowRef) := ofReads fun _ _ _ h => (current_ok.1 h).2

theorem isDead : Along r (Bind.isDead : BindM ω Bool) := ofReads fun _ _ _ h => (isDead_ok.1 h).2

theorem factsOf (node : Nat) : Along r (Bind.factsOf node : BindM ω NodeFacts) := ofReads fun _ _ _ h => (factsOf_ok.1 h).2

theorem bind (hf : Along r f) (hg : ∀ a, Along r (g a)) : Along r (f >>= g) := by
  intro s b s' h
  obtain ⟨a, t, h1, h2⟩ := bind_ok.1 h
  exact IsTrans.trans _ _ _ (hf h1) (hg a h2)

omit [IsPreorder (State ω) r] in
theorem map {h : α → β} (hf : Along r f) : Along r (h <$> f) := by
  intro s b s' hrun
  obtain ⟨a, h1, _⟩ := map_ok.1 hrun
  exact hf h1

omit [IsPreorder (State ω) r] in
theorem discard (hf : Along r f) : Along r (Functor.discard f : BindM ω Unit) := hf.map

omit [IsPreorder (State ω) r] in
theorem throw (fault : Fault) : Along r (MonadExcept.throw fault : BindM ω α) := fun _ _ _ h => absurd h (by simp)

omit [IsPreorder (State ω) r] in
theorem ite {c : Prop} [Decidable c] {f f' : BindM ω α} (hf : Along r f) (hf' : Along r f') : Along r (if c then f else f') := by
  split
  · exact hf
  · exact hf'

/-- A step that is taken under a condition, in front of what follows in any case. -/
theorem when {c : Prop} [Decidable c] {f : BindM ω PUnit} {g : PUnit → BindM ω β} (hf : Along r f) (hg : ∀ x, Along r (g x)) :
    Along r (if c then f >>= g else g ⟨⟩) := ite (bind hf hg) (hg _)

theorem forM {f : α → BindM ω Unit} (hf : ∀ a, Along r (f a)) (xs : List α) : Along r (xs.forM f) := by
  induction xs with
  | nil => exact pure ()
  | cons x xs ih => exact bind (hf x) fun _ => ih

omit [IsPreorder (State ω) r] in
theorem ofModify {f : State ω → State ω} (hf : ∀ s, r s (f s)) : Along r (modify f : BindM ω Unit) :=
  fun s _ _ h => modify_ok.1 h ▸ hf s

end Along

/-- What is read off a state is the same in another one. -/
abbrev Keeping {γ : Type} (view : State ω → γ) (s s' : State ω) : Prop := view s' = view s

instance {γ : Type} (view : State ω → γ) : IsPreorder (State ω) (Keeping view) where
  refl _ := rfl
  trans _ _ _ h h' := h'.trans h

end ScopeFlow.Bind
