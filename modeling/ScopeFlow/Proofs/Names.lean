import ScopeFlow.Proofs.StepLaws
import ScopeFlow.Proofs.Tests

/-!
# Names in the flow graph

Binding a name may advance the flow, because a symbol that is new to a class takes over an outer value; assigning a
reference advances it and stamps the node. Both evaluate in the sense of `Evaluates`.
-/

namespace ScopeFlow.Bind

open FlowGraph

variable {ω : Type} {lax : Bool} {a : Nat} {A : Nat → Prop} {ctx : Context} {node : Nat}

/-! ## Binding -/

/-- Binding names evaluates. -/
theorem evaluates_binds : Binds fun (α : Type) (f : BindM ω α) => Evaluates lax a A ctx f where
  ofQuiet := .ofQuiet
  bind := .bind
  takeOver _ _ := takeOver_evaluates

theorem bindHere_evaluates (u : Setup ω) (name : String) : Evaluates lax a A ctx (bindHere u ctx name) :=
  bindHere_law evaluates_binds name

theorem bindTarget_evaluates (u : Setup ω) (target : Expr) : Evaluates lax a A ctx (bindTarget u ctx target) :=
  bindTarget_law evaluates_binds target

/-! ## Assigning -/

theorem assignedSymbol_quiet (name : Option String) : IsQuiet (assignedSymbol ctx name : BindM ω (Option Int)) := by
  unfold assignedSymbol
  split
  · exact .pure _
  · refine .bind (lookUp_quiet _ _) fun found => ?_
    cases found with
    | none => exact .throw _
    | some found => exact .pure _

theorem assignKey_evaluates (node : Nat) (key : String) (target : Option Int) (raises unbound : Bool) :
    Evaluates lax a A ctx (assignKey ctx node key target raises unbound : BindM ω Unit) := by
  refine .unlessDead fun s x s' hs hw h0 h => ?_
  simp only [bind_ok, current_ok] at h
  obtain ⟨_, _, ⟨rfl, rfl⟩, ref, t1, h1, _, t2, h2, h⟩ := h
  have hf : Follows (fun ant => .assign (some node) key ant target unbound) := fun _ => ⟨rfl, rfl, rfl⟩
  obtain ⟨e1, _, hk, hpos⟩ := newNode_follows (A := A) hs hf hs.current h0 h1
  have e2 := e1.trans (.ofQuiet e1.sound (addKey_quiet _ _ h2))
  have hk2 := hk.grow (Evaluated.ofQuiet (A := A) e1.sound (addKey_quiet _ _ h2)).grows
  split at h
  · obtain ⟨_, t3, h3, h4⟩ := bind_ok.1 h
    obtain ⟨e3, _⟩ := linkRaise_evaluated (A := A) e2.sound (hw.grow e2.grows) hk2 h3
    obtain ⟨w4, hc⟩ := setCurrent_walked (A := A) e3.sound (hk2.grow e3.grows) h4
    exact ⟨(e2.trans e3).toWalked.trans w4, fun _ => hc ▸ hpos⟩
  · obtain ⟨w3, hc⟩ := setCurrent_walked (A := A) e2.sound hk2 h
    exact ⟨e2.toWalked.trans w3, fun _ => hc ▸ hpos⟩

theorem stampAssigned_evaluated {s s' : State ω} (hs : Sound lax a s) (hw : ctx.Within a s.graph)
    {before : FlowRef} {unbound : Bool} (hA : A node) (hk : s.graph.Known lax a before) {x : Unit}
    (h : (stampAssigned node before unbound : BindM ω Unit).run s = .ok x s') : Evaluated lax a A s s' := by
  unfold stampAssigned at h
  split at h
  · simp only [bind_ok, factsOf_ok] at h
    obtain ⟨_, _, ⟨rfl, rfl⟩, h⟩ := h
    split at h
    · exact (stampWith_evaluated hs hA hk h).1
    · obtain ⟨_, rfl⟩ := pure_ok.1 h
      exact .refl hs
  · exact stamp_evaluates hA hs hw h

theorem assign_evaluates (name key : Option String) (raises stamps unbound : Bool) (hA : stamps = true → A node) :
    Evaluates lax a A ctx (assign ctx node name key raises stamps unbound : BindM ω Unit) := by
  have hkey : ∀ target, Evaluates lax a A ctx (match key with
      | some key => assignKey ctx node key target raises unbound
      | none => pure () : BindM ω Unit) := by
    intro target
    split
    · exact assignKey_evaluates node _ target raises unbound
    · exact .pure _
  refine .bind (.ofQuiet (assignedSymbol_quiet name)) fun target => ?_
  intro s x s' hs hw h
  simp only [bind_ok, current_ok] at h
  obtain ⟨_, _, ⟨rfl, rfl⟩, h⟩ := h
  obtain ⟨t, e1, h2⟩ : ∃ t, Evaluated lax a A s t ∧
      (if stamps then stampAssigned node s.current unbound else pure () : BindM ω Unit).run t = .ok x s' := by
    cases key with
    | none => exact ⟨s, .refl hs, h⟩
    | some key =>
      obtain ⟨_, t, h1, h2⟩ := bind_ok.1 h
      exact ⟨t, hkey target hs hw h1, h2⟩
  split at h2
  · rename_i hstamps
    exact e1.trans (stampAssigned_evaluated e1.sound (hw.grow e1.grows) (hA hstamps) (hs.current.grow e1.grows) h2)
  · obtain ⟨_, rfl⟩ := pure_ok.1 h2
    exact e1

theorem assignName_evaluates (name : String) (stamps unbound : Bool) (hA : stamps = true → A node) :
    Evaluates lax a A ctx (assignName ctx node name stamps unbound : BindM ω Unit) :=
  assign_evaluates _ _ _ _ _ hA

/-- The number of an expression whose nodes may all be walked belongs to the set. -/
theorem index_of_fits {e : Expr} (h : e.tree.All (Node.Fits lax A)) : A e.index := by
  cases e <;> simp only [Expr.tree, NodeTree.all_mk] at h <;> exact h.1.1

/-- Assigning and importing evaluates. -/
theorem evaluates_assigns : Assigns (Node.Fits lax A) ctx fun (α : Type) (f : BindM ω α) => Evaluates lax a A ctx f where
  toBinds := evaluates_binds
  assign h _ _ _ _ _ := by
    obtain ⟨n, hk, rfl⟩ := h
    exact assign_evaluates _ _ _ _ _ fun _ => hk.1
  importAll h _ := by
    obtain ⟨n, hk, rfl⟩ := h
    exact importAll_evaluatesAt.evaluates hk.1

end ScopeFlow.Bind
