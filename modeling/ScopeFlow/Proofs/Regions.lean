import ScopeFlow.Proofs.ExprLaws

/-!
# What an expression adds to the graph

While an expression is walked, the flow graph grows behind the place that the walk starts from. `Region` says how: of what was
there before, only labels that are handed to the walk gain antecedents, and from code that cannot run nothing is led anywhere.

The rules at the beginning compose steps that keep to a region (`Stays`); what follows goes through the steps that extend the
graph, the binding of names and imports, and the walk of an expression.
-/

namespace ScopeFlow

namespace Bind

open FlowGraph NodeTree

variable {ω : Type} {α β : Type} {u : Setup ω} {ctx : Context} {L : FlowRef → Prop} {o s s' : State ω} {ref : FlowRef}
  {g : FlowRef → BindM ω β} {l : FlowRef}

/-- A place that code behind a state may go on from: the sentinel or, if the state is live, any. -/
def State.Ahead (o : State ω) (r : FlowRef) : Prop := r ≠ 0 → o.current ≠ 0

/-- A label that code behind a state may lead to: one that is handed to it, or a new one. -/
def State.Takes (o : State ω) (L : FlowRef → Prop) (l : FlowRef) : Prop := L l ∨ o.graph.size ≤ l

/-- What the walk of an expression from `o` has done by the time it comes to `s`. -/
structure Region (o : State ω) (L : FlowRef → Prop) (s : State ω) : Prop where
  sentinel : s.graph[0]? = some FlowGraph.sentinel
  size : o.graph.size ≤ s.graph.size
  old : ∀ i < o.graph.size, ¬ L i → s.graph[i]? = o.graph[i]?
  fed : ∀ (i : Nat) (n : FlowNode), s.graph[i]? = some n → ∀ x ∈ n.step.antecedents,
    (∃ m, o.graph[i]? = some m ∧ x ∈ m.step.antecedents) ∨ o.current ≠ 0
  current : o.Ahead s.current

namespace Region

theorem refl (h : o.graph[0]? = some FlowGraph.sentinel) : Region o L o :=
  ⟨h, le_refl _, fun _ _ _ => rfl, fun _ n hn _ hx => .inl ⟨n, hn, hx⟩, id⟩

section

variable (h : Region o L s)
include h

theorem congr (hg : s'.graph = s.graph) (hc : s'.current = s.current) : Region o L s' :=
  ⟨hg ▸ h.sentinel, hg ▸ h.size, hg ▸ h.old, hg ▸ h.fed, hc ▸ h.current⟩

theorem setCurrent (hr : o.Ahead ref) : Region o L { s with current := ref } :=
  ⟨h.sentinel, h.size, h.old, h.fed, hr⟩

theorem isUnreachable : (s.graph.nodeAt 0).step.isUnreachable = true := by
  simp [nodeAt, h.sentinel, FlowGraph.sentinel, FlowStep.isUnreachable]

/-- What a new label stands for in the end is a place to go on from. -/
theorem finish (hl : o.graph.size ≤ l) : o.Ahead (s.graph.finish l) := by
  intro h0
  obtain ⟨n, hn, x, hx⟩ : ∃ n, s.graph[l]? = some n ∧ ∃ x, x ∈ n.step.antecedents := by
    by_contra! hno
    refine h0 ?_
    cases hn : s.graph[l]? with
    | none => simp [FlowGraph.finish, nodeAt, hn, FlowGraph.sentinel, FlowStep.antecedents]
    | some n =>
      have hnil := List.eq_nil_iff_forall_not_mem.2 (hno n hn)
      simp only [FlowGraph.finish, nodeAt, hn, Option.getD_some]
      split
      · rename_i hstep
        simp [hstep, FlowStep.antecedents] at hnil
      · simp [hnil]
  refine (h.fed l n hn x hx).resolve_left ?_
  rintro ⟨m, hm, _⟩
  exact absurd (Array.getElem?_eq_some_iff.1 hm).1 (by omega)

theorem link {l ref : FlowRef} (hl : o.Takes L l) {x : Unit}
    (hrun : (link l ref : BindM ω Unit).run s = .ok x s') : Region o L s' := by
  obtain rfl := link_ok.1 hrun
  split
  · exact h
  · rename_i hd
    have h0 : s.current ≠ 0 := fun h0 => hd (h0 ▸ h.isUnreachable)
    refine ⟨?_, by simpa using h.size, fun i hi hL => ?_, fun i n hn x hx => ?_, h.current⟩
    · obtain ⟨more, hm⟩ := Grows.addAntecedent s.graph l ref 0 _ h.sentinel
      exact hm
    · rw [addAntecedent_getElem?, if_neg]
      · exact h.old i hi hL
      · rintro ⟨rfl, _⟩
        rcases hl with hl | hl
        · exact hL hl
        · omega
    · obtain ⟨m, hm, _, _, _, _, hx | _⟩ := mem_antecedents_addAntecedent hn hx
      · exact h.fed i m hm x hx
      · exact .inr (h.current h0)

theorem newNode {step : FlowStep} (hants : ∀ x ∈ step.antecedents, o.current ≠ 0)
    (hrun : (newNode step : BindM ω FlowRef).run s = .ok ref s') : Region o L s' ∧ o.graph.size ≤ ref := by
  obtain ⟨rfl, rfl⟩ := newNode_ok.1 hrun
  have hpos : 0 < s.graph.size := (Array.getElem?_eq_some_iff.1 h.sentinel).1
  have hsize := h.size
  refine ⟨⟨?_, by simp only [Array.size_push]; omega, fun i hi hL => ?_, fun i n hn x hx => ?_, h.current⟩, hsize⟩
  · rw [getElem?_push_old _ hpos]
    exact h.sentinel
  · rw [getElem?_push_old _ (by omega)]
    exact h.old i hi hL
  · rcases getElem?_push_cases hn with hn | ⟨rfl, rfl⟩
    · exact h.fed i n hn x hx
    · exact .inr (hants x hx)

end

end Region

/-! ## Steps that keep to a region -/

/-- A step that keeps to a region. -/
def Stays (o : State ω) (L : FlowRef → Prop) (f : BindM ω α) : Prop :=
  ∀ ⦃s x s'⦄, Region o L s → f.run s = .ok x s' → Region o L s'

namespace Stays

theorem ofQuiet {f : BindM ω α} (hf : IsQuiet f) : Stays o L f := fun _ _ _ h hr => h.congr (hf hr).graph (hf hr).current

theorem pure (x : α) : Stays o L (Pure.pure x : BindM ω α) := ofQuiet (.pure x)

theorem throw (fault : Fault) : Stays o L (MonadExcept.throw fault : BindM ω α) := ofQuiet (.throw fault)

theorem bind {f : BindM ω α} {g : α → BindM ω β} (hf : Stays o L f) (hg : ∀ x, Stays o L (g x)) : Stays o L (f >>= g) := by
  intro s y s' hs h
  obtain ⟨x, t, h1, h2⟩ := bind_ok.1 h
  exact hg x (hf hs h1) h2

theorem ite {c : Prop} [Decidable c] {f g : BindM ω α} (hf : Stays o L f) (hg : Stays o L g) :
    Stays o L (if c then f else g) := by
  split
  · exact hf
  · exact hg

theorem when {c : Prop} [Decidable c] {f : BindM ω PUnit} {g : PUnit → BindM ω β} (hf : Stays o L f)
    (hg : ∀ x, Stays o L (g x)) : Stays o L (if c then f >>= g else g ⟨⟩) := ite (bind hf hg) (hg _)

/-- A change of what the flow graph does not show. -/
theorem ofModify {f : State ω → State ω} (hg : ∀ s, (f s).graph = s.graph) (hc : ∀ s, (f s).current = s.current) :
    Stays o L (modify f : BindM ω Unit) := by
  intro s x s' hs h
  obtain rfl := modify_ok.1 h
  exact hs.congr (hg s) (hc s)

theorem facts (node : Nat) (f : NodeFacts → NodeFacts) : Stays o L (modifyFacts node f : BindM ω Unit) :=
  ofModify (fun _ => rfl) fun _ => rfl

/-- What is done with the current place is done with a place to go on from. -/
theorem current (hg : ∀ r, o.Ahead r → Stays o L (g r)) : Stays o L (Bind.current >>= g) := by
  intro s y s' hs h
  obtain ⟨r, t, h1, h2⟩ := bind_ok.1 h
  obtain ⟨rfl, rfl⟩ := current_ok.1 h1
  exact hg _ hs.current hs h2

/-- What is done with a new join is done with a label to lead to. -/
theorem branch (hg : ∀ l, o.graph.size ≤ l → Stays o L (g l)) : Stays o L (newBranch >>= g) := by
  intro s y s' hs h
  obtain ⟨l, t, h1, h2⟩ := bind_ok.1 h
  obtain ⟨ht, hl⟩ := hs.newNode (by simp [FlowStep.antecedents]) h1
  exact hg l hl ht h2

end Stays

theorem link_stays {l ref : FlowRef} (hl : o.Takes L l) : Stays o L (link l ref : BindM ω Unit) := fun _ _ _ hs h => hs.link hl h

theorem setCurrent_stays (hr : o.Ahead ref) : Stays o L (setCurrent ref : BindM ω Unit) := by
  intro s x s' hs h
  obtain rfl := setCurrent_ok.1 h
  exact hs.setCurrent hr

theorem finish_stays (hl : o.graph.size ≤ l) : Stays o L (finish l : BindM ω Unit) := by
  intro s x s' hs h
  obtain rfl := finish_ok.1 h
  exact hs.setCurrent (hs.finish hl)

theorem linkCurrent_stays (hl : o.Takes L l) : Stays o L (linkCurrent l : BindM ω Unit) :=
  .current fun _ _ => link_stays hl

theorem stamp_stays (node : Nat) : Stays o L (stamp node : BindM ω Unit) := .current fun _ _ => .facts _ _

/-- Code that is not dead is behind a state that is live. -/
theorem Stays.unlessDead {f : BindM ω Unit} (hf : o.current ≠ 0 → Stays o L f) :
    Stays o L (do unless ← isDead do f : BindM ω Unit) := by
  intro s x s' hs h
  obtain ⟨dead, t, h1, h2⟩ := bind_ok.1 h
  obtain ⟨rfl, rfl⟩ := isDead_ok.1 h1
  split at h2
  · obtain ⟨_, rfl⟩ := pure_ok.1 h2
    exact hs
  · rename_i hd
    have h0 : s.current ≠ 0 := fun h0 => hd (h0 ▸ hs.isUnreachable)
    exact hf (hs.current h0) hs h2

/-- A new node in live code, and what is done with it. -/
theorem Stays.node {step : FlowStep} (ho : o.current ≠ 0) (hg : ∀ r, o.Ahead r → Stays o L (g r)) :
    Stays o L (newNode step >>= g) := by
  intro s y s' hs h
  obtain ⟨ref, t, h1, h2⟩ := bind_ok.1 h
  exact hg ref (fun _ => ho) (hs.newNode (fun _ _ => ho) h1).1 h2

section

variable (hc : ∀ l ∈ ctx.exceptTargets, o.Takes L l)
include hc

theorem linkRaise_stays : Stays o L (linkRaise ctx ref : BindM ω Unit) := by
  unfold linkRaise
  generalize ctx.exceptTargets = ls at hc
  induction ls with
  | nil => exact .pure _
  | cons l ls ih => exact .bind (link_stays (hc l (by simp))) fun _ => ih fun l' hl' => hc l' (by simp [hl'])

omit hc in
theorem advance_stays (step : FlowRef → FlowStep) : Stays o L (advance step : BindM ω Unit) :=
  .unlessDead fun ho => .current fun _ _ => .node ho fun _ hr => setCurrent_stays hr

theorem call_stays (node : Nat) (function : Expr) : Stays o L (call ctx node function : BindM ω Unit) :=
  .bind (advance_stays _) fun _ => .bind (stamp_stays _) fun _ => .unlessDead fun _ => .current fun _ _ => linkRaise_stays hc

theorem importAll_stays (node : Nat) (names : List String) : Stays o L (importAll ctx node names : BindM ω Unit) := by
  have hnode : Stays o L (importStep ctx node names : BindM ω Unit) :=
    .unlessDead fun ho => .current fun _ _ => .node ho fun _ hr => .bind (linkRaise_stays hc) fun _ => setCurrent_stays hr
  rw [importAll_eq]
  exact .bind hnode fun _ => stamp_stays node

/-! ## Conditions -/

theorem conditional_stays {kind : ConditionKind} {ant : FlowRef} {e : Expr} (ha : o.Ahead ant) :
    Stays o L (conditional u ctx kind ant e) := by
  intro s ref s' hs hrun
  rcases conditional_ok hrun with ⟨_, _, rfl⟩ | ⟨hd, _, _, ⟨_, _, rfl⟩ | ⟨_, n, _, ⟨_, _, rfl⟩ | ⟨_, t1, t2, h3, h4, h5⟩⟩⟩
  · exact hs
  · exact hs
  · exact hs
  · have ho : o.current ≠ 0 := ha fun h0 => hd (h0 ▸ hs.isUnreachable)
    have hs1 := Stays.ofQuiet (addKeys_quiet _ _) hs h3
    exact linkRaise_stays hc (hs1.newNode (fun _ _ => ho) h4).1 h5

theorem linkTest_stays {onTrue onFalse : FlowRef} {e : Expr} (ht : o.Takes L onTrue) (hf : o.Takes L onFalse) :
    Stays o L (linkTest u ctx onTrue onFalse e) :=
  .current fun _ ha => .bind (conditional_stays hc ha) fun _ => .bind (link_stays ht) fun _ => .current fun _ ha =>
    .bind (conditional_stays hc ha) fun _ => link_stays hf

/-! ## Assignments -/

theorem assignKey_stays (node : Nat) (key : String) (target : Option Int) (raises unbound : Bool) :
    Stays o L (assignKey ctx node key target raises unbound : BindM ω Unit) :=
  .unlessDead fun ho => .current fun _ _ => .node ho fun _ hr =>
    .bind (.ofQuiet (addKey_quiet _ _)) fun _ => .when (linkRaise_stays hc) fun _ => setCurrent_stays hr

theorem assign_stays (node : Nat) (name key : Option String) (raises stamps unbound : Bool) :
    Stays o L (assign ctx node name key raises stamps unbound : BindM ω Unit) := by
  have hend : ∀ before, Stays o L (if stamps then stampAssigned node before unbound else pure () : BindM ω Unit) := by
    intro before
    refine .ite ?_ (.pure _)
    exact .ite (.bind (.ofQuiet (.factsOf _)) fun _ => .ite (.facts _ _) (.pure _)) (stamp_stays _)
  refine .bind (.ofQuiet (assignedSymbol_quiet _)) fun target => .current fun before _ => ?_
  cases key with
  | none => exact hend before
  | some key => exact .bind (assignKey_stays hc node key target raises unbound) fun _ => hend before

end

/-! ## Expressions -/

/-- A join for a part of the code, finished behind it. -/
theorem joined_stays {part : FlowRef → BindM ω Unit} (hpart : ∀ l, o.graph.size ≤ l → Stays o L (part l)) :
    Stays o L (do let l ← newBranch; part l; finish l : BindM ω Unit) :=
  .branch fun l hl => .bind (hpart l hl) fun _ => finish_stays hl

/-- A step with two labels to lead to. -/
def StaysTest (o : State ω) (L : FlowRef → Prop) (test : FlowRef → FlowRef → BindM ω Unit) : Prop :=
  ∀ onTrue onFalse, o.Takes L onTrue → o.Takes L onFalse → Stays o L (test onTrue onFalse)

theorem operand_stays {op : BoolOperator} {onTrue onFalse : FlowRef} {test : FlowRef → FlowRef → BindM ω Unit}
    (h : StaysTest o L test) (ht : o.Takes L onTrue) (hf : o.Takes L onFalse) : Stays o L (operand op onTrue onFalse test) := by
  cases op with
  | and => exact joined_stays fun l hl => h l onFalse (.inr hl) hf
  | or => exact joined_stays fun l hl => h onTrue l ht (.inr hl)

theorem choice_stays {test : FlowRef → FlowRef → BindM ω Unit} {body orElse : BindM ω Unit} (ht : StaysTest o L test)
    (hb : Stays o L body) (ho : Stays o L orElse) : Stays o L (choice test body orElse) :=
  .branch fun onTrue h1 => .branch fun onFalse h2 => .branch fun _ h3 => .bind (ht onTrue onFalse (.inr h1) (.inr h2)) fun _ =>
    .bind (finish_stays h1) fun _ => .bind hb fun _ => .bind (linkCurrent_stays (.inr h3)) fun _ =>
      .bind (finish_stays h2) fun _ =>
      .bind ho fun _ => .bind (linkCurrent_stays (.inr h3)) fun _ => finish_stays h3

theorem deferBody_stays (ctx : Context) (mark : Mark) (body : Body) : Stays o L (deferBody ctx mark body : BindM ω Context) :=
  .bind (.ofQuiet (nonClassScope_quiet _)) fun _ => .bind (.ofQuiet (newScope_quiet _ _)) fun _ => .bind (.facts _ _) fun _ =>
    .bind (.ofModify (fun _ => rfl) fun _ => rfl) fun _ => .bind (.ofQuiet (showKeys_quiet _)) fun _ => .pure _

/-- The walk of an expression keeps to a region if the labels that it may lead to do. -/
theorem stays_lays : Lays u fun _ _ T ctx (α : Type) (f : BindM ω α) =>
    (∀ l, T l → o.Takes L l) → (∀ l ∈ ctx.exceptTargets, o.Takes L l) → Stays o L f where
  assigns _ _ :=
    { ofQuiet := fun hf _ _ => .ofQuiet hf
      bind := fun hf hg hT hc => .bind (hf hT hc) fun x => hg x hT hc
      takeOver := fun _ _ _ _ => advance_stays _
      assign := fun _ _ _ _ _ _ _ hc => assign_stays hc _ _ _ _ _ _
      importAll := fun _ _ _ hc => importAll_stays hc _ _ }
  bind hf hg hT hc := .bind (hf hT hc) fun x => hg x hT hc
  mono h _ _ := h
  frame _ h := h
  ofModify h _ _ := .ofModify (fun s => (h s).1) fun s => (h s).2.1
  rescope _ h := h
  setScope _ _ _ _ := .facts _ _
  stamp _ _ _ := stamp_stays _
  deferBody _ _ _ _ _ _ := deferBody_stays _ _ _
  call _ _ _ hc := call_stays hc _ _
  annotate _ _ := advance_stays _
  linkCurrent h hT _ := linkCurrent_stays (hT _ h)
  linkTest _ ht hf hT hc := linkTest_stays hc (hT _ ht) (hT _ hf)
  joined hpart hT hc :=
    joined_stays fun l hl => hpart l (fun l' h => h.elim (hT l') fun h => .inr (List.mem_singleton.1 h ▸ hl)) hc
  choice ht hb ho hT hc := choice_stays (fun _ _ h1 h2 => ht _ _ _ hT h1 h2 (fun _ => id) hc) (hb _ hT (fun _ => id) hc)
    (ho _ hT (fun _ => id) hc)

/-- The walk of an expression keeps to the region behind the place that it starts from. -/
theorem visitExpr_stays (hu : u.Steady) (e : Expr) (hc : ∀ l ∈ ctx.exceptTargets, o.Takes L l) (role : Role)
    (hr : role.Leads (o.Takes L)) : Stays o L (visitExpr u ctx role e) :=
  visitExpr_law stays_lays hu e role hr (fun _ => id) hc

end Bind

end ScopeFlow
