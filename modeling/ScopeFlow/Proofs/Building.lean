import ScopeFlow.Proofs.Growth
import ScopeFlow.Proofs.Quiet

/-!
# Building one execution scope

While the code of one execution scope is bound, the graph grows behind the place `a` where the scope begins. `Sound` is what
holds of every state on the way, and `Extends` is what any run of steps does to a sound state: the graph grows and stays
formed, nothing older than `a` changes, a stamp is made only on nodes of a given set and points to a known place, and what
is queued fits that set as well.

A run that evaluates an expression does more (`Evaluated`): live code stays live, and no module gets a new name.
-/

namespace ScopeFlow

/-- Whether a node is a `try` statement with a `finally` suite. -/
def Node.hasFinally : Node → Bool
  | stmt (.tryBlock _ _ _ _ _ final) => !final.isEmpty
  | _ => false

/-- Whether a node may be walked: its number belongs to a set, and without `lax` it has no `finally` suite. -/
def Node.Fits (lax : Bool) (A : Nat → Prop) (n : Node) : Prop := A n.mark.index ∧ (lax = true ∨ n.hasFinally = false)

namespace Bind

open FlowGraph

variable {ω : Type} {α β : Type} {lax : Bool} {a : Nat} {A : Nat → Prop} {s t s' : State ω} {f : BindM ω α} {ctx : Context}
  {B : Nat → Prop} {l : FlowRef}

/-- The moments at which a node may be stamped: when control reaches it, after it, and at the end of its body. -/
inductive Moment where
  | reached | left | bodyLeft
  deriving DecidableEq

/-- The stamp of a moment. -/
def NodeFacts.stamp? (f : NodeFacts) : Moment → Option FlowRef
  | .reached => f.flow
  | .left => f.after
  | .bodyLeft => f.afterBody

/-- Whether a node is marked as live: it is stamped, and not with the sentinel. -/
def State.MarksLive (s : State ω) (i : Nat) : Prop := ∃ r, (s.factsAt i).flow = some r ∧ r ≠ 0

/-- Whether the nodes of a body that waits may be walked. -/
def Body.Fits (lax : Bool) (A : Nat → Prop) : Body → Prop
  | .function _ params body =>
    (∀ p ∈ params.all, A p.mark.index) ∧ NodeTree.AllIn (Node.Fits lax A) (Stmt.trees body)
  | .lambda _ params body => (∀ p ∈ params.all, A p.mark.index) ∧ body.tree.All (Node.Fits lax A)

theorem Body.Fits.mono {b : Body} (h : b.Fits lax A) (hi : ∀ i, A i → B i) : b.Fits lax B := by
  cases b with
  | function _ params body | lambda _ params body => exact ⟨fun p hp => hi _ (h.1 p hp), h.2.imp fun _ hn => ⟨hi _ hn.1, hn.2⟩⟩

/-- Parameters and their annotations are nodes of the parameter list. -/
theorem annotations_of_fits {ps : Parameters} (h : ps.tree.All (Node.Fits lax A)) :
    ∀ p ∈ ps.all, A p.mark.index ∧ NodeTree.AllIn (Node.Fits lax A) (Expr.givenTree p.hint) :=
  fun p hp => ⟨(NodeTree.parameter_of_all h p hp).1.1, (NodeTree.parameter_of_all h p hp).2⟩

/-- What holds of every state while the execution scope that begins at `a` is bound. -/
structure Sound (lax : Bool) (a : Nat) (s : State ω) : Prop where
  formed : s.graph.Formed lax a
  fresh : ∀ (i : Nat) (n : FlowNode), s.graph[i]? = some n → n.id < s.store.nextFlowId
  current : s.graph.Known lax a s.current

/-- What a run of steps does to a sound state. -/
structure Extends (lax : Bool) (a : Nat) (A : Nat → Prop) (s s' : State ω) : Prop where
  sound : Sound lax a s'
  grows : s.graph.Grows s'.graph
  old : ∀ i < a, s'.graph[i]? = s.graph[i]?
  stamps : ∀ (m : Moment) (i : Nat), (s'.factsAt i).stamp? m = (s.factsAt i).stamp? m ∨
    A i ∧ ∃ r, (s'.factsAt i).stamp? m = some r ∧ s'.graph.Known lax a r
  nodes : s'.facts.size = s.facts.size
  tasks : ∃ new, s'.queue = s.queue ++ new ∧ ∀ t ∈ new, t.body.Fits lax A

/-- What a run does that gives no module a new name. -/
structure Walked (lax : Bool) (a : Nat) (A : Nat → Prop) (s s' : State ω) : Prop extends Extends lax a A s s' where
  typing : s'.typingNames = s.typingNames
  system : s'.systemNames = s.systemNames

/-- What the evaluation of an expression does: in particular, live code stays live. -/
structure Evaluated (lax : Bool) (a : Nat) (A : Nat → Prop) (s s' : State ω) : Prop extends Walked lax a A s s' where
  awake : s.current ≠ 0 → s'.current ≠ 0

-- Side conditions about what has grown, stayed sound or stayed live along a run are closed by `grind`.
attribute [grind →] Extends.sound Extends.grows Walked.toExtends Evaluated.toWalked Evaluated.awake

theorem Extends.refl (h : Sound lax a s) : Extends lax a A s s :=
  ⟨h, Grows.refl _, fun _ _ => rfl, fun _ _ => .inl rfl, rfl, [], by simp, by simp⟩

@[grind →]
theorem Extends.trans (h : Extends lax a A s t) (h' : Extends lax a A t s') : Extends lax a A s s' := by
  refine ⟨h'.sound, h.grows.trans h'.grows, fun i hi => (h'.old i hi).trans (h.old i hi), fun m i => ?_,
    h'.nodes.trans h.nodes, ?_⟩
  · rcases h'.stamps m i with he | hn
    · rcases h.stamps m i with he' | ⟨hA, r, hr, hk⟩
      · exact .inl (he.trans he')
      · exact .inr ⟨hA, r, he.trans hr, hk.grow h'.grows⟩
    · exact .inr hn
  · obtain ⟨new, hq, hn⟩ := h.tasks
    obtain ⟨new', hq', hn'⟩ := h'.tasks
    refine ⟨new ++ new', by rw [hq', hq, List.append_assoc], fun t ht => ?_⟩
    rcases List.mem_append.1 ht with ht | ht
    · exact hn t ht
    · exact hn' t ht

theorem Extends.mono (h : Extends lax a A s s') (hi : ∀ i, A i → B i) : Extends lax a B s s' := by
  obtain ⟨new, hq, hn⟩ := h.tasks
  exact ⟨h.sound, h.grows, h.old, fun m i => (h.stamps m i).imp_right fun ⟨hA, hr⟩ => ⟨hi i hA, hr⟩, h.nodes, new, hq,
    fun t ht => (hn t ht).mono hi⟩

/-- A node outside of the set keeps its stamp. -/
theorem Extends.flow_eq (h : Extends lax a A s s') {i : Nat} (hi : ¬A i) : (s'.factsAt i).flow = (s.factsAt i).flow :=
  (h.stamps .reached i).resolve_right fun hA => hi hA.1

theorem Walked.refl (h : Sound lax a s) : Walked lax a A s s := ⟨.refl h, rfl, rfl⟩

@[grind →]
theorem Walked.trans (h : Walked lax a A s t) (h' : Walked lax a A t s') : Walked lax a A s s' :=
  ⟨h.toExtends.trans h'.toExtends, h'.typing.trans h.typing, h'.system.trans h.system⟩

theorem Evaluated.refl (h : Sound lax a s) : Evaluated lax a A s s := ⟨.refl h, id⟩

@[grind →]
theorem Evaluated.trans (h : Evaluated lax a A s t) (h' : Evaluated lax a A t s') : Evaluated lax a A s s' :=
  ⟨h.toWalked.trans h'.toWalked, h'.awake ∘ h.awake⟩

theorem Evaluated.mono (h : Evaluated lax a A s s') (hi : ∀ i, A i → B i) : Evaluated lax a B s s' :=
  ⟨⟨h.toExtends.mono hi, h.typing, h.system⟩, h.awake⟩

/-- A quiet step makes no stamp. -/
theorem Quiet.stamp (hq : Quiet s s') (m : Moment) (i : Nat) : (s'.factsAt i).stamp? m = (s.factsAt i).stamp? m := by
  have hm := hq.marks i
  simp only [NodeFacts.marks, Prod.mk.injEq] at hm
  cases m
  · exact hm.2.1
  · exact hm.2.2.1
  · exact hm.2.2.2

/-- A quiet step keeps a state sound and evaluates nothing. -/
theorem Evaluated.ofQuiet (h : Sound lax a s) (hq : Quiet s s') : Evaluated lax a A s s' := by
  have hsound : Sound lax a s' := by
    refine ⟨hq.graph ▸ h.formed, fun i n hn => ?_, hq.graph ▸ hq.current ▸ h.current⟩
    rw [hq.graph] at hn
    exact (h.fresh i n hn).trans_le hq.count
  refine ⟨⟨⟨hsound, hq.graph ▸ Grows.refl _, fun _ _ => by rw [hq.graph], fun m i => .inl ?_, hq.nodes, [], ?_, ?_⟩,
    hq.typing, hq.system⟩, fun h0 => hq.current ▸ h0⟩
  · exact hq.stamp m i
  · simpa using hq.queue
  · simp

/-- Under construction, code is dead exactly at the sentinel. -/
theorem Sound.isDead_iff (h : Sound lax a s) :
    (s.graph.nodeAt s.current).step.isUnreachable = true ↔ s.current = 0 :=
  h.formed.isUnreachable_iff h.current

/-! ## The labels in reach -/

/-- A label that code of the scope that begins at `a` may lead to. -/
def Joint (a : Nat) (g : FlowGraph) (l : FlowRef) : Prop := a ≤ l ∧ g.IsLabel l

/-- The labels of a context. -/
def Context.labels (ctx : Context) : List FlowRef :=
  ctx.returnTarget.toList ++ ctx.breakTarget.toList ++ ctx.continueTarget.toList ++ ctx.exceptTargets ++
    ctx.finallyTargets

theorem Context.mem_labels_loop {before after l : FlowRef}
    (h : l ∈ Context.labels { ctx with continueTarget := some before, breakTarget := some after }) :
    l = before ∨ l = after ∨ l ∈ ctx.labels := by
  simp only [Context.labels, Option.toList_some, List.mem_append, List.mem_singleton] at h ⊢
  tauto

theorem Context.mem_labels_catching {targets : List FlowRef}
    (h : l ∈ Context.labels { ctx with exceptTargets := targets }) : l ∈ targets ∨ l ∈ ctx.labels := by
  simp only [Context.labels, List.mem_append] at h ⊢
  tauto

theorem Context.mem_labels_final {abrupt l : FlowRef}
    (h : l ∈ Context.labels { ctx with finallyTargets := ctx.finallyTargets ++ [abrupt] }) : l = abrupt ∨ l ∈ ctx.labels := by
  simp only [Context.labels, List.mem_append, List.mem_singleton] at h ⊢
  tauto

/-- Whether the labels of a context belong to the scope that begins at `a`. -/
def Context.Within (ctx : Context) (a : Nat) (g : FlowGraph) : Prop := ∀ l ∈ ctx.labels, Joint a g l

/-- The context in which a scope is entered has no labels. -/
theorem Context.Within.bare (scope owner : Nat) {g : FlowGraph} : Context.Within { scope := scope, owner := owner } a g := by
  simp [Context.Within, Context.labels]

/-- A join of the scope is one of its labels. -/
@[grind →]
theorem Joint.ofBranch {g : FlowGraph} (ha : a ≤ l) (hb : g.IsBranch l) : Joint a g l := ⟨ha, hb.isLabel⟩

@[grind →]
theorem Joint.grow {g g' : FlowGraph} (h : Joint a g l) (hg : g.Grows g') : Joint a g' l :=
  ⟨h.1, h.2.grow hg⟩

@[grind →]
theorem Context.Within.grow {g g' : FlowGraph} (h : ctx.Within a g) (hg : g.Grows g') :
    ctx.Within a g' :=
  fun l hl => (h l hl).grow hg

/-! ## Steps that evaluate -/

/-- A step that evaluates in a context. -/
def Evaluates (lax : Bool) (a : Nat) (A : Nat → Prop) (ctx : Context) (f : BindM ω α) : Prop :=
  ∀ ⦃s x s'⦄, Sound lax a s → ctx.Within a s.graph → f.run s = .ok x s' → Evaluated lax a A s s'

namespace Evaluates

variable {ctx : Context}

theorem ofQuiet (hf : IsQuiet f) : Evaluates lax a A ctx f := fun _ _ _ h _ hr => .ofQuiet h (hf hr)

theorem pure (x : α) : Evaluates lax a A ctx (Pure.pure x : BindM ω α) := ofQuiet (.pure x)

theorem bind {g : α → BindM ω β} (hf : Evaluates lax a A ctx f)
    (hg : ∀ x, Evaluates lax a A ctx (g x)) : Evaluates lax a A ctx (f >>= g) := by
  intro s y s' hs hc h
  obtain ⟨x, t, h1, h2⟩ := bind_ok.1 h
  have e1 := hf hs hc h1
  exact e1.trans (hg x e1.sound (hc.grow e1.grows) h2)

theorem discard (hf : Evaluates lax a A ctx f) :
    Evaluates lax a A ctx (Functor.discard f : BindM ω Unit) := by
  intro s y s' hs hc h
  obtain ⟨x, h1⟩ := discard_ok.1 h
  exact hf hs hc h1

theorem ite {c : Prop} [Decidable c] {f g : BindM ω α} (hf : Evaluates lax a A ctx f) (hg : Evaluates lax a A ctx g) :
    Evaluates lax a A ctx (if c then f else g) := by
  split
  · exact hf
  · exact hg

end Evaluates

/-! ## Steps that stamp the node they belong to -/

/-- A step of the code of a node: it evaluates, and it may stamp the node itself, but from live code only as live. -/
def EvaluatesAt (lax : Bool) (a : Nat) (A : Nat → Prop) (ctx : Context) (node : Nat) (f : BindM ω α) : Prop :=
  ∀ ⦃s x s'⦄, Sound lax a s → ctx.Within a s.graph → f.run s = .ok x s' →
    Evaluated lax a (fun i => A i ∨ i = node) s s' ∧ (¬A node → s.current ≠ 0 → s.MarksLive node → s'.MarksLive node)

namespace EvaluatesAt

variable {ctx : Context} {node : Nat}

theorem ofEvaluates (hf : Evaluates lax a A ctx f) : EvaluatesAt lax a A ctx node f := by
  intro s x s' hs hw h
  have e := hf hs hw h
  refine ⟨e.mono fun _ => .inl, fun hA _ hlive => ?_⟩
  rw [State.MarksLive, e.flow_eq hA]
  exact hlive

theorem bind {g : α → BindM ω β} (hf : EvaluatesAt lax a A ctx node f)
    (hg : ∀ x, EvaluatesAt lax a A ctx node (g x)) : EvaluatesAt lax a A ctx node (f >>= g) := by
  intro s y s' hs hw h
  obtain ⟨x, t, h1, h2⟩ := bind_ok.1 h
  obtain ⟨e1, hlive1⟩ := hf hs hw h1
  obtain ⟨e2, hlive2⟩ := hg x e1.sound (hw.grow e1.grows) h2
  exact ⟨e1.trans e2, fun hA h0 hlive => hlive2 hA (e1.awake h0) (hlive1 hA h0 hlive)⟩

/-- A step of a node that belongs to the set evaluates. -/
theorem evaluates (hf : EvaluatesAt lax a A ctx node f) (hA : A node) : Evaluates lax a A ctx f := by
  intro s x s' hs hw h
  refine (hf hs hw h).1.mono fun i hi => ?_
  rcases hi with hi | rfl
  · exact hi
  · exact hA

end EvaluatesAt

end Bind

end ScopeFlow
