import ScopeFlow.Proofs.FlowGraphs

/-!
# Ways back from a label

`Way` are the backward paths to a place, with the marks of the nodes that they pass. They start from the antecedents of a
label, which come from the steps that lead to it (`link_mem_antecedentsAt`); under a condition the step is a condition of the
flow graph, unless the environment rules it out or it narrows nothing (`conditional_cases`).
-/

namespace ScopeFlow

namespace FlowGraph

variable {μ : Type} {mark : FlowStep → Option μ} {g g' : FlowGraph} {c l x : FlowRef} {w : List μ}

/-- The backward paths to a place that meet it only at their end and avoid the sentinel, with the marks of the nodes that they
pass: those passed last come first, as they do when code runs. -/
inductive Way (g : FlowGraph) (mark : FlowStep → Option μ) (c : FlowRef) : FlowRef → List μ → Prop where
  | here : Way g mark c c []
  | back {r x : FlowRef} {n : FlowNode} {w : List μ} : r ≠ c → r ≠ 0 → g[r]? = some n → x ∈ n.step.antecedents →
      Way g mark c x w → Way g mark c r (w ++ (mark n.step).toList)

theorem Way.not_zero (hc : c ≠ 0) : ¬ Way g mark c 0 w := by
  intro h
  cases h with
  | here => exact hc rfl
  | back _ h0 => exact h0 rfl

/-- The ways from what a join stands for in the end are those from its antecedents. -/
theorem way_finish {id : Int} {ants : List FlowRef} (hn : g[l]? = some ⟨id, .branch ants⟩)
    (hmark : mark (.branch ants) = none) (hc : c ≠ 0) (hl : l ≠ c) (h0 : l ≠ 0) :
    Way g mark c (g.finish l) w ↔ ∃ x ∈ ants, Way g mark c x w := by
  have hlabel : Way g mark c l w ↔ ∃ x ∈ ants, Way g mark c x w := by
    constructor
    · intro h
      cases h with
      | here => exact absurd rfl hl
      | back _ _ hn' hx h =>
        obtain rfl := Option.some.inj (hn.symm.trans hn')
        exact ⟨_, hx, by simpa [hmark] using h⟩
    · rintro ⟨x, hx, h⟩
      simpa [hmark] using Way.back hl h0 hn hx h
  rw [finish_of_branch hn]
  rcases ants with _ | ⟨x, _ | ⟨y, rest⟩⟩
  · simpa using Way.not_zero hc
  · simp
  · exact hlabel

/-- The antecedents of what stands at a place. -/
def antecedentsAt (g : FlowGraph) (l : FlowRef) : List FlowRef := (g.nodeAt l).step.antecedents

theorem antecedentsAt_eq {n : FlowNode} (hn : g[l]? = some n) : g.antecedentsAt l = n.step.antecedents := by
  rw [antecedentsAt, nodeAt_eq hn]

theorem mem_antecedentsAt : x ∈ g.antecedentsAt l ↔ ∃ n, g[l]? = some n ∧ x ∈ n.step.antecedents := by
  cases hn : g[l]? with
  | none => simp [antecedentsAt, nodeAt, hn, FlowGraph.sentinel, FlowStep.antecedents]
  | some n => simp [antecedentsAt_eq hn]

theorem Grows.mem_antecedentsAt (hg : g.Grows g') (hx : x ∈ g.antecedentsAt l) : x ∈ g'.antecedentsAt l := by
  obtain ⟨n, hn, hx⟩ := FlowGraph.mem_antecedentsAt.1 hx
  obtain ⟨more, hm⟩ := hg l n hn
  refine FlowGraph.mem_antecedentsAt.2 ⟨_, hm, ?_⟩
  rw [FlowStep.antecedents_extend]
  exact List.mem_append_left _ hx

end FlowGraph

namespace Bind

open FlowGraph

variable {ω : Type} {lax : Bool} {a : Nat} {u : Setup ω} {ctx : Context} {s s' : State ω} {l ref : FlowRef}

theorem link_mem_antecedentsAt (hs : Sound lax a s) (h0 : s.current ≠ 0) (hl : Joint a s.graph l)
    (hr : ref < s.graph.size) {y : Unit} (h : (link l ref : BindM ω Unit).run s = .ok y s') : ref ∈ s'.graph.antecedentsAt l := by
  rw [link_ok, if_neg fun hd => h0 (hs.isDead_iff.1 hd)] at h
  subst h
  obtain ⟨ha, n, hn, hlabel⟩ := hl
  cases hhas : s.graph.hasAntecedent l ref with
  | true =>
    obtain ⟨m, hm⟩ := exists_node hr
    have hin : ∀ x ∈ n.step.antecedents, x < s.graph.size := by
      intro x hx
      rcases hs.formed.confined l n ha hn x hx with rfl | hx
      · exact Nat.lt_of_lt_of_le hs.formed.base hs.formed.within
      · exact hx.2
    exact (Grows.addAntecedent s.graph l ref).mem_antecedentsAt
      (mem_antecedentsAt.2 ⟨n, hn, hs.formed.toNumbered.mem_of_hasAntecedent hn hm hin hhas⟩)
  | false =>
    refine mem_antecedentsAt.2 ⟨⟨n.id, n.step.extend [ref]⟩, ?_, ?_⟩
    · show (s.graph.addAntecedent l ref)[l]? = _
      rw [addAntecedent_getElem?, if_pos ⟨rfl, hhas⟩, hn]
      rfl
    · simp [FlowStep.antecedents_extend, hlabel]

theorem linkRaise_grows {y : Unit} (h : (linkRaise ctx ref : BindM ω Unit).run s = .ok y s') : s.graph.Grows s'.graph := by
  unfold linkRaise at h
  generalize ctx.exceptTargets = ls at h
  induction ls generalizing s with
  | nil =>
    obtain rfl := forM_nil_ok.1 h
    exact .refl _
  | cons l ls ih =>
    obtain ⟨t, h1, h2⟩ := forM_cons_ok.1 h
    refine Grows.trans ?_ (ih h2)
    rw [link_ok] at h1
    split at h1
    · subst h1
      exact .refl _
    · subst h1
      exact .addAntecedent _ _ _

/-- The way on under a condition, from live code: none if the environment rules the condition out, the place itself if it narrows
nothing, and a new condition otherwise. -/
theorem conditional_cases (hs : Sound lax a s) {kind : ConditionKind} {ant : FlowRef} {e : Expr} (hk : s.graph.Known lax a ant)
    (h0 : ant ≠ 0) (h : (conditional u ctx kind ant e).run s = .ok ref s') :
    ∃ v, (s.static u).evaluateLoosely e = .ok v ∧
      (Excludes v kind ∧ ref = 0 ∨
        ¬ Excludes v kind ∧
          (u.policy.Narrows e = false ∧ ref = ant ∨ u.policy.Narrows e = true ∧ ref = s.graph.size ∧
            ∃ id reference, s'.graph[ref]? = some ⟨id, .condition kind (some e) reference ant⟩)) := by
  rcases conditional_ok h with ⟨hd, _⟩ | ⟨_, v, hv, ⟨hruled, rfl, rfl⟩ | ⟨hruled, n, hclass, hrest⟩⟩
  · exact absurd ((hs.formed.isUnreachable_iff hk).1 hd) h0
  · exact ⟨v, hv, .inl ⟨hruled, rfl⟩⟩
  · have hnarrows : u.policy.Narrows e = n.isNarrowing := by simp [NarrowingPolicy.Narrows, hclass]
    refine ⟨v, hv, .inr ⟨hruled, ?_⟩⟩
    rcases hrest with ⟨hn, rfl, rfl⟩ | ⟨hn, t1, t2, h1, h2, h3⟩
    · exact .inl ⟨hnarrows.trans hn, rfl⟩
    · obtain ⟨rfl, rfl⟩ := newNode_ok.1 h2
      refine .inr ⟨hnarrows.trans hn, by rw [(addKeys_quiet _ _ h1).graph], ?_⟩
      obtain ⟨more, hm⟩ := linkRaise_grows h3 t1.graph.size _ Array.getElem?_push_size
      exact ⟨_, _, hm⟩

/-! ## New labels -/

/-- A new label for an outcome of a test: nothing leads to it yet, and it is not one of a handler. -/
structure Context.Spares (ctx : Context) (a : Nat) (g : FlowGraph) (l : FlowRef) : Prop where
  base : a ≤ l
  node : ∃ id, g[l]? = some ⟨id, .branch []⟩
  free : l ∉ ctx.exceptTargets

theorem Context.Spares.joint {g : FlowGraph} (h : ctx.Spares a g l) : Joint a g l := by
  obtain ⟨id, hn⟩ := h.node
  exact ⟨h.base, _, hn, rfl⟩

/-- The state in which the first execution scope begins, with two new labels. -/
def State.forked (u : Setup ω) (store : Store) (world : ω) : State ω :=
  { State.opened u store world with
    graph := ((State.opened u store world).graph.push ⟨store.nextFlowId + 1, .branch []⟩).push ⟨store.nextFlowId + 1 + 1,
      .branch []⟩
    store := { store with nextFlowId := store.nextFlowId + 1 + 1 + 1 }
    past := ((State.opened u store world).past.map ((State.opened u store world).store :: ·)).map
      ({ store with nextFlowId := store.nextFlowId + 1 + 1 } :: ·) }

theorem sound_forked (u : Setup ω) {store : Store} (hid : 0 < store.nextFlowId) (world : ω) :
    Sound true 1 (State.forked u store world) := by
  obtain ⟨e1, _⟩ :=
    newBranch_evaluated (A := fun _ => True) (l := 2) (sound_opened u hid world : Sound true 1 _) (newNode_ok.2 ⟨rfl, rfl⟩)
  obtain ⟨e2, _⟩ := newBranch_evaluated (A := fun _ => True) (l := 3) e1.sound (newNode_ok.2 ⟨rfl, rfl⟩)
  exact e2.sound

/-- The labels of that state are new. -/
theorem spares_forked (u : Setup ω) (store : Store) (world : ω) (scope owner : Nat) :
    Context.Spares { scope := scope, owner := owner } 1 (State.forked u store world).graph 2 ∧
      Context.Spares { scope := scope, owner := owner } 1 (State.forked u store world).graph 3 :=
  ⟨⟨by decide, ⟨_, rfl⟩, by simp⟩, ⟨by decide, ⟨_, rfl⟩, by simp⟩⟩

/-- The setup of a module without statements. -/
def Setup.bare : Setup Unit := .alone { body := [] }

end Bind

end ScopeFlow
