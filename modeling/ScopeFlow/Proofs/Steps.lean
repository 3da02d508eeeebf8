import ScopeFlow.Proofs.Building

/-!
# The steps that extend the flow graph

For each step by which binding extends the graph: it keeps the state sound, and it says which label it makes live. A label
is live once live code leads to it, and going on behind a live label is live code.
-/

namespace ScopeFlow.Bind

open FlowGraph

variable {ω : Type} {lax : Bool} {a : Nat} {A : Nat → Prop} {s s' : State ω} {ref : FlowRef} {l : FlowRef} {x : Unit}
  {node : Nat} {step : FlowRef → FlowStep}

/-! ## New nodes -/

/-- A new node keeps the state sound if it leads back to places of the scope. -/
theorem newNode_evaluated (hs : Sound lax a s) {step : FlowStep} (hdead : step.isUnreachable = false)
    (hlabel : step.isLabel = true → step.antecedents = [])
    (hback : ∀ x ∈ step.antecedents, x = 0 ∨ a ≤ x ∧ x < s.graph.size) (hstart : step.isStart = true → s.graph.size = a)
    (h : (newNode step : BindM ω FlowRef).run s = .ok ref s') :
    Evaluated lax a A s s' ∧ a ≤ ref ∧ s'.current = s.current ∧ ∃ id, s'.graph[ref]? = some ⟨id, step⟩ := by
  obtain ⟨rfl, rfl⟩ := newNode_ok.1 h
  have hgrow := Grows.push s.graph ⟨s.store.nextFlowId, step⟩
  have hsound : Sound lax a { s with
      graph := s.graph.push ⟨s.store.nextFlowId, step⟩
      store := { s.store with nextFlowId := s.store.nextFlowId + 1 }
      past := s.past.map (s.store :: ·) } := by
    refine ⟨hs.formed.push hs.fresh hdead hlabel hback hstart, fun i n hn => ?_, hs.current.grow hgrow⟩
    rw [Array.getElem?_push] at hn
    split at hn
    · obtain rfl := Option.some.inj hn
      exact Int.lt_succ _
    · exact (hs.fresh i n hn).trans (Int.lt_succ _)
  refine ⟨⟨⟨⟨hsound, hgrow, fun i hi => ?_, fun _ _ => .inl rfl, rfl, [], by simp, by simp⟩, rfl, rfl⟩, id⟩,
    hs.formed.within, rfl, s.store.nextFlowId, by simp⟩
  have hlt : i < s.graph.size := hi.trans_le hs.formed.within
  show (s.graph.push _)[i]? = s.graph[i]?
  rw [Array.getElem?_push_lt hlt]
  simp [hlt]

theorem newBranch_evaluated (hs : Sound lax a s) (h : (newBranch : BindM ω FlowRef).run s = .ok l s') :
    Evaluated lax a A s s' ∧ a ≤ l ∧ s'.current = s.current ∧ s'.graph.IsBranch l := by
  obtain ⟨he, ha, hc, id, hn⟩ := newNode_evaluated hs rfl (fun _ => rfl) (by simp [FlowStep.antecedents])
    (by simp [FlowStep.isStart]) h
  exact ⟨he, ha, hc, id, [], hn⟩

theorem newLoop_evaluated (hs : Sound lax a s) (h : (newLoop : BindM ω FlowRef).run s = .ok l s') :
    Evaluated lax a A s s' ∧ s'.current = s.current ∧ Joint a s'.graph l := by
  obtain ⟨he, ha, hc, id, hn⟩ := newNode_evaluated hs rfl (fun _ => rfl) (by simp [FlowStep.antecedents])
    (by simp [FlowStep.isStart]) h
  exact ⟨he, hc, ha, _, hn, rfl⟩

/-- Several new joins. -/
theorem newBranches_evaluated (n : Nat) : ∀ {s s' : State ω} (_ : Sound lax a s) {ls : List FlowRef}
    (_ : (newBranches n : BindM ω (List FlowRef)).run s = .ok ls s'),
    Evaluated lax a A s s' ∧ s'.current = s.current ∧ ls.length = n ∧ ∀ l ∈ ls, a ≤ l ∧ s'.graph.IsBranch l := by
  induction n with
  | zero =>
    intro s s' hs ls h
    obtain ⟨rfl, rfl⟩ := pure_ok.1 h
    exact ⟨.refl hs, rfl, rfl, by simp⟩
  | succ n ih =>
    intro s s' hs ls h
    simp only [newBranches, bind_ok, pure_ok] at h
    obtain ⟨l, t, h1, ls', t', h2, rfl, rfl⟩ := h
    obtain ⟨e1, ha, hc, hb⟩ := newBranch_evaluated (A := A) hs h1
    obtain ⟨e2, hc', hlen, hls⟩ := ih e1.sound h2
    refine ⟨e1.trans e2, hc'.trans hc, by simp [hlen], fun l' hl' => ?_⟩
    rcases List.mem_cons.1 hl' with rfl | hl'
    · exact ⟨ha, hb.grow e2.grows⟩
    · exact hls l' hl'

/-! ## The current node -/

section

variable (hs : Sound lax a s)
include hs

/-- Going on from a known place keeps the state sound. -/
theorem setCurrent_walked (hr : s.graph.Known lax a ref)
    (h : (setCurrent ref : BindM ω Unit).run s = .ok x s') : Walked lax a A s s' ∧ s'.current = ref := by
  obtain rfl := setCurrent_ok.1 h
  exact ⟨⟨⟨⟨hs.formed, hs.fresh, hr⟩, Grows.refl _, fun _ _ => rfl, fun _ _ => .inl rfl, rfl, [], by simp, by simp⟩, rfl,
    rfl⟩, rfl⟩

theorem setDead_walked (h : (setDead : BindM ω Unit).run s = .ok x s') :
    Walked lax a A s s' :=
  (setCurrent_walked hs (.inl rfl) h).1

/-- Going on behind a join is live code if the join is live. -/
theorem finish_walked (ha : a ≤ l) (hl : s.graph.IsBranch l)
    (h : (finish l : BindM ω Unit).run s = .ok x s') :
    Walked lax a A s s' ∧ (s.graph.Live l → s'.current ≠ 0) := by
  obtain rfl := finish_ok.1 h
  have hk := hs.formed.finish_known hl ha
  exact ⟨⟨⟨⟨hs.formed, hs.fresh, hk⟩, Grows.refl _, fun _ _ => rfl, fun _ _ => .inl rfl, rfl, [], by simp, by simp⟩, rfl,
    rfl⟩, hs.formed.finish_ne_zero hl ha⟩

/-! ## Edges -/

/-- An edge from a known place keeps the state sound; from live code and a live place it makes its label live. -/
theorem link_evaluated {l ref : FlowRef} (hl : Joint a s.graph l) (hr : s.graph.Known lax a ref)
    (h : (link l ref : BindM ω Unit).run s = .ok x s') :
    Evaluated lax a A s s' ∧ s'.current = s.current ∧ (s.current ≠ 0 → ref ≠ 0 → s'.graph.Live l) := by
  rw [link_ok] at h
  split at h
  · rename_i hd
    subst h
    exact ⟨.refl hs, rfl, fun h0 => absurd (hs.isDead_iff.1 hd) h0⟩
  · subst h
    have hgrow := Grows.addAntecedent s.graph l ref
    have hsound : Sound lax a { s with graph := s.graph.addAntecedent l ref } := by
      refine ⟨hs.formed.addAntecedent hl.1 hr, fun i n hn => ?_, hs.current.grow hgrow⟩
      obtain ⟨m, hm⟩ : ∃ m, s.graph[i]? = some m := exists_node (by
        have := (Array.getElem?_eq_some_iff.1 hn).1
        simpa using this)
      obtain ⟨more, hm'⟩ := hgrow i m hm
      obtain rfl := Option.some.inj (hn.symm.trans hm')
      exact hs.fresh i m hm
    refine ⟨⟨⟨⟨hsound, hgrow, fun i hi => ?_, fun _ _ => .inl rfl, rfl, [], by simp, by simp⟩, rfl, rfl⟩, id⟩, rfl,
      fun _ h0 => hs.formed.live_addAntecedent hl.2 hl.1 hr h0⟩
    show (s.graph.addAntecedent l ref)[i]? = s.graph[i]?
    rw [addAntecedent_getElem?, if_neg]
    rintro ⟨rfl, _⟩
    exact absurd hl.1 (by omega)

theorem linkCurrent_evaluated (hl : Joint a s.graph l)
    (h : (linkCurrent l : BindM ω Unit).run s = .ok x s') :
    Evaluated lax a A s s' ∧ s'.current = s.current ∧ (s.current ≠ 0 → s'.graph.Live l) := by
  obtain ⟨he, hc, hlive⟩ := link_evaluated (A := A) hs hl hs.current (linkCurrent_ok.1 h)
  exact ⟨he, hc, fun h0 => hlive h0 h0⟩

end

/-- Edges from the current node to several labels. -/
theorem linkCurrentAll_evaluated (ls : List FlowRef) : ∀ {s s' : State ω} (_ : Sound lax a s)
    (_ : ∀ l ∈ ls, Joint a s.graph l) {x : Unit} (_ : (linkCurrentAll ls : BindM ω Unit).run s = .ok x s'),
    Evaluated lax a A s s' ∧ s'.current = s.current ∧ (s.current ≠ 0 → ∀ l ∈ ls, s'.graph.Live l) := by
  induction ls with
  | nil =>
    intro s s' hs _ x h
    obtain ⟨_, rfl⟩ := pure_ok.1 h
    exact ⟨.refl hs, rfl, by simp⟩
  | cons l ls ih =>
    intro s s' hs hls x h
    simp only [linkCurrentAll, bind_ok] at h
    obtain ⟨_, t, h1, h2⟩ := h
    obtain ⟨e1, hc, hlive⟩ := linkCurrent_evaluated (A := A) hs (hls l (by simp)) h1
    obtain ⟨e2, hc', hlive'⟩ := ih e1.sound (fun l' hl' => (hls l' (by simp [hl'])).grow e1.grows) h2
    refine ⟨e1.trans e2, hc'.trans hc, fun h0 l' hl' => ?_⟩
    rcases List.mem_cons.1 hl' with rfl | hl'
    · exact (hlive h0).grow e2.grows
    · exact hlive' (hc ▸ h0) l' hl'

/-- Edges from a known place to the handlers in reach. -/
theorem linkRaise_evaluated {ctx : Context} (hs : Sound lax a s) (hw : ctx.Within a s.graph)
    (hr : s.graph.Known lax a ref) (h : (linkRaise ctx ref : BindM ω Unit).run s = .ok x s') :
    Evaluated lax a A s s' ∧ s'.current = s.current := by
  have hls : ∀ l ∈ ctx.exceptTargets, Joint a s.graph l := fun l hl => hw l (by simp [Context.labels, hl])
  unfold linkRaise at h
  generalize ctx.exceptTargets = ls at h hls
  induction ls generalizing s with
  | nil =>
    obtain rfl := forM_nil_ok.1 h
    exact ⟨.refl hs, rfl⟩
  | cons l ls ih =>
    obtain ⟨t, h1, h2⟩ := forM_cons_ok.1 h
    obtain ⟨e1, hc, _⟩ := link_evaluated (A := A) hs (hls l (by simp)) hr h1
    obtain ⟨e2, hc'⟩ := ih e1.sound (hw.grow e1.grows) (hr.grow e1.grows) h2
      (fun l' hl' => (hls l' (by simp [hl'])).grow e1.grows)
    exact ⟨e1.trans e2, hc'.trans hc⟩

/-! ## Stamps -/

/-- A change of what is known of a node that stamps it with a known place, and otherwise keeps its stamps. -/
theorem modifyFacts_evaluated (hs : Sound lax a s) {f : NodeFacts → NodeFacts} (hA : A node)
    (hf : ∀ x m, (f x).stamp? m = x.stamp? m ∨ ∃ r, (f x).stamp? m = some r ∧ s.graph.Known lax a r)
    (h : (modifyFacts node f : BindM ω Unit).run s = .ok x s') : Evaluated lax a A s s' ∧ s'.current = s.current := by
  rw [modifyFacts_ok] at h
  subst h
  refine ⟨⟨⟨⟨⟨hs.formed, hs.fresh, hs.current⟩, Grows.refl _, fun _ _ => rfl, fun m i => ?_, by simp, [], by simp, by simp⟩,
    rfl, rfl⟩, id⟩, rfl⟩
  rw [State.factsAt_modify]
  split
  · rename_i hi
    obtain ⟨rfl, _⟩ := hi
    exact (hf _ m).imp_right fun hr => ⟨hA, hr⟩
  · exact .inl rfl

theorem stampWith_evaluated (hs : Sound lax a s) (hA : A node)
    (hr : s.graph.Known lax a ref) (h : (stampWith node ref : BindM ω Unit).run s = .ok x s') :
    Evaluated lax a A s s' ∧ s'.current = s.current := by
  refine modifyFacts_evaluated hs hA (fun x m => ?_) h
  cases m
  · exact .inr ⟨ref, rfl, hr⟩
  · exact .inl rfl
  · exact .inl rfl

theorem stampAfterWith_evaluated (hs : Sound lax a s) (hA : A node)
    (hr : s.graph.Known lax a ref) (h : (stampAfterWith node ref : BindM ω Unit).run s = .ok x s') :
    Evaluated lax a A s s' ∧ s'.current = s.current := by
  refine modifyFacts_evaluated hs hA (fun x m => ?_) h
  cases m
  · exact .inl rfl
  · exact .inr ⟨ref, rfl, hr⟩
  · exact .inl rfl

variable {ctx : Context}

theorem stamp_evaluates (hA : A node) : Evaluates lax a A ctx (stamp node : BindM ω Unit) :=
  fun _ _ _ hs _ h => (stampWith_evaluated hs hA hs.current (stamp_ok.1 h)).1

theorem stampAfter_evaluates (hA : A node) : Evaluates lax a A ctx (stampAfter node : BindM ω Unit) := by
  intro s x s' hs _ h
  simp only [stampAfter, bind_ok, current_ok] at h
  obtain ⟨_, _, ⟨rfl, rfl⟩, h⟩ := h
  exact (stampAfterWith_evaluated hs hA hs.current h).1

theorem setScope_evaluates {node scope : Nat} : Evaluates lax a A ctx (setScope node scope : BindM ω Unit) := by
  intro s x s' hs _ h
  rw [setScope, modifyFacts_ok] at h
  subst h
  refine ⟨⟨⟨⟨hs.formed, hs.fresh, hs.current⟩, Grows.refl _, fun _ _ => rfl, fun m i => .inl ?_, by simp, [], by simp,
    by simp⟩, rfl, rfl⟩, id⟩
  rw [State.factsAt_modify]
  split
  · cases m <;> rfl
  · rfl

/-! ## Steps behind the current node -/

/-- A kind of node that has one antecedent, which control comes from. -/
def Follows (step : FlowRef → FlowStep) : Prop :=
  ∀ ant, (step ant).antecedents = [ant] ∧ (step ant).sources = [ant] ∧ (step ant).isLabel = false

theorem Follows.notStart (h : Follows step) (ant : FlowRef) :
    (step ant).isStart = false ∧ (step ant).isUnreachable = false := by
  have := (h ant).1
  cases hs : step ant <;> simp_all [FlowStep.antecedents, FlowStep.isStart, FlowStep.isUnreachable]

/-- A node behind a live known place is a known place. -/
theorem newNode_follows (hs : Sound lax a s) (hf : Follows step) {ant ref : FlowRef}
    (hk : s.graph.Known lax a ant) (h0 : ant ≠ 0) (h : (newNode (step ant) : BindM ω FlowRef).run s = .ok ref s') :
    Evaluated lax a A s s' ∧ s'.current = s.current ∧ s'.graph.Known lax a ref ∧ ref ≠ 0 := by
  obtain ⟨ha, hroot⟩ := hk.resolve_left h0
  obtain ⟨hants, hsources, hlabel⟩ := hf ant
  obtain ⟨hstart, hdead⟩ := hf.notStart ant
  obtain ⟨he, hle, hc, id, hn⟩ := newNode_evaluated (A := A) hs hdead (by simp [hlabel])
    (by simpa [hants] using .inr ⟨ha, hroot.lt_size⟩) (by simp [hstart]) h
  refine ⟨he, hc, .inr ⟨hle, .step hn ?_ (hroot.grow he.grows)⟩, ?_⟩
  · show ant ∈ (step ant).sources
    simp [hsources]
  · exact Nat.pos_iff_ne_zero.1 (Nat.lt_of_lt_of_le hs.formed.base hle)

/-- A step that is only taken in live code. -/
theorem Evaluates.unlessDead {f : BindM ω Unit} (hf : ∀ s x s', Sound lax a s → ctx.Within a s.graph → s.current ≠ 0 →
    f.run s = .ok x s' → Evaluated lax a A s s') : Evaluates lax a A ctx (do unless ← isDead do f : BindM ω Unit) := by
  intro s x s' hs hw h
  obtain ⟨_, _, hd, h⟩ := bind_ok.1 h
  obtain ⟨rfl, rfl⟩ := isDead_ok.1 hd
  split at h
  · obtain ⟨_, rfl⟩ := pure_ok.1 h
    exact .refl hs
  · rename_i hd
    exact hf _ _ _ hs hw (fun h0 => hd (hs.isDead_iff.2 h0)) h

theorem advance_evaluates (hf : Follows step) :
    Evaluates lax a A ctx (advance step : BindM ω Unit) := by
  refine .unlessDead fun s x s' hs _ h0 h => ?_
  simp only [bind_ok, current_ok] at h
  obtain ⟨_, _, ⟨rfl, rfl⟩, ref, t, h1, h2⟩ := h
  obtain ⟨e1, _, hk, hpos⟩ := newNode_follows (A := A) hs hf hs.current h0 h1
  obtain ⟨w2, hc⟩ := setCurrent_walked (A := A) e1.sound hk h2
  exact ⟨e1.toWalked.trans w2, fun _ => hc ▸ hpos⟩

theorem call_evaluates {function : Expr} (hA : A node) :
    Evaluates lax a A ctx (call ctx node function : BindM ω Unit) := by
  refine .bind (advance_evaluates fun _ => ⟨rfl, rfl, rfl⟩) fun _ => .bind (stamp_evaluates hA) fun _ => ?_
  refine .bind (.ofQuiet .isDead) fun dead => .ite (.pure _) ?_
  intro s x s' hs hw h
  simp only [bind_ok, current_ok] at h
  obtain ⟨_, _, ⟨rfl, rfl⟩, h⟩ := h
  exact (linkRaise_evaluated hs hw hs.current h).1

theorem takeOver_evaluates {target source : Int} : Evaluates lax a A ctx (takeOver target source : BindM ω Unit) :=
  advance_evaluates fun _ => ⟨rfl, rfl, rfl⟩

theorem annotate_evaluates : Evaluates lax a A ctx (annotate : BindM ω Unit) :=
  advance_evaluates fun _ => ⟨rfl, rfl, rfl⟩

/-- A node that is stamped in live code is marked as live. -/
theorem stamp_evaluatesAt : EvaluatesAt lax a A ctx node (stamp node : BindM ω Unit) := by
  intro s x s' hs hw h
  refine ⟨stamp_evaluates (.inr rfl) hs hw h, fun _ h0 ⟨r, hr, _⟩ => ⟨s.current, ?_, h0⟩⟩
  have hlt : node < s.facts.size := by
    by_contra hge
    simp [State.factsAt, Array.getElem?_eq_none (Nat.not_lt.1 hge)] at hr
  obtain rfl := modifyFacts_ok.1 (stamp_ok.1 h)
  rw [State.factsAt_modify, if_pos ⟨rfl, hlt⟩]

/-- The step of a wildcard import behind the current place. -/
def importStep (ctx : Context) (node : Nat) (names : List String) : BindM ω Unit := do
  unless ← isDead do
    let ref ← newNode (.wildcard (some node) names (← current))
    linkRaise ctx ref
    setCurrent ref

theorem importAll_eq {ctx : Context} {names : List String} : (importAll ctx node names : BindM ω Unit) =
    importStep ctx node names >>= fun _ => stamp node := by
  simp only [importAll, importStep, bind_assoc]
  refine congrArg _ (funext fun dead => ?_)
  split <;> simp only [pure_bind, bind_assoc]

theorem importAll_evaluatesAt {names : List String} :
    EvaluatesAt lax a A ctx node (importAll ctx node names : BindM ω Unit) := by
  have hadvance : Evaluates lax a A ctx (importStep ctx node names : BindM ω Unit) := by
    refine .unlessDead fun s x s' hs hw h0 h => ?_
    simp only [bind_ok, current_ok] at h
    obtain ⟨_, _, ⟨rfl, rfl⟩, ref, t, h1, _, t', h2, h3⟩ := h
    have hf : Follows (fun ant => .wildcard (some node) names ant) := fun _ => ⟨rfl, rfl, rfl⟩
    obtain ⟨e1, _, hk, hpos⟩ := newNode_follows (A := A) hs hf hs.current h0 h1
    obtain ⟨e2, _⟩ := linkRaise_evaluated (A := A) e1.sound (hw.grow e1.grows) hk h2
    obtain ⟨w3, hc⟩ := setCurrent_walked (A := A) e2.sound (hk.grow e2.grows) h3
    exact ⟨(e1.trans e2).toWalked.trans w3, fun _ => hc ▸ hpos⟩
  rw [importAll_eq]
  exact .bind (.ofEvaluates hadvance) fun _ => stamp_evaluatesAt

end ScopeFlow.Bind
