import ScopeFlow.Proofs.Steps

/-!
# Tests in the flow graph

A test that is walked from live code has an outcome, and every outcome that it may have makes its label live (`Tested`). So
what is laid out around a test (an operand, a choice between two values) leaves live code live.
-/

namespace ScopeFlow.Bind

open FlowGraph

variable {ω : Type} {lax : Bool} {a : Nat} {A : Nat → Prop} {u : Setup ω} {ctx : Context} {s s' : State ω}
  {outcomes : StaticContext → Bool → Prop} {test : FlowRef → FlowRef → BindM ω Unit} {e : Expr}

/-- What decides static conditions in a state. -/
def State.static (u : Setup ω) (s : State ω) : StaticContext :=
  ⟨u.file.environment, s.typingNames, s.systemNames⟩

theorem Walked.static (h : Walked lax a A s s') : s'.static u = s.static u := by
  simp only [State.static, h.typing, h.system]

theorem staticValue_ok {v : Option Bool} :
    (staticValue u e).run s = .ok v s' ↔ (s.static u).evaluateLoosely e = .ok v ∧ s = s' := by
  simp only [staticValue, bind_ok, get_ok, ofExcept_ok]
  constructor
  · rintro ⟨_, _, ⟨rfl, rfl⟩, h⟩
    exact h
  · intro h
    exact ⟨s, s, ⟨rfl, rfl⟩, h⟩

/-- Whether a static value rules out that a condition comes out in a way. -/
abbrev Excludes (v : Option Bool) (kind : ConditionKind) : Prop := v = some true ∧ kind = .isFalse ∨ v = some false ∧
    kind = .isTrue

/-- How the way on under a condition is found: there is none in dead code or if the environment rules the condition out, it is the
place itself if the condition narrows nothing, and otherwise a new place that leads to the handlers. -/
theorem conditional_ok {kind : ConditionKind} {ant ref : FlowRef}
    (h : (conditional u ctx kind ant e).run s = .ok ref s') :
    (s.graph.nodeAt ant).step.isUnreachable = true ∧ ant = ref ∧ s = s' ∨
    ¬ (s.graph.nodeAt ant).step.isUnreachable = true ∧ ∃ v, (s.static u).evaluateLoosely e = .ok v ∧
      (Excludes v kind ∧ 0 = ref ∧ s = s' ∨
        ¬ Excludes v kind ∧ ∃ n, NarrowingMode.classify ⟨u.policy, false⟩ e = .ok n ∧
          (n.isNarrowing = false ∧ ant = ref ∧ s = s' ∨ n.isNarrowing = true ∧ ∃ t1 t2,
            (addKeys ctx.owner n.references).run s = .ok () t1 ∧
            (newNode (.condition kind (some e) (n.nameReferences.head?.map Expr.index) ant)).run t1 = .ok ref t2 ∧
            (linkRaise ctx ref : BindM ω Unit).run t2 = .ok () s')) := by
  simp only [conditional, bind_ok, get_ok] at h
  obtain ⟨_, _, ⟨rfl, rfl⟩, h⟩ := h
  split at h
  · exact .inl ⟨‹_›, pure_ok.1 h⟩
  refine .inr ⟨‹_›, ?_⟩
  simp only [bind_ok, staticValue_ok] at h
  obtain ⟨v, _, ⟨hv, rfl⟩, h⟩ := h
  refine ⟨v, hv, ?_⟩
  split at h
  · rename_i hruled
    exact .inl ⟨by simpa using hruled, pure_ok.1 h⟩
  · rename_i hruled
    simp only [bind_ok, ofExcept_ok] at h
    obtain ⟨n, _, ⟨hn, rfl⟩, h⟩ := h
    refine .inr ⟨by simpa using hruled, n, hn, ?_⟩
    split at h
    · rename_i hnarrows
      simp only [bind_ok, pure_ok] at h
      obtain ⟨_, t1, h1, _, t2, h2, _, _, h3, rfl, rfl⟩ := h
      exact .inr ⟨hnarrows, t1, t2, h1, h2, h3⟩
    · rename_i hnarrows
      exact .inl ⟨by simpa using hnarrows, pure_ok.1 h⟩

/-- The way on under a condition is a known place, and it is live if the environment does not rule it out. -/
theorem conditional_evaluated (hs : Sound lax a s) (hw : ctx.Within a s.graph) {kind : ConditionKind} {ant ref : FlowRef}
    (hk : s.graph.Known lax a ant) (h : (conditional u ctx kind ant e).run s = .ok ref s') :
    Evaluated lax a A s s' ∧ s'.current = s.current ∧ s'.graph.Known lax a ref ∧
      (ant ≠ 0 → ∃ v, (s.static u).evaluateLoosely e = .ok v ∧
        (v = some true ∧ kind = .isFalse ∨ v = some false ∧ kind = .isTrue ∨ ref ≠ 0)) := by
  rcases conditional_ok h with ⟨hd, rfl, rfl⟩ | ⟨hd, v, hv,
    ⟨hruled, rfl, rfl⟩ | ⟨_, n, _, ⟨_, rfl, rfl⟩ | ⟨_, t1, t2, h1, h2, h3⟩⟩⟩
  · exact ⟨.refl hs, rfl, hk, fun hne => absurd ((hs.formed.isUnreachable_iff hk).1 hd) hne⟩
  · exact ⟨.refl hs, rfl, .inl rfl, fun _ => ⟨v, hv, hruled.imp_right .inl⟩⟩
  · exact ⟨.refl hs, rfl, hk, fun h0 => ⟨v, hv, .inr (.inr h0)⟩⟩
  · have h0 : ant ≠ 0 := fun h0 => hd ((hs.formed.isUnreachable_iff hk).2 h0)
    have q1 := addKeys_quiet _ _ h1
    have e1 := Evaluated.ofQuiet (A := A) hs q1
    have hf : Follows (.condition kind (some e) (n.nameReferences.head?.map Expr.index)) := fun _ => ⟨rfl, rfl, rfl⟩
    obtain ⟨e2, hc2, hk2, hpos⟩ := newNode_follows (A := A) e1.sound hf (by grind) h0 h2
    obtain ⟨e3, hc3⟩ := linkRaise_evaluated (A := A) e2.sound (by grind) hk2 h3
    exact ⟨by grind, hc3.trans (hc2.trans q1.current), by grind, fun _ => ⟨v, hv, .inr (.inr hpos)⟩⟩

/-! ## Tests -/

/-- What walking a test does: from live code it has an outcome, and each outcome makes its label live. -/
structure Tested (lax : Bool) (a : Nat) (A : Nat → Prop) (outcomes : Bool → Prop) (onTrue onFalse : FlowRef)
    (s s' : State ω) : Prop extends Walked lax a A s s' where
  decided : s.current ≠ 0 → ∃ b, outcomes b
  live : s.current ≠ 0 → ∀ b, outcomes b → s'.graph.Live (if b then onTrue else onFalse)

attribute [grind →] Tested.toWalked

/-- A walk that tests, given the labels to lead to. -/
def Tests (lax : Bool) (a : Nat) (A : Nat → Prop) (u : Setup ω) (ctx : Context) (outcomes : StaticContext → Bool → Prop)
    (f : FlowRef → FlowRef → BindM ω Unit) : Prop :=
  ∀ ⦃s x s' onTrue onFalse⦄, Sound lax a s → ctx.Within a s.graph → Joint a s.graph onTrue → Joint a s.graph onFalse →
    (f onTrue onFalse).run s = .ok x s' → Tested lax a A (outcomes (s.static u)) onTrue onFalse s s'

/-- A leaf that has been evaluated leads to its labels. -/
theorem linkTest_tests (hl : e.isLogical = false) :
    Tests lax a A u ctx (fun c b => c.MayBe e b) fun onTrue onFalse => linkTest u ctx onTrue onFalse e := by
  intro s x s' onTrue onFalse hs hw ht hf h
  simp only [linkTest, bind_ok, current_ok] at h
  obtain ⟨_, _, ⟨rfl, rfl⟩, r1, t1, h1, _, t2, h2, _, _, ⟨rfl, rfl⟩, r2, t3, h3, h4⟩ := h
  obtain ⟨e1, hc1, hk1, hv1⟩ := conditional_evaluated (A := A) hs hw hs.current h1
  obtain ⟨e2, hc2, hlive2⟩ := link_evaluated (A := A) e1.sound (by grind) hk1 h2
  obtain ⟨e3, hc3, hk3, hv3⟩ := conditional_evaluated (A := A) e2.sound (by grind) e2.sound.current h3
  obtain ⟨e4, hc4, hlive4⟩ := link_evaluated (A := A) e3.sound (by grind) hk3 h4
  refine ⟨by grind, fun h0 => ?_, fun h0 b hb => ?_⟩
  · obtain ⟨v, hv, _⟩ := hv1 h0
    cases v with
    | none => exact ⟨true, (StaticContext.mayBe_leaf hl).2 (.inl hv)⟩
    | some b => exact ⟨b, (StaticContext.mayBe_leaf hl).2 (.inr hv)⟩
  · have h0' : t1.current ≠ 0 := hc1 ▸ h0
    have h0'' : t2.current ≠ 0 := hc2 ▸ h0'
    replace hb := (StaticContext.mayBe_leaf hl).1 hb
    cases b with
    | true =>
      obtain ⟨v, hv, hr⟩ := hv1 h0
      have hr1 : r1 ≠ 0 := by
        rcases hr with ⟨_, hkind⟩ | ⟨rfl, _⟩ | hr
        · cases hkind
        · rw [hv] at hb
          simp at hb
        · exact hr
      exact (hlive2 h0' hr1).grow (e3.trans e4).grows
    | false =>
      obtain ⟨v, hv, hr⟩ := hv3 h0''
      rw [(e1.trans e2).static] at hv
      have hr2 : r2 ≠ 0 := by
        rcases hr with ⟨rfl, _⟩ | ⟨_, hkind⟩ | hr
        · rw [hv] at hb
          simp at hb
        · cases hkind
        · exact hr
      exact hlive4 (hc3 ▸ h0'') hr2

/-- Evaluating first and then testing is a test. -/
theorem Tests.after {f : BindM ω Unit} {g : FlowRef → FlowRef → BindM ω Unit}
    (hf : Evaluates lax a A ctx f) (hg : Tests lax a A u ctx outcomes g) :
    Tests lax a A u ctx outcomes fun onTrue onFalse => f >>= fun _ => g onTrue onFalse := by
  intro s x s' onTrue onFalse hs hw ht hff h
  obtain ⟨_, t, h1, h2⟩ := bind_ok.1 h
  have e1 := hf hs hw h1
  have t2 := hg e1.sound (by grind) (by grind) (by grind) h2
  rw [e1.static] at t2
  exact ⟨by grind, fun h0 => t2.decided (e1.awake h0), fun h0 => t2.live (e1.awake h0)⟩

/-- A test whose labels are exchanged has the other outcomes. -/
theorem Tests.not {f : FlowRef → FlowRef → BindM ω Unit}
    (hf : Tests lax a A u ctx outcomes f) :
    Tests lax a A u ctx (fun c b => outcomes c (!b)) fun onTrue onFalse => f onFalse onTrue := by
  intro s x s' onTrue onFalse hs hw ht hff h
  have t1 := hf hs hw hff ht h
  refine ⟨t1.toWalked, fun h0 => ?_, fun h0 b hb => ?_⟩
  · obtain ⟨b, hb⟩ := t1.decided h0
    exact ⟨!b, by simpa using hb⟩
  · have := t1.live h0 _ hb
    cases b <;> simpa using this

/-- An operand that does not decide is followed by the rest. -/
theorem operand_tests {op : BoolOperator} {test rest : FlowRef → FlowRef → BindM ω Unit}
    {first others : StaticContext → Bool → Prop} (ht : Tests lax a A u ctx first test)
    (hr : Tests lax a A u ctx others rest) :
    Tests lax a A u ctx (fun c b => b = op.decider ∧ first c op.decider ∨ first c (!op.decider) ∧ others c b)
      fun onTrue onFalse => operand op onTrue onFalse test >>= fun _ => rest onTrue onFalse := by
  intro s x s' onTrue onFalse hs hw hjt hjf h
  obtain ⟨_, t3, h, h4⟩ := bind_ok.1 h
  obtain ⟨next, t1, h1, h⟩ := bind_ok.1 h
  obtain ⟨e1, ha, hc1, hb⟩ := newBranch_evaluated (A := A) hs h1
  have hnext : Joint a t1.graph next := ⟨ha, hb.isLabel⟩
  -- Whichever the connective, the test leads to `next` unless it decides.
  obtain ⟨t2, t2', h3⟩ : ∃ t2, Tested lax a A (first (t1.static u)) (if op.decider then onTrue else next)
      (if op.decider then next else onFalse) t1 t2 ∧ (finish next : BindM ω Unit).run t2 = .ok () t3 := by
    cases op with
    | and =>
      obtain ⟨_, t2, h2, h3⟩ := bind_ok.1 h
      exact ⟨t2, ht e1.sound (by grind) hnext (by grind) h2, h3⟩
    | or =>
      obtain ⟨_, t2, h2, h3⟩ := bind_ok.1 h
      exact ⟨t2, ht e1.sound (by grind) (by grind) hnext h2, h3⟩
  rw [e1.static] at t2'
  obtain ⟨w3, hlive3⟩ := finish_walked (A := A) t2'.sound ha (by grind) h3
  have w13 : Walked lax a A s t3 := by grind
  have t4 := hr w3.sound (by grind) (by grind) (by grind) h4
  rw [w13.static] at t4
  have hgo : s.current ≠ 0 → first (s.static u) (!op.decider) → t3.current ≠ 0 := by
    intro h0 hn
    apply hlive3
    have := t2'.live (hc1 ▸ h0) _ hn
    cases op <;> simpa [BoolOperator.decider] using this
  refine ⟨by grind, fun h0 => ?_, fun h0 b hb' => ?_⟩
  · obtain ⟨b, hb'⟩ := t2'.decided (hc1 ▸ h0)
    by_cases hd : b = op.decider
    · exact ⟨op.decider, .inl ⟨rfl, hd ▸ hb'⟩⟩
    · have hn : first (s.static u) (!op.decider) := by
        cases b <;> cases op <;> simp_all [BoolOperator.decider]
      obtain ⟨b', hb''⟩ := t4.decided (hgo h0 hn)
      exact ⟨b', .inr ⟨hn, hb''⟩⟩
  · rcases hb' with ⟨rfl, hd⟩ | ⟨hn, hb'⟩
    · have := (t2'.live (hc1 ▸ h0) _ hd).grow (w3.grows.trans t4.grows)
      cases op <;> simpa [BoolOperator.decider] using this
    · exact t4.live (hgo h0 hn) b hb'

/-- Operands whose outcome is not asked for leave live code live. -/
theorem eitherWay_evaluates
    (ht : Tests lax a A u ctx outcomes test) : Evaluates lax a A ctx (eitherWay test) := by
  intro s x s' hs hw h
  simp only [eitherWay, bind_ok] at h
  obtain ⟨after, t1, h1, _, t2, h2, h3⟩ := h
  obtain ⟨e1, ha, hc1, hb⟩ := newBranch_evaluated (A := A) hs h1
  have hj : Joint a t1.graph after := ⟨ha, hb.isLabel⟩
  have t2' := ht e1.sound (by grind) hj hj h2
  obtain ⟨w3, hlive⟩ := finish_walked (A := A) t2'.sound ha (by grind) h3
  refine ⟨by grind, fun h0 => hlive ?_⟩
  obtain ⟨b, hb'⟩ := t2'.decided (hc1 ▸ h0)
  simpa using t2'.live (hc1 ▸ h0) b hb'

/-- A condition of a comprehension: either way leads to the label that the comprehension goes on from. -/
theorem condition_walked
    (ht : Tests lax a A u ctx outcomes test) (hs : Sound lax a s) (hw : ctx.Within a s.graph) {onFalse : FlowRef}
    (hj : Joint a s.graph onFalse) {x : Unit} (h : (condition onFalse test).run s = .ok x s') :
    Walked lax a A s s' ∧ (s.current ≠ 0 → s'.current ≠ 0 ∨ s'.graph.Live onFalse) := by
  simp only [condition, bind_ok] at h
  obtain ⟨onTrue, t1, h1, _, t2, h2, h3⟩ := h
  obtain ⟨e1, ha, hc1, hb⟩ := newBranch_evaluated (A := A) hs h1
  have t2' := ht e1.sound (by grind) (by grind) (by grind) h2
  obtain ⟨w3, hlive⟩ := finish_walked (A := A) t2'.sound ha (by grind) h3
  refine ⟨by grind, fun h0 => ?_⟩
  obtain ⟨b, hb'⟩ := t2'.decided (hc1 ▸ h0)
  have hl := t2'.live (hc1 ▸ h0) b hb'
  cases b with
  | true => exact .inl (hlive hl)
  | false => exact .inr (hl.grow w3.grows)

/-- A choice between two values leaves live code live. -/
theorem choice_evaluates
    {body orElse : BindM ω Unit} (ht : Tests lax a A u ctx outcomes test) (hb : Evaluates lax a A ctx body)
    (ho : Evaluates lax a A ctx orElse) : Evaluates lax a A ctx (choice test body orElse) := by
  intro s x s' hs hw h
  simp only [choice, bind_ok] at h
  obtain ⟨onTrue, t1, h1, onFalse, t2, h2, after, t3, h3, _, t4, h4, _, t5, h5, _, t6, h6, _, t7, h7, _, t8, h8, _, t9, h9,
    _, t10, h10, h11⟩ := h
  obtain ⟨e1, ha1, hc1, hb1⟩ := newBranch_evaluated (A := A) hs h1
  obtain ⟨e2, ha2, hc2, hb2⟩ := newBranch_evaluated (A := A) e1.sound h2
  obtain ⟨e3, ha3, hc3, hb3⟩ := newBranch_evaluated (A := A) e2.sound h3
  have t4' := ht e3.sound (by grind) (by grind) (by grind) h4
  obtain ⟨w5, hlive5⟩ := finish_walked (A := A) t4'.sound ha1 (by grind) h5
  have e6 := hb w5.sound (by grind) h6
  obtain ⟨e7, _, hlive7⟩ := linkCurrent_evaluated (A := A) e6.sound (by grind) h7
  obtain ⟨w8, hlive8⟩ := finish_walked (A := A) e7.sound ha2 (by grind) h8
  have e9 := ho w8.sound (by grind) h9
  obtain ⟨e10, _, hlive10⟩ := linkCurrent_evaluated (A := A) e9.sound (by grind) h10
  obtain ⟨w11, hlive11⟩ := finish_walked (A := A) e10.sound ha3 (by grind) h11
  refine ⟨by grind, fun h0 => hlive11 ?_⟩
  have h03 : t3.current ≠ 0 := by grind
  obtain ⟨b, hb'⟩ := t4'.decided h03
  have hl := t4'.live h03 b hb'
  cases b with
  | true =>
    have h07 : t7.graph.Live after := hlive7 (e6.awake (hlive5 hl))
    grind
  | false =>
    have h08 : t8.current ≠ 0 := hlive8 (hl.grow (by grind))
    grind

end ScopeFlow.Bind
