import ScopeFlow.Proofs.Regions
import ScopeFlow.Proofs.Ways

/-!
# Tests that the environment decides

Code drops a branch of a test in two ways: the value of the whole test is known, or nothing leads to the label of the branch.
The two agree (`decided_test_branches`).

A test leads only the sentinel to a label whose outcome it cannot have. The proof is by induction on the test (`FeedsTest`): a
leaf is ruled out by its value; and the operands behind one that cannot be passed are dead, so they lead nothing anywhere.
-/

namespace ScopeFlow

namespace FlowGraph

variable {g : FlowGraph} {l : FlowRef}

/-- A label that only the sentinel leads to stands for the sentinel. -/
theorem Formed.finish_eq_zero {lax : Bool} {a : Nat} (h : g.Formed lax a) {id : Int} {ants : List FlowRef}
    (hn : g[l]? = some ⟨id, .branch ants⟩) (hants : ∀ r ∈ ants, r = 0) : g.finish l = 0 := by
  have hnodup : ants.Nodup := h.nodup l _ hn rfl
  rw [finish_of_branch hn]
  rcases ants with _ | ⟨x, _ | ⟨y, rest⟩⟩
  · rfl
  · exact hants x (by simp)
  · have hx := hants x (by simp)
    have hy := hants y (by simp)
    simp [hx, hy] at hnodup

end FlowGraph

namespace Bind

open FlowGraph

variable {ω : Type} {a : Nat} {u : Setup ω} {ctx : Context} {s s' o : State ω} {L : FlowRef → Prop} {l x ref : FlowRef}
  {outcomes outcomes' : StaticContext → Bool → Prop}

theorem Region.antecedentsAt (h : Region o L s) (hl : l < o.graph.size) (hL : ¬ L l) :
    s.graph.antecedentsAt l = o.graph.antecedentsAt l := by
  rw [FlowGraph.antecedentsAt, FlowGraph.antecedentsAt, nodeAt, nodeAt, h.old l hl hL]

/-- Only from live code does an expression lead anything to a label. -/
theorem Region.awake_of_new (h : Region o L s) (hx : x ∈ s.graph.antecedentsAt l) (hnew : x ∉ o.graph.antecedentsAt l) :
    o.current ≠ 0 := by
  obtain ⟨n, hn, hx⟩ := mem_antecedentsAt.1 hx
  refine (h.fed l n hn x hx).resolve_left ?_
  rintro ⟨m, hm, hx'⟩
  exact hnew (mem_antecedentsAt.2 ⟨m, hm, hx'⟩)

theorem mem_antecedentsAt_of_link {target : FlowRef} {y : Unit} (h : (link target ref : BindM ω Unit).run s = .ok y s')
    (hx : x ∈ s'.graph.antecedentsAt l) : x ∈ s.graph.antecedentsAt l ∨ l = target ∧ x = ref := by
  rw [link_ok] at h
  split at h
  · subst h
    exact .inl hx
  · subst h
    obtain ⟨n, hn, hx⟩ := mem_antecedentsAt.1 hx
    obtain ⟨m, hm, _, _, _, _, hx | ⟨rfl, rfl, _⟩⟩ := mem_antecedents_addAntecedent hn hx
    · exact .inl (mem_antecedentsAt.2 ⟨m, hm, hx⟩)
    · exact .inr ⟨rfl, rfl⟩

/-! ## What a test leads to its labels -/

/-- A label that a test may be given: one to lead to that is not the label of a handler. -/
structure Context.Hands (ctx : Context) (a : Nat) (g : FlowGraph) (l : FlowRef) : Prop where
  joint : Joint a g l
  free : l ∉ ctx.exceptTargets

theorem Context.Hands.grow {g g' : FlowGraph} (h : ctx.Hands a g l) (hg : g.Grows g') : ctx.Hands a g' l :=
    ⟨h.joint.grow hg, h.free⟩

theorem Context.Hands.either {g : FlowGraph} {onTrue onFalse : FlowRef} (ht : ctx.Hands a g onTrue) (hf : ctx.Hands a g onFalse)
    (h : l = onTrue ∨ l = onFalse) : ctx.Hands a g l := by
  rcases h with rfl | rfl
  · exact ht
  · exact hf

theorem Context.Hands.lt_size {g : FlowGraph} (h : ctx.Hands a g l) : l < g.size := by
  obtain ⟨_, n, hn, _⟩ := h.joint
  exact (Array.getElem?_eq_some_iff.1 hn).1

/-- A walk that tests and leads to its labels, apart from the sentinel, only what comes from an outcome that it may have. -/
structure FeedsTest (a : Nat) (u : Setup ω) (ctx : Context) (outcomes : StaticContext → Bool → Prop)
    (f : FlowRef → FlowRef → BindM ω Unit) : Prop where
  feeds : ∀ ⦃s x s' onTrue onFalse⦄, Sound true a s → ctx.Within a s.graph → ctx.Hands a s.graph onTrue →
    ctx.Hands a s.graph onFalse → (f onTrue onFalse).run s = .ok x s' → s.current ≠ 0 → ∀ l, l = onTrue ∨ l = onFalse →
      ∀ y ∈ s'.graph.antecedentsAt l, y ∉ s.graph.antecedentsAt l → y ≠ 0 →
        ∃ b, outcomes (s.static u) b ∧ (if b then onTrue else onFalse) = l
  tests : Tests true a (fun _ => True) u ctx outcomes f
  stays : ∀ (o : State ω) (L : FlowRef → Prop), (∀ l ∈ ctx.exceptTargets, o.Takes L l) → StaysTest o L f

/-- Under a condition that the environment rules out, only the sentinel goes on. -/
theorem conditional_may (hs : Sound true a s) (h0 : s.current ≠ 0) {e : Expr} (hl : e.isLogical = false) {b : Bool}
    (h : (conditional u ctx (if b then .isTrue else .isFalse) s.current e).run s = .ok ref s') (href : ref ≠ 0) :
    (s.static u).MayBe e b := by
  obtain ⟨v, hv, ⟨_, rfl⟩ | ⟨hallowed, _⟩⟩ := conditional_cases hs hs.current h0 h
  · exact absurd rfl href
  · rw [StaticContext.mayBe_leaf hl, hv]
    rcases v with _ | v <;> cases b <;> simp_all

/-- A leaf that has been evaluated leads to its labels. -/
theorem linkTest_feeds {e : Expr} (hl : e.isLogical = false) :
    FeedsTest a u ctx (fun c b => c.MayBe e b) fun onTrue onFalse => linkTest u ctx onTrue onFalse e := by
  refine ⟨?_, linkTest_tests hl, fun o L hc onTrue onFalse ht hf => linkTest_stays hc ht hf⟩
  intro s x s' onTrue onFalse hs hw ht hf h h0 l hlabel y hy hnew hy0
  simp only [linkTest, bind_ok, current_ok] at h
  obtain ⟨_, _, ⟨rfl, rfl⟩, r1, t1, h1, _, t2, h2, _, _, ⟨rfl, rfl⟩, r2, t3, h3, h4⟩ := h
  obtain ⟨e1, hc1, hk1, _⟩ := conditional_evaluated (A := fun _ => True) hs hw hs.current h1
  obtain ⟨e2, hc2, _⟩ := link_evaluated (A := fun _ => True) e1.sound (ht.joint.grow e1.grows) hk1 h2
  have e12 := e1.trans e2
  have hold := ht.either hf hlabel
  -- The label is not one of a handler, so a condition leads nothing to it.
  have hkeep : ∀ {t t' : State ω} {kind : ConditionKind} {r : FlowRef}, Sound true a t → l < t.graph.size →
      (conditional u ctx kind t.current e).run t = .ok r t' → t'.graph.antecedentsAt l = t.graph.antecedentsAt l := by
    intro t t' kind r hs hlt hrun
    have hstays : Stays t (· ∈ ctx.exceptTargets) (conditional u ctx kind t.current e) := conditional_stays (fun _ => .inl) id
    exact (hstays (.refl hs.formed.sentinel) hrun).antecedentsAt hlt hold.free
  rcases mem_antecedentsAt_of_link h4 hy with hy | ⟨rfl, rfl⟩
  · rw [hkeep e2.sound (hold.grow e12.grows).lt_size h3] at hy
    rcases mem_antecedentsAt_of_link h2 hy with hy | ⟨rfl, rfl⟩
    · exact absurd (hkeep hs hold.lt_size h1 ▸ hy) hnew
    · exact ⟨true, conditional_may (b := true) hs h0 hl h1 hy0, rfl⟩
  · have h02 : t2.current ≠ 0 := by rwa [hc2, hc1]
    exact ⟨false, e12.static ▸ conditional_may (b := false) e2.sound h02 hl h3 hy0, rfl⟩

/-- Evaluating first and then testing is a test. -/
theorem FeedsTest.after {f : BindM ω Unit} {g : FlowRef → FlowRef → BindM ω Unit} (hf : Evaluates true a (fun _ => True) ctx f)
    (hstay : ∀ (o : State ω) (L : FlowRef → Prop), (∀ l ∈ ctx.exceptTargets, o.Takes L l) → Stays o L f)
    (hg : FeedsTest a u ctx outcomes g) : FeedsTest a u ctx outcomes fun onTrue onFalse => f >>= fun _ => g onTrue onFalse := by
  refine ⟨?_, hg.tests.after hf, fun o L hc onTrue onFalse ht hff => .bind (hstay o L hc) fun _ => hg.stays o L hc _ _ ht hff⟩
  intro s x s' onTrue onFalse hs hw ht hff h h0 l hlabel y hy hnew hy0
  obtain ⟨_, t, h1, h2⟩ := bind_ok.1 h
  have e1 := hf hs hw h1
  have hold := ht.either hff hlabel
  rw [← (hstay s (· ∈ ctx.exceptTargets) (fun _ => .inl) (.refl hs.formed.sentinel) h1).antecedentsAt hold.lt_size
    hold.free] at hnew
  rw [← e1.static]
  exact hg.feeds e1.sound (hw.grow e1.grows) (ht.grow e1.grows) (hff.grow e1.grows) h2 (e1.awake h0) l hlabel y hy hnew hy0

/-- A test whose labels are exchanged has the other outcomes. -/
theorem FeedsTest.not {f : FlowRef → FlowRef → BindM ω Unit} (hf : FeedsTest a u ctx outcomes f) :
    FeedsTest a u ctx (fun c b => outcomes c (!b)) fun onTrue onFalse => f onFalse onTrue := by
  refine ⟨?_, hf.tests.not, fun o L hc onTrue onFalse ht hff => hf.stays o L hc _ _ hff ht⟩
  intro s x s' onTrue onFalse hs hw ht hff h h0 l hlabel y hy hnew hy0
  obtain ⟨b, hout, heq⟩ := hf.feeds hs hw hff ht h h0 l hlabel.symm y hy hnew hy0
  refine ⟨!b, by simpa using hout, ?_⟩
  cases b <;> exact heq

/-- An operand that does not decide is followed by the rest. -/
theorem operand_feeds (op : BoolOperator) {test rest : FlowRef → FlowRef → BindM ω Unit} (h₁ : FeedsTest a u ctx outcomes test)
    (h₂ : FeedsTest a u ctx outcomes' rest) :
    FeedsTest a u ctx (fun c b => b = op.decider ∧ outcomes c op.decider ∨ outcomes c (!op.decider) ∧ outcomes' c b)
      fun onTrue onFalse => operand op onTrue onFalse test >>= fun _ => rest onTrue onFalse := by
  refine ⟨?_, operand_tests h₁.tests h₂.tests,
    fun o L hc onTrue onFalse ht hff => .bind (operand_stays (h₁.stays o L hc) ht hff) fun _ => h₂.stays o L hc _ _ ht hff⟩
  intro s x s' onTrue onFalse hs hw ht hf h h0 l hlabel y hy hnew hy0
  obtain ⟨_, t3, h, h4⟩ := bind_ok.1 h
  obtain ⟨next, t1, h1, h⟩ := bind_ok.1 h
  obtain ⟨e1, ha, hc1, hb⟩ := newBranch_evaluated (A := fun _ => True) hs h1
  obtain ⟨hnext, hg1⟩ : next = s.graph.size ∧ t1.graph = s.graph.push ⟨s.store.nextFlowId, .branch []⟩ := by
    obtain ⟨rfl, rfl⟩ := newNode_ok.1 h1
    exact ⟨rfl, rfl⟩
  have hn : ctx.Hands a t1.graph next := by
    refine ⟨⟨ha, hb.isLabel⟩, fun hmem => ?_⟩
    obtain ⟨_, n, hn, _⟩ := hw next (by simp [Context.labels, hmem])
    exact absurd (Array.getElem?_eq_some_iff.1 hn).1 (hnext ▸ lt_irrefl _)
  -- Whichever the connective, the test leads to `next` unless it decides.
  obtain ⟨t2, h2, h3⟩ : ∃ t2, (test (if op.decider then onTrue else next) (if op.decider then next else onFalse)).run t1 =
    .ok () t2 ∧
      (finish next : BindM ω Unit).run t2 = .ok () t3 := by
    cases op with
    | and | or =>
      obtain ⟨_, t2, h2, h3⟩ := bind_ok.1 h
      exact ⟨t2, h2, h3⟩
  have ht1 : ctx.Hands a t1.graph (if op.decider then onTrue else next) := by
    cases op.decider
    · exact hn
    · exact ht.grow e1.grows
  have hf1 : ctx.Hands a t1.graph (if op.decider then next else onFalse) := by
    cases op.decider
    · exact hf.grow e1.grows
    · exact hn
  have w2 := (h₁.tests e1.sound (hw.grow e1.grows) ht1.joint hf1.joint h2).toWalked
  have hfeeds := h₁.feeds e1.sound (hw.grow e1.grows) ht1 hf1 h2 (hc1 ▸ h0)
  rw [e1.static] at hfeeds
  obtain ⟨w3, _⟩ := finish_walked (A := fun _ => True) w2.sound ha (hb.grow w2.grows) h3
  obtain rfl := finish_ok.1 h3
  have g13 := (e1.grows.trans w2.grows).trans w3.grows
  have hold := ht.either hf hlabel
  have hnew1 : y ∉ t1.graph.antecedentsAt l := by
    rwa [FlowGraph.antecedentsAt, nodeAt, hg1, Array.getElem?_push_lt hold.lt_size, ← Array.getElem?_eq_getElem hold.lt_size]
  by_cases hmem : y ∈ t2.graph.antecedentsAt l
  · -- The operand has led there, so it has decided.
    have hlabel1 : l = (if op.decider then onTrue else next) ∨ l = (if op.decider then next else onFalse) := by
      by_contra hno
      have hregion : Region t1 (fun l => l = (if op.decider then onTrue else next) ∨ l = (if op.decider then next else onFalse) ∨
          l ∈ ctx.exceptTargets) t2 :=
        h₁.stays t1 _ (fun l hl => .inl (.inr (.inr hl))) _ _ (.inl (.inl rfl)) (.inl (.inr (.inl rfl)))
          (.refl e1.sound.formed.sentinel) h2
      rw [hregion.antecedentsAt (hold.grow e1.grows).lt_size (by
        rintro (heq | heq | hl)
        · exact hno (.inl heq)
        · exact hno (.inr heq)
        · exact hold.free hl)] at hmem
      exact hnew1 hmem
    obtain ⟨b, hout, heq⟩ := hfeeds l hlabel1 y hmem hnew1 hy0
    have hne : next ≠ l := hnext ▸ Nat.ne_of_gt hold.lt_size
    cases hd : op.decider <;> rw [hd] at heq <;> cases b
    · exact ⟨false, .inl ⟨rfl, hout⟩, heq⟩
    · exact absurd heq hne
    · exact absurd heq hne
    · exact ⟨true, .inl ⟨rfl, hout⟩, heq⟩
  · -- The rest has led there, so the operand can be passed.
    have hregion : Region { t2 with current := t2.graph.finish next } (fun l => l = onTrue ∨ l = onFalse ∨
      l ∈ ctx.exceptTargets) s' :=
      h₂.stays _ _ (fun l hl => .inl (.inr (.inr hl))) onTrue onFalse (.inl (.inl rfl)) (.inl (.inr (.inl rfl)))
        (.refl w3.sound.formed.sentinel) h4
    have h03 : t2.graph.finish next ≠ 0 := hregion.awake_of_new hy hmem
    obtain ⟨b, hout, heq⟩ := h₂.feeds w3.sound (hw.grow g13) (ht.grow g13) (hf.grow g13) h4 h03 l hlabel y hy hmem hy0
    obtain ⟨id, ants, hnode⟩ := hb.grow w2.grows
    obtain ⟨z, hz, hz0⟩ : ∃ z ∈ t2.graph.antecedentsAt next, z ≠ 0 := by
      by_contra hno
      push Not at hno
      exact h03 (w2.sound.formed.finish_eq_zero hnode fun r hr => hno r (antecedentsAt_eq hnode ▸ hr))
    have hfresh : z ∉ t1.graph.antecedentsAt next := by
      rw [antecedentsAt_eq (g := t1.graph) (n := ⟨s.store.nextFlowId, .branch []⟩)
        (by rw [hg1, hnext]; exact Array.getElem?_push_size)]
      simp [FlowStep.antecedents]
    have hlabel1 : next = (if op.decider then onTrue else next) ∨ next = (if op.decider then next else onFalse) := by
      cases op.decider <;> simp
    obtain ⟨b', hout', heq'⟩ := hfeeds next hlabel1 z hz hfresh hz0
    have hb' : b' = !op.decider := by
      have hnt : onTrue ≠ next := hnext ▸ Nat.ne_of_lt ht.lt_size
      have hnf : onFalse ≠ next := hnext ▸ Nat.ne_of_lt hf.lt_size
      cases hd : op.decider <;> rw [hd] at heq' <;> cases b'
      · exact absurd heq' hnf
      · rfl
      · rfl
      · exact absurd heq' hnt
    subst hb'
    rw [((e1.toWalked.trans w2).trans w3).static] at hout
    exact ⟨b, .inr ⟨hout', hout⟩, heq⟩

/-! ## The walk of a test -/

theorem visitExpr_test_not (m : Mark) (operand : Expr) (onTrue onFalse : FlowRef) :
    visitExpr u ctx (.test onTrue onFalse) (.unaryOp m .not operand) = visitExpr u ctx (.test onFalse onTrue) operand := by
  rw [visitExpr]
  simp [around, enterExpr, leaveExpr, Expr.isLogical]

theorem visitExpr_test_boolOp (m : Mark) (op : BoolOperator) (values : List Expr) (onTrue onFalse : FlowRef) :
    visitExpr u ctx (.test onTrue onFalse) (.boolOp m op values) = visitOperands u ctx op onTrue onFalse values := by
  rw [visitExpr]
  simp [around, enterExpr, leaveExpr, Expr.isLogical]

theorem visitOperands_feeds (hu : u.Steady) (op : BoolOperator) (es : List Expr)
    (ih : ∀ e ∈ es, FeedsTest a u ctx (fun c b => c.MayBe e b) fun onTrue onFalse => visitExpr u ctx (.test onTrue onFalse) e) :
    FeedsTest a u ctx (fun c b => c.MayBeAll op es b) fun onTrue onFalse => visitOperands u ctx op onTrue onFalse es := by
  match es with
  | [] =>
    refine ⟨fun s x s' onTrue onFalse _ _ _ _ hrun => ?_, visitOperands_tests hu op [] (fun _ _ => ⟨trivial, .inl rfl⟩) ctx,
      fun o L _ onTrue onFalse _ _ => ?_⟩
    · beta_reduce at hrun
      rw [visitOperands] at hrun
      exact absurd hrun (by simp)
    · rw [visitOperands]
      exact .throw _
  | [e] => simpa only [StaticContext.MayBeAll, visitOperands] using ih e (by simp)
  | e :: e' :: rest =>
    have hrest := visitOperands_feeds hu op (e' :: rest) fun e he => ih e (List.mem_cons_of_mem _ he)
    simpa only [StaticContext.MayBeAll, visitOperands] using operand_feeds op (ih e (by simp)) hrest

/-- The walk of a test leads to its labels what comes from the outcomes that the test may have. -/
theorem visitExpr_feeds (hu : u.Steady) (e : Expr) :
    FeedsTest a u ctx (fun c b => c.MayBe e b) fun onTrue onFalse => visitExpr u ctx (.test onTrue onFalse) e := by
  induction e using Expr.induction_on_test with
  | leaf e hl =>
    have hsees : Sees true a (fun _ => True) u e := visitExpr_sees hu e fun _ _ => ⟨trivial, .inl rfl⟩
    simp only [visitExpr_test_leaf hl]
    exact .after (hsees.value ctx) (fun o L hc => visitExpr_stays hu e hc .value trivial) (linkTest_feeds hl)
  | not m operand ih => simpa only [StaticContext.MayBe, visitExpr_test_not] using ih.not
  | boolOp m op values ih => simpa only [StaticContext.MayBe, visitExpr_test_boolOp] using visitOperands_feeds hu op values ih

theorem Context.Spares.hands {g : FlowGraph} (h : ctx.Spares a g l) : ctx.Hands a g l := ⟨h.joint, h.free⟩

/-- The two ways to drop a branch agree. If the environment decides a test as a whole, only the sentinel leads to the label of
the other outcome, and something else leads to that of the outcome; so a branch that is entered by the value of the whole test
goes on just as one that is entered by its label alone. -/
theorem decided_test_branches (hu : u.Steady) {e : Expr} (hs : Sound true a s) (hw : ctx.Within a s.graph) (h0 : s.current ≠ 0)
    {onTrue onFalse : FlowRef} (ht : ctx.Spares a s.graph onTrue) (hf : ctx.Spares a s.graph onFalse)
      (hne : onTrue ≠ onFalse) {b : Bool}
    (hb : (s.static u).evaluateLoosely e = .ok (some b)) {x : Unit}
      (h : (visitExpr u ctx (.test onTrue onFalse) e).run s = .ok x s') :
    (∀ r ∈ s'.graph.antecedentsAt (if b then onFalse else onTrue), r = 0) ∧
    (∃ r ∈ s'.graph.antecedentsAt (if b then onTrue else onFalse), r ≠ 0) ∧
    s'.graph.finish (if b then onFalse else onTrue) = 0 ∧ s'.graph.finish (if b then onTrue else onFalse) ≠ 0 ∧
    (enterBranch onTrue (some b) false : BindM ω Unit).run s' = (finish onTrue).run s' ∧
    (enterBranch onFalse (some b) true : BindM ω Unit).run s' = (finish onFalse).run s' := by
  have htest : FeedsTest a u ctx (fun c b => c.MayBe e b) fun onTrue onFalse => visitExpr u ctx (.test onTrue onFalse) e :=
    visitExpr_feeds hu e
  have htested := htest.tests hs hw ht.joint hf.joint h
  have hspares : ∀ c : Bool, ctx.Spares a s.graph (if c then onTrue else onFalse) := fun c => by
    cases c
    · exact hf
    · exact ht
  have hbranch : ∀ c : Bool, s'.graph.IsBranch (if c then onTrue else onFalse) := fun c => by
    obtain ⟨id, hn⟩ := (hspares c).node
    exact FlowGraph.IsBranch.grow ⟨id, [], hn⟩ htested.grows
  have hnot : (if b then onFalse else onTrue) = if !b then onTrue else onFalse := by cases b <;> rfl
  have hdead : ∀ r ∈ s'.graph.antecedentsAt (if !b then onTrue else onFalse), r = 0 := by
    intro r hr
    by_contra hr0
    have hnew : r ∉ s.graph.antecedentsAt (if !b then onTrue else onFalse) := by
      obtain ⟨id, hn⟩ := (hspares !b).node
      rw [antecedentsAt_eq hn]
      exact List.not_mem_nil
    have hlabel : (if !b then onTrue else onFalse) = onTrue ∨ (if !b then onTrue else onFalse) = onFalse := by cases b <;> simp
    obtain ⟨b', hmay, heq⟩ := htest.feeds hs hw ht.hands hf.hands h h0 _ hlabel r hr hnew hr0
    obtain rfl := StaticContext.eq_of_mayBe hb hmay
    cases b' <;> simp_all
  obtain ⟨b', hmay⟩ := htested.decided h0
  obtain rfl := StaticContext.eq_of_mayBe hb hmay
  have hlive : s'.graph.Live (if b' then onTrue else onFalse) := htested.live h0 b' hmay
  have hon : s'.graph.finish (if b' then onTrue else onFalse) ≠ 0 :=
    htested.sound.formed.finish_ne_zero (hbranch b') (hspares b').base hlive
  have hoff : s'.graph.finish (if !b' then onTrue else onFalse) = 0 := by
    obtain ⟨id, ants, hn⟩ := hbranch !b'
    exact htested.sound.formed.finish_eq_zero hn fun r hr => hdead r (antecedentsAt_eq hn ▸ hr)
  rw [hnot]
  refine ⟨hdead, ?_, hoff, hon, ?_, ?_⟩
  · obtain ⟨n, hn, _, r, hr, hr0⟩ := hlive
    exact ⟨r, mem_antecedentsAt.2 ⟨n, hn, hr⟩, hr0⟩
  · cases b' with
    | true => rfl
    | false =>
      have hfinish : (finish onTrue : BindM ω Unit).run s' = .ok () { s' with current := s'.graph.finish onTrue } :=
        finish_ok.2 rfl
      have hoff' : s'.graph.finish onTrue = 0 := hoff
      rw [hfinish, hoff']
      rfl
  · cases b' with
    | false => rfl
    | true =>
      have hfinish : (finish onFalse : BindM ω Unit).run s' = .ok () { s' with current := s'.graph.finish onFalse } :=
        finish_ok.2 rfl
      have hoff' : s'.graph.finish onFalse = 0 := hoff
      rw [hfinish, hoff']
      rfl

/-- The test `not (TYPE_CHECKING and True)`. -/
def sampleDecided : Expr :=
  .unaryOp ⟨1, none⟩ .not (.boolOp ⟨2, none⟩ .and [.name ⟨3, none⟩ "TYPE_CHECKING", .constant ⟨4, none⟩ (.bool true) none])

theorem sampleDecided_branches : ∃ s' : State Unit,
    (visitExpr .bare { scope := 0, owner := 0 } (.test 2 3) sampleDecided).run (.forked .bare {} ()) = .ok () s' ∧
    s'.graph.finish 2 = 0 ∧ s'.graph.finish 3 ≠ 0 := by
  have hends : endsIn (visitExpr .bare { scope := 0, owner := 0 } (.test 2 3) sampleDecided) (.forked .bare {} ())
      (fun _ => true) = true := by
    decide +kernel
  obtain ⟨_, s', hrun, _⟩ := exists_of_endsIn hends
  obtain ⟨ht, hf⟩ := spares_forked .bare {} () 0 0
  have hvalue : ((State.forked Setup.bare {} ()).static .bare).evaluateLoosely sampleDecided = .ok (some false) := by rfl
  obtain ⟨_, _, hoff, hon, _⟩ := decided_test_branches (Setup.alone_steady _) (sound_forked _ (by decide) ())
    (by simp [Context.Within, Context.labels]) (by decide) ht hf (by decide) hvalue hrun
  exact ⟨s', hrun, hoff, hon⟩

end Bind

end ScopeFlow
