import ScopeFlow.Proofs.Ways

/-!
# The edge past an `if`

An `if` without `else` that falls through is marked with conditions that a reader of the graph may prove impossible: an operand of
`and` that is false by itself, the operands of `or` that are false one after the other. The marks must not rule out more than
they say: each truth assignment that makes the test false is to have a way past the `if` whose marks all agree with it.

This holds of tests that are `Guarded` (`fall_through_ways`). Two kinds of tests are not: under `not`, the operands of `or`
are marked as if all of them were true; and an operand of `and` that is not the last is lost if it leads nowhere, which `or`
does if not all of its operands narrow.
-/

namespace ScopeFlow

variable {e : Expr}

/-- The mark of a condition on the edge past an `if`: a test, and the outcome that the edge is taken under. -/
def FlowStep.neverMark : FlowStep → Option (Nat × Bool)
  | .condition .trueNever (some e) _ _ => some (e.index, true)
  | .condition .falseNever (some e) _ _ => some (e.index, false)
  | _ => none

theorem FlowStep.neverMark_extend (step : FlowStep) (more : List FlowRef) : (step.extend more).neverMark = step.neverMark := by
  cases step <;> rfl

namespace NarrowingPolicy

/-- Whether a condition is marked on the edge past an `if`. -/
def Marks (policy : NarrowingPolicy) (e : Expr) : Bool :=
  match (NarrowingMode.mk policy true).classify e with
  | .ok narrowing => narrowing.isNarrowing && !narrowing.nameReferences.isEmpty && policy.Narrows e
  | .error _ => false

mutual

/-- Whether the edge for a test goes on from another place than it starts from. -/
def Moves (policy : NarrowingPolicy) (e : Expr) : Prop :=
  match e with
  | .unaryOp _ .not operand => policy.Moves operand
  | .boolOp _ op values => policy.MovesAll op values
  | e => policy.Marks e = true

/-- The same for operands: `and` goes back to where it starts before its last operand, `or` gives up at an operand that stays. -/
def MovesAll (policy : NarrowingPolicy) (op : BoolOperator) (es : List Expr) : Prop :=
  match es with
  | [] => False
  | [e] => policy.Moves e
  | e :: rest => (op = .or → policy.Moves e) ∧ policy.MovesAll op rest

end

mutual

/-- Whether the edge for a test always leads to its target. -/
def Feeds (policy : NarrowingPolicy) (e : Expr) : Prop :=
  match e with
  | .unaryOp _ .not operand => policy.Feeds operand
  | .boolOp _ op values => policy.FeedsAll op values
  | _ => True

/-- The same for operands: those of `and` lead there each by itself, those of `or` one after the other. -/
def FeedsAll (policy : NarrowingPolicy) (op : BoolOperator) (es : List Expr) : Prop :=
  match es with
  | [] => True
  | [e] => policy.Feeds e
  | e :: rest =>
    match op with
    | .and => policy.Feeds e ∧ policy.FeedsAll op rest
    | .or => policy.Moves e ∧ policy.FeedsAll op rest

end

mutual

/-- Whether the edge for a test that has to come out as a value does justice to it: `or` with several operands does not stand
where it has to be true, and an operand of `and` that is not the last leads to the target if one of them has to be false. -/
def Guarded (policy : NarrowingPolicy) (positive : Bool) (e : Expr) : Prop :=
  match e with
  | .unaryOp _ .not operand => policy.Guarded (!positive) operand
  | .boolOp _ op values => policy.GuardedAll op positive values
  | _ => True

/-- The same for operands. -/
def GuardedAll (policy : NarrowingPolicy) (op : BoolOperator) (positive : Bool) (es : List Expr) : Prop :=
  match es with
  | [] => True
  | [e] => policy.Guarded positive e
  | e :: rest =>
    match op with
    | .and => (positive = false → policy.Guarded positive e ∧ policy.Feeds e) ∧ policy.GuardedAll op positive rest
    | .or => positive = false ∧ policy.Guarded positive e ∧ policy.GuardedAll op positive rest

end

theorem moves_leaf {policy : NarrowingPolicy} (hl : e.isLogical = false) : policy.Moves e ↔ policy.Marks e = true := by
  rw [Moves]
  · rintro _ _ rfl
    cases hl
  · rintro _ _ _ rfl
    cases hl

end NarrowingPolicy

namespace FlowGraph

variable {μ : Type} {mark : FlowStep → Option μ} {g g' : FlowGraph} {c c₁ x : FlowRef} {w w₁ w₂ : List μ}

/-- A way is still there when the graph has grown, if labels have no marks. -/
theorem Way.grow (hmark : ∀ (step : FlowStep) (more : List FlowRef), mark (step.extend more) = mark step) (hg : g.Grows g')
    (h : Way g mark c x w) : Way g' mark c x w := by
  induction h with
  | here => exact .here
  | @back r y n w hne h0 hn hy _ ih =>
    obtain ⟨more, hm⟩ := hg r n hn
    rw [← hmark n.step more]
    refine .back hne h0 hm ?_ ih
    rw [FlowStep.antecedents_extend]
    exact List.mem_append_left _ hy

/-- A way to a place that has a way: the first time it meets the end it stops, so it has no other marks than the two. -/
theorem Way.through (h₂ : Way g mark c₁ x w₂) (h₁ : Way g mark c c₁ w₁) :
    ∃ w, Way g mark c x w ∧ ∀ m ∈ w, m ∈ w₁ ∨ m ∈ w₂ := by
  induction h₂ with
  | here => exact ⟨w₁, h₁, fun _ => .inl⟩
  | @back r y n w hne h0 hn hy _ ih =>
    obtain ⟨w', hw', hin⟩ := ih
    by_cases hr : r = c
    · exact ⟨[], hr ▸ .here, by simp⟩
    · refine ⟨_, .back hr h0 hn hy hw', fun m hm => ?_⟩
      rw [List.mem_append] at hm
      rcases hm with hm | hm
      · exact (hin m hm).imp_right (List.mem_append_left _)
      · exact .inr (List.mem_append_right _ hm)

end FlowGraph

namespace Expr

/-- Operands come out as the value that decides just if one of them does. -/
theorem evaluationAll_eq_decider (σ : Nat → Bool) (op : BoolOperator) (e : Expr) {rest : List Expr} (hne : rest ≠ []) :
    (evaluationAll σ op (e :: rest)).1 = op.decider ↔ (e.evaluation σ).1 = op.decider ∨
      (evaluationAll σ op rest).1 = op.decider := by
  obtain _ | ⟨e', rest⟩ := rest
  · exact absurd rfl hne
  rw [evaluationAll]
  · split
    · rename_i hd
      simp [hd]
    · rename_i hd
      simp [hd]
  · simp

end Expr

namespace Bind

open FlowGraph

variable {ω : Type} {lax : Bool} {a : Nat} {u : Setup ω} {ctx : Context} {s s' : State ω} {σ : Nat → Bool} {target : FlowRef}

theorem Sound.lt_size (h : Sound lax a s) (h0 : s.current ≠ 0) : s.current < s.graph.size := (h.current.resolve_left h0).2.lt_size

/-- A label is led to from where a state stands, by a way on which every mark agrees with an assignment. -/
def Carried (σ : Nat → Bool) (target : FlowRef) (s s' : State ω) : Prop :=
  ∃ r ∈ s'.graph.antecedentsAt target, (r = s.current ∨ s.graph.size ≤ r) ∧
    ∃ w, Way s'.graph FlowStep.neverMark s.current r w ∧ ∀ m ∈ w, σ m.1 = m.2

theorem Carried.grow {t : State ω} (h : Carried σ target s t) (hg : t.graph.Grows s'.graph) : Carried σ target s s' := by
  obtain ⟨r, hr, hplace, w, hw, hσ⟩ := h
  exact ⟨r, hg.mem_antecedentsAt hr, hplace, w, hw.grow FlowStep.neverMark_extend hg, hσ⟩

/-- The edge for a leaf leads to its target, marked with the leaf if it can be; if it is, it goes on from a new place. -/
theorem linkNever_leaf_carries (hl : e.isLogical = false) {positive : Bool} (hs : Sound true a s)
    (hw : ctx.Within a s.graph)
    (hj : Joint a s.graph target) (h0 : s.current ≠ 0) {x : Unit} (h : (linkNever u ctx target positive e).run s = .ok x s') :
    (σ e.index = positive → Carried σ target s s') ∧ (u.policy.Marks e = true → s.graph.size ≤ s'.current) := by
  rw [linkNever_leaf hl] at h
  simp only [bind_ok, ofExcept_ok] at h
  obtain ⟨narrowing, _, ⟨hclass, rfl⟩, h⟩ := h
  have hmarks : u.policy.Marks e = (narrowing.isNarrowing && !narrowing.nameReferences.isEmpty && u.policy.Narrows e) := by
    simp [NarrowingPolicy.Marks, hclass]
  split at h
  · rename_i hnarrows
    simp only [bind_ok, current_ok] at h
    obtain ⟨_, _, ⟨rfl, rfl⟩, ref, t1, h1, _, t2, h2, h3⟩ := h
    obtain ⟨e1, hc1, hk1, _⟩ := conditional_evaluated (A := fun _ => True) hs hw hs.current h1
    obtain ⟨w2, hc2⟩ := setCurrent_walked (A := fun _ => True) e1.sound hk1 h2
    have hj2 := hj.grow (e1.grows.trans w2.grows)
    obtain ⟨e3, hc3, _⟩ := linkCurrent_evaluated (A := fun _ => True) w2.sound hj2 h3
    obtain ⟨v, _, hcase⟩ := conditional_cases hs hs.current h0 h1
    have hkind : ¬ (v = some true ∧ (if positive then ConditionKind.trueNever else .falseNever) = .isFalse ∨
        v = some false ∧ (if positive then ConditionKind.trueNever else .falseNever) = .isTrue) := by
      cases positive <;> simp
    have hway := (hcase.resolve_left fun hruled => hkind hruled.1).2
    have hlt0 := hs.lt_size h0
    have hcur : s'.current = ref := hc3.trans hc2
    have href0 : ref ≠ 0 := by
      rcases hway with ⟨_, rfl⟩ | ⟨_, rfl, _⟩
      · exact h0
      · exact Nat.ne_of_gt (Nat.lt_of_le_of_lt (Nat.zero_le _) hlt0)
    have hmem : ref ∈ s'.graph.antecedentsAt target := by
      rw [linkCurrent_ok, hc2] at h3
      exact link_mem_antecedentsAt w2.sound (hc2 ▸ href0) hj2 ((hk1.grow w2.grows).resolve_left href0).2.lt_size h3
    refine ⟨fun hσ => ⟨ref, hmem, hway.imp And.right fun hnew => hnew.2.1.ge, ?_⟩, fun hyes => ?_⟩
    · rcases hway with ⟨_, rfl⟩ | ⟨_, href, id, reference, hnode⟩
      · exact ⟨[], .here, by simp⟩
      · obtain ⟨more, hm⟩ := (w2.grows.trans e3.grows) _ _ hnode
        refine ⟨_, .back (href ▸ Nat.ne_of_gt hlt0) href0 hm (List.mem_singleton.2 rfl) .here, fun m hmark => ?_⟩
        rw [FlowStep.neverMark_extend] at hmark
        cases positive <;> simp [FlowStep.neverMark] at hmark <;> simp [hmark, hσ]
    · rw [hcur]
      rcases hway with ⟨hno, _⟩ | ⟨_, href, _⟩
      · rw [hmarks, hno] at hyes
        simp at hyes
      · exact href.ge
  · rename_i hnarrows
    refine ⟨fun _ => ⟨s.current, ?_, .inl rfl, [], .here, by simp⟩, fun hyes => ?_⟩
    · exact link_mem_antecedentsAt hs h0 hj (hs.lt_size h0) (linkCurrent_ok.1 h)
    · rw [hmarks] at hyes
      simp_all

/-! ## Operands -/

/-- Where an operand of `or` has moved, the next starts as live code. -/
theorem or_awake {after : FlowRef} {t1 t2 t3 : State ω} {positive : Bool} (hs : Sound true a s)
    (hw : ctx.Within a s.graph) (h0 : s.current ≠ 0) (h1 : (newBranch : BindM ω FlowRef).run s = .ok after t1)
    (h2 : (linkNever u ctx after positive e).run t1 = .ok () t2) (hmoved : t2.current ≠ s.current)
    (h3 : (finish after : BindM ω Unit).run t2 = .ok () t3) :
    Sound true a t3 ∧ s.graph.Grows t3.graph ∧ t3.current ≠ 0 := by
  obtain ⟨e1, ha, hc1, hb⟩ := newBranch_evaluated (A := fun _ => True) hs h1
  obtain ⟨e2, hlive⟩ := linkNever_evaluated (B := fun _ => True) e e1.sound (hw.grow e1.grows) ⟨ha, hb.isLabel⟩ h2
  obtain ⟨w3, hlive3⟩ := finish_walked (A := fun _ => True) e2.sound ha (hb.grow e2.grows) h3
  refine ⟨w3.sound, (e1.trans e2).grows.trans w3.grows, hlive3 ((hlive (hc1 ▸ h0)).resolve_left fun heq => hmoved ?_)⟩
  rw [heq, hc1]

/-- The edge for a test goes on from a new place if the test moves. -/
def MovesFor (a : Nat) (u : Setup ω) (ctx : Context) (e : Expr) : Prop :=
  ∀ ⦃s s' : State ω⦄ ⦃x : Unit⦄ ⦃target : FlowRef⦄ ⦃positive : Bool⦄, Sound true a s → ctx.Within a s.graph →
    Joint a s.graph target →
    s.current ≠ 0 → u.policy.Moves e → (linkNever u ctx target positive e).run s = .ok x s' → s.graph.size ≤ s'.current

theorem linkNevers_moves (op : BoolOperator) (es : List Expr) (ih : ∀ e ∈ es, MovesFor a u ctx e) ⦃s s' : State ω⦄ ⦃x : Unit⦄
    ⦃target : FlowRef⦄ ⦃positive : Bool⦄ (hs : Sound true a s) (hw : ctx.Within a s.graph) (hj : Joint a s.graph target)
      (h0 : s.current ≠ 0) (hm : u.policy.MovesAll op es)
    (h : (linkNevers u ctx op target positive es).run s = .ok x s') : s.graph.size ≤ s'.current := by
  match es with
  | [] => exact absurd hm (by simp [NarrowingPolicy.MovesAll])
  | [e] =>
    rw [linkNevers] at h
    exact ih e (by simp) hs hw hj h0 (by simpa only [NarrowingPolicy.MovesAll] using hm) h
  | e :: e' :: rest =>
    have ih' := fun e he => ih e (List.mem_cons_of_mem _ he)
    rw [NarrowingPolicy.MovesAll] at hm
    · cases op with
      | and =>
        obtain ⟨t, h1, h2⟩ := linkNevers_and_run h
        obtain ⟨e1, _⟩ := linkNever_evaluated (B := fun _ => True) e hs hw hj h1
        have hs1 : Sound true a { t with current := s.current } := ⟨e1.sound.formed, e1.sound.fresh, hs.current.grow e1.grows⟩
        have hlast := linkNevers_moves .and (e' :: rest) ih' hs1 (hw.grow e1.grows) (hj.grow e1.grows) h0 hm.2 h2
        exact e1.grows.size_le.trans hlast
      | or =>
        obtain ⟨after, t1, t2, h1, h2, hrest⟩ := linkNevers_or_run h
        obtain ⟨e1, ha, hc1, hb⟩ := newBranch_evaluated (A := fun _ => True) hs h1
        have hfirst := ih e (by simp) e1.sound (hw.grow e1.grows) ⟨ha, hb.isLabel⟩ (hc1 ▸ h0) (hm.1 rfl) h2
        have hlt : s.current < t1.graph.size := Nat.lt_of_lt_of_le (hs.lt_size h0) e1.grows.size_le
        have hmoved : t2.current ≠ s.current := Nat.ne_of_gt (Nat.lt_of_lt_of_le hlt hfirst)
        obtain ⟨_, t3, t4, h3, h4, hend⟩ := hrest.resolve_left fun hstay => hmoved hstay.1
        obtain ⟨s3, g3, h03⟩ := or_awake hs hw h0 h1 h2 hmoved h3
        have hlast := linkNevers_moves .or (e' :: rest) ih' s3 (hw.grow g3) (hj.grow g3) h03 hm.2 h4
        have hmoved' : t4.current ≠ t3.current := Nat.ne_of_gt (Nat.lt_of_lt_of_le (s3.lt_size h03) hlast)
        obtain ⟨_, rfl⟩ := hend.resolve_left fun hstay => hmoved' hstay.1
        exact g3.size_le.trans hlast
    · simp

theorem linkNever_moves (e : Expr) : MovesFor a u ctx e := by
  induction e using Expr.induction_on_test with
  | leaf e hl =>
    intro s s' x target positive hs hw hj h0 hm h
    exact (linkNever_leaf_carries (σ := fun _ => true) hl hs hw hj h0 h).2 ((NarrowingPolicy.moves_leaf hl).1 hm)
  | not m operand ih =>
    intro s s' x target positive hs hw hj h0 hm h
    rw [linkNever] at h
    exact ih hs hw hj h0 (by simpa only [NarrowingPolicy.Moves] using hm) h
  | boolOp m op values ih =>
    intro s s' x target positive hs hw hj h0 hm h
    rw [linkNever] at h
    exact linkNevers_moves op values ih hs hw hj h0 (by simpa only [NarrowingPolicy.Moves] using hm) h

/-! ## Ways past an `if` -/

/-- What an operand of `or` carries to its label is carried on by the next. -/
theorem Carried.through {after : FlowRef} {t1 t2 t3 t4 : State ω} (hs : Sound true a s) (h0 : s.current ≠ 0)
    (h1 : (newBranch : BindM ω FlowRef).run s = .ok after t1) (hg2 : t1.graph.Grows t2.graph) (hfirst : Carried σ after t1 t2)
    (h3 : (finish after : BindM ω Unit).run t2 = .ok () t3) (hg4 : t3.graph.Grows t4.graph) (hrest : Carried σ target t3 t4) :
    Carried σ target s t4 := by
  obtain ⟨e1, _, hc1, hb⟩ := newBranch_evaluated (A := fun _ => True) hs h1
  have hafter : after = s.graph.size := (newNode_ok.1 h1).1
  have hlt := hs.lt_size h0
  obtain ⟨r, hr, hplace, w, hway, hσ⟩ := hfirst
  obtain ⟨r', hr', hplace', w', hway', hσ'⟩ := hrest
  rw [hc1] at hplace hway
  obtain rfl := finish_ok.1 h3
  obtain ⟨id, ants, hn⟩ := hb.grow hg2
  rw [antecedentsAt_eq hn] at hr
  -- The next operand starts from the label, or from what alone leads to it.
  have hthree : Way t2.graph FlowStep.neverMark s.current (t2.graph.finish after) _ :=
    (way_finish hn rfl h0 (hafter ▸ Nat.ne_of_gt hlt)
    (hafter ▸ Nat.ne_of_gt (Nat.lt_of_le_of_lt (Nat.zero_le _) hlt))).2 ⟨r, hr, hway⟩
  have hstart : t2.graph.finish after = s.current ∨ s.graph.size ≤ t2.graph.finish after := by
    have hr0 : r ≠ 0 := fun hr0 => Way.not_zero h0 (hr0 ▸ hway)
    rw [finish_of_branch hn]
    rcases ants with _ | ⟨y, _ | ⟨z, rest⟩⟩
    · simp [FlowStep.antecedents] at hr
    · obtain rfl := List.mem_singleton.1 hr
      exact hplace.imp_right e1.grows.size_le.trans
    · exact .inr hafter.ge
  obtain ⟨w'', hway'', hin⟩ := hway'.through (hthree.grow FlowStep.neverMark_extend hg4)
  refine ⟨r', hr', ?_, w'', hway'', fun m hm => (hin m hm).elim (hσ m) (hσ' m)⟩
  rcases hplace' with rfl | hle
  · exact hstart
  · exact .inr ((e1.grows.trans hg2).size_le.trans hle)

/-- What the edge for a test does: under an assignment that gives the test the value it has to have, it leads to its target
with marks that agree, or it goes on from where it starts; and it does the first if it feeds its target. -/
def CarriesFor (a : Nat) (u : Setup ω) (ctx : Context) (σ : Nat → Bool) (e : Expr) : Prop :=
  ∀ ⦃s s' : State ω⦄ ⦃x : Unit⦄ ⦃target : FlowRef⦄ ⦃positive : Bool⦄, Sound true a s → ctx.Within a s.graph →
    Joint a s.graph target →
    s.current ≠ 0 → u.policy.Guarded positive e → (e.evaluation σ).1 = positive →
      (linkNever u ctx target positive e).run s = .ok x s' →
    (Carried σ target s s' ∨ s'.current = s.current) ∧ (u.policy.Feeds e → Carried σ target s s')

theorem linkNevers_carries (op : BoolOperator) (es : List Expr) (ih : ∀ e ∈ es, CarriesFor a u ctx σ e)
    ⦃s s' : State ω⦄ ⦃x : Unit⦄
    ⦃target : FlowRef⦄ ⦃positive : Bool⦄ (hs : Sound true a s) (hw : ctx.Within a s.graph) (hj : Joint a s.graph target)
    (h0 : s.current ≠ 0) (hg : u.policy.GuardedAll op positive es) (hv : (Expr.evaluationAll σ op es).1 = positive)
    (h : (linkNevers u ctx op target positive es).run s = .ok x s') :
    (Carried σ target s s' ∨ s'.current = s.current) ∧ (u.policy.FeedsAll op es → Carried σ target s s') := by
  match es with
  | [] =>
    rw [linkNevers] at h
    exact absurd h (by simp)
  | [e] =>
    rw [linkNevers] at h
    simp only [NarrowingPolicy.GuardedAll] at hg
    simp only [Expr.evaluationAll] at hv
    simpa only [NarrowingPolicy.FeedsAll] using ih e (by simp) hs hw hj h0 hg hv h
  | e :: e' :: rest =>
    have ih' := fun e he => ih e (List.mem_cons_of_mem _ he)
    have hdecider := Expr.evaluationAll_eq_decider σ op e (List.cons_ne_nil e' rest)
    cases op with
    | and =>
      obtain ⟨t, h1, h2⟩ := linkNevers_and_run h
      obtain ⟨e1, _⟩ := linkNever_evaluated (B := fun _ => True) e hs hw hj h1
      have hs1 : Sound true a { t with current := s.current } := ⟨e1.sound.formed, e1.sound.fresh, hs.current.grow e1.grows⟩
      obtain ⟨e2, _⟩ := linkNevers_evaluated (B := fun _ => True) .and (e' :: rest) hs1 (hw.grow e1.grows) (hj.grow e1.grows) h2
      rw [NarrowingPolicy.GuardedAll] at hg
      · by_cases hrest : (Expr.evaluationAll σ .and (e' :: rest)).1 = positive
        · -- The rest has the value, and starts from the same place.
          obtain ⟨hway, hfeeds⟩ :=
            linkNevers_carries .and (e' :: rest) ih' hs1 (hw.grow e1.grows) (hj.grow e1.grows) h0 hg.2 hrest h2
          have hlift : Carried σ target { t with current := s.current } s' → Carried σ target s s' := by
            rintro ⟨r, hr, hplace, hw⟩
            exact ⟨r, hr, hplace.imp_right e1.grows.size_le.trans, hw⟩
          refine ⟨hway.imp_left hlift, fun hf => hlift (hfeeds ?_)⟩
          rw [NarrowingPolicy.FeedsAll] at hf
          · exact hf.2
          · simp
        · -- Only the first operand decides, so it is false and feeds the target.
          have hfalse : positive = false ∧ (e.evaluation σ).1 = false := by
            cases positive with
            | true =>
              have := mt hdecider.2 (by simp [hv, BoolOperator.decider])
              simp_all [BoolOperator.decider]
            | false => exact ⟨rfl, (hdecider.1 hv).resolve_right hrest⟩
          obtain ⟨rfl, hfirst⟩ := hfalse
          have hcarried := ((ih e (by simp) hs hw hj h0 (hg.1 rfl).1 hfirst h1).2 (hg.1 rfl).2).grow e2.grows
          exact ⟨.inl hcarried, fun _ => hcarried⟩
      · simp
    | or =>
      rw [NarrowingPolicy.GuardedAll] at hg
      · obtain ⟨rfl, hge, hgrest⟩ := hg
        have hboth : (e.evaluation σ).1 = false ∧ (Expr.evaluationAll σ .or (e' :: rest)).1 = false := by
          have := mt hdecider.2 (by simp [hv, BoolOperator.decider])
          simpa [BoolOperator.decider] using this
        obtain ⟨after, t1, t2, h1, h2, hrun⟩ := linkNevers_or_run h
        obtain ⟨e1, ha, hc1, hb⟩ := newBranch_evaluated (A := fun _ => True) hs h1
        obtain ⟨e2, _⟩ := linkNever_evaluated (B := fun _ => True) e e1.sound (hw.grow e1.grows) ⟨ha, hb.isLabel⟩ h2
        obtain ⟨hfirst, _⟩ := ih e (by simp) e1.sound (hw.grow e1.grows) ⟨ha, hb.isLabel⟩ (hc1 ▸ h0) hge hboth.1 h2
        rcases hrun with ⟨hstay, rfl⟩ | ⟨hmoved, t3, t4, h3, h4, hend⟩
        · refine ⟨.inr hstay, fun hf => ?_⟩
          rw [NarrowingPolicy.FeedsAll] at hf
          · have hmoves := linkNever_moves e e1.sound (hw.grow e1.grows) ⟨ha, hb.isLabel⟩ (hc1 ▸ h0) hf.1 h2
            have hlt : s.current < t1.graph.size := Nat.lt_of_lt_of_le (hs.lt_size h0) e1.grows.size_le
            exact absurd hstay (Nat.ne_of_gt (Nat.lt_of_lt_of_le hlt hmoves))
          · simp
        · obtain ⟨s3, g3, h03⟩ := or_awake hs hw h0 h1 h2 hmoved h3
          have hfirst' : Carried σ after t1 t2 := hfirst.resolve_right fun heq => hmoved (heq.trans hc1)
          obtain ⟨hlast, hfeeds⟩ := linkNevers_carries .or (e' :: rest) ih' s3 (hw.grow g3) (hj.grow g3) h03 hgrest hboth.2 h4
          obtain ⟨e4, _⟩ := linkNevers_evaluated (B := fun _ => True) .or (e' :: rest) s3 (hw.grow g3) (hj.grow g3) h4
          have hthrough := fun hrest : Carried σ target t3 t4 => Carried.through hs h0 h1 e2.grows hfirst' h3 e4.grows hrest
          have hgraph : s'.graph = t4.graph := by rcases hend with ⟨_, rfl⟩ | ⟨_, rfl⟩ <;> rfl
          have hlift : Carried σ target t3 t4 → Carried σ target s s' := fun hrest => by
            rw [Carried, hgraph]
            exact hthrough hrest
          refine ⟨?_, fun hf => hlift (hfeeds ?_)⟩
          · rcases hend with ⟨_, rfl⟩ | ⟨hmoved', rfl⟩
            · exact .inr rfl
            · exact .inl (hlift (hlast.resolve_right hmoved'))
          · rw [NarrowingPolicy.FeedsAll] at hf
            · exact hf.2
            · simp
      · simp

/-- The edge for a guarded test leads past the `if` under each assignment, or goes on from where it starts. -/
theorem linkNever_carries (e : Expr) : CarriesFor a u ctx σ e := by
  induction e using Expr.induction_on_test with
  | leaf e hl =>
    intro s s' x target positive hs hw hj h0 _ hv h
    rw [Expr.evaluation_leaf hl] at hv
    have hcarried := (linkNever_leaf_carries hl hs hw hj h0 h).1 hv
    exact ⟨.inl hcarried, fun _ => hcarried⟩
  | not m operand ih =>
    intro s s' x target positive hs hw hj h0 hg hv h
    rw [linkNever] at h
    simp only [NarrowingPolicy.Guarded] at hg
    have hv' : (operand.evaluation σ).1 = !positive := by simpa [Expr.evaluation, ← Bool.not_eq_eq_eq_not] using hv
    simpa only [NarrowingPolicy.Feeds] using ih hs hw hj h0 hg hv' h
  | boolOp m op values ih =>
    intro s s' x target positive hs hw hj h0 hg hv h
    rw [linkNever] at h
    simp only [NarrowingPolicy.Guarded] at hg
    simp only [Expr.evaluation] at hv
    simpa only [NarrowingPolicy.Feeds] using linkNevers_carries op values ih hs hw hj h0 hg hv h

/-- The edges past an `if` without `else` are sound for a guarded test: each truth assignment that makes the test false has a
way from an antecedent of the label behind the `if` back to where the other side starts, on which every marked test has the
outcome that it is marked with. -/
theorem fall_through_ways {test : Expr} (hg : u.policy.Guarded false test) {after : FlowRef} (hs : Sound true a s)
    (hw : ctx.Within a s.graph) (hj : Joint a s.graph after) (h0 : s.current ≠ 0) {walk next : BindM ω Unit} {x : Unit}
    (h : (layOutElse u ctx after test [] walk next).run s = .ok x s') (hσ : (test.evaluation σ).1 = false) :
    ∃ r ∈ s'.graph.antecedentsAt after, (r = s.current ∨ s.graph.size ≤ r) ∧
      ∃ w, Way s'.graph FlowStep.neverMark s.current r w ∧ ∀ m ∈ w, σ m.1 = m.2 := by
  simp only [layOutElse, isElif, List.isEmpty_nil, Bool.false_and, bind_ok, isDead_ok, if_true] at h
  obtain ⟨_, _, ⟨rfl, rfl⟩, h⟩ := h
  simp only [Bool.false_eq_true, if_false, bind_ok] at h
  obtain ⟨_, t, h1, h2⟩ := h
  obtain ⟨e1, _⟩ := linkNever_evaluated (B := fun _ => True) test hs hw hj h1
  obtain ⟨e2, _, _⟩ := linkCurrent_evaluated (A := fun _ => True) e1.sound (hj.grow e1.grows) h2
  rcases (linkNever_carries test hs hw hj h0 hg hσ h1).1 with hcarried | hstay
  · exact hcarried.grow e2.grows
  · have h0' : t.current ≠ 0 := hstay ▸ h0
    refine ⟨s.current, ?_, .inl rfl, [], .here, by simp⟩
    rw [← hstay]
    exact link_mem_antecedentsAt e1.sound h0' (hj.grow e1.grows) (e1.sound.lt_size h0') (linkCurrent_ok.1 h2)

/-- The test `x is None or y is None`. -/
def sampleNever : Expr :=
  .boolOp ⟨1, none⟩ .or [.compare ⟨2, none⟩ (.name ⟨3, none⟩ "x") [.is] [.constant ⟨4, none⟩ .none none],
    .compare ⟨5, none⟩ (.name ⟨6, none⟩ "y") [.is] [.constant ⟨7, none⟩ .none none]]

theorem sampleNever_ways : ∃ s' : State Unit,
    (layOutElse .bare { scope := 0, owner := 0 } 2 sampleNever [] (pure ()) (pure ())).run (.forked .bare {} ()) = .ok () s' ∧
    ∃ r ∈ s'.graph.antecedentsAt 2, ∃ w, Way s'.graph FlowStep.neverMark 1 r w ∧ ∀ m ∈ w, m.2 = false := by
  have hends : endsIn (layOutElse .bare { scope := 0, owner := 0 } 2 sampleNever [] (pure ()) (pure ())) (.forked .bare {} ())
      (fun _ => true) = true := by decide +kernel
  obtain ⟨_, s', hrun, _⟩ := exists_of_endsIn hends
  have hguarded : Setup.bare.policy.Guarded false sampleNever := by
    simp [sampleNever, NarrowingPolicy.Guarded, NarrowingPolicy.GuardedAll]
  obtain ⟨r, hr, _, w, hway, hw⟩ := fall_through_ways (σ := fun _ => false) hguarded (sound_forked _ (by decide) ())
    (by simp [Context.Within, Context.labels]) (spares_forked .bare {} () 0 0).1.joint (by decide) hrun (by decide)
  exact ⟨s', hrun, r, hr, w, hway, fun m hm => (hw m hm).symm⟩

end Bind

end ScopeFlow
